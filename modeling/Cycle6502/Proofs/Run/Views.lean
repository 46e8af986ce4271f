import Cycle6502.Monitor.Basic
import Cycle6502.Proofs.Image.Loading
import Cycle6502.Proofs.Text.Ranges
import Mathlib.Data.List.Nodup

/-! Views of memory. A range shows what the processor would read, and a page shows RAM, each of its
addresses once. They differ in the feedback register, which a page shows what lies behind. -/

set_option autoImplicit false

namespace Cycle6502

namespace Text

theorem dropWhile_dollar_hexDigits {width : Nat} (filled : width ≠ 0) (n : Nat)
    (rest : List Char) :
    (hexDigits width n ++ rest).dropWhile (· = '$') = hexDigits width n ++ rest := by
  have length := length_hexDigits width n
  cases digits : hexDigits width n with
  | nil => exact absurd (digits ▸ length).symm filled
  | cons c others =>
    have upper : c ∈ upperDigits := mem_upperDigits (digits ▸ List.mem_cons_self)
    have different : c ≠ '$' := fun same => absurd (same ▸ upper) (by decide)
    simp [different]

theorem rowEntries_pair {address : Nat} (short : address < 0x10000) (b : UInt8) :
    rowEntries (hexDigits 4 address ++ [':', ' '] ++ hexDigits 2 b.toNat) = [(b, address)] := by
  have value : digitsValue? 16 (hexDigits 4 address) = some address := by
    rw [digitsValue?_hexDigits]
    exact congrArg some (Nat.mod_eq_of_lt short)
  obtain ⟨high, low, pair, read⟩ := readPair?_hexDigits b
  rw [pair, List.append_assoc, rowEntries, rowAddress?, rowBytes,
    List.takeWhile_append_of_pos ne_colon, List.dropWhile_append_of_pos ne_colon]
  simp [value, readPairs, read]

end Text

namespace Memory

theorem zipIdx_extract (m : Memory 0x10000) {first count : Nat} (inside : first + count ≤ 0x10000) :
    (m.bytes.toArray.extract first (first + count)).toList.zipIdx first =
      (List.range' first count).map fun n => (m.read (.ofNat n), n) := by
  apply List.ext_getElem
  · simp
    omega
  · intro i left right
    simp only [List.length_map, List.length_range'] at right
    have place : (UInt16.ofNat (first + i)).toNat = first + i :=
      UInt16.toNat_ofNat_of_lt' (by omega : first + i < 2 ^ 16)
    have within : (UInt16.ofNat (first + i)).toNat < 0x10000 := by omega
    have value : m.read (.ofNat (first + i)) = m.bytes[first + i] := by
      rw [read_eq m within]
      simp only [place]
    simp [value, -UInt16.ofNat_add]

end Memory

namespace Monitor

/-- The bytes that an output shows, each with its address, whether that has a mark or not. -/
def shownBytes (output : String) : List (UInt8 × Nat) :=
  (Text.lines '\n' output.toList).flatMap fun line => Text.rowEntries (line.dropWhile (· = '$'))

def rangeLine (c : Machine) (n : Nat) : List Char :=
  '$' :: (Text.hexDigits 4 n ++ [':', ' '] ++ Text.hexDigits 2 (c.peek (.ofNat n)).toNat)

theorem newline_notMem_rangeLine (c : Machine) (n : Nat) : '\n' ∉ rangeLine c n := by
  simp [rangeLine, Text.newline_notMem_hexDigits]

theorem rowEntries_rangeLine (c : Machine) {n : Nat} (short : n < 0x10000) :
    Text.rowEntries ((rangeLine c n).dropWhile (· = '$')) = [(c.peek (.ofNat n), n)] := by
  have mark (rest : List Char) :
      ('$' :: rest).dropWhile (· = '$') = rest.dropWhile (· = '$') := rfl
  rw [rangeLine, mark, List.append_assoc, Text.dropWhile_dollar_hexDigits (by decide),
    ← List.append_assoc, Text.rowEntries_pair short]

theorem shownBytes_memoryText (c : Machine) (first last : UInt16) :
    shownBytes (memoryText c first last) =
      (List.range' first.toNat (last.toNat + 1 - first.toNat)).map fun n =>
        (c.peek (.ofNat n), n) := by
  unfold memoryText
  split
  case isTrue reversed =>
    have none : last.toNat + 1 - first.toNat = 0 := Nat.sub_eq_zero_of_le reversed
    have nothing : shownBytes "Invalid range: start address must be <= end address\n" = [] := by
      decide +kernel
    rw [none, nothing]
    rfl
  case isFalse ordered =>
    have bound := last.toNat_lt
    have short : ∀ n ∈ List.range' first.toNat (last.toNat + 1 - first.toNat), n < 0x10000 := by
      intro n member
      rw [List.mem_range'_1] at member
      omega
    generalize List.range' first.toNat (last.toNat + 1 - first.toNat) = range at short
    have written : (String.join (range.map fun n => "$" ++ Text.hexWord (.ofNat n) ++ ": "
          ++ Text.hexByte (c.peek (.ofNat n)) ++ "\n")).toList =
        (range.map (rangeLine c)).flatMap (· ++ ['\n']) := by
      rw [String.toList_join, List.flatMap_map, List.flatMap_map]
      refine List.flatMap_congr fun n member => ?_
      have place : (UInt16.ofNat n).toNat = n := UInt16.toNat_ofNat_of_lt' (short n member)
      simp [rangeLine, Text.hexWord, Text.hexByte, place]
    rw [shownBytes, written, Text.lines_flatMap, List.flatMap_map, List.map_eq_flatMap]
    · exact List.flatMap_congr fun n member => rowEntries_rangeLine c (short n member)
    · rw [List.forall_mem_map]
      exact fun n _ => newline_notMem_rangeLine c n

theorem shownBytes_dump (data : List UInt8) (start : Nat) :
    shownBytes (Text.dump data start none) = data.zipIdx start := by
  have unmarked : ∀ row ∈ Text.lines '\n' (Text.dump data start none).toList,
      Text.rowEntries (row.dropWhile (· = '$')) = Text.rowEntries row := by
    rw [Text.lines_dump, List.forall_mem_map]
    intro row _
    have digits : max 4 (Text.hexLength (start + 16 * row)) ≠ 0 := by omega
    rw [Text.rowText, List.append_assoc, Text.dropWhile_dollar_hexDigits digits]
  rw [shownBytes, List.flatMap_congr unmarked, Text.entries_dump]
  simp [Text.dumpCount]

theorem shownBytes_pageText (c : Machine) (addr : UInt16) :
    shownBytes (pageText c addr) =
      (List.range' (256 * (addr.toNat / 256)) 256).map fun n => (c.bus.ram.read (.ofNat n), n) := by
  have bound := addr.toNat_lt
  have first : (addr &&& 0xFF00).toNat = 256 * (addr.toNat / 256) := by
    rw [UInt16.toNat_and]
    change addr.toNat &&& 0xFF00 = _
    rw [and_page bound, Nat.shiftLeft_eq, Nat.mul_comm]
  have last : ((addr &&& 0xFF00) ||| 0x00FF).toNat + 1 = 256 * (addr.toNat / 256) + 256 := by
    have page := page_or_place addr 0x00FF
    rw [show (0x00FF : UInt16) &&& 0x00FF = 0x00FF from rfl] at page
    rw [page, UInt16.toNat_ofNat']
    change (_ + 255) % 2 ^ 16 + 1 = _
    omega
  rw [pageText, Memory.dump_eq, shownBytes_dump, Memory.zipIdx_within, Memory.within_eq, first, last]
  exact Memory.zipIdx_extract c.bus.ram (by omega)

theorem filter_page (addr : UInt16) (value : UInt16 → UInt8) :
    ((List.range' (256 * (addr.toNat / 256)) 256).map fun n => (value (.ofNat n), n)).filter
        (·.2 = addr.toNat) = [(value addr, addr.toNat)] := by
  have inside : addr.toNat ∈ List.range' (256 * (addr.toNat / 256)) 256 := by
    rw [List.mem_range'_1]
    omega
  have once := List.count_eq_one_of_mem List.nodup_range' inside
  have alone : (List.range' (256 * (addr.toNat / 256)) 256).filter (· = addr.toNat) =
      [addr.toNat] := by
    rw [List.filter_eq, once, List.replicate_one]
  rw [List.filter_map]
  change List.map _ (List.filter (· = addr.toNat) _) = _
  rw [alone, List.map_singleton, UInt16.ofNat_toNat]

/-- A range shows each of its addresses once, with what the processor would read there, and a page
shows each of its addresses once, with what RAM holds there. For an address these are the same, unless
it is that of the feedback register and RAM behind the register holds another byte. -/
theorem memory_views (files : Files) (patience : Nat) (m : Monitor) :
    let shown command := shownBytes (m.execute files patience command).output
    (∀ first last, shown (.memory first last) =
      (List.range' first.toNat (last.toNat + 1 - first.toNat)).map fun n =>
        ((m.cpu.read (.ofNat n)).1, n)) ∧
    (∀ addr, shown (.page addr) =
      (List.range' (256 * (addr.toNat / 256)) 256).map fun n =>
        (m.cpu.bus.ram.read (.ofNat n), n)) ∧
    ∀ addr, (shown (.page addr)).filter (·.2 = addr.toNat) = shown (.memory addr addr) ↔
      addr ≠ feedbackRegister ∨ m.cpu.bus.feedback = m.cpu.bus.ram.read feedbackRegister := by
  intro shown
  have memory (first last : UInt16) : shown (.memory first last) = _ :=
    shownBytes_memoryText m.cpu first last
  have page (addr : UInt16) : shown (.page addr) = _ := shownBytes_pageText m.cpu addr
  refine ⟨memory, page, fun addr => ?_⟩
  have one : (shown (.page addr)).filter (·.2 = addr.toNat) =
      [(m.cpu.bus.ram.read addr, addr.toNat)] := by
    rw [page]
    exact filter_page addr m.cpu.bus.ram.read
  have same : shown (.memory addr addr) = [(m.cpu.peek addr, addr.toNat)] := by
    refine (shownBytes_memoryText m.cpu addr addr).trans ?_
    rw [Nat.add_sub_cancel_left, List.range'_one, List.map_singleton, UInt16.ofNat_toNat]
  rw [one, same]
  by_cases register : addr = feedbackRegister
  case pos =>
    subst register
    have seen : m.cpu.peek feedbackRegister = m.cpu.bus.feedback := by
      simp [Cpu.peek, Bus.peek, Board.peek]
    simp [seen, eq_comm]
  case neg =>
    have seen : m.cpu.peek addr = m.cpu.bus.ram.read addr := if_neg register
    simp [seen, register]

/-- A byte that was written to the feedback register is read by the processor and shown in a range,
and the page shows the zero in RAM behind it. -/
theorem memory_views_feedback :
    let start : Monitor := { cpu := { bus := .new, microcode := .build .nmos .table } }
    let m := (start.execute (.ofList []) 0 (.write feedbackRegister 0x01)).monitor
    let shown command := shownBytes (m.execute (.ofList []) 0 command).output
    (m.cpu.read feedbackRegister).1 = 0x01 ∧
      shown (.memory feedbackRegister feedbackRegister) = [(0x01, 0xBFFC)] ∧
      (shown (.page feedbackRegister)).filter (·.2 = 0xBFFC) = [(0x00, 0xBFFC)] := by
  intro start m shown
  refine ⟨rfl, ?_, ?_⟩
  · exact shownBytes_memoryText m.cpu feedbackRegister feedbackRegister
  · have page : shown (.page feedbackRegister) = _ := shownBytes_pageText m.cpu feedbackRegister
    have zero : m.cpu.bus.ram.read feedbackRegister = 0x00 := by
      rw [Memory.read_eq _ (by decide)]
      exact Vector.getElem_replicate _
    rw [page]
    exact (filter_page feedbackRegister _).trans (by rw [zero]; rfl)

end Monitor

end Cycle6502
