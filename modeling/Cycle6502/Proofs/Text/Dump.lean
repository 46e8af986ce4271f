import Cycle6502.Proofs.Text.Hex
import Cycle6502.Proofs.Text.Lines
import Cycle6502.Text.Dump
import Mathlib.Data.List.Forall2

/-! Dumps read back. Each row of a dump tells its address, and the pairs of digits in the rows are
the bytes that were dumped. A dump can also be written index by index, and no index is then outside
the data. -/

set_option autoImplicit false

namespace Cycle6502.Text

def readPair? (high low : Char) : Option UInt8 := (digitsValue? 16 [high, low]).map UInt8.ofNat

def readPairs : List Char → List UInt8
  | [high, low] => (readPair? high low).toList
  | high :: low :: ' ' :: rest =>
    match readPair? high low with
    | some byte => byte :: readPairs rest
    | none => []
  | _ => []

def rowAddress? (row : List Char) : Option Nat := digitsValue? 16 (row.takeWhile (· ≠ ':'))

def rowBytes (row : List Char) : List UInt8 := readPairs ((row.dropWhile (· ≠ ':')).drop 2)

/-- The bytes of a row, each with its own address. -/
def rowEntries (row : List Char) : List (UInt8 × Nat) :=
  match rowAddress? row with
  | some address => (rowBytes row).zipIdx address
  | none => []

/-- The character that stands for a byte: its own if that can be printed, otherwise a point. -/
def StandsFor (c : Char) (b : UInt8) : Prop :=
  if 0x20 ≤ b.toNat ∧ b.toNat ≤ 0x7E then c.toNat = b.toNat else c = '.'

structure IsRow (address : Nat) (bytes : List UInt8) (digits columns shown : List Char) : Prop where
  long : 4 ≤ digits.length
  upper : ∀ c ∈ digits, c ∈ upperDigits
  value : digitsValue? 16 digits = some address
  colon : columns.head? = some ':'
  width : columns.length = 53
  shown : List.Forall₂ StandsFor shown bytes

theorem standsFor_dumpChar (b : UInt8) : StandsFor (dumpChar b) b := by
  unfold StandsFor
  by_cases printed : 0x20 ≤ b ∧ b ≤ 0x7E
  · have bounds : 0x20 ≤ b.toNat ∧ b.toNat ≤ 0x7E := printed
    have valid : b.toNat.isValidChar := .inl (by omega)
    rw [dumpChar, if_pos printed, if_pos bounds, Char.ofNat, dif_pos valid]
    rfl
  · rw [dumpChar, if_neg printed]
    exact (if_neg printed).symm ▸ rfl

theorem dumpChar_ne_newline (b : UInt8) : dumpChar b ≠ '\n' := by
  intro same
  have stands := standsFor_dumpChar b
  rw [same, StandsFor] at stands
  split at stands
  case isTrue printed =>
    rw [← stands] at printed
    exact absurd printed.1 (by decide)
  case isFalse => exact absurd stands (by decide)

theorem lt_pow_hexLength (n : Nat) : n < 16 ^ hexLength n := by
  have power : 16 ^ hexLength n = 2 ^ (4 * hexLength n) := Nat.pow_mul 2 4 (hexLength n) ▸ rfl
  rw [power]
  refine Nat.lt_of_lt_of_le Nat.lt_log2_self (Nat.pow_le_pow_right (by decide) ?_)
  unfold hexLength
  omega

theorem digitsValue?_hexAtLeast (width n : Nat) :
    digitsValue? 16 (hexDigits (max width (hexLength n)) n) = some n := by
  have short : n < 16 ^ max width (hexLength n) :=
    Nat.lt_of_lt_of_le (lt_pow_hexLength n) (Nat.pow_le_pow_right (by decide) (Nat.le_max_right ..))
  rw [digitsValue?_hexDigits, Nat.mod_eq_of_lt short]

def columns (bytes : List UInt8) : List Char :=
  [':', ' '] ++ bytes.flatMap (fun b => hexDigits 2 b.toNat ++ [' '])
    ++ List.replicate (3 * (16 - bytes.length)) ' ' ++ [' ', '|', ' ']

def rowText (address : Nat) (bytes : List UInt8) : List Char :=
  hexDigits (max 4 (hexLength address)) address ++ columns bytes ++ bytes.map dumpChar

theorem flatMap_replicate_blanks (count : Nat) :
    (List.replicate count "   ").flatMap String.toList = List.replicate (3 * count) ' ' := by
  rw [List.flatMap_def, List.map_replicate, Nat.mul_comm]
  exact List.flatten_replicate_replicate (n := count) (m := 3) (a := ' ')

theorem toList_dumpRow (address : Nat) (bytes : List UInt8) :
    (dumpRow address bytes).toList = rowText address bytes ++ ['\n'] := by
  simp [dumpRow, rowText, columns, hexAtLeast, hexByte, List.flatMap_map, flatMap_replicate_blanks]

theorem length_columns {bytes : List UInt8} (narrow : bytes.length ≤ 16) :
    (columns bytes).length = 53 := by
  simp [columns, length_hexDigits]
  omega

theorem newline_notMem_hexDigits (width n : Nat) : '\n' ∉ hexDigits width n := fun member =>
  absurd (mem_upperDigits member) (by decide)

theorem newline_notMem_rowText (address : Nat) (bytes : List UInt8) :
    '\n' ∉ rowText address bytes := by
  simp [rowText, columns, newline_notMem_hexDigits, dumpChar_ne_newline]

theorem readPair?_hexDigits (b : UInt8) :
    ∃ high low, hexDigits 2 b.toNat = [high, low] ∧ readPair? high low = some b := by
  have short : b.toNat < 16 ^ 2 := b.toNat_lt
  have value := digitsValue?_hexDigits 2 b.toNat
  rw [Nat.mod_eq_of_lt short] at value
  refine ⟨digit (b.toNat / 16 % 16), digit (b.toNat % 16), rfl, ?_⟩
  rw [readPair?, show [_, _] = hexDigits 2 b.toNat from rfl, value, Option.map_some,
    UInt8.ofNat_toNat]

theorem readPairs_append (bytes : List UInt8) (rest : List Char) :
    readPairs (bytes.flatMap (fun b => hexDigits 2 b.toNat ++ [' ']) ++ rest) =
      bytes ++ readPairs rest := by
  induction bytes with
  | nil => rfl
  | cons b bytes ih =>
    obtain ⟨high, low, digits, read⟩ := readPair?_hexDigits b
    simp [digits, readPairs, read, ih]

theorem readPairs_blank (rest : List Char) : readPairs (' ' :: rest) = [] := by
  have unread (c : Char) : readPair? ' ' c = none := rfl
  match rest with
  | [] => rfl
  | [c] => rfl
  | c :: d :: rest =>
    by_cases gap : d = ' '
    · subst gap
      simp [readPairs, unread]
    · simp [readPairs, gap]

theorem ne_colon {width n : Nat} : ∀ c ∈ hexDigits width n, decide (c ≠ ':') = true :=
  fun _ member => decide_eq_true fun same => absurd (mem_upperDigits (same ▸ member)) (by decide)

section
variable (address : Nat) (bytes : List UInt8)

theorem rowAddress?_rowText : rowAddress? (rowText address bytes) = some address := by
  rw [rowAddress?, rowText, List.append_assoc, List.takeWhile_append_of_pos ne_colon]
  simpa [columns] using digitsValue?_hexAtLeast 4 address

theorem rowBytes_rowText : rowBytes (rowText address bytes) = bytes := by
  -- Behind the pairs there is a blank in any case, whether columns are left blank or not.
  have filled : ∃ rest, List.replicate (3 * (16 - bytes.length)) ' ' ++ [' ', '|', ' '] ++
      bytes.map dumpChar = ' ' :: rest := by
    cases 3 * (16 - bytes.length) with
    | zero => exact ⟨_, rfl⟩
    | succ count => exact ⟨_, rfl⟩
  obtain ⟨rest, filled⟩ := filled
  rw [rowBytes, rowText, List.append_assoc, List.dropWhile_append_of_pos ne_colon]
  have behind : ((columns bytes ++ bytes.map dumpChar).dropWhile (· ≠ ':')).drop 2 =
      bytes.flatMap (fun b => hexDigits 2 b.toNat ++ [' ']) ++ (' ' :: rest) := by
    rw [← filled]
    simp [columns]
  rw [behind, readPairs_append, readPairs_blank, List.append_nil]

theorem rowEntries_rowText :
    rowEntries (rowText address bytes) = bytes.zipIdx address := by
  rw [rowEntries, rowAddress?_rowText, rowBytes_rowText]

end

theorem isRow_rowText (address : Nat) {bytes : List UInt8} (narrow : bytes.length ≤ 16) :
    IsRow address bytes (hexDigits (max 4 (hexLength address)) address) (columns bytes)
      (bytes.map dumpChar) where
  long := by
    rw [length_hexDigits]
    exact Nat.le_max_left 4 _
  upper c member := mem_upperDigits member
  value := digitsValue?_hexAtLeast 4 address
  colon := rfl
  width := length_columns narrow
  shown := List.forall₂_map_left_iff.2 (List.forall₂_same.2 fun b _ => standsFor_dumpChar b)

def block (bytes : List UInt8) (row : Nat) : List UInt8 := (bytes.drop (16 * row)).take 16

theorem length_block_le (bytes : List UInt8) (row : Nat) : (block bytes row).length ≤ 16 :=
  List.length_take_le 16 _

theorem dumpRows_eq (start : Nat) (bytes : List UInt8) :
    dumpRows start bytes = (List.range ((bytes.length + 15) / 16)).map fun row =>
      dumpRow (start + 16 * row) (block bytes row) := by
  simp [dumpRows, block, List.extract_eq_take_drop]

theorem flatMap_zipIdx_block {bytes : List UInt8} {rows : Nat}
    (inside : 16 * rows < bytes.length + 16) (start : Nat) :
    (List.range rows).flatMap (fun row => (block bytes row).zipIdx (start + 16 * row)) =
      (bytes.take (16 * rows)).zipIdx start := by
  induction rows with
  | zero => simp
  | succ rows ih =>
    have whole : (bytes.take (16 * rows)).length = 16 * rows :=
      List.length_take_of_le (by omega)
    rw [List.range_succ, List.flatMap_append, ih (by omega), Nat.mul_succ, List.take_add,
      List.zipIdx_append, whole]
    simp [block]

def dumpCount (data : List UInt8) (limit : Option Nat) : Nat :=
  min (limit.getD data.length) data.length

theorem dump_eq (data : List UInt8) (start : Nat) (limit : Option Nat) :
    dump data start limit = String.join (dumpRows start (data.take (dumpCount data limit))) := by
  cases limit with
  | none => simp [dump, dumpCount]
  | some count => simp [dump, dumpCount, ← List.take_eq_take_min]

theorem lines_dump (data : List UInt8) (start : Nat) (limit : Option Nat) :
    lines '\n' (dump data start limit).toList =
      (List.range ((dumpCount data limit + 15) / 16)).map fun row =>
        rowText (start + 16 * row) (block (data.take (dumpCount data limit)) row) := by
  have count : (data.take (dumpCount data limit)).length = dumpCount data limit :=
    List.length_take_of_le (Nat.min_le_right _ _)
  have written : (dump data start limit).toList =
      ((List.range ((dumpCount data limit + 15) / 16)).map fun row =>
        rowText (start + 16 * row) (block (data.take (dumpCount data limit)) row)).flatMap
          (· ++ ['\n']) := by
    rw [dump_eq, String.toList_join, dumpRows_eq, count, List.flatMap_map, List.flatMap_map]
    simp only [toList_dumpRow]
  rw [written, lines_flatMap]
  simp only [List.forall_mem_map]
  exact fun row _ => newline_notMem_rowText _ _

/-- All bytes of a dump, in order and each with its own address. -/
theorem entries_dump (data : List UInt8) (start : Nat) (limit : Option Nat) :
    (lines '\n' (dump data start limit).toList).flatMap rowEntries =
      (data.take (dumpCount data limit)).zipIdx start := by
  have count : (data.take (dumpCount data limit)).length = dumpCount data limit :=
    List.length_take_of_le (Nat.min_le_right _ _)
  rw [lines_dump, List.flatMap_map]
  simp only [rowEntries_rowText]
  rw [flatMap_zipIdx_block (by omega), List.take_of_length_le (by omega)]

/-- The column of an address, left blank behind `last`, where the last byte is. There is none if
the index of the address is outside the data. -/
def columnByIndex? (data : List UInt8) (start last address : Nat) : Option String :=
  if address ≤ last then data[address - start]?.map fun b => hexByte b ++ " " else some "   "

def rowByIndex? (data : List UInt8) (start last first : Nat) : Option String := do
  let columns ← (List.range' first 16).mapM (columnByIndex? data start last)
  let shown ← (List.range' first (min last (first + 15) + 1 - first)).mapM fun i =>
    data[i - start]?.map dumpChar
  some (hexAtLeast 4 first ++ ": " ++ String.join columns ++ " | " ++ String.ofList shown ++ "\n")

def dumpByIndex? (data : List UInt8) (start : Nat) (limit : Option Nat) : Option String :=
  if dumpCount data limit = 0 then some ""
  else
    let last := start + dumpCount data limit - 1
    ((List.range' start ((last - start) / 16 + 1) 16).mapM (rowByIndex? data start last)).map
      String.join

theorem mapM_of_map {α β : Type} {f : α → Option β} {arguments : List α} {values : List β}
    (each : arguments.map f = values.map some) : arguments.mapM f = some values := by
  induction arguments generalizing values with
  | nil => simp [List.map_eq_nil_iff.1 each.symm]
  | cons a arguments ih =>
    cases values with
    | nil => cases each
    | cons b values =>
      obtain ⟨first, rest⟩ := List.cons.inj each
      simp [first, ih rest]

section
variable {data : List UInt8} {start count row : Nat}

theorem length_block (row : Nat) (inside : count ≤ data.length) :
    (block (data.take count) row).length = min 16 (count - 16 * row) := by
  simp only [block, List.length_take, List.length_drop]
  omega

theorem map_getElem?_block (data : List UInt8) (start count row : Nat) :
    (List.range' (start + 16 * row) (block (data.take count) row).length).map
        (fun i => data[i - start]?) =
      (block (data.take count) row).map some := by
  apply List.ext_getElem
  · simp
  · intro i left right
    simp only [block, List.length_map, List.length_take, List.length_drop] at right
    have place : start + 16 * row + i - start = 16 * row + i := by omega
    simp [block, place]

theorem mapM_columnByIndex? (inside : count ≤ data.length) (before : 16 * row < count) :
    (List.range' (start + 16 * row) 16).mapM (columnByIndex? data start (start + count - 1)) =
      some ((block (data.take count) row).map (fun b => hexByte b ++ " ") ++
        List.replicate (16 - (block (data.take count) row).length) "   ") := by
  have length := length_block row inside
  have found := map_getElem?_block data start count row
  generalize block (data.take count) row = bytes at length found
  have split : List.range' (start + 16 * row) 16 = List.range' (start + 16 * row) bytes.length ++
      List.range' (start + 16 * row + bytes.length) (16 - bytes.length) := by
    rw [List.range'_append_1]
    congr 1
    omega
  apply mapM_of_map
  rw [split, List.map_append, List.map_append]
  congr 1
  · -- As far as there are bytes, the index is one of the data.
    have inner : ∀ address ∈ List.range' (start + 16 * row) bytes.length,
        columnByIndex? data start (start + count - 1) address =
          data[address - start]?.map fun b => hexByte b ++ " " := by
      intro address member
      rw [List.mem_range'_1] at member
      exact if_pos (by omega)
    rw [List.map_congr_left inner]
    simpa [Function.comp_def] using congrArg (List.map (Option.map fun b => hexByte b ++ " ")) found
  · have outer : ∀ address ∈ List.range' (start + 16 * row + bytes.length) (16 - bytes.length),
        columnByIndex? data start (start + count - 1) address = some "   " := by
      intro address member
      rw [List.mem_range'_1] at member
      exact if_neg (by omega)
    rw [List.map_congr_left outer]
    simp

theorem rowByIndex?_eq (inside : count ≤ data.length) (before : 16 * row < count) :
    rowByIndex? data start (start + count - 1) (start + 16 * row) =
      some (dumpRow (start + 16 * row) (block (data.take count) row)) := by
  have length := length_block row inside
  have span : min (start + count - 1) (start + 16 * row + 15) + 1 - (start + 16 * row) =
      (block (data.take count) row).length := by omega
  have shown : ((List.range' (start + 16 * row) (block (data.take count) row).length).mapM
      fun i => data[i - start]?.map dumpChar) =
        some ((block (data.take count) row).map dumpChar) := by
    apply mapM_of_map
    simpa [Function.comp_def] using congrArg (List.map (Option.map dumpChar)) (map_getElem?_block ..)
  rw [rowByIndex?, mapM_columnByIndex? inside before, span, shown]
  simp [dumpRow, String.append_assoc]

end

theorem dumpByIndex?_eq (data : List UInt8) (start : Nat) (limit : Option Nat) :
    dumpByIndex? data start limit = some (dump data start limit) := by
  have inside : dumpCount data limit ≤ data.length := Nat.min_le_right _ _
  have length : (data.take (dumpCount data limit)).length = dumpCount data limit :=
    List.length_take_of_le inside
  rw [dump_eq, dumpRows_eq, length, dumpByIndex?]
  split
  case isTrue empty => rw [empty]; rfl
  case isFalse filled =>
    have firsts : List.range' start
        ((start + dumpCount data limit - 1 - start) / 16 + 1) 16 =
        (List.range ((dumpCount data limit + 15) / 16)).map fun row => start + 16 * row := by
      apply List.ext_getElem
      · simp
        omega
      · simp
    have rows : ((List.range ((dumpCount data limit + 15) / 16)).map fun row =>
        start + 16 * row).mapM (rowByIndex? data start (start + dumpCount data limit - 1)) =
          some ((List.range ((dumpCount data limit + 15) / 16)).map fun row =>
            dumpRow (start + 16 * row) (block (data.take (dumpCount data limit)) row)) := by
      apply mapM_of_map
      rw [List.map_map, List.map_map]
      refine List.map_congr_left fun row member => ?_
      rw [List.mem_range] at member
      exact rowByIndex?_eq inside (by omega)
    simp only [firsts, rows, Option.map_some]

/-- A dump has a row for every sixteen bytes and one for the rest. Each begins with its own address
and has as many characters as bytes, in the same place of every row; what the pairs of digits spell
are the bytes that were to be dumped. Writing it takes no index outside the data. -/
theorem dump_rows (data : List UInt8) (start : Nat) (limit : Option Nat) :
    let count := dumpCount data limit
    let rows := lines '\n' (dump data start limit).toList
    rows.length = (count + 15) / 16 ∧
    (∀ k row, rows[k]? = some row → rowBytes row = block (data.take count) k ∧
      ∃ digits columns shown, row = digits ++ columns ++ shown ∧
        IsRow (start + 16 * k) (rowBytes row) digits columns shown) ∧
    rows.flatMap rowBytes = data.take count ∧
    dumpByIndex? data start limit = some (dump data start limit) := by
  refine ⟨?_, fun k row found => ?_, ?_, dumpByIndex?_eq data start limit⟩
  · rw [lines_dump, List.length_map, List.length_range]
  · rw [lines_dump, List.getElem?_map, Option.map_eq_some_iff] at found
    obtain ⟨number, place, rfl⟩ := found
    have same : k = number := by
      rw [List.getElem?_eq_some_iff] at place
      simpa using place.2
    subst same
    rw [rowBytes_rowText]
    exact ⟨rfl, _, _, _, rfl, isRow_rowText _ (length_block_le _ _)⟩
  · have bytes := congrArg (List.map Prod.fst) (entries_dump data start limit)
    rw [List.zipIdx_map_fst, lines_dump, List.flatMap_map, List.map_flatMap] at bytes
    rw [lines_dump, List.flatMap_map]
    simpa [rowEntries_rowText, rowBytes_rowText] using bytes

/-- The last row of eighteen bytes, which has an address of five digits. -/
theorem dump_rows_last :
    let data := (List.range 18).map fun n => UInt8.ofNat (0x41 + n)
    let rows := lines '\n' (dump data 0xFFF8 (some 40)).toList
    let row := "10008: 51 52                                            | QR".toList
    rows.length = 2 ∧ rows[1]? = some row ∧ rowBytes row = [0x51, 0x52] ∧
      ∃ digits columns shown, row = digits ++ columns ++ shown ∧
        IsRow 0x10008 [0x51, 0x52] digits columns shown := by
  intro data rows row
  have found : rows[1]? = some row := by decide +kernel
  obtain ⟨count, each, -⟩ := dump_rows data 0xFFF8 (some 40)
  obtain ⟨bytes, parts⟩ := each 1 row found
  have total : (dumpCount data (some 40) + 15) / 16 = 2 := by decide
  have read : rowBytes row = [0x51, 0x52] := bytes
  rw [read] at parts
  exact ⟨count.trans total, found, read, parts⟩

end Cycle6502.Text
