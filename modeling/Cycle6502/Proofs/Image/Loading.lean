import Cycle6502.Bus.Board
import Cycle6502.Proofs.Image.Written

/-! Loading an image. A bank takes the longest front part of some data that fits, and an accepted
image fits in memory, so that the board takes all of it. -/

set_option autoImplicit false

namespace Cycle6502

namespace Memory

variable {size : Nat}

/-- The second bank is the first one with the front part of some data put at an offset: the longest
part that fits, with every other byte as before. -/
structure Copied (m after : Memory size) (offset : UInt16) (data : List UInt8) (count : Nat) :
    Prop where
  longest : IsGreatest {n | n ≤ data.length ∧ ∀ k < n, offset.toNat + k < size} count
  copied : ∀ k < count, ∀ (addr : Nat) (inside : addr < size),
    addr = offset.toNat + k → data[k]? = some after.bytes[addr]
  kept : ∀ (addr : Nat) (inside : addr < size),
    ¬ (offset.toNat ≤ addr ∧ addr < offset.toNat + count) → after.bytes[addr] = m.bytes[addr]
  label : after.label = m.label

theorem isGreatest_room (m : Memory size) (offset : UInt16) (count : Nat) :
    IsGreatest {n | n ≤ count ∧ ∀ k < n, offset.toNat + k < size} (m.room offset count) := by
  constructor
  · refine ⟨Nat.min_le_left _ _, fun k below => ?_⟩
    have fits := Nat.lt_of_lt_of_le below (Nat.min_le_right _ _)
    omega
  · rintro n ⟨short, inside⟩
    refine Nat.le_min.2 ⟨short, ?_⟩
    cases n with
    | zero => exact Nat.zero_le _
    | succ last =>
      have fits := inside last (Nat.lt_succ_self last)
      omega

theorem getElem_load (m : Memory size) (offset : UInt16) (data : List UInt8) {addr : Nat}
    (inside : addr < size) :
    (m.load offset data).bytes[addr] =
      (Image.byteIn (offset.toNat, data) addr).getD m.bytes[addr] :=
  Image.getElem_put m.bytes data offset.toNat inside

theorem copied_load (m : Memory size) (offset : UInt16) (data : List UInt8) :
    m.Copied (m.load offset data) offset data (m.room offset data.length) where
  longest := m.isGreatest_room offset data.length
  copied k part addr inside place := by
    subst place
    have within : k < data.length := Nat.lt_of_lt_of_le part (Nat.min_le_left _ _)
    have byte : Image.byteIn (offset.toNat, data) (offset.toNat + k) = some data[k] := by
      simp [Image.byteIn, within]
    rw [getElem_load, byte, Option.getD_some, List.getElem?_eq_getElem within]
  kept addr inside outside := by
    -- An address in the bank that the part does not cover is not covered by the rest either.
    have uncovered : Image.byteIn (offset.toNat, data) addr = none := by
      rw [← Option.not_isSome_iff_eq_none, Image.isSome_byteIn]
      rintro ⟨above, below⟩
      simp only at above below
      unfold room at outside
      omega
    rw [getElem_load, uncovered, Option.getD_none]
  label := rfl

theorem room_eq (m : Memory size) {offset : UInt16} {count : Nat}
    (fits : offset.toNat + count ≤ size) : m.room offset count = count := by
  unfold room
  omega

theorem loadReport_eq_nil (m : Memory size) {offset : UInt16} {count : Nat} (filled : 0 < count)
    (fits : offset.toNat + count ≤ size) : m.loadReport offset count = [] := by
  have inside : ¬ size ≤ offset.toNat := by omega
  rw [loadReport, if_neg inside, m.room_eq fits, if_neg (Nat.lt_irrefl count)]

theorem read_eq (m : Memory size) {addr : UInt16} (inside : addr.toNat < size) :
    m.read addr = m.bytes[addr.toNat] := dif_pos inside

end Memory

namespace Image

inductive Accepted : Image → Prop where
  | bytes {data : List UInt8} {base : UInt16} {i : Image} : ofBytes data base = .ok i → Accepted i
  | hex {text : String} {i : Image} : ofHexText text = .ok i → Accepted i

structure Placed (i : Image) : Prop where
  filled : i.data ≠ []
  fits : i.base.toNat + i.data.length ≤ 0x10000

section
variable {data : List UInt8} {base : UInt16}

theorem ofBytes_isOk :
    (∃ i, ofBytes data base = .ok i) ↔ data ≠ [] ∧ base.toNat + data.length ≤ 0x10000 := by
  constructor
  · rintro ⟨i, made⟩
    unfold ofBytes at made
    split at made
    case isTrue => cases made
    case isFalse filled =>
      split at made
      case isTrue => cases made
      case isFalse fits => exact ⟨mt List.isEmpty_iff.2 filled, Nat.not_lt.1 fits⟩
  · rintro ⟨filled, fits⟩
    exact ⟨_, ofBytes_eq_ok filled fits⟩

theorem eq_of_ofBytes {i : Image} (made : ofBytes data base = .ok i) : i = ⟨base, data⟩ := by
  obtain ⟨filled, fits⟩ := ofBytes_isOk.1 ⟨i, made⟩
  rw [ofBytes_eq_ok filled fits] at made
  exact (Except.ok.inj made).symm

end

theorem Assembly.placed_image {a : Assembly} (inRange : InRange a.blocks) {i : Image}
    (made : a.image = .ok i) : i.Placed where
  filled := (image_holds inRange made).filled
  fits := by
    obtain ⟨filled, -, highest, -⟩ := image_holds inRange made
    have length := List.length_pos_iff.2 filled
    have last := inRange.lt_of_covered highest.1
    omega

theorem Accepted.placed {i : Image} (accepted : i.Accepted) : i.Placed := by
  cases accepted with
  | bytes made =>
    obtain ⟨filled, fits⟩ := ofBytes_isOk.1 ⟨i, made⟩
    rw [eq_of_ofBytes made]
    exact ⟨filled, fits⟩
  | hex made =>
    obtain ⟨a, -, reads, made⟩ := reads_of_ofHexText made
    exact Assembly.placed_image reads.inRange made

structure Shown (i : Image) (b after : Board) : Prop where
  stored : ∀ (k : Nat) (within : k < i.data.length) (addr : UInt16),
    addr.toNat = i.base.toNat + k → after.ram.read addr = i.data[k]
  shown : ∀ (k : Nat) (within : k < i.data.length) (addr : UInt16),
    addr.toNat = i.base.toNat + k → addr ≠ feedbackRegister →
      after.peek addr = i.data[k] ∧ (after.read addr).1 = i.data[k]
  kept : ∀ addr : UInt16,
    ¬ (i.base.toNat ≤ addr.toNat ∧ addr.toNat < i.base.toNat + i.data.length) →
      after.ram.read addr = b.ram.read addr ∧ after.peek addr = b.peek addr
  feedback : after.feedback = b.feedback
  clock : after.clock = b.clock
  lines : after.lines = b.lines
  events : after.events = b.events
  label : after.ram.label = b.ram.label

theorem Placed.shown {i : Image} (placed : i.Placed) (b : Board) :
    i.Shown b (b.load i.base i.data) := by
  have all : b.ram.room i.base i.data.length = i.data.length := b.ram.room_eq placed.fits
  have copied := b.ram.copied_load i.base i.data
  rw [all] at copied
  have stored (k : Nat) (within : k < i.data.length) (addr : UInt16)
      (place : addr.toNat = i.base.toNat + k) :
      (b.load i.base i.data).ram.read addr = i.data[k] := by
    rw [Memory.read_eq _ addr.toNat_lt]
    have byte := copied.copied k within addr.toNat addr.toNat_lt place
    rw [List.getElem?_eq_getElem within] at byte
    exact (Option.some.inj byte).symm
  refine ⟨stored, fun k within addr place plain => ?_, fun addr outside => ?_,
    rfl, rfl, rfl, rfl, rfl⟩
  · have byte : (b.load i.base i.data).peek addr = i.data[k] := by
      rw [Board.peek, if_neg plain, stored k within addr place]
    exact ⟨byte, byte⟩
  · have byte : (b.load i.base i.data).ram.read addr = b.ram.read addr := by
      rw [Memory.read_eq _ addr.toNat_lt, Memory.read_eq _ addr.toNat_lt]
      exact copied.kept addr.toNat addr.toNat_lt outside
    refine ⟨byte, ?_⟩
    rw [Board.peek, Board.peek, byte]
    rfl

/-- No image is cut or put in another place. Bytes are taken for an image if there are any and they
end within memory, and every image of bytes or of an Intel HEX text is of that kind. The board then
takes all of its bytes without a report, shows them at their addresses, and stays as it was in
everything else. A bank of any size takes the front part of some data that fits, and no more. -/
theorem load_accepted :
    (∀ data base, ((∃ i, ofBytes data base = .ok i) ↔
        data ≠ [] ∧ base.toNat + data.length ≤ 0x10000) ∧
      ∀ i, ofBytes data base = .ok i → i.base = base ∧ i.data = data) ∧
    (∀ i, Accepted i → i.data ≠ [] ∧ i.base.toNat + i.data.length ≤ 0x10000 ∧
      ∀ b : Board, b.ram.room i.base i.data.length = i.data.length ∧
        b.ram.loadReport i.base i.data.length = [] ∧ i.Shown b (b.load i.base i.data)) ∧
    ∀ (size : Nat) (m : Memory size) offset data,
      m.Copied (m.load offset data) offset data (m.room offset data.length) := by
  refine ⟨fun data base => ⟨ofBytes_isOk, fun i made => ?_⟩, fun i accepted => ?_,
    fun size m offset data => m.copied_load offset data⟩
  · rw [eq_of_ofBytes made]
    exact ⟨rfl, rfl⟩
  · have placed := accepted.placed
    refine ⟨placed.filled, placed.fits, fun b => ⟨b.ram.room_eq placed.fits, ?_, placed.shown b⟩⟩
    exact b.ram.loadReport_eq_nil (List.length_pos_iff.2 placed.filled) placed.fits

/-- An image of one byte at the last address of memory, and a bank that ends before an offset. -/
theorem load_accepted_last :
    (∃ i, ofBytes [0x4C] 0xFFFF = .ok i ∧ ∀ b : Board, i.Shown b (b.load 0xFFFF [0x4C])) ∧
      (Memory.new 2 "BANK").Copied ((Memory.new 2 "BANK").load 3 [0x4C]) 3 [0x4C] 0 := by
  obtain ⟨made, shown, copied⟩ := load_accepted
  have accepted : ofBytes [0x4C] 0xFFFF = .ok ⟨0xFFFF, [0x4C]⟩ := by decide
  refine ⟨⟨_, accepted, fun b => ?_⟩, copied 2 (.new 2 "BANK") 3 [0x4C]⟩
  exact ((shown _ (.bytes accepted)).2.2 b).2.2

end Image

end Cycle6502
