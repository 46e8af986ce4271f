import Cycle6502.Proofs.Image.Reading

/-! Absolute addresses of data. The format adds a base to the address of a data record: sixteen times
the segment, or the upper half of the address, whichever was set last. Segments are followed; upper
halves are passed over, so that the data behind them is taken for data in the segment. -/

set_option autoImplicit false

namespace Cycle6502

def HexRecord.base? (r : HexRecord) : Option Nat :=
  match r.data with
  | [high, low] =>
    if r.kind = 2 then some (16 * (low.toNat + 256 * high.toNat))
    else if r.kind = 4 then some (0x10000 * (low.toNat + 256 * high.toNat))
    else none
  | _ => none

namespace Image

def absolute (earlier : List HexRecord) (r : HexRecord) : Nat :=
  (earlier.findSome? HexRecord.base?).getD 0 + r.addr.toNat

/-- The byte that the last of some records has for an absolute address. -/
def absoluteByte : List HexRecord → Nat → Option UInt8
  | [], _ => none
  | r :: earlier, addr =>
    (if r.kind = 0 then byteIn (absolute earlier r, r.data) addr else none).or
      (absoluteByte earlier addr)

variable {read : List HexRecord}

theorem base?_of_kind {r : HexRecord} (unextended : r.kind ≠ 4) :
    r.base? = r.segment?.map (16 * ·) := by
  unfold HexRecord.base? HexRecord.segment?
  split
  · split <;> simp [*]
  · split <;> simp

theorem absolute_eq_start (segmented : ∀ r ∈ read, r.kind ≠ 4) (r : HexRecord) :
    absolute read r = start read r := by
  have same :
      read.findSome? HexRecord.base? = (read.findSome? HexRecord.segment?).map (16 * ·) := by
    induction read with
    | nil => rfl
    | cons other read ih =>
      obtain ⟨first, rest⟩ := List.forall_mem_cons.1 segmented
      rw [List.findSome?_cons, List.findSome?_cons, base?_of_kind first, ih rest]
      cases other.segment? <;> rfl
  rw [absolute, start, segmentBase, same]
  cases read.findSome? HexRecord.segment? <;> rfl

theorem absoluteByte_eq_byteAt (segmented : ∀ r ∈ read, r.kind ≠ 4) :
    absoluteByte read = byteAt read := by
  funext addr
  induction read with
  | nil => rfl
  | cons r read ih =>
    have rest := (List.forall_mem_cons.1 segmented).2
    rw [absoluteByte, byteAt_cons, latestByte, absolute_eq_start rest, ih rest]

/-- Data stands at absolute addresses, in every text without records for an upper half. What is read
from the text reaches from the lowest to the highest absolute address of any data and has the byte of
the last record for each, and a text with data behind the end of memory is refused. -/
theorem ofHexText_absolute {text : String}
    (segmented : ∀ r ∈ records (body (Text.lines '\n' text.toList)), r.kind ≠ 4) :
    (∀ i, ofHexText text = .ok i →
      i.Holds (absoluteByte (records (body (Text.lines '\n' text.toList))))) ∧
    ∀ r earlier, r :: earlier <:+ records (body (Text.lines '\n' text.toList)) → r.kind = 0 →
      r.data ≠ [] → 0xFFFF < absolute earlier r → ∃ e, ofHexText text = .error e := by
  constructor
  · intro i made
    rw [absoluteByte_eq_byteAt segmented]
    exact ofHexText_holds made
  · intro r earlier suffix data filled beyond
    cases made : ofHexText text with
    | error e => exact ⟨e, rfl⟩
    | ok i =>
      -- All records of a text that is read fit, and this one does not.
      obtain ⟨a, readable, -, -⟩ := reads_of_ofHexText made
      have fits := (readable.fits r earlier (by rwa [List.append_nil])).2 data
      have before : ∀ other ∈ earlier, other.kind ≠ 4 := fun other member =>
        segmented other (suffix.subset (List.mem_cons_of_mem r member))
      rw [← absolute_eq_start before] at fits
      have length := List.length_pos_iff.2 filled
      omega

/-- A record of data in the second segment of memory, with its length and its place. -/
theorem ofHexText_absolute_segment :
    let text := ":020000020100FB\n:01000200609D\n:00000001FF\n"
    ∃ i, ofHexText text = .ok i ∧
      i.Holds (absoluteByte (records (body (Text.lines '\n' text.toList)))) ∧
      absoluteByte (records (body (Text.lines '\n' text.toList))) 0x1002 = some 0x60 := by
  intro text
  have read : records (body (Text.lines '\n' text.toList)) = [⟨2, 0, [0x60]⟩, ⟨0, 2, [1, 0]⟩] := by
    decide +kernel
  have added : Assembly.addLines 1 {} (Text.lines '\n' text.toList) =
      .ok ⟨0x1000, [(0x1002, [0x60])]⟩ := by decide +kernel
  obtain ⟨i, made⟩ : ∃ i, ofHexText text = .ok i := ⟨_, ofHexText_eq_ok.2 ⟨_, added, rfl⟩⟩
  have segmented : ∀ r ∈ records (body (Text.lines '\n' text.toList)), r.kind ≠ 4 := by
    rw [read]
    decide
  refine ⟨i, made, (ofHexText_absolute segmented).1 i made, ?_⟩
  rw [read]
  decide

/-- An upper half that is set has no effect: data of an address behind the end of memory is taken for
data at the start. -/
theorem ofHexText_extended :
    let text := ":020000040001F9\n:02000000AABB99\n:00000001FF\n"
    let earlier : List HexRecord := [⟨0, 4, [0x00, 0x01]⟩]
    let r : HexRecord := ⟨0, 0, [0xAA, 0xBB]⟩
    records (body (Text.lines '\n' text.toList)) = r :: earlier ∧ absolute earlier r = 0x10000 ∧
      ofHexText text = .ok ⟨0x0000, [0xAA, 0xBB]⟩ := by
  intro text earlier r
  have read : records (body (Text.lines '\n' text.toList)) = r :: earlier := by decide +kernel
  have added : Assembly.addLines 1 {} (Text.lines '\n' text.toList) =
      .ok ⟨0, [(0, [0xAA, 0xBB])]⟩ := by decide +kernel
  obtain ⟨i, made⟩ : ∃ i, ofHexText text = .ok i := ⟨_, ofHexText_eq_ok.2 ⟨_, added, rfl⟩⟩
  have holds := ofHexText_holds made
  have bytes : byteAt (r :: earlier) = byteIn ((0 : UInt16).toNat, [0xAA, 0xBB]) := by
    funext addr
    rw [byteAt_cons]
    exact Option.or_none
  rw [read, bytes] at holds
  refine ⟨read, by decide, ?_⟩
  rw [made, holds.eq_of_byteIn (by decide)]

end Image

end Cycle6502
