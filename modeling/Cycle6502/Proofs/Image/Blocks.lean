import Cycle6502.Image.Basic
import Mathlib.Data.List.Induction
import Mathlib.Order.Bounds.Basic
import Mathlib.Order.Interval.Set.Defs

/-! Blocks of data in an image. A later block hides an earlier one where they overlap, what no block
covers is all ones, and the image reaches from the lowest address that a block covers to the
highest. -/

set_option autoImplicit false

namespace Cycle6502.Image

def byteIn (block : Nat × List UInt8) (addr : Nat) : Option UInt8 :=
  if block.1 ≤ addr then block.2[addr - block.1]? else none

theorem isSome_byteIn (block : Nat × List UInt8) (addr : Nat) :
    (byteIn block addr).isSome ↔ block.1 ≤ addr ∧ addr < block.1 + block.2.length := by
  unfold byteIn
  split
  · rw [isSome_getElem?]
    omega
  · simp only [Option.isSome_none, Bool.false_eq_true, false_iff]
    omega

theorem byteIn_cons (start : Nat) (value : UInt8) (rest : List UInt8) (addr : Nat) :
    byteIn (start, value :: rest) addr =
      if addr = start then some value else byteIn (start + 1, rest) addr := by
  rcases Nat.lt_trichotomy addr start with below | rfl | above
  · simp [byteIn, below.ne, below.not_ge, (Nat.lt_succ_of_lt below).not_ge]
  · simp [byteIn]
  · have index : addr - start = addr - (start + 1) + 1 := by omega
    simp [byteIn, above.ne', above.le, Nat.succ_le_of_lt above, index]

theorem getElem_put {size : Nat} (bytes : Vector UInt8 size) (data : List UInt8) (start : Nat)
    {addr : Nat} (inside : addr < size) :
    (Memory.put bytes start data)[addr] = (byteIn (start, data) addr).getD bytes[addr] := by
  induction data generalizing bytes start with
  | nil => simp [Memory.put, byteIn]
  | cons value rest ih =>
    rw [Memory.put, ih, Vector.getElem_setIfInBounds, byteIn_cons]
    by_cases first : start = addr
    · subst first
      have uncovered : byteIn (start + 1, rest) start = none := if_neg (Nat.not_succ_le_self start)
      simp [uncovered]
    · simp [first, Ne.symm first]

/-- The byte of the latest block that covers an address; the blocks are kept latest first. -/
def blockByte (blocks : List (Nat × List UInt8)) (addr : Nat) : Option UInt8 :=
  blocks.findSome? (byteIn · addr)

def InRange (blocks : List (Nat × List UInt8)) : Prop :=
  ∀ block ∈ blocks, block.2 ≠ [] ∧ block.1 + block.2.length ≤ 0x10000

section
variable (block : Nat × List UInt8) (blocks : List (Nat × List UInt8)) (addr : Nat)

theorem blockByte_cons :
    blockByte (block :: blocks) addr = (byteIn block addr).or (blockByte blocks addr) := by
  rw [blockByte, List.findSome?_cons]
  cases byteIn block addr <;> rfl

theorem blockByte_concat :
    blockByte (blocks ++ [block]) addr = (blockByte blocks addr).or (byteIn block addr) := by
  rw [blockByte, List.findSome?_append, List.findSome?_singleton]
  rfl

end

theorem InRange.lt_of_covered {blocks : List (Nat × List UInt8)} (inRange : InRange blocks)
    {addr : Nat} (covered : (blockByte blocks addr).isSome) : addr < 0x10000 := by
  obtain ⟨block, member, found⟩ := List.exists_of_findSome?_eq_some (Option.some_get covered).symm
  have inside := (isSome_byteIn block addr).1 (by rw [found]; rfl)
  have fits := (inRange block member).2
  omega

theorem covered_concat (blocks : List (Nat × List UInt8)) (block : Nat × List UInt8) :
    {addr | (blockByte (blocks ++ [block]) addr).isSome} =
      {addr | (blockByte blocks addr).isSome} ∪ {addr | (byteIn block addr).isSome} := by
  ext addr
  simp [blockByte_concat]

section
variable {block : Nat × List UInt8} (filled : block.2 ≠ [])
include filled

theorem isLeast_byteIn : IsLeast {addr | (byteIn block addr).isSome} block.1 := by
  have length := List.length_pos_iff.2 filled
  refine ⟨(isSome_byteIn _ _).2 (by omega), fun addr covered => ?_⟩
  exact ((isSome_byteIn _ _).1 covered).1

theorem isGreatest_byteIn :
    IsGreatest {addr | (byteIn block addr).isSome} (block.1 + block.2.length - 1) := by
  have length := List.length_pos_iff.2 filled
  refine ⟨(isSome_byteIn _ _).2 (by omega), fun addr covered => ?_⟩
  have inside := (isSome_byteIn _ _).1 covered
  omega

end

namespace Assembly

theorem getElem_memory (a : Assembly) {addr : Nat} (inside : addr < 0x10000) :
    a.memory[addr] = (blockByte a.blocks addr).getD 0xFF := by
  obtain ⟨segment, blocks⟩ := a
  induction blocks with
  | nil => exact Vector.getElem_replicate inside
  | cons block rest ih =>
    have below : (memory ⟨segment, rest⟩)[addr] = (blockByte rest addr).getD 0xFF := ih
    refine (getElem_put (memory ⟨segment, rest⟩) block.2 block.1 inside).trans ?_
    rw [below, blockByte_cons]
    cases byteIn block addr <;> rfl

theorem extent?_concat (segment : Nat) (blocks : List (Nat × List UInt8)) (block : Nat × List UInt8) :
    extent? ⟨segment, blocks ++ [block]⟩ = some (match extent? ⟨segment, blocks⟩ with
      | none => (block.1, block.1 + block.2.length)
      | some (low, high) => (min low block.1, max high (block.1 + block.2.length))) := by
  have last : extent? ⟨segment, blocks ++ [block]⟩ = _ := List.foldl_append
  rw [last]
  change (match extent? ⟨segment, blocks⟩ with | none => _ | some (low, high) => _) = _
  cases extent? ⟨segment, blocks⟩ <;> rfl

def Spans (covered : Set Nat) : Option (Nat × Nat) → Prop
  | none => covered = ∅
  | some (low, high) => IsLeast covered low ∧ IsGreatest covered (high - 1) ∧ low < high

theorem spans_extent? {a : Assembly} (inRange : InRange a.blocks) :
    Spans {addr | (blockByte a.blocks addr).isSome} a.extent? := by
  obtain ⟨segment, blocks⟩ := a
  induction blocks using List.reverseRecOn with
  | nil => exact Set.eq_empty_of_forall_notMem fun addr covered => nomatch covered
  | append_singleton front block ih =>
    have before := ih fun block member => inRange block (List.mem_append_left _ member)
    have filled := (inRange block (by simp)).1
    have length := List.length_pos_iff.2 filled
    rw [covered_concat, extent?_concat]
    cases extent : extent? ⟨segment, front⟩ with
    | none =>
      rw [extent] at before
      have nothing : {addr | (blockByte front addr).isSome} = ∅ := before
      rw [nothing, Set.empty_union]
      exact ⟨isLeast_byteIn filled, isGreatest_byteIn filled, by omega⟩
    | some bounds =>
      obtain ⟨low, high⟩ := bounds
      rw [extent] at before
      obtain ⟨lowest, highest, less⟩ := before
      refine ⟨lowest.union (isLeast_byteIn filled), ?_, by omega⟩
      have joined := highest.union (isGreatest_byteIn filled)
      have last : max (high - 1) (block.1 + block.2.length - 1) =
          max high (block.1 + block.2.length) - 1 := by omega
      rwa [last] at joined

theorem extent_inRange {a : Assembly} (inRange : InRange a.blocks) {low high : Nat}
    (extent : a.extent? = some (low, high)) : low < high ∧ high ≤ 0x10000 := by
  have spans := spans_extent? inRange
  rw [extent] at spans
  obtain ⟨-, highest, less⟩ := spans
  have inside := inRange.lt_of_covered highest.1
  omega

end Assembly

/-- An image of all bytes from the lowest to the highest address that has one. -/
structure Holds (i : Image) (byteAt : Nat → Option UInt8) : Prop where
  filled : i.data ≠ []
  lowest : IsLeast {addr | (byteAt addr).isSome} i.base.toNat
  highest : IsGreatest {addr | (byteAt addr).isSome} (i.base.toNat + i.data.length - 1)
  bytes : ∀ k (inside : k < i.data.length), i.data[k] = (byteAt (i.base.toNat + k)).getD 0xFF

theorem Holds.eq_of_byteIn {i : Image} {base : UInt16} {data : List UInt8}
    (holds : i.Holds (byteIn (base.toNat, data))) (filled : data ≠ []) : i = ⟨base, data⟩ := by
  obtain ⟨found, image⟩ := i
  have sameBase : found = base := UInt16.toNat_inj.1 (holds.lowest.unique (isLeast_byteIn filled))
  subst sameBase
  have last : found.toNat + image.length - 1 = found.toNat + data.length - 1 :=
    holds.highest.unique (isGreatest_byteIn filled)
  have imageLength := List.length_pos_iff.2 holds.filled
  have dataLength := List.length_pos_iff.2 filled
  have length : image.length = data.length := by
    simp only at imageLength
    omega
  have same : image = data := by
    apply List.ext_getElem length
    intro k inside inside'
    have byte := holds.bytes k inside
    simpa [byteIn, inside'] using byte
  rw [same]

namespace Assembly

variable {a : Assembly}

theorem image_isOk (inRange : InRange a.blocks) :
    (∃ i, a.image = .ok i) ↔ ∃ addr, (blockByte a.blocks addr).isSome := by
  have spans := spans_extent? inRange
  unfold image
  cases extent : a.extent? with
  | none =>
    rw [extent] at spans
    have nothing := Set.eq_empty_iff_forall_notMem.1 spans
    simpa using nothing
  | some bounds =>
    rw [extent] at spans
    exact iff_of_true ⟨_, rfl⟩ ⟨_, spans.1.1⟩

theorem image_holds (inRange : InRange a.blocks) {i : Image} (made : a.image = .ok i) :
    i.Holds (blockByte a.blocks) := by
  have spans := spans_extent? inRange
  unfold image at made
  cases extent : a.extent? with
  | none =>
    rw [extent] at made
    cases made
  | some bounds =>
    obtain ⟨low, high⟩ := bounds
    obtain ⟨less, last⟩ := extent_inRange inRange extent
    rw [extent] at spans made
    obtain ⟨lowest, highest, -⟩ := spans
    cases made
    have base : (UInt16.ofNat low).toNat = low := UInt16.toNat_ofNat_of_lt (Nat.lt_of_lt_of_le less last)
    have length : (a.memory.toArray.extract low high).toList.length = high - low := by
      simp
      omega
    refine ⟨?_, ?_, ?_, fun k inside => ?_⟩
    · rw [← List.length_pos_iff, length]
      omega
    · rwa [base]
    · have end_ : low + (high - low) - 1 = high - 1 := by omega
      rwa [base, length, end_]
    · have short : k < high - low := length ▸ inside
      have place : low + k < 0x10000 := by omega
      have byte := a.getElem_memory place
      rw [base, ← byte]
      simp

end Assembly

end Cycle6502.Image
