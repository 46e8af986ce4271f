import Cycle6502.Cpu.Execute
import Cycle6502.Proofs.Bus.Simulation
import Mathlib.Algebra.Ring.Nat

/-! How a timeline's slots become steps: the waits between synchronisation points, and the
operations in the order of their cycles. -/

set_option autoImplicit false

namespace Cycle6502

section
variable {β γ : Type} [Bus β] [Bus γ]

def MicroOp.performAll : List MicroOp → Cpu β → Latches → Cpu β × Latches
  | [], c, l => (c, l)
  | op :: rest, c, l =>
    let (c, l) := op.perform c l
    performAll rest c l

@[simp] theorem MicroOp.performAll_singleton (op : MicroOp) (c : Cpu β) (l : Latches) :
    performAll [op] c l = op.perform c l := rfl

@[simp] theorem MicroOp.perform_effect (e : Effect) (c : Cpu β) (l : Latches) :
    (MicroOp.effect e).perform c l = e.perform c l := rfl

theorem MicroOp.performAll_append (first rest : List MicroOp) (c : Cpu β) (l : Latches) :
    performAll (first ++ rest) c l =
      performAll rest (performAll first c l).1 (performAll first c l).2 := by
  induction first generalizing c l with
  | nil => rfl
  | cons op first ih => exact ih _ _

theorem MicroOp.performAll_similar {R : β → γ → Prop} {decided : Prop}
    (sim : Bus.Simulation (fun _ => True) R) (ops : List MicroOp) {c : Cpu β} {d : Cpu γ}
    (l : Latches) (s : Cpu.Similar R decided c d) :
    Cpu.Similar R decided (performAll ops c l).1 (performAll ops d l).1 ∧
      (performAll ops c l).2 = (performAll ops d l).2 := by
  induction ops generalizing c d l with
  | nil => exact ⟨s, rfl⟩
  | cons op rest ih =>
    obtain ⟨similar, same⟩ := op.perform_similar sim l (op.fastWithin_true l) s
    simp only [performAll, same]
    exact ih _ similar

theorem Step.performAll_append (first rest : List Step) (c : Cpu β) (l : Latches) :
    performAll (first ++ rest) c l =
      performAll rest (performAll first c l).1 (performAll first c l).2 := by
  induction first generalizing c l with
  | nil => rfl
  | cons step first ih => exact ih _ _

theorem Step.performAll_ops (ops : List MicroOp) (c : Cpu β) (l : Latches) :
    performAll (ops.map .op) c l = MicroOp.performAll ops c l := by
  induction ops generalizing c l with
  | nil => rfl
  | cons op rest ih => exact ih _ _

end

namespace Step

def operations (steps : List Step) : List MicroOp :=
  steps.filterMap fun
    | .op m => some m
    | _ => none

def cycles (steps : List Step) : Nat :=
  (steps.map fun
    | .wait cycles | .stretchedWait cycles _ => cycles.toNat
    | .op _ => 0).sum

theorem waitBetween_of_le {first last : UInt32} (site : Option Site) (reached : last ≤ first) :
    waitBetween first last site = [] := by
  unfold waitBetween
  rw [if_neg (UInt32.not_lt.2 reached)]

@[simp] theorem operations_op (op : MicroOp) (rest : List Step) :
    operations (.op op :: rest) = op :: operations rest := rfl

theorem operations_append (first rest : List Step) :
    operations (first ++ rest) = operations first ++ operations rest :=
  List.filterMap_append

theorem operations_ops (ops : List MicroOp) : operations (ops.map .op) = ops := by
  induction ops with
  | nil => rfl
  | cons op rest ih => exact congrArg (op :: ·) ih

theorem operations_waitBetween (first last : UInt32) (site : Option Site) :
    operations (waitBetween first last site) = [] := by
  unfold waitBetween
  split
  · cases site <;> rfl
  · rfl

theorem cycles_append (first rest : List Step) :
    cycles (first ++ rest) = cycles first + cycles rest := by
  simp [cycles]

theorem cycles_ops (ops : List MicroOp) : cycles (ops.map .op) = 0 := by
  induction ops with
  | nil => rfl
  | cons op rest ih => simpa [cycles] using ih

theorem cycles_waitBetween {first last : UInt32} (site : Option Site) (earlier : first ≤ last) :
    cycles (waitBetween first last site) + first.toNat = last.toNat := by
  have bound := UInt32.le_iff_toNat_le.1 earlier
  unfold waitBetween
  split
  · have length := UInt32.toNat_sub_of_le _ _ earlier
    cases site <;> simp [cycles, length, Nat.sub_add_cancel bound]
  case isFalse after =>
    have same := UInt32.le_antisymm earlier (UInt32.not_lt.1 after)
    simp [cycles, same]

end Step

namespace Timeline

/-- Whether the clock has to stand at a cycle when its operations run. -/
def synchronous (t : Timeline) (cycle : UInt32) (slot : Slot) : Bool :=
  slot.pinned || cycle == t.cycle

end Timeline

namespace Step

/-- The steps that lead up to a slot: a wait if it is synchronous. -/
def leadUp (t : Timeline) (reached cycle : UInt32) (slot : Slot) : List Step :=
  if t.synchronous cycle slot then waitBetween reached cycle slot.site else []

def reachedAfter (t : Timeline) (reached cycle : UInt32) (slot : Slot) : UInt32 :=
  if t.synchronous cycle slot then cycle else reached

theorem ofSlots_cons (t : Timeline) {reached cycle : UInt32} {slot : Slot} {rest : Slots}
    (inside : cycle ≤ t.cycle) (ascending : Slots.Ascending ((cycle, slot) :: rest)) :
    ofSlots t.cycle reached ((cycle, slot) :: rest) =
      leadUp t reached cycle slot ++ slot.ops.map .op ++
        ofSlots t.cycle (reachedAfter t reached cycle slot) rest := by
  rw [ofSlots, leadUp, reachedAfter, Timeline.synchronous]
  by_cases last : cycle = t.cycle
  -- Behind the last cycle nothing is performed and nothing is waited for.
  · have dropped : ofSlots t.cycle t.cycle rest = [] := by
      cases rest with
      | nil => exact waitBetween_of_le _ (UInt32.le_refl _)
      | cons head rest =>
        have beyond := (List.pairwise_cons.1 ascending).1 head List.mem_cons_self
        rw [last] at beyond
        rw [ofSlots, if_neg (UInt32.not_lt.2 (UInt32.le_of_lt beyond)),
          if_neg (UInt32.ne_of_lt beyond).symm, waitBetween_of_le _ (UInt32.le_refl _)]
    simp [last, dropped]
  · have before := UInt32.lt_of_le_of_ne inside last
    cases slot.pinned <;> simp [before, last]

theorem ofSlots_beyond {last reached : UInt32} {slots : Slots}
    (beyond : ∀ entry ∈ slots, last < entry.1) :
    ofSlots last reached slots = waitBetween reached last none := by
  cases slots with
  | nil => rfl
  | cons head rest =>
    have above := beyond head List.mem_cons_self
    rw [ofSlots, if_neg (UInt32.not_lt.2 (UInt32.le_of_lt above)),
      if_neg (UInt32.ne_of_lt above).symm]

theorem operations_leadUp (t : Timeline) (reached cycle : UInt32) (slot : Slot) :
    operations (leadUp t reached cycle slot) = [] := by
  unfold leadUp
  split
  · exact operations_waitBetween _ _ _
  · rfl

theorem cycles_leadUp (t : Timeline) {reached cycle : UInt32} (slot : Slot)
    (earlier : reached ≤ cycle) :
    cycles (leadUp t reached cycle slot) + reached.toNat =
      (reachedAfter t reached cycle slot).toNat := by
  unfold leadUp reachedAfter
  split
  · exact cycles_waitBetween _ earlier
  · exact Nat.zero_add _

end Step

end Cycle6502
