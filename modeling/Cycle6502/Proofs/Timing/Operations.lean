import Cycle6502.Microcode.Store
import Cycle6502.Proofs.Bus.Time
import Cycle6502.Proofs.Timing.Layout

/-! Programs without their timing. Waits change nothing but time, and sampling the interrupt lines
nothing but the pending interrupt, so a program does what the operations of its layout do. -/

set_option autoImplicit false

namespace Cycle6502

open Board (SameButTime)

section
variable {decided : Prop} {m m' : Machine}

theorem Step.performAll_operations (steps : List Step) (l : Latches)
    (similar : Cpu.Similar SameButTime decided m m') :
    Cpu.Similar SameButTime decided (performAll steps m l).1
        (MicroOp.performAll (operations steps) m' l).1 ∧
      (performAll steps m l).2 = (MicroOp.performAll (operations steps) m' l).2 := by
  induction steps generalizing m m' l with
  | nil => exact ⟨similar, rfl⟩
  | cons s rest ih =>
    cases s with
    -- A wait passes on one side only, where it moves the clock and adds no access.
    | wait cycles => exact ih l { similar with bus := similar.bus.advance_left cycles }
    | stretchedWait cycles site => exact ih l { similar with bus := similar.bus.advance_left _ }
    | op op =>
      obtain ⟨performed, same⟩ := op.perform_similar SameButTime.simulation l (op.fastWithin_true l)
        similar
      have later := ih (op.perform m' l).2 performed
      rw [← same] at later
      simpa only [performAll, perform, operations_op, MicroOp.performAll, same] using later

end

theorem Step.operations_ofSlots (t : Timeline) (reached : UInt32) {slots : Slots}
    (ascending : slots.Ascending) (within : ∀ entry ∈ slots, entry.1 ≤ t.cycle) :
    operations (ofSlots t.cycle reached slots) = slots.operations := by
  induction slots generalizing reached with
  | nil => exact operations_waitBetween _ _ _
  | cons head rest ih =>
    obtain ⟨cycle, slot⟩ := head
    have inside := within _ List.mem_cons_self
    have tail := ih (reachedAfter t reached cycle slot) (List.pairwise_cons.1 ascending).2
      fun entry member => within entry (List.mem_cons_of_mem _ member)
    rw [ofSlots_cons t inside ascending, operations_append, operations_append, operations_leadUp,
      operations_ops, tail]
    rfl

namespace Timeline

def padded (t : Timeline) : Timeline := if t.cycle < 2 then { t with cycle := 2 } else t

theorem finish_eq (t : Timeline) :
    t.finish = t.padded.prependAt (t.padded.cycle - 1) [.checkInterrupt] true none := rfl

theorem slots_padded (t : Timeline) : t.padded.slots = t.slots := by
  unfold padded
  split <;> rfl

theorem le_cycle_padded (t : Timeline) : t.cycle ≤ t.padded.cycle := by
  unfold padded
  split
  case isTrue less => exact UInt32.le_of_lt less
  case isFalse => exact UInt32.le_refl _

theorem two_le_cycle_padded (t : Timeline) : 2 ≤ t.padded.cycle := by
  unfold padded
  split
  case isTrue => exact UInt32.le_refl _
  case isFalse notLess => exact UInt32.not_lt.1 notLess

theorem within_finish {t : Timeline} (within : ∀ entry ∈ t.slots, entry.1 ≤ t.cycle) :
    ∀ entry ∈ t.finish.slots, entry.1 ≤ t.finish.cycle := by
  intro entry member
  rw [finish_eq] at member ⊢
  rcases Slots.fst_of_mem_alter member with same | ⟨old, member, same⟩
  · have two := UInt32.le_iff_toNat_le.1 t.two_le_cycle_padded
    have one : (1 : UInt32) ≤ t.padded.cycle := UInt32.le_iff_toNat_le.2 (Nat.le_of_succ_le two)
    rw [same]
    refine UInt32.le_iff_toNat_le.2 ?_
    rw [UInt32.toNat_sub_of_le _ _ one]
    exact Nat.sub_le _ _
  · rw [slots_padded] at member
    rw [← same]
    exact UInt32.le_trans (within old member) t.le_cycle_padded

/-- Finishing puts one sample of the interrupt lines between the operations of a timeline. -/
theorem operations_finish (t : Timeline) :
    ∃ front back, t.finish.slots.operations = front ++ [.checkInterrupt] ++ back ∧
      t.slots.operations = front ++ back := by
  obtain ⟨front, back, finished, plain⟩ := Slots.operations_alter_prepend t.padded.slots
    (t.padded.cycle - 1) (f := fun s => ⟨[.checkInterrupt] ++ s.ops, s.pinned || true, s.site <|> none⟩)
    (fun _ => rfl)
  exact ⟨front, back, finished, t.slots_padded ▸ plain⟩

end Timeline

/-- A finished layout does what its operations do, at whatever time and with the interrupt lines
sampled anywhere. -/
theorem Step.performAll_finish {t : Timeline} {cycles : Nat} {ops : List MicroOp}
    (lays : t.Lays cycles ops) (m : Machine) (l : Latches) :
    Cpu.Similar SameButTime False (performAll (ofTimeline t.finish) m l).1
        (MicroOp.performAll ops m l).1 ∧
      (performAll (ofTimeline t.finish) m l).2 = (MicroOp.performAll ops m l).2 := by
  obtain ⟨front, back, finished, plain⟩ := t.operations_finish
  have folded := performAll_operations (ofTimeline t.finish) l
    (Cpu.Similar.refl SameButTime.refl False m)
  rw [ofTimeline, operations_ofSlots _ _ t.finish.ascending (Timeline.within_finish lays.within),
    finished, List.append_assoc, MicroOp.performAll_append, MicroOp.performAll_append] at folded
  rw [← lays.operations, plain, MicroOp.performAll_append]
  -- The sample shows in the pending interrupt only, which nothing behind it looks at.
  have sampled (c : Machine) : Cpu.Similar SameButTime False c.sampleInterrupts c :=
    ⟨.refl _, rfl, rfl, rfl, rfl, rfl, False.elim⟩
  obtain ⟨rest, same⟩ := MicroOp.performAll_similar SameButTime.simulation back
    (MicroOp.performAll front m l).2 (sampled (MicroOp.performAll front m l).1)
  exact ⟨folded.1.trans rest, folded.2.trans same⟩

end Cycle6502
