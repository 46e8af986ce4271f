import Cycle6502.Timeline.Basic

/-! Timelines by cycle: what the slot of a cycle is once operations have been laid out. -/

set_option autoImplicit false

namespace Cycle6502

namespace Slots

theorem find?_of_below {slots : Slots} {cycle : UInt32} (below : ∀ entry ∈ slots, cycle < entry.1) :
    slots.find? cycle = none := by
  refine List.lookup_eq_none_iff.2 fun entry member => ?_
  exact bne_iff_ne.2 (UInt32.ne_of_lt (below entry member))

theorem find?_cons (cycle c : UInt32) (s : Slot) (rest : Slots) :
    find? cycle ((c, s) :: rest) = if cycle = c then some s else find? cycle rest := by
  by_cases same : cycle = c
  · simp [find?, same]
  · simp [find?, List.lookup_cons, same, beq_false_of_ne same]

theorem find?_alter {slots : Slots} (ascending : slots.Ascending) (cycle : UInt32) (f : Slot → Slot)
    (other : UInt32) :
    (alter cycle f slots).find? other =
      if other = cycle then some (f ((slots.find? cycle).getD {})) else slots.find? other := by
  induction slots with
  | nil =>
    rw [alter, find?_cons]
    rfl
  | cons head rest ih =>
    obtain ⟨c, s⟩ := head
    obtain ⟨below, ascending_rest⟩ := List.pairwise_cons.1 ascending
    rw [alter]
    split
    case isTrue less =>
      have missing : find? cycle ((c, s) :: rest) = none := by
        refine find?_of_below fun entry member => ?_
        rcases List.mem_cons.1 member with rfl | member
        · exact less
        · exact UInt32.lt_trans less (below entry member)
      rw [find?_cons, missing]
      rfl
    case isFalse notLess =>
      split
      case isTrue same =>
        subst same
        simp only [find?_cons, if_true, Option.getD_some]
        split <;> rfl
      case isFalse different =>
        rw [find?_cons, ih ascending_rest, find?_cons, find?_cons, if_neg different]
        -- The head is another cycle's, so it hides nothing of the change.
        by_cases head : other = c
        · subst head
          rw [if_pos rfl, if_neg (Ne.symm different), if_pos rfl]
        · rw [if_neg head, if_neg head]

theorem alter_alter (cycle : UInt32) (f g : Slot → Slot) (slots : Slots) :
    alter cycle g (alter cycle f slots) = alter cycle (g ∘ f) slots := by
  have irreflexive := UInt32.lt_irrefl cycle
  induction slots with
  | nil => simp [alter, irreflexive]
  | cons head rest ih =>
    obtain ⟨c, s⟩ := head
    simp only [alter]
    split
    case isTrue less => simp [alter, irreflexive]
    case isFalse notLess =>
      split
      case isTrue same => simp [alter, same]
      case isFalse different => simp [alter, notLess, different, ih]

end Slots

namespace Timeline

def slotAt (t : Timeline) (cycle : UInt32) : Slot := (t.slot? cycle).getD {}

def Holds (t : Timeline) (cycle : UInt32) (op : MicroOp) : Prop := op ∈ (t.slotAt cycle).ops

variable (t : Timeline)

theorem slot?_alter (cycle : UInt32) (f : Slot → Slot) (other : UInt32) :
    (t.alter cycle f).slot? other =
      if other = cycle then some (f (t.slotAt cycle)) else t.slot? other :=
  Slots.find?_alter t.ascending cycle f other

theorem slotAt_alter (cycle : UInt32) (f : Slot → Slot) (other : UInt32) :
    (t.alter cycle f).slotAt other =
      if other = cycle then f (t.slotAt cycle) else t.slotAt other := by
  rw [slotAt, slot?_alter]
  split <;> rfl

theorem slotAt_of_missing {cycle : UInt32} (missing : t.slot? cycle = none) :
    t.slotAt cycle = {} := by
  rw [slotAt, missing]
  rfl

theorem pin_append (ops : List MicroOp) :
    (t.append ops).pin = t.appendAt t.cycle ops true none := by
  simp only [pin, append, appendAt, alter, Slots.alter_alter, Function.comp_def]
  simp

variable {t}

theorem slotAt_appendAt_of_ne {cycle other : UInt32} {ops : List MicroOp} {pinned : Bool}
    {site : Option Site} (different : other ≠ cycle) :
    (t.appendAt cycle ops pinned site).slotAt other = t.slotAt other := by
  rw [appendAt, slotAt_alter, if_neg different]

theorem ops_slotAt_appendAt {cycle : UInt32} {ops : List MicroOp} {pinned : Bool}
    {site : Option Site} :
    ((t.appendAt cycle ops pinned site).slotAt cycle).ops = (t.slotAt cycle).ops ++ ops := by
  rw [appendAt, slotAt_alter, if_pos rfl]

theorem holds_appendAt {cycle other : UInt32} {ops : List MicroOp} {pinned : Bool}
    {site : Option Site} {op : MicroOp} :
    (t.appendAt cycle ops pinned site).Holds other op ↔
      t.Holds other op ∨ other = cycle ∧ op ∈ ops := by
  rw [Holds, appendAt, slotAt_alter]
  split
  case isTrue same => simp [Holds, same]
  case isFalse different => simp [Holds, different]

theorem holds_prependAt {cycle other : UInt32} {ops : List MicroOp} {pinned : Bool}
    {site : Option Site} {op : MicroOp} :
    (t.prependAt cycle ops pinned site).Holds other op ↔
      other = cycle ∧ op ∈ ops ∨ t.Holds other op := by
  rw [Holds, prependAt, slotAt_alter]
  split
  case isTrue same => simp [Holds, same]
  case isFalse different => simp [Holds, different]

end Timeline

end Cycle6502
