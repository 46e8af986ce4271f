import Cycle6502.Proofs.Timeline.Lookup
import Cycle6502.Proofs.Timing.Cycles
import Mathlib.Order.Bounds.Defs

/-! What folding makes of a timeline, cycle by cycle. A program has the operations of all cycles in
order, and its waits end at the synchronisation points: each of them leads from the point before it
up to its own. -/

set_option autoImplicit false

namespace Cycle6502

namespace Step

def isWait : Step → Bool
  | .op _ => false
  | _ => true

def awaits : Step → Option Site
  | .stretchedWait _ site => some site
  | _ => none

def length : Step → Nat
  | .wait cycles | .stretchedWait cycles _ => cycles.toNat
  | .op _ => 0

/-- The waits of some steps: the total of cycles at the end of each of them, and its access. The
steps begin when `total` cycles have been waited for. -/
def waits (total : Nat) : List Step → List (Nat × Option Site)
  | [] => []
  | s :: rest =>
    (if s.isWait then [(total + s.length, s.awaits)] else []) ++ waits (total + s.length) rest

/-- The operations of some steps, each with the total of the waits before it. -/
def timedOps (total : Nat) : List Step → List (Nat × MicroOp)
  | [] => []
  | .op m :: rest => (total, m) :: timedOps total rest
  | s :: rest => timedOps (total + s.length) rest

theorem cycles_cons (s : Step) (rest : List Step) :
    cycles (s :: rest) = s.length + cycles rest := by
  cases s <;> simp [cycles, length]

theorem waits_append (total : Nat) (first rest : List Step) :
    waits total (first ++ rest) = waits total first ++ waits (total + cycles first) rest := by
  induction first generalizing total with
  | nil => rfl
  | cons s first ih => simp only [List.cons_append, waits, ih, cycles_cons, Nat.add_assoc,
      List.append_assoc]

theorem timedOps_append (total : Nat) (first rest : List Step) :
    timedOps total (first ++ rest) =
      timedOps total first ++ timedOps (total + cycles first) rest := by
  induction first generalizing total with
  | nil => rfl
  | cons s first ih => cases s <;> simp [timedOps, ih, cycles_cons, length, Nat.add_assoc]

theorem waits_ops (total : Nat) (ops : List MicroOp) : waits total (ops.map .op) = [] := by
  induction ops with
  | nil => rfl
  | cons op rest ih => exact ih

theorem timedOps_ops (total : Nat) (ops : List MicroOp) :
    timedOps total (ops.map .op) = ops.map (total, ·) := by
  induction ops with
  | nil => rfl
  | cons op rest ih => exact congrArg ((total, op) :: ·) ih

theorem snd_timedOps (total : Nat) (steps : List Step) :
    (timedOps total steps).map Prod.snd = operations steps := by
  induction steps generalizing total with
  | nil => rfl
  | cons s rest ih =>
    cases s with
    | op op => exact congrArg (op :: ·) (ih total)
    | _ => exact ih _

end Step

namespace Timeline

/-- The last synchronisation point before a cycle, or the start. -/
def reached (t : Timeline) : Nat → UInt32
  | 0 => 0
  | cycle + 1 => Step.reachedAfter t (t.reached cycle) (.ofNat cycle) (t.slotAt (.ofNat cycle))

def stepsInto (t : Timeline) (cycle : Nat) : List Step :=
  Step.leadUp t (t.reached cycle) (.ofNat cycle) (t.slotAt (.ofNat cycle)) ++
    (t.slotAt (.ofNat cycle)).ops.map .op

def isPoint (t : Timeline) (cycle : Nat) : Prop :=
  (t.slotAt (.ofNat cycle)).pinned ∨ cycle = t.cycle.toNat

instance (t : Timeline) (cycle : Nat) : Decidable (t.isPoint cycle) :=
  inferInstanceAs (Decidable (_ ∨ _))

variable {t : Timeline}

theorem toNat_ofNat_cycle {cycle : Nat} (inside : cycle ≤ t.cycle.toNat) :
    (UInt32.ofNat cycle).toNat = cycle := by
  have bound := t.cycle.toNat_lt
  rw [UInt32.toNat_ofNat']
  omega

theorem synchronous_iff {cycle : Nat} (inside : cycle ≤ t.cycle.toNat) :
    t.synchronous (.ofNat cycle) (t.slotAt (.ofNat cycle)) = true ↔ t.isPoint cycle := by
  have last : UInt32.ofNat cycle = t.cycle ↔ cycle = t.cycle.toNat := by
    rw [← UInt32.toNat_inj, toNat_ofNat_cycle inside]
  simp only [synchronous, isPoint, Bool.or_eq_true, beq_iff_eq, last]

theorem toNat_reached_succ {cycle : Nat} (inside : cycle ≤ t.cycle.toNat) :
    (t.reached (cycle + 1)).toNat =
      if t.isPoint cycle then cycle else (t.reached cycle).toNat := by
  simp only [reached, Step.reachedAfter, synchronous_iff inside]
  split
  · exact toNat_ofNat_cycle inside
  · rfl

theorem toNat_reached_le {cycle : Nat} (inside : cycle ≤ t.cycle.toNat + 1) :
    (t.reached cycle).toNat ≤ cycle - 1 := by
  induction cycle with
  | zero => exact Nat.le_refl 0
  | succ cycle ih =>
    have earlier := ih (by omega)
    rw [toNat_reached_succ (by omega)]
    split <;> omega

theorem isGreatest_reached {cycle : Nat} (inside : cycle ≤ t.cycle.toNat) :
    IsGreatest {point | (point = 0 ∨ t.isPoint point) ∧ point ≤ cycle}
      (t.reached (cycle + 1)).toNat := by
  induction cycle with
  | zero =>
    have start : (t.reached (0 + 1)).toNat = 0 := by
      rw [toNat_reached_succ inside]
      split <;> rfl
    rw [start]
    exact ⟨⟨.inl rfl, Nat.le_refl 0⟩, fun point held => held.2⟩
  | succ cycle ih =>
    obtain ⟨⟨point, before⟩, greatest⟩ := ih (by omega)
    rw [toNat_reached_succ inside]
    split
    case isTrue here => exact ⟨⟨.inr here, Nat.le_refl _⟩, fun other held => held.2⟩
    case isFalse other =>
      refine ⟨⟨point, by omega⟩, fun candidate held => greatest ⟨held.1, ?_⟩⟩
      -- The cycle itself is no point, so every candidate lies before it.
      have different : candidate ≠ cycle + 1 := by
        rintro rfl
        exact held.1.elim (Nat.succ_ne_zero cycle) other
      have bound := held.2
      omega

end Timeline

namespace Timeline.From

variable {t : Timeline} {first : Nat} {slots : Slots}

theorem split (left : t.From first slots) (inside : first ≤ t.cycle.toNat) :
    (t.slotAt (.ofNat first) = {} ∧ t.From (first + 1) slots) ∨
      ∃ slot rest, slots = (.ofNat first, slot) :: rest := by
  have number := toNat_ofNat_cycle inside
  cases slots with
  | nil =>
    refine .inl ⟨slotAt_of_missing t (left.found _ (Nat.le_of_eq number.symm)), left.ascending, ?_,
      fun cycle above => left.found cycle (by omega)⟩
    exact fun entry member => nomatch member
  | cons head rest =>
    obtain ⟨cycle, slot⟩ := head
    by_cases same : cycle = .ofNat first
    · exact .inr ⟨slot, rest, by rw [same]⟩
    · have start : first ≤ cycle.toNat := left.above _ List.mem_cons_self
      have different : cycle.toNat ≠ first := fun equal =>
        same (by rw [← equal, UInt32.ofNat_toNat])
      have later (entry : UInt32 × Slot) (member : entry ∈ (cycle, slot) :: rest) :
          first + 1 ≤ entry.1.toNat := by
        have above := left.head_le entry member
        omega
      refine .inl ⟨slotAt_of_missing t ?_, left.ascending, later,
        fun cycle above => left.found cycle (by omega)⟩
      rw [left.found _ (Nat.le_of_eq number.symm)]
      refine Slots.find?_of_below fun entry member => ?_
      rw [UInt32.lt_iff_toNat_lt, number]
      exact later entry member

end Timeline.From

namespace Step

variable {t : Timeline}

theorem cycles_stepsInto {cycle : Nat} (inside : cycle ≤ t.cycle.toNat) :
    (t.reached cycle).toNat + cycles (t.stepsInto cycle) = (t.reached (cycle + 1)).toNat := by
  have earlier : t.reached cycle ≤ UInt32.ofNat cycle := by
    have bound := Timeline.toNat_reached_le (Nat.le_succ_of_le inside)
    rw [UInt32.le_iff_toNat_le, Timeline.toNat_ofNat_cycle inside]
    omega
  rw [Timeline.stepsInto, cycles_append, cycles_ops, Nat.add_zero, Nat.add_comm]
  exact cycles_leadUp t _ earlier

theorem cycles_flatMap {count : Nat} (inside : count ≤ t.cycle.toNat + 1) :
    cycles ((List.range count).flatMap t.stepsInto) = (t.reached count).toNat := by
  induction count with
  | zero => rfl
  | succ count ih =>
    rw [List.range_succ, List.flatMap_append, cycles_append, ih (by omega),
      ← cycles_stepsInto (by omega)]
    simp

theorem waits_stepsInto {cycle : Nat} (inside : cycle ≤ t.cycle.toNat) :
    waits (t.reached cycle).toNat (t.stepsInto cycle) =
      if cycle ≠ 0 ∧ t.isPoint cycle then [(cycle, (t.slotAt (.ofNat cycle)).site)] else [] := by
  have number := Timeline.toNat_ofNat_cycle inside
  have bound := Timeline.toNat_reached_le (Nat.le_succ_of_le inside)
  rw [Timeline.stepsInto, waits_append, waits_ops, List.append_nil, leadUp]
  simp only [Timeline.synchronous_iff inside]
  by_cases point : t.isPoint cycle
  · by_cases start : cycle = 0
    -- Nothing is waited for at the start.
    · subst start
      simp [waitBetween_of_le, waits, UInt32.zero_le]
    · have before : t.reached cycle < UInt32.ofNat cycle := by
        rw [UInt32.lt_iff_toNat_lt, number]
        omega
      have length : (t.reached cycle).toNat + (UInt32.ofNat cycle - t.reached cycle).toNat =
          cycle := by
        rw [UInt32.toNat_sub_of_le _ _ (UInt32.le_of_lt before), number]
        omega
      rw [if_pos point, if_pos ⟨start, point⟩]
      simp only [waitBetween, if_pos before]
      cases (t.slotAt (.ofNat cycle)).site <;> simp [waits, isWait, Step.length, awaits, length]
  · simp [point, waits]

theorem timedOps_stepsInto {cycle : Nat} (inside : cycle ≤ t.cycle.toNat) :
    timedOps (t.reached cycle).toNat (t.stepsInto cycle) =
      (t.slotAt (.ofNat cycle)).ops.map ((t.reached (cycle + 1)).toNat, ·) := by
  have none : timedOps (t.reached cycle).toNat
      (leadUp t (t.reached cycle) (.ofNat cycle) (t.slotAt (.ofNat cycle))) = [] := by
    have operations := operations_leadUp t (t.reached cycle) (.ofNat cycle)
      (t.slotAt (.ofNat cycle))
    rw [← snd_timedOps (t.reached cycle).toNat] at operations
    exact List.map_eq_nil_iff.1 operations
  have total := cycles_stepsInto inside
  rw [Timeline.stepsInto, cycles_append, cycles_ops, Nat.add_zero] at total
  rw [Timeline.stepsInto, timedOps_append, none, total, timedOps_ops, List.nil_append]

/-- The program of a timeline is what it does for each cycle, in order. -/
theorem ofSlots_eq {slots : Slots} {first count : Nat} (left : t.From first slots)
    (whole : first + count = t.cycle.toNat + 1) :
    ofSlots t.cycle (t.reached first) slots = (List.range' first count).flatMap t.stepsInto := by
  have bound := t.cycle.toNat_lt
  -- The induction is on the cycles that are left; those without a slot do nothing.
  induction count generalizing first slots with
  | zero =>
    have end_reached : t.reached first = t.cycle := by
      have last : t.isPoint t.cycle.toNat := .inr rfl
      rw [← UInt32.toNat_inj, ← Nat.add_zero first, whole,
        Timeline.toNat_reached_succ (Nat.le_refl _), if_pos last]
    have beyond : ∀ entry ∈ slots, t.cycle < entry.1 := fun entry member =>
      UInt32.lt_iff_toNat_lt.2 (by have above := left.above entry member; omega)
    rw [ofSlots_beyond beyond, end_reached]
    exact waitBetween_of_le none (UInt32.le_refl _)
  | succ count ih =>
    rw [List.range'_succ, List.flatMap_cons]
    have inside : first ≤ t.cycle.toNat := by omega
    have number := Timeline.toNat_ofNat_cycle inside
    obtain ⟨missing, next⟩ | ⟨slot, rest, rfl⟩ := left.split inside
    · have led : t.stepsInto first =
          if t.isPoint first then waitBetween (t.reached first) (.ofNat first) none else [] := by
        simp only [Timeline.stepsInto, leadUp, Timeline.synchronous_iff inside]
        simp [missing]
      by_cases last : first = t.cycle.toNat
      · have done : count = 0 := by omega
        have beyond : ∀ entry ∈ slots, t.cycle < entry.1 := fun entry member =>
          UInt32.lt_iff_toNat_lt.2 (last ▸ next.above entry member)
        rw [ofSlots_beyond beyond, led, if_pos (.inr last), done, last, UInt32.ofNat_toNat]
        exact (List.append_nil _).symm
      · have idle : ¬ t.isPoint first := by simp [Timeline.isPoint, missing, last]
        have same : t.reached (first + 1) = t.reached first := by
          rw [← UInt32.toNat_inj, Timeline.toNat_reached_succ inside, if_neg idle]
        rw [led, if_neg idle, ← same, ih next (by omega), List.nil_append]
    · have within : UInt32.ofNat first ≤ t.cycle := by
        rw [UInt32.le_iff_toNat_le, number]
        exact inside
      have here : t.slotAt (.ofNat first) = slot := by
        rw [Timeline.slotAt, left.head]
        rfl
      have tail := left.tail
      rw [number] at tail
      rw [ofSlots_cons t within left.ascending, Timeline.stepsInto, here, ← ih tail (by omega),
        Timeline.reached, here]

theorem ofTimeline_eq (t : Timeline) :
    ofTimeline t = (List.range (t.cycle.toNat + 1)).flatMap t.stepsInto := by
  rw [List.range_eq_range']
  exact ofSlots_eq (.whole t) (Nat.zero_add _)

theorem operations_flatMap (t : Timeline) (cycles : List Nat) :
    operations (cycles.flatMap t.stepsInto) =
      cycles.flatMap fun cycle => (t.slotAt (.ofNat cycle)).ops := by
  induction cycles with
  | nil => rfl
  | cons cycle rest ih =>
    rw [List.flatMap_cons, operations_append, ih, Timeline.stepsInto, operations_append,
      operations_leadUp, operations_ops, List.nil_append, List.flatMap_cons]

/-- The waits of a timeline's program end at the synchronisation points behind cycle 0, each with
the access of its cycle. -/
theorem waits_flatMap {count : Nat} (inside : count ≤ t.cycle.toNat + 1) :
    waits 0 ((List.range count).flatMap t.stepsInto) =
      ((List.range count).filter fun cycle => cycle ≠ 0 ∧ t.isPoint cycle).map
        fun cycle => (cycle, (t.slotAt (.ofNat cycle)).site) := by
  induction count with
  | zero => rfl
  | succ count ih =>
    rw [List.range_succ, List.flatMap_append, waits_append, ih (by omega), Nat.zero_add,
      cycles_flatMap (by omega), List.flatMap_singleton, waits_stepsInto (by omega),
      List.filter_append, List.map_append]
    by_cases point : count ≠ 0 ∧ t.isPoint count <;> simp [point]

theorem timedOps_flatMap {count : Nat} (inside : count ≤ t.cycle.toNat + 1) :
    timedOps 0 ((List.range count).flatMap t.stepsInto) =
      (List.range count).flatMap fun cycle =>
        (t.slotAt (.ofNat cycle)).ops.map ((t.reached (cycle + 1)).toNat, ·) := by
  induction count with
  | zero => rfl
  | succ count ih =>
    rw [List.range_succ, List.flatMap_append, timedOps_append, ih (by omega), Nat.zero_add,
      cycles_flatMap (by omega), List.flatMap_singleton, timedOps_stepsInto (by omega),
      List.flatMap_append, List.flatMap_singleton]

theorem one_le_of_mem_waitBetween {first last : UInt32} {site : Option Site} {s : Step}
    (member : s ∈ waitBetween first last site) : 1 ≤ s.length := by
  simp only [waitBetween] at member
  split at member
  case isTrue before =>
    have positive : 1 ≤ (last - first).toNat := by
      rw [UInt32.toNat_sub_of_le _ _ (UInt32.le_of_lt before)]
      exact Nat.sub_pos_of_lt (UInt32.lt_iff_toNat_lt.1 before)
    cases site <;> (rw [List.mem_singleton.1 member]; exact positive)
  case isFalse after => cases member

theorem one_le_of_mem_stepsInto {cycle : Nat} {s : Step} (member : s ∈ t.stepsInto cycle)
    (wait : s.isWait) : 1 ≤ s.length := by
  rw [Timeline.stepsInto, List.mem_append, leadUp] at member
  rcases member with led | performed
  · split at led
    · exact one_le_of_mem_waitBetween led
    · cases led
  · obtain ⟨op, -, rfl⟩ := List.mem_map.1 performed
    cases wait

/-- The program of a timeline: it has the operations of all cycles up to the last one, in order; its
waits end at the synchronisation points and wait for their accesses; and an operation is performed
at its own cycle, or at the last synchronisation point before it. -/
theorem ofTimeline_structure (t : Timeline) :
    let steps := ofTimeline t
    let last := t.cycle.toNat
    let points := (List.range (last + 1)).filter fun cycle => cycle ≠ 0 ∧ t.isPoint cycle
    operations steps =
        (List.range (last + 1)).flatMap (fun cycle => (t.slotAt (.ofNat cycle)).ops) ∧
      (∀ s ∈ steps, s.isWait → 1 ≤ s.length) ∧ cycles steps = last ∧
      waits 0 steps = points.map (fun cycle => (cycle, (t.slotAt (.ofNat cycle)).site)) ∧
      ∃ total : Nat → Nat,
        timedOps 0 steps = (List.range (last + 1)).flatMap
          (fun cycle => (t.slotAt (.ofNat cycle)).ops.map (total cycle, ·)) ∧
        ∀ cycle ≤ last, (t.isPoint cycle → total cycle = cycle) ∧
          IsGreatest {point | (point = 0 ∨ point ∈ points) ∧ point ≤ cycle} (total cycle) := by
  intro steps last points
  have program : steps = (List.range (last + 1)).flatMap t.stepsInto := ofTimeline_eq t
  have timed := timedOps_flatMap (t := t) (Nat.le_refl _)
  rw [← program] at timed
  have performed := operations_flatMap t (List.range (last + 1))
  rw [← program] at performed
  have positive : ∀ s ∈ steps, s.isWait → 1 ≤ s.length := by
    intro s member wait
    rw [program] at member
    obtain ⟨cycle, -, member⟩ := List.mem_flatMap.1 member
    exact one_le_of_mem_stepsInto member wait
  have whole : t.isPoint last := .inr rfl
  have length : cycles steps = last := by
    rw [program, cycles_flatMap (Nat.le_refl _), Timeline.toNat_reached_succ (Nat.le_refl _),
      if_pos whole]
  have waited := waits_flatMap (t := t) (Nat.le_refl _)
  rw [← program] at waited
  refine ⟨performed, positive, length, waited, fun cycle => (t.reached (cycle + 1)).toNat, timed,
    fun cycle inside => ⟨fun point => ?_, ?_⟩⟩
  · exact (Timeline.toNat_reached_succ inside).trans (if_pos point)
  · have candidates : {point | (point = 0 ∨ point ∈ points) ∧ point ≤ cycle} =
        {point | (point = 0 ∨ t.isPoint point) ∧ point ≤ cycle} := by
      ext point
      refine and_congr_left fun low => or_congr_right' fun other => ?_
      have within : point < last + 1 := by omega
      simp [points, within, other]
    rw [candidates]
    exact Timeline.isGreatest_reached inside

end Step

end Cycle6502
