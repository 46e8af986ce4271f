import Cycle6502.Proofs.Bus.Time
import Cycle6502.Proofs.Timing.Folding
import Cycle6502.Proofs.Timing.Stretch

/-! Timelines run cycle by cycle, and the steps that their idle cycles are folded into. The two
runs are never further apart than the cycles since the last synchronisation point, where the
folded run has yet to wait; no access can tell. -/

set_option autoImplicit false

namespace Cycle6502

namespace Timeline

section
variable {β : Type} [Bus β]

def awaited (t : Timeline) (cycle : UInt32) : Option Site :=
  match t.slot? cycle with
  | some slot => if t.synchronous cycle slot then slot.site else none
  | none => none

/-- The cycles that pass on the way into a cycle: one, and those that the slow bus adds. -/
def cyclesInto (t : Timeline) (cycle : UInt32) (c : Cpu β) (l : Latches) : UInt32 :=
  match t.awaited cycle with
  | some site => 1 + Step.stretch 1 (Bus.isSlow c.bus (l.resolve site)) c.clock
  | none => 1

def enter (t : Timeline) (cycle : UInt32) (c : Cpu β) (l : Latches) : Cpu β :=
  if cycle = 0 then c else c.wait (t.cyclesInto cycle c l)

def opsAt (t : Timeline) (cycle : UInt32) : List MicroOp :=
  match t.slot? cycle with
  | some slot => slot.ops
  | none => []

def runCycle (t : Timeline) (state : Cpu β × Latches) (cycle : Nat) : Cpu β × Latches :=
  MicroOp.performAll (t.opsAt (.ofNat cycle)) (t.enter (.ofNat cycle) state.1 state.2) state.2

def runSpan (t : Timeline) (first count : Nat) (c : Cpu β) (l : Latches) : Cpu β × Latches :=
  (List.range' first count).foldl t.runCycle (c, l)

/-- Runs a timeline cycle by cycle, from cycle 0 to its last one. -/
def runCycles (t : Timeline) (c : Cpu β) (l : Latches) : Cpu β × Latches :=
  t.runSpan 0 (t.cycle.toNat + 1) c l

theorem runSpan_succ (t : Timeline) (first count : Nat) (c : Cpu β) (l : Latches) :
    t.runSpan first (count + 1) c l =
      t.runSpan (first + 1) count (t.runCycle (c, l) first).1 (t.runCycle (c, l) first).2 := rfl

theorem runSpan_add (t : Timeline) (first count more : Nat) (c : Cpu β) (l : Latches) :
    t.runSpan first (count + more) c l =
      t.runSpan (first + count) more (t.runSpan first count c l).1 (t.runSpan first count c l).2 := by
  unfold runSpan
  rw [← List.range'_append_1, List.foldl_append]

end

end Timeline

section
variable (t : Timeline) (cycle start : UInt32) {m m' : Machine} (l : Latches)

theorem Timeline.enter_later (free : t.awaited cycle = none)
    (earlier : start.toNat ≤ cycle.toNat - 1)
    (s : Cpu.Similar (Board.Later (cycle.toNat - 1 - start.toNat)) True m m') :
    Cpu.Similar (Board.Later (cycle.toNat - start.toNat)) True m (t.enter cycle m' l) := by
  unfold enter
  split
  case isTrue first =>
    have zero : cycle.toNat = 0 := by rw [first]; rfl
    simpa only [zero] using s
  case isFalse later =>
    have positive : cycle.toNat ≠ 0 := fun zero => later (UInt32.toNat_inj.1 zero)
    have one : t.cyclesInto cycle m' l = 1 := by rw [cyclesInto, free]
    have lag : cycle.toNat - start.toNat = cycle.toNat - 1 - start.toNat + (1 : UInt32).toNat := by
      rw [UInt32.toNat_one]
      omega
    rw [one, lag]
    exact { s with bus := s.bus.advance 1 }

/-- On the way into a synchronous cycle the first run catches up: what it has to wait for is
decided by the parity of the clock before the last cycle, which is the same on both sides. -/
theorem Timeline.enter_alike (short : cycle.toNat < 2 ^ 32 - 2)
    (earlier : start.toNat ≤ cycle.toNat - 1)
    (s : Cpu.Similar (Board.Later (cycle.toNat - 1 - start.toNat)) True m m') :
    let waited := Step.performAll (Step.waitBetween start cycle (t.awaited cycle)) m l
    Cpu.Similar (Board.Later 0) True waited.1 (t.enter cycle m' l) ∧ waited.2 = l := by
  unfold enter
  split
  case isTrue first =>
    have zero : cycle.toNat = 0 := by rw [first]; rfl
    have lag : cycle.toNat - 1 - start.toNat = 0 := by omega
    rw [lag] at s
    -- An instruction is in its first cycle from the start; there is nothing to wait for.
    rw [Step.waitBetween_of_le _ (first ▸ UInt32.zero_le)]
    exact ⟨s, rfl⟩
  case isFalse later =>
    have positive : cycle.toNat ≠ 0 := fun zero => later (UInt32.toNat_inj.1 zero)
    have before : start < cycle := UInt32.lt_iff_toNat_lt.2 (by omega)
    have length : (cycle - start).toNat = cycle.toNat - 1 - start.toNat + 1 := by
      rw [UInt32.toNat_sub_of_le _ _ (UInt32.le_of_lt before)]
      omega
    simp only [Step.waitBetween, if_pos before, cyclesInto]
    cases t.awaited cycle with
    | none => exact ⟨{ s with bus := s.bus.meet length }, rfl⟩
    | some site =>
      -- The wait in one piece starts earlier by as many cycles as it is longer, so the parity in
      -- front of its last cycle is that of the other run.
      have stretch : Step.stretch (cycle - start) (isOneMegahertz (l.resolve site)) m.bus.clock =
          Step.stretch 1 (isOneMegahertz (l.resolve site)) m'.bus.clock := by
        rw [← s.bus.clock, ← UInt32.ofNat_toNat (x := cycle - start), length, Step.stretch_add]
        rfl
      -- A stretch is two cycles at most: neither sum wraps in a short timeline.
      have bound := Step.toNat_stretch_le 1 (isOneMegahertz (l.resolve site)) m'.bus.clock
      refine ⟨{ s with bus := s.bus.meet ?_ }, rfl⟩
      change (cycle - start + Step.stretch (cycle - start) (isOneMegahertz (l.resolve site))
        m.bus.clock).toNat = _ + (1 + Step.stretch 1 (isOneMegahertz (l.resolve site))
        m'.bus.clock).toNat
      rw [stretch, UInt32.toNat_add, UInt32.toNat_add, length, UInt32.toNat_one]
      omega

end

section
variable (t : Timeline) {m m' : Machine} (l : Latches)

theorem Timeline.runSpan_idle (start : UInt32) (first count : Nat)
    (idle : ∀ k, first ≤ k → k < first + count → t.slot? (.ofNat k) = none)
    (inside : first + count ≤ 2 ^ 32) (earlier : start.toNat ≤ first - 1)
    (s : Cpu.Similar (Board.Later (first - 1 - start.toNat)) True m m') :
    Cpu.Similar (Board.Later (first + count - 1 - start.toNat)) True m
        (t.runSpan first count m' l).1 ∧
      (t.runSpan first count m' l).2 = l := by
  -- Each cycle is entered without an awaited access and performs nothing, so it adds one to the
  -- distance between the runs.
  induction count generalizing first m' with
  | zero => exact ⟨s, rfl⟩
  | succ count ih =>
    have missing := idle first (Nat.le_refl _) (by omega)
    have number : (UInt32.ofNat first).toNat = first := by
      rw [UInt32.toNat_ofNat']
      omega
    have entered := enter_later t (.ofNat first) start l (by rw [awaited, missing])
      (by rw [number]; exact earlier) (by rw [number]; exact s)
    have ran : t.runCycle (m', l) first = (t.enter (.ofNat first) m' l, l) := by
      rw [runCycle, opsAt, missing]
      rfl
    rw [number] at entered
    rw [runSpan_succ, ran, Nat.add_comm count 1, ← Nat.add_assoc]
    exact ih (first + 1) (fun k low high => idle k (by omega) (by omega)) (by omega) (by omega)
      entered

end

structure Timeline.From (t : Timeline) (first : Nat) (slots : Slots) : Prop where
  ascending : slots.Ascending
  above : ∀ entry ∈ slots, first ≤ entry.1.toNat
  found : ∀ cycle : UInt32, first ≤ cycle.toNat → t.slot? cycle = slots.find? cycle

namespace Timeline.From

variable {t : Timeline} {first : Nat} {slots rest : Slots} {cycle : UInt32} {slot : Slot}

theorem whole (t : Timeline) : t.From 0 t.slots :=
  ⟨t.ascending, fun _ _ => Nat.zero_le _, fun _ _ => rfl⟩

theorem head (left : t.From first ((cycle, slot) :: rest)) : t.slot? cycle = some slot := by
  rw [left.found cycle (left.above _ List.mem_cons_self)]
  exact List.lookup_cons_self

theorem tail (left : t.From first ((cycle, slot) :: rest)) : t.From (cycle.toNat + 1) rest where
  ascending := (List.pairwise_cons.1 left.ascending).2
  above entry member :=
    UInt32.lt_iff_toNat_lt.1 ((List.pairwise_cons.1 left.ascending).1 entry member)
  found later above := by
    have start : first ≤ cycle.toNat := left.above _ List.mem_cons_self
    have different : (later == cycle) = false := by
      refine beq_eq_false_iff_ne.2 fun same => ?_
      rw [same] at above
      exact Nat.lt_irrefl _ above
    rw [left.found later (by omega), Slots.find?, List.lookup_cons, different]
    rfl

theorem head_le (left : t.From first ((cycle, slot) :: rest)) :
    ∀ entry ∈ (cycle, slot) :: rest, cycle.toNat ≤ entry.1.toNat := by
  intro entry member
  rcases List.mem_cons.1 member with same | member
  · exact Nat.le_of_eq (congrArg (·.1.toNat) same.symm)
  · exact Nat.le_of_succ_le (left.tail.above entry member)

theorem idle (left : t.From first slots) (last : Nat) (short : last ≤ 2 ^ 32)
    (beyond : ∀ entry ∈ slots, last ≤ entry.1.toNat) (k : Nat) (low : first ≤ k) (high : k < last) :
    t.slot? (.ofNat k) = none := by
  have number : (UInt32.ofNat k).toNat = k := by
    rw [UInt32.toNat_ofNat']
    omega
  rw [left.found _ (by omega)]
  refine List.lookup_eq_none_iff.2 fun entry member => ?_
  refine bne_iff_ne.2 fun same => ?_
  have above := beyond entry member
  rw [← same, number] at above
  exact Nat.not_le_of_lt high above

end Timeline.From

section
variable {t : Timeline} {first : Nat} {slots rest : Slots} {reached cycle : UInt32} {slot : Slot}
  {m m' : Machine} (l : Latches)

/-- Both runs enter the next slot: they are as far apart then as the cycle is from the last
synchronisation point. -/
theorem Step.leadUp_similar (left : t.From first ((cycle, slot) :: rest))
    (short : t.cycle.toNat < 2 ^ 32 - 2) (inside : cycle ≤ t.cycle)
    (earlier : reached.toNat ≤ first - 1)
    (s : Cpu.Similar (Board.Later (first - 1 - reached.toNat)) True m m') :
    let led := Step.performAll (leadUp t reached cycle slot) m l
    let idled := t.runSpan first (cycle.toNat - first) m' l
    Cpu.Similar (Board.Later (cycle.toNat - (reachedAfter t reached cycle slot).toNat)) True led.1
        (t.enter cycle idled.1 l) ∧
      led.2 = l ∧ idled.2 = l := by
  intro led idled
  have start : first ≤ cycle.toNat := left.above _ List.mem_cons_self
  have bound := UInt32.le_iff_toNat_le.1 inside
  have idle := Timeline.runSpan_idle t l reached first (cycle.toNat - first)
    (fun k low high => left.idle _ (by omega) left.head_le k low (by omega)) (by omega) earlier s
  obtain ⟨behind, same⟩ := idle
  rw [Nat.add_sub_cancel' start] at behind
  -- A synchronous slot makes the runs meet; any other lets them drift further apart.
  cases sync : t.synchronous cycle slot with
  | true =>
    have awaited : t.awaited cycle = slot.site := by rw [Timeline.awaited, left.head]; simp [sync]
    have met := Timeline.enter_alike t cycle reached l (by omega) (by omega) behind
    rw [awaited] at met
    simp only [led, leadUp, reachedAfter, sync, if_true, Nat.sub_self]
    exact ⟨met.1, met.2, same⟩
  | false =>
    have awaited : t.awaited cycle = none := by rw [Timeline.awaited, left.head]; simp [sync]
    simp only [led, leadUp, reachedAfter, sync]
    exact ⟨Timeline.enter_later t cycle reached l awaited (by omega) behind, rfl, same⟩

theorem Step.slot_similar (left : t.From first ((cycle, slot) :: rest))
    (short : t.cycle.toNat < 2 ^ 32 - 2) (inside : cycle ≤ t.cycle)
    (earlier : reached.toNat ≤ first - 1)
    (s : Cpu.Similar (Board.Later (first - 1 - reached.toNat)) True m m') :
    let led := Step.performAll (leadUp t reached cycle slot ++ slot.ops.map .op) m l
    let ran := t.runSpan first (cycle.toNat - first + 1) m' l
    Cpu.Similar (Board.Later (cycle.toNat - (reachedAfter t reached cycle slot).toNat)) True led.1
        ran.1 ∧
      led.2 = ran.2 := by
  intro led ran
  have start : first ≤ cycle.toNat := left.above _ List.mem_cons_self
  obtain ⟨entered, waited, idled⟩ := leadUp_similar l left short inside earlier s
  have ops : t.opsAt cycle = slot.ops := by rw [Timeline.opsAt, left.head]
  have led_eq : led = MicroOp.performAll slot.ops
      (Step.performAll (leadUp t reached cycle slot) m l).1 l := by
    simp only [led, performAll_append, performAll_ops, waited]
  have ran_eq : ran = MicroOp.performAll slot.ops
      (t.enter cycle (t.runSpan first (cycle.toNat - first) m' l).1 l) l := by
    simp only [ran, Timeline.runSpan_add, idled, Nat.add_sub_cancel' start]
    change t.runCycle (_, l) cycle.toNat = _
    rw [Timeline.runCycle, UInt32.ofNat_toNat, ops]
  -- The operations may take time of their own, but they take the same on both sides.
  rw [led_eq, ran_eq]
  exact MicroOp.performAll_similar (Board.Later.simulation _) slot.ops l entered

theorem Step.reachedAfter_le (t : Timeline) (slot : Slot) (earlier : reached.toNat ≤ cycle.toNat) :
    (reachedAfter t reached cycle slot).toNat ≤ cycle.toNat := by
  unfold reachedAfter
  split
  · exact Nat.le_refl _
  · exact earlier

theorem Step.tail_similar (left : t.From first slots) (beyond : ∀ entry ∈ slots, t.cycle < entry.1)
    (short : t.cycle.toNat < 2 ^ 32 - 2) (inside : first ≤ t.cycle.toNat + 1)
    (earlier : reached.toNat ≤ first - 1)
    (s : Cpu.Similar (Board.Later (first - 1 - reached.toNat)) True m m') :
    let folded := Step.performAll (ofSlots t.cycle reached slots) m l
    let cycled := t.runSpan first (t.cycle.toNat + 1 - first) m' l
    Cpu.Similar (Board.Later 0) True folded.1 cycled.1 ∧ folded.2 = cycled.2 := by
  have idle (k : Nat) (low : first ≤ k) (high : k < first + (t.cycle.toNat + 1 - first)) :
      t.slot? (.ofNat k) = none :=
    left.idle (t.cycle.toNat + 1) (by omega)
      (fun entry member => UInt32.lt_iff_toNat_lt.1 (beyond entry member)) k low (by omega)
  obtain ⟨behind, same⟩ := Timeline.runSpan_idle t l reached first _ idle (by omega) earlier s
  have lag : first + (t.cycle.toNat + 1 - first) - 1 - reached.toNat =
      t.cycle.toNat - reached.toNat := by omega
  rw [lag] at behind
  -- No access follows, so the last wait is not lengthened on either side.
  simp only [ofSlots_beyond beyond, waitBetween, same]
  split
  case isTrue before =>
    have length : t.cycle.toNat - reached.toNat = 0 + (t.cycle - reached).toNat := by
      rw [UInt32.toNat_sub_of_le _ _ (UInt32.le_of_lt before), Nat.zero_add]
    rw [length] at behind
    exact ⟨{ behind with bus := behind.bus.catchUp }, rfl⟩
  case isFalse after =>
    have none : t.cycle.toNat - reached.toNat = 0 :=
      Nat.sub_eq_zero_of_le (UInt32.le_iff_toNat_le.1 (UInt32.not_lt.1 after))
    rw [none] at behind
    exact ⟨behind, rfl⟩

/-- From one synchronisation point on both runs end alike. -/
theorem Step.ofSlots_similar (left : t.From first slots) (short : t.cycle.toNat < 2 ^ 32 - 2)
    (inside : first ≤ t.cycle.toNat + 1) (earlier : reached.toNat ≤ first - 1)
    (s : Cpu.Similar (Board.Later (first - 1 - reached.toNat)) True m m') :
    let folded := Step.performAll (ofSlots t.cycle reached slots) m l
    let cycled := t.runSpan first (t.cycle.toNat + 1 - first) m' l
    Cpu.Similar (Board.Later 0) True folded.1 cycled.1 ∧ folded.2 = cycled.2 := by
  -- The induction is on the slots that are left; the distance between the runs is the invariant.
  induction slots generalizing first reached m m' l with
  | nil => exact tail_similar l left (fun _ none => nomatch none) short inside earlier s
  | cons head rest ih =>
    obtain ⟨cycle, slot⟩ := head
    by_cases within : cycle ≤ t.cycle
    · have bound := UInt32.le_iff_toNat_le.1 within
      have start : first ≤ cycle.toNat := left.above _ List.mem_cons_self
      have count : t.cycle.toNat + 1 - first =
          cycle.toNat - first + 1 + (t.cycle.toNat + 1 - (cycle.toNat + 1)) := by omega
      have next : first + (cycle.toNat - first + 1) = cycle.toNat + 1 := by omega
      obtain ⟨ran, same⟩ := slot_similar l left short within earlier s
      rw [ofSlots_cons t within left.ascending, performAll_append, count, Timeline.runSpan_add, next,
        ← same]
      exact ih _ left.tail (by omega) (reachedAfter_le t slot (by omega)) ran
    -- Slots ascend: if one is behind the end, so are all that follow.
    · refine tail_similar l left (fun entry member => ?_) short inside earlier s
      exact UInt32.lt_iff_toNat_lt.2 (Nat.lt_of_lt_of_le
        (UInt32.lt_iff_toNat_lt.1 (UInt32.not_le.1 within)) (left.head_le entry member))

/-- The steps up to a synchronous slot perform what the slots before it hold, wait for the cycles
before it, and lead to its operations as the cycles do. -/
theorem Step.ofSlots_split (left : t.From first slots) (short : t.cycle.toNat < 2 ^ 32 - 2)
    (earlier : reached.toNat ≤ first - 1)
    (s : Cpu.Similar (Board.Later (first - 1 - reached.toNat)) True m m')
    (member : (cycle, slot) ∈ slots) (sync : t.synchronous cycle slot) (inside : cycle ≤ t.cycle) :
    ∃ before after, ofSlots t.cycle reached slots = before ++ slot.ops.map .op ++ after ∧
      operations before = (slots.filter (·.1 < cycle)).flatMap (·.2.ops) ∧
      cycles before + reached.toNat = cycle.toNat ∧
      let start := performAll before m l
      let ran := t.runSpan first (cycle.toNat - first) m' l
      Cpu.Similar (Board.Later 0) True start.1 (t.enter cycle ran.1 ran.2) ∧ start.2 = ran.2 := by
  -- The slots up to the one in question are passed as above; its own lead-up ends there.
  induction slots generalizing first reached m m' l with
  | nil => exact nomatch member
  | cons head rest ih =>
    obtain ⟨cycle', slot'⟩ := head
    have start : first ≤ cycle'.toNat := left.above _ List.mem_cons_self
    rcases List.mem_cons.1 member with same | member
    · obtain ⟨rfl, rfl⟩ := Prod.mk.inj same
      have order : reached ≤ cycle := UInt32.le_iff_toNat_le.2 (by omega)
      obtain ⟨entered, waited, idled⟩ := leadUp_similar l left short inside earlier s
      have reaches : reachedAfter t reached cycle slot = cycle := if_pos sync
      refine ⟨leadUp t reached cycle slot, _, ofSlots_cons t inside left.ascending, ?_, ?_, ?_, ?_⟩
      · have none : ((cycle, slot) :: rest).filter (·.1 < cycle) = [] := by
          refine List.filter_eq_nil_iff.2 fun entry member => ?_
          have above := left.head_le entry member
          simpa [UInt32.lt_iff_toNat_lt] using above
        rw [operations_leadUp, none]
        rfl
      · rw [cycles_leadUp t slot order, reaches]
      · rw [reaches, Nat.sub_self] at entered
        rw [idled]
        exact entered
      · rw [waited, idled]
    · have above : cycle'.toNat + 1 ≤ cycle.toNat := left.tail.above _ member
      have below : cycle' < cycle := UInt32.lt_iff_toNat_lt.2 above
      have within : cycle' ≤ t.cycle := UInt32.le_of_lt (UInt32.lt_of_lt_of_le below inside)
      have order : reached ≤ cycle' := UInt32.le_iff_toNat_le.2 (by omega)
      obtain ⟨ran, same⟩ := slot_similar l left short within earlier s
      obtain ⟨before, after, split, operations_eq, cycles_eq, alike, latches⟩ :=
        ih _ left.tail (reachedAfter_le t slot' (by omega)) ran member
      have count : cycle.toNat - first =
          cycle'.toNat - first + 1 + (cycle.toNat - (cycle'.toNat + 1)) := by omega
      have next : first + (cycle'.toNat - first + 1) = cycle'.toNat + 1 := by omega
      refine ⟨leadUp t reached cycle' slot' ++ slot'.ops.map .op ++ before, after, ?_, ?_, ?_, ?_⟩
      · rw [ofSlots_cons t within left.ascending, split]
        simp only [List.append_assoc]
      · rw [operations_append, operations_append, operations_leadUp, operations_ops, operations_eq,
          List.filter_cons_of_pos (by simpa using below)]
        rfl
      · rw [cycles_append, cycles_append, cycles_ops, ← cycles_eq, ← cycles_leadUp t slot' order]
        omega
      · rw [performAll_append, count, Timeline.runSpan_add, next, ← same]
        exact ⟨alike, latches⟩

end

def Timeline.operationsBefore (t : Timeline) (cycle : UInt32) : List MicroOp :=
  (t.slots.filter (·.1 < cycle)).flatMap (·.2.ops)

structure Machine.Alike (m m' : Machine) : Prop where
  registers : m.registers = m'.registers
  pc : m.pc = m'.pc
  flags : m.flags = m'.flags
  halted : m.halted = m'.halted
  pending : m.interruptPending = m'.interruptPending
  ram : m.bus.ram = m'.bus.ram
  feedback : m.bus.feedback = m'.bus.feedback
  lines : m.bus.lines = m'.bus.lines
  clock : m.bus.clock = m'.bus.clock
  accesses : m.bus.events.accesses = m'.bus.events.accesses

theorem Machine.Alike.of_similar {m m' : Machine}
    (s : Cpu.Similar (Board.Later 0) True m m') : Machine.Alike m m' where
  registers := s.registers
  pc := s.pc
  flags := s.flags
  halted := s.halted
  pending := s.pending trivial
  ram := s.bus.ram
  feedback := s.bus.feedback
  lines := s.bus.lines
  clock := by simpa using s.bus.clock
  accesses := s.bus.accesses

/-- Folding idle cycles into waits does not show. The steps of a timeline do what its cycles do one
by one, and the operations of every synchronous slot start at the same clock on both sides. -/
theorem performAll_ofTimeline_alike (t : Timeline) (m : Machine) (l : Latches)
    (short : t.cycle.toNat < 2 ^ 32 - 2) :
    let folded := Step.performAll (Step.ofTimeline t) m l
    let cycled := t.runCycles m l
    Machine.Alike folded.1 cycled.1 ∧ folded.2 = cycled.2 ∧
      ∀ cycle slot, (cycle, slot) ∈ t.slots → t.synchronous cycle slot → cycle ≤ t.cycle →
        ∃ before after, Step.ofTimeline t = before ++ slot.ops.map .op ++ after ∧
          Step.operations before = t.operationsBefore cycle ∧
          Step.cycles before = cycle.toNat ∧
          let start := Step.performAll before m l
          let ran := t.runSpan 0 cycle.toNat m l
          Machine.Alike start.1 (t.enter cycle ran.1 ran.2) ∧ start.2 = ran.2 := by
  have whole := Timeline.From.whole t
  have start : Cpu.Similar (Board.Later (0 - 1 - (0 : UInt32).toNat)) True m m :=
    ⟨⟨.refl _, UInt64.add_zero _⟩, rfl, rfl, rfl, rfl, rfl, fun _ => rfl⟩
  obtain ⟨alike, latches⟩ := Step.ofSlots_similar l whole short (Nat.zero_le _) (Nat.zero_le _) start
  refine ⟨.of_similar alike, latches, fun cycle slot member sync inside => ?_⟩
  obtain ⟨before, after, split, operations, cycles, alike, latches⟩ :=
    Step.ofSlots_split l whole short (Nat.zero_le _) start member sync inside
  exact ⟨before, after, split, operations, cycles, .of_similar alike, latches⟩

theorem performAll_ofTimeline_alike_increment :
    let t := (Timeline.absolute (.modifying [.incrementOperand])).finish
    let m : Machine := { bus := { Board.new with clock := 3 }, microcode := .build .nmos .table }
    t.cycle.toNat < 2 ^ 32 - 2 ∧
      Machine.Alike (Step.performAll (Step.ofTimeline t) m {}).1 (t.runCycles m {}).1 :=
  ⟨by decide, (performAll_ofTimeline_alike _ _ _ (by decide)).1⟩

end Cycle6502
