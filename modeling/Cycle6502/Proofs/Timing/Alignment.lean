import Cycle6502.Proofs.Instruction.Step
import Cycle6502.Proofs.Instruction.Textbook
import Cycle6502.Proofs.Timing.Programs
import Cycle6502.Proofs.Timing.Stretch
import Mathlib.Order.Bounds.Defs

/-! The slow bus in whole runs. Every access of an instruction comes out of a wait that was
lengthened for its own address, so the slow ones are made at odd clocks. -/

set_option autoImplicit false

namespace Cycle6502

/-- How long the slow bus puts off an access that is due at a clock. -/
def Textbook.delay (due : Nat) (addr : UInt16) : Nat :=
  if isOneMegahertz addr then due % 2 + 1 else 0

namespace Step

theorem stretch_pieces (first last : UInt32) (slow : Bool) (now : UInt64) :
    stretch (first + last) slow now = stretch last slow (now + first.toUInt64) := by
  have whole : UInt32.ofNat (first.toNat + last.toNat) = first + last := by
    rw [UInt32.ofNat_add, UInt32.ofNat_toNat, UInt32.ofNat_toNat]
  rw [← whole, stretch_add, UInt32.ofNat_toNat, ← toUInt64_eq_ofNat]

/-- The end of a stretched wait, whose access was due at the end of its cycles. -/
theorem clock_stretchedWait (m : Machine) (l : Latches) {cycles : UInt32} (site : Site)
    (short : cycles.toNat < 2 ^ 32 - 2) :
    ((stretchedWait cycles site).perform m l).1.bus.clock =
      m.bus.clock + .ofNat (cycles.toNat +
        Textbook.delay (m.bus.clock.toNat + cycles.toNat) (l.resolve site)) := by
  let slow := isOneMegahertz (l.resolve site)
  have delay : (stretch cycles slow m.bus.clock).toNat =
      Textbook.delay (m.bus.clock.toNat + cycles.toNat) (l.resolve site) := by
    rw [stretch_eq, Textbook.delay]
    split
    · rw [UInt32.toNat_ofNat']
      omega
    · rfl
  change m.bus.clock + (cycles + stretch cycles slow m.bus.clock).toUInt64 = _
  rw [toUInt64_eq_ofNat, toNat_stretched short, delay]

end Step

structure Moment where
  step : Step
  machine : Machine
  latches : Latches

namespace Moment

def clock (a : Moment) : Nat := a.machine.bus.clock.toNat

def target (a : Moment) (site : Site) : UInt16 := a.latches.resolve site

/-- A wait that ends where an access is made. It was lengthened for the address of the access, by
no more than brings a slow one to an odd clock. -/
structure Leads (wait : Moment) (cycles : UInt32) (extra : Nat) (access : Moment) (site : Site) :
    Prop where
  step : wait.step = .stretchedWait cycles site
  target : wait.target site = access.target site
  clock : access.machine.bus.clock = wait.machine.bus.clock + .ofNat (cycles.toNat + extra)
  slow : isOneMegahertz (access.target site) → access.clock % 2 = 1 ∧ (extra = 1 ∨ extra = 2) ∧
    IsLeast {k | 1 ≤ k ∧ (wait.clock + cycles.toNat + k) % 2 = 1} extra
  fast : isOneMegahertz (access.target site) = false → extra = 0

/-- Every access comes out of a wait of its own, with nothing between them but a sample of the
interrupt lines. -/
def Aligned (moments : List Moment) : Prop :=
  ∀ before access after site, moments = before ++ access :: after →
    access.step.busSite = some site →
    ∃ earlier wait probes cycles extra, before = earlier ++ wait :: probes ∧
      (∀ probe ∈ probes, probe.step = .op .checkInterrupt) ∧ wait.Leads cycles extra access site

theorem Aligned.append {first rest : List Moment} (one : Aligned first) (other : Aligned rest) :
    Aligned (first ++ rest) := by
  intro before access after site split accesses
  rcases List.append_eq_append_iff.1 split with ⟨inner, rfl, later⟩ | ⟨inner, former, later⟩
  · obtain ⟨earlier, wait, probes, cycles, extra, rfl, found⟩ :=
      other inner access after site later accesses
    exact ⟨first ++ earlier, wait, probes, cycles, extra, by simp, found⟩
  · cases inner with
    -- The first access of a part has its wait in that part.
    | nil =>
      obtain ⟨earlier, wait, probes, cycles, extra, nothing, -⟩ :=
        other [] access after site later.symm accesses
      simp at nothing
    | cons head inner =>
      obtain ⟨rfl, -⟩ := List.cons.inj later
      exact one before access inner site former accesses

end Moment

namespace Step

def trail : List Step → Machine → Latches → List Moment
  | [], _, _ => []
  | s :: rest, m, l => ⟨s, m, l⟩ :: trail rest (s.perform m l).1 (s.perform m l).2

theorem trail_append (first rest : List Step) (m : Machine) (l : Latches) :
    trail (first ++ rest) m l =
      trail first m l ++ trail rest (performAll first m l).1 (performAll first m l).2 := by
  induction first generalizing m l with
  | nil => rfl
  | cons s first ih => exact congrArg (_ :: ·) (ih _ _)

theorem trail_split {steps : List Step} {m : Machine} {l : Latches} {before after : List Moment}
    {access : Moment} (split : trail steps m l = before ++ access :: after) :
    ∃ first rest, steps = first ++ access.step :: rest ∧ before = trail first m l ∧
      access.machine = (performAll first m l).1 ∧ access.latches = (performAll first m l).2 := by
  induction steps generalizing m l before with
  | nil => simp [trail] at split
  | cons s steps ih =>
    cases before with
    | nil =>
      obtain ⟨rfl, -⟩ := List.cons.inj split
      exact ⟨[], steps, rfl, rfl, rfl, rfl⟩
    | cons head before =>
      obtain ⟨rfl, remainder⟩ := List.cons.inj split
      obtain ⟨first, rest, rfl, rfl, machine, latches⟩ := ih remainder
      exact ⟨s :: first, rest, rfl, rfl, machine, latches⟩

theorem map_step_trail (steps : List Step) (m : Machine) (l : Latches) :
    (trail steps m l).map (·.step) = steps := by
  induction steps generalizing m l with
  | nil => rfl
  | cons s rest ih => exact congrArg (s :: ·) (ih _ _)

theorem guarded_waiting {awaited : Option Site} {s : Step} {rest : List Step}
    (guarded : Step.guarded awaited (s :: rest)) (wait : ∀ m, s ≠ .op m) : awaited = none := by
  cases awaited with
  | none => rfl
  | some site =>
    cases s with
    | op m => exact absurd rfl (wait m)
    | wait cycles => simp [Step.guarded] at guarded
    | stretchedWait cycles at' => simp [Step.guarded] at guarded

/-- What is in front of an access begins with its wait, unless that has passed already. -/
theorem guarded_split {awaited : Option Site} {first rest : List Step} {access : Step}
    {site : Site} (guarded : Step.guarded awaited (first ++ access :: rest))
    (accesses : access.busSite = some site) :
    (awaited = some site ∧ ∀ s ∈ first, s = .op .checkInterrupt) ∨
      ∃ earlier cycles checks, first = earlier ++ .stretchedWait cycles site :: checks ∧
        ∀ s ∈ checks, s = .op .checkInterrupt := by
  induction first generalizing awaited with
  | nil =>
    cases access with
    | op m =>
      have different : m ≠ .checkInterrupt := by
        rintro rfl
        cases accesses
      simp only [List.nil_append, Step.guarded, if_neg different, Bool.and_eq_true,
        beq_iff_eq] at guarded
      exact .inl ⟨guarded.1.symm.trans accesses, by simp⟩
    | wait cycles => cases accesses
    | stretchedWait cycles at' => cases accesses
  | cons head first ih =>
    -- A wait that is found further on is found behind this step as well.
    have further (found : ∃ earlier cycles checks,
        first = earlier ++ .stretchedWait cycles site :: checks ∧
          ∀ s ∈ checks, s = .op .checkInterrupt) :
        ∃ earlier cycles checks, head :: first = earlier ++ .stretchedWait cycles site :: checks ∧
          ∀ s ∈ checks, s = .op .checkInterrupt := by
      obtain ⟨earlier, cycles, checks, rfl, probes⟩ := found
      exact ⟨head :: earlier, cycles, checks, rfl, probes⟩
    cases head with
    | wait cycles =>
      cases guarded_waiting guarded (by simp)
      rcases ih guarded with ⟨none, -⟩ | found
      · cases none
      · exact .inr (further found)
    | stretchedWait cycles at' =>
      cases guarded_waiting guarded (by simp)
      rcases ih guarded with ⟨same, probes⟩ | found
      · cases same
        exact .inr ⟨[], cycles, first, rfl, probes⟩
      · exact .inr (further found)
    | op m =>
      by_cases check : m = .checkInterrupt
      · subst check
        rcases ih guarded with ⟨same, probes⟩ | found
        · refine .inl ⟨same, fun s member => ?_⟩
          rcases List.mem_cons.1 member with rfl | member
          · rfl
          · exact probes s member
        · exact .inr (further found)
      · simp only [List.cons_append, Step.guarded, if_neg check, Bool.and_eq_true] at guarded
        rcases ih guarded.2 with ⟨none, -⟩ | found
        · cases none
        · exact .inr (further found)

theorem performAll_checks {checks : List Step} (probes : ∀ s ∈ checks, s = .op .checkInterrupt)
    (m : Machine) (l : Latches) :
    (performAll checks m l).1.bus = m.bus ∧ (performAll checks m l).2 = l ∧
      ∀ a ∈ trail checks m l, a.step = .op .checkInterrupt := by
  induction checks generalizing m with
  | nil => exact ⟨rfl, rfl, by simp [trail]⟩
  | cons s checks ih =>
    obtain rfl := probes s List.mem_cons_self
    obtain ⟨bus, latches, later⟩ := ih (fun s member => probes s (List.mem_cons_of_mem _ member))
      m.sampleInterrupts
    refine ⟨bus, latches, fun a member => ?_⟩
    rcases List.mem_cons.1 member with rfl | member
    · rfl
    · exact later a member

theorem trail_aligned {steps : List Step} (guarded : Step.guarded none steps)
    (short : ∀ s ∈ steps, s.span 0 < 16) (m : Machine) (l : Latches) :
    Moment.Aligned (trail steps m l) := by
  intro before access after site split accesses
  obtain ⟨first, rest, rfl, rfl, machine, latches⟩ := trail_split split
  rcases guarded_split guarded accesses with ⟨none, -⟩ | ⟨earlier, cycles, checks, rfl, probes⟩
  · cases none
  generalize start : performAll earlier m l = reached at machine latches
  rw [performAll_append, start] at machine latches
  obtain ⟨bus, same, probed⟩ := performAll_checks probes
    ((stretchedWait cycles site).perform reached.1 reached.2).1 reached.2
  have brief : cycles.toNat < 16 := short (.stretchedWait cycles site) (by simp)
  let wait : Moment := ⟨.stretchedWait cycles site, reached.1, reached.2⟩
  let delay := Textbook.delay (wait.clock + cycles.toNat) (access.target site)
  -- Nothing but samples comes after the wait, and they leave clock and latches alone.
  have target : wait.target site = access.target site := by
    rw [Moment.target, Moment.target, latches]
    exact congrArg (·.resolve site) same.symm
  have clock : access.machine.bus.clock = wait.machine.bus.clock + .ofNat (cycles.toNat + delay) := by
    have ended : ((stretchedWait cycles site).perform reached.1 reached.2).1.bus.clock =
        wait.machine.bus.clock +
          .ofNat (cycles.toNat + Textbook.delay (wait.clock + cycles.toNat) (wait.target site)) :=
      clock_stretchedWait _ _ site (by omega)
    rw [target] at ended
    rw [machine]
    exact (congrArg Board.clock bus).trans ended
  have due : access.clock = (wait.clock + (cycles.toNat + delay)) % 2 ^ 64 := by
    have number := congrArg UInt64.toNat clock
    rw [UInt64.toNat_add, UInt64.toNat_ofNat'] at number
    rw [Moment.clock, number, Moment.clock]
    omega
  refine ⟨trail earlier m l, wait, trail checks _ reached.2, cycles, delay, ?_, probed,
    ⟨rfl, target, clock, fun slow => ?_, fun fast => ?_⟩⟩
  · rw [trail_append, start]
    rfl
  · have delayed : delay = (wait.clock + cycles.toNat) % 2 + 1 := if_pos slow
    refine ⟨by omega, by omega, ⟨by omega, by omega⟩, fun other ⟨positive, odd⟩ => ?_⟩
    omega
  · exact if_neg (ne_true_of_eq_false fast)

end Step

namespace Machine

def moments (m : Machine) : List Moment :=
  if m.halted then []
  else match m.microcode.lookup m.fetchByte.1 with
    | none => []
    | some program => Step.trail program.steps m.fetchByte.2 {}

/-- Moments that are what a step of the machine performs: the steps of a program, each at the state
that those before it leave. -/
structure Performs (m : Machine) (p : Microprogram) (moments : List Moment) : Prop where
  steps : moments.map (·.step) = p.steps
  reached : ∀ before access after, moments = before ++ access :: after →
    (access.machine, access.latches) =
      Step.performAll (before.map (·.step)) m.fetchByte.2 {}
  step : ∃ journal, m.step = ({ p.run m.fetchByte.2 with journal }.settle, none)

theorem performs_moments {m : Machine} {p : Microprogram} (running : m.halted = false)
    (found : m.microcode.lookup m.fetchByte.1 = some p) : m.Performs p m.moments := by
  have moments : m.moments = Step.trail p.steps m.fetchByte.2 {} := by
    rw [Machine.moments, if_neg (ne_true_of_eq_false running)]
    simp only [found]
  rw [moments]
  refine ⟨Step.map_step_trail _ _ _, fun before access after split => ?_,
    Cpu.step_settle running found⟩
  obtain ⟨first, rest, -, rfl, machine, latches⟩ := Step.trail_split split
  rw [Step.map_step_trail, machine, latches]

/-- All steps of a run. Something may happen to the machine from outside before an instruction. -/
def history : (happenings : List (Machine → Machine)) → Machine → List Moment
  | [], _ => []
  | happens :: rest, m => (happens m).moments ++ history rest (happens m).step.1

theorem moments_aligned (m : Machine) : Moment.Aligned m.moments := by
  have nothing : Moment.Aligned [] := by
    intro before access after site split
    simp at split
  unfold moments
  split
  · exact nothing
  · split
    case h_1 => exact nothing
    case h_2 program found =>
      obtain ⟨i, b, -, -, regular⟩ := Microcode.regular_of_lookup found
      exact Step.trail_aligned regular.guarded (fun s => regular.span_lt) _ _

/-- In a run of any length, every access to the bus is made when the slow bus can take it. The
accesses are those that the steps of the machine perform. -/
theorem history_aligned (happenings : List (Machine → Machine)) (m : Machine) :
    Moment.Aligned (m.history happenings) ∧
      (∀ (first last : UInt32) (slow : Bool) (now : UInt64),
        Step.stretch (first + last) slow now = Step.stretch last slow (now + first.toUInt64)) ∧
      ∀ (n : Machine) (p : Microprogram), n.halted = false →
        n.microcode.lookup n.fetchByte.1 = some p → n.Performs p n.moments := by
  refine ⟨?_, Step.stretch_pieces, fun n p => performs_moments⟩
  induction happenings generalizing m with
  | nil =>
    intro before access after site split
    simp [history] at split
  | cons happens rest ih => exact (happens m).moments_aligned.append (ih (happens m).step.1)

/-- A load from the slow bus, with a load from elsewhere in front of it. -/
theorem history_aligned_port :
    ∃ access ∈ (loaded [0xAD, 0x00, 0x20, 0xAD, 0x00, 0xFE]).history [id, id],
      access.step.busSite = some .effective ∧ access.target .effective = 0xFE00 ∧
        access.clock % 2 = 1 := by
  have happens : ((loaded [0xAD, 0x00, 0x20, 0xAD, 0x00, 0xFE]).history [id, id]).any fun a =>
      decide (a.step.busSite = some .effective ∧ a.target .effective = 0xFE00) := by
    decide +kernel
  obtain ⟨access, member, found⟩ := List.any_eq_true.1 happens
  obtain ⟨accesses, address⟩ := of_decide_eq_true found
  obtain ⟨before, after, split⟩ := List.append_of_mem member
  obtain ⟨_, _, _, _, _, -, -, leads⟩ :=
    (history_aligned [id, id] _).1 before access after _ split accesses
  have slow : isOneMegahertz (access.target .effective) = true := by
    rw [address]
    decide
  exact ⟨access, member, accesses, address, (leads.slow slow).1⟩

end Machine

end Cycle6502
