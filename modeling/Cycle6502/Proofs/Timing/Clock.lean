import Cycle6502.Proofs.Timing.Alignment

/-! The time that a program takes: its waits, a probe that finds a carry, and what the slow bus adds
to its accesses one after the other. -/

set_option autoImplicit false

namespace Cycle6502

open Board (SameButTime)

namespace Textbook

theorem delay_mod (due : Nat) (addr : UInt16) : delay (due % 2 ^ 64) addr = delay due addr := by
  unfold delay
  split
  · omega
  · rfl

/-- How long the slow bus puts off some accesses in all, each of them due in a cycle from `now` on.
An access that is put off moves those behind it as well. -/
def stretch (now : Nat) : List (Nat × UInt16) → Nat
  | [] => 0
  | (cycle, addr) :: rest =>
    let extra := delay (now + cycle) addr
    extra + stretch (now + extra) rest

end Textbook

namespace Machine

variable (m : Machine)

@[simp] theorem clock_wait (cycles : UInt32) :
    (m.wait cycles).bus.clock = m.bus.clock + cycles.toUInt64 := rfl

@[simp] theorem clock_fetchByte : m.fetchByte.2.bus.clock = m.bus.clock := rfl

@[simp] theorem clock_sampleInterrupts : m.sampleInterrupts.bus.clock = m.bus.clock := rfl

end Machine

namespace MicroOp

/-- The latches are as an operation needs them: they have the address of its access, or a carry if
there is one to probe. -/
def Finds (target : Site → UInt16) (cross : Nat) (op : MicroOp) (l : Latches) : Prop :=
  (∀ site, op.busSite = some site → l.resolve site = target site) ∧
    (op = .pageCrossProbe → cross = if l.carried = l.nonCarried then 0 else 1)

def Addressed (target : Site → UInt16) (cross : Nat) : List MicroOp → Machine → Latches → Prop
  | [], _, _ => True
  | op :: rest, m, l =>
    op.Finds target cross l ∧ Addressed target cross rest (op.perform m l).1 (op.perform m l).2

end MicroOp

theorem Effect.clock_perform (e : Effect) (m : Machine) (l : Latches)
    (direct : (MicroOp.effect e).samples = false) :
    (e.perform m l).1.bus.clock = m.bus.clock := by
  cases e with
  | branch mask expected => cases direct
  | branchAlways => cases direct
  | writeBackToBase => exact m.bus.clock_write _ _
  | transfer source target => cases target <;> rfl
  | _ => rfl

theorem MicroOp.clock_perform {cross : Nat} {target : Site → UInt16} (op : MicroOp) (m : Machine)
    {l : Latches} (direct : op.samples = false) (finds : op.Finds target cross l) :
    (op.perform m l).1.bus.clock = m.bus.clock + .ofNat ((Step.op op).span cross) := by
  have still : m.bus.clock = m.bus.clock + .ofNat 0 := (UInt64.add_zero _).symm
  cases op with
  | pageCrossProbe =>
    obtain rfl := finds.2 rfl
    simp only [perform, Step.span]
    split
    · exact still
    · rfl
  | write site => exact (m.bus.clock_write _ _).trans still
  | effect e => exact (e.clock_perform m l direct).trans still
  | _ => exact still

namespace Step

variable {target : Site → UInt16} {cross : Nat}

theorem target_of_guarded {steps : List Step} {site : Site} {m : Machine} {l : Latches}
    (guarded : Step.guarded (some site) steps)
    (addressed : MicroOp.Addressed target cross (deeds steps) m l) :
    l.resolve site = target site := by
  induction steps with
  | nil => cases guarded
  | cons s rest ih =>
    cases s with
    | wait cycles => simp [Step.guarded] at guarded
    | stretchedWait cycles at' => simp [Step.guarded] at guarded
    | op op =>
      by_cases check : op = .checkInterrupt
      · subst check
        exact ih guarded addressed
      · simp only [Step.guarded, if_neg check, Bool.and_eq_true, beq_iff_eq] at guarded
        rw [deeds_op check] at addressed
        exact addressed.1.1 site guarded.1

/-- The clock behind a program. The part of it that is left starts in the cycle `reached`, and
`now` is when cycle 0 would have been with all delays so far before it. -/
theorem clock_performAll {steps : List Step} {awaited : Option Site}
    (guarded : Step.guarded awaited steps) (direct : ∀ op ∈ deeds steps, op.samples = false)
    (short : ∀ s ∈ steps, s.span 0 < 16) {m m' : Machine} {l : Latches}
    (similar : Cpu.Similar SameButTime False m m')
    (addressed : MicroOp.Addressed target cross (deeds steps) m' l)
    {now reached : Nat} (clock : m.bus.clock = .ofNat (now + reached)) :
    (performAll steps m l).1.bus.clock =
      .ofNat (now + (reached + (steps.map (·.span cross)).sum +
        Textbook.stretch now ((dues cross reached steps).map fun due => (due.1, target due.2)))) := by
  induction steps generalizing awaited m m' l now reached with
  | nil => exact clock
  | cons s rest ih =>
    have later : ∀ s ∈ rest, s.span 0 < 16 := fun s member => short s (List.mem_cons_of_mem _ member)
    cases s with
    | wait cycles =>
      cases guarded_waiting guarded (by simp)
      have waited : (m.wait cycles).bus.clock = .ofNat (now + (reached + cycles.toNat)) := by
        change m.bus.clock + cycles.toUInt64 = _
        rw [clock, toUInt64_eq_ofNat, ← UInt64.ofNat_add, Nat.add_assoc]
      have ahead : Cpu.Similar SameButTime False (m.wait cycles) m' :=
        { similar with bus := similar.bus.advance_left cycles }
      refine (ih guarded direct later ahead addressed waited).trans ?_
      simp only [List.map_cons, List.sum_cons, dues, span, Nat.add_assoc]
    | stretchedWait cycles site =>
      cases guarded_waiting guarded (by simp)
      have brief : cycles.toNat < 16 := short _ List.mem_cons_self
      let extra := Textbook.delay (now + (reached + cycles.toNat)) (target site)
      have waited : ((stretchedWait cycles site).perform m l).1.bus.clock =
          .ofNat (now + extra + (reached + cycles.toNat)) := by
        rw [clock_stretchedWait m l site (by omega), target_of_guarded guarded addressed, clock,
          UInt64.toNat_ofNat', ← Textbook.delay_mod, Nat.mod_add_mod, Textbook.delay_mod,
          ← UInt64.ofNat_add]
        congr 1
        simp only [extra, Nat.add_assoc]
        omega
      have ahead : Cpu.Similar SameButTime False ((stretchedWait cycles site).perform m l).1 m' :=
        { similar with bus := similar.bus.advance_left _ }
      -- What the slow bus adds here moves the rest of the program as a whole.
      refine (ih guarded direct later ahead addressed waited).trans ?_
      simp only [List.map_cons, List.sum_cons, dues, span, Textbook.stretch, extra]
      congr 1
      omega
    | op op =>
      by_cases check : op = .checkInterrupt
      · subst check
        have sampled : Cpu.Similar SameButTime False m.sampleInterrupts m' :=
          { similar with pending := False.elim }
        refine (ih guarded direct later sampled addressed clock).trans ?_
        simp only [List.map_cons, List.sum_cons, dues, span, Nat.zero_add, Nat.add_zero]
      · simp only [Step.guarded, if_neg check, Bool.and_eq_true] at guarded
        rw [deeds_op check] at addressed direct
        obtain ⟨performed, same⟩ := op.perform_similar SameButTime.simulation l
          (op.fastWithin_true l) similar
        have remaining := addressed.2
        rw [← same] at remaining
        have taken : (op.perform m l).1.bus.clock =
            .ofNat (now + (reached + (Step.op op).span cross)) := by
          rw [op.clock_perform m (direct op List.mem_cons_self) addressed.1, clock,
            ← UInt64.ofNat_add, Nat.add_assoc]
        refine (ih guarded.2 (fun op member => direct op (List.mem_cons_of_mem _ member)) later
          performed remaining taken).trans ?_
        simp only [List.map_cons, List.sum_cons, dues, Nat.add_assoc]

end Step

end Cycle6502
