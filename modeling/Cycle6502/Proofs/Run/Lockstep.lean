import Cycle6502.Proofs.Instruction.Step
import Cycle6502.Proofs.Run.Basic
import Cycle6502.Proofs.Timing.Programs

/-! Runs in lockstep. Where two buses keep a relation in all that a processor does to them, two
processors that are alike but for their buses stay so, step by step and signal by signal. -/

set_option autoImplicit false

namespace Cycle6502

variable {β γ : Type} [Bus β] [Bus γ] {fast : UInt16 → Prop} {R : β → γ → Prop}

/-- A relation that whole runs keep: the operations of instructions do, and so do waits for the slow
bus, the acknowledgement of an NMI, and signals. No program waits so long that a stretch wraps. -/
structure Bus.Lockstep [Signalled β] [Signalled γ] (fast : UInt16 → Prop) (R : β → γ → Prop) :
    Prop extends Bus.Simulation fast R where
  stretchedWait : ∀ {b : β} {d : γ}, R b d → ∀ (cycles : UInt32) addr, cycles.toNat < 16 →
    R (Bus.advance b (cycles + Step.stretch cycles (Bus.isSlow b addr) (Bus.clock b)))
      (Bus.advance d (cycles + Step.stretch cycles (Bus.isSlow d addr) (Bus.clock d)))
  acknowledgeNmi : ∀ {b : β} {d : γ}, R b d → R (Bus.acknowledgeNmi b) (Bus.acknowledgeNmi d)
  drive : ∀ {b : β} {d : γ}, R b d → ∀ s, R (Signalled.drive b s) (Signalled.drive d s)

theorem Bus.Lockstep.eq [Signalled β] : Bus.Lockstep (fun _ => True) (Eq (α := β)) where
  stack _ := trivial
  read same _ := same ▸ ⟨rfl, rfl⟩
  write same _ _ := same ▸ rfl
  zeroPageRead same _ _ := same ▸ ⟨rfl, rfl⟩
  zeroPageWrite same _ _ _ := same ▸ rfl
  advance same _ := same ▸ rfl
  irqAsserted same := same ▸ rfl
  nmiAsserted same := same ▸ rfl
  stretchedWait same _ _ _ := same ▸ rfl
  acknowledgeNmi same := same ▸ rfl
  drive same _ := same ▸ rfl

namespace Step

def FastWithin (fast : UInt16 → Prop) : List Step → Cpu β → Latches → Prop
  | [], _, _ => True
  | s :: rest, c, l =>
    (∀ op, s = .op op → op.FastWithin fast l) ∧
      FastWithin fast rest (s.perform c l).1 (s.perform c l).2

theorem fastWithin_true (steps : List Step) (c : Cpu β) (l : Latches) :
    FastWithin (fun _ => True) steps c l := by
  induction steps generalizing c l with
  | nil => trivial
  | cons s rest ih => exact ⟨fun op _ => op.fastWithin_true l, ih _ _⟩

end Step

def Cpu.FastNext (fast : UInt16 → Prop) (c : Cpu β) : Prop :=
  ∀ program, c.microcode.lookup c.fetchByte.1 = some program →
    Step.FastWithin fast program.steps c.fetchByte.2 {}

theorem Cpu.fastNext_true (c : Cpu β) : c.FastNext fun _ => True :=
  fun program _ => Step.fastWithin_true program.steps _ _

variable [Signalled β] [Signalled γ] {decided : Prop} {c : Cpu β} {d : Cpu γ}

theorem Step.perform_similar (lockstep : Bus.Lockstep fast R) (s : Step) (l : Latches)
    (inside : ∀ op, s = .op op → op.FastWithin fast l) (short : s.span 0 < 16)
    (similar : Cpu.Similar R decided c d) :
    Cpu.Similar R decided (s.perform c l).1 (s.perform d l).1 ∧
      (s.perform c l).2 = (s.perform d l).2 := by
  cases s with
  | wait cycles => exact ⟨similar.wait lockstep.toSimulation cycles, rfl⟩
  | stretchedWait cycles site =>
    exact ⟨{ similar with bus := lockstep.stretchedWait similar.bus cycles _ short }, rfl⟩
  | op op => exact op.perform_similar lockstep.toSimulation l (inside op rfl) similar

theorem Step.performAll_similar (lockstep : Bus.Lockstep fast R) {steps : List Step} {l : Latches}
    (inside : FastWithin fast steps c l) (short : ∀ s ∈ steps, s.span 0 < 16)
    (similar : Cpu.Similar R decided c d) :
    Cpu.Similar R decided (performAll steps c l).1 (performAll steps d l).1 := by
  induction steps generalizing c d l with
  | nil => exact similar
  | cons s rest ih =>
    obtain ⟨first, shortRest⟩ := List.forall_mem_cons.1 short
    obtain ⟨performed, same⟩ := s.perform_similar lockstep l inside.1 first similar
    have remaining := ih inside.2 shortRest performed
    simp only [performAll]
    rwa [← same]

namespace Cpu.Similar

omit [Bus β] [Bus γ] [Signalled β] [Signalled γ] in
theorem lookup_eq (similar : Similar R decided c d) (opcode : UInt8) :
    c.microcode.lookup opcode = d.microcode.lookup opcode := by
  have variant : c.microcode.variant = d.microcode.variant := similar.variant
  rw [Microcode.lookup_eq, Microcode.lookup_eq, variant]

theorem serviceInterrupt (lockstep : Bus.Lockstep fast R) (similar : Similar R decided c d) :
    Similar R decided c.serviceInterrupt d.serviceInterrupt := by
  have sim := lockstep.toSimulation
  have status : c.interruptStatusByte = d.interruptStatusByte := by
    simp only [interruptStatusByte, similar.flags]
  have nmi := sim.nmiAsserted similar.bus
  unfold Cpu.serviceInterrupt
  rw [nmi]
  -- Both acknowledge an NMI, or neither does.
  cases Bus.nmiAsserted d.bus with
  | false => exact { (similar.enterHandler sim .irq similar.pc status).wait sim 7 with }
  | true =>
    have acknowledged : Similar R decided { c with bus := Bus.acknowledgeNmi c.bus }
        { d with bus := Bus.acknowledgeNmi d.bus } :=
      { similar with bus := lockstep.acknowledgeNmi similar.bus }
    exact { (acknowledged.enterHandler sim .nmi similar.pc status).wait sim 7 with }

theorem settle (lockstep : Bus.Lockstep fast R) (similar : Similar R True c d) :
    Similar R True c.settle d.settle := by
  unfold Cpu.settle
  rw [similar.pending trivial]
  cases d.interruptPending with
  | false => exact similar
  | true =>
    have decided : Similar R True { c with interruptPending := false }
        { d with interruptPending := false } :=
      { similar with pending := fun _ => rfl }
    exact decided.serviceInterrupt lockstep

theorem step (lockstep : Bus.Lockstep fast R) (inside : c.FastNext fast)
    (similar : Similar R True c d) :
    c.step.2 = d.step.2 ∧ Similar R True c.step.1 d.step.1 := by
  obtain ⟨opcode, fetched⟩ := similar.fetchByte lockstep.toSimulation
  cases running : c.halted with
  | true =>
    rw [step_halted running, step_halted (similar.halted.symm.trans running)]
    exact ⟨rfl, similar⟩
  | false =>
    have running' : d.halted = false := similar.halted.symm.trans running
    cases found : c.microcode.lookup c.fetchByte.1 with
    | none =>
      have missing : d.microcode.lookup d.fetchByte.1 = none := by
        rw [← opcode, ← similar.lookup_eq, found]
      obtain ⟨journal, stepped⟩ := step_invalid running found
      obtain ⟨journal', stepped'⟩ := step_invalid running' missing
      rw [stepped, stepped']
      constructor
      · simp only [invalidOpcode, opcode, fetched.pc, fetched.variant]
      · exact { fetched with pc := similar.pc, halted := rfl }
    | some program =>
      have found' : d.microcode.lookup d.fetchByte.1 = some program := by
        rw [← opcode, ← similar.lookup_eq, found]
      obtain ⟨journal, stepped⟩ := step_settle running found
      obtain ⟨journal', stepped'⟩ := step_settle running' found'
      obtain ⟨i, b, -, -, regular⟩ := Microcode.regular_of_lookup found
      have ran := Step.performAll_similar lockstep (inside program found) (fun _ => regular.span_lt)
        fetched
      rw [stepped, stepped']
      refine ⟨rfl, settle lockstep ?_⟩
      exact { ran with }

/-- A whole run of two processors in lockstep. -/
theorem after (lockstep : Bus.Lockstep fast R) {happenings : List Happening}
    (inside : ∀ e ∈ c.starts happenings, e.FastNext fast) (similar : Similar R True c d) :
    c.results happenings = d.results happenings ∧
      Similar R True (c.after happenings) (d.after happenings) := by
  induction happenings generalizing c d with
  | nil => exact ⟨rfl, similar⟩
  | cons happening rest ih =>
    cases happening with
    | signal s =>
      have received : Similar R True (c.receive s) (d.receive s) :=
        { similar with bus := lockstep.drive similar.bus s }
      exact ih inside received
    | step =>
      obtain ⟨result, stepped⟩ := similar.step lockstep (inside c List.mem_cons_self)
      obtain ⟨results, remaining⟩ :=
        ih (fun e member => inside e (List.mem_cons_of_mem _ member)) stepped
      exact ⟨congrArg₂ List.cons result results, remaining⟩

end Cpu.Similar

end Cycle6502
