import Cycle6502.Proofs.Instruction.Step
import Cycle6502.Proofs.Instruction.Textbook
import Cycle6502.Proofs.Interrupt.Entry
import Cycle6502.Proofs.Timing.Programs

/-! Which interrupts a step takes. The lines are sampled once, before the instruction has written
anything or changed a flag; only RTI pulls its status first. -/

set_option autoImplicit false

namespace Cycle6502

theorem Flags.ofByte_irqDisable (status : UInt8) :
    (ofByte status).irqDisable = status.toNat.testBit 2 := by
  revert status
  exact forall_byte (by decide +kernel)

/-- A branch in steps: it fetches its offset, jumps if it is taken, and samples the lines between two
waits. -/
def Step.branching (taken : Bool) (cycles : UInt32) : List Step :=
  .op .fetchImmediate :: (if taken then [.op (.effect .jump)] else [])
    ++ [.wait cycles, .op .checkInterrupt, .wait 1]

/-- Taken or not, a branch does what steps do of which one samples the lines. -/
theorem Cpu.branch_samples_once {β : Type} [Bus β] (c : Cpu β) (taken : Bool) :
    let next := c.fetchByte.2.pc
    let target := branchTarget next c.fetchByte.1
    let cycles := if taken then if samePage next target then 2 else 3 else 1
    let steps := Step.branching taken cycles
    steps.countP (·.samples) = 1 ∧
      c.branch taken = (Step.performAll steps c { addr := target }).1 := by
  cases taken <;> exact ⟨rfl, rfl⟩

namespace Machine

def asks (m : Machine) : Bool := m.bus.lines.nmi || (m.bus.lines.irq && !m.flags.irqDisable)

theorem pending_sampleInterrupts (m : Machine) : m.sampleInterrupts.interruptPending = m.asks :=
  Bool.or_comm _ _

theorem pending_branch (m : Machine) (taken : Bool) :
    (m.branch taken).interruptPending = m.asks := by
  rw [(m.branch_samples_once taken).2]
  cases taken <;> exact pending_sampleInterrupts _

end Machine

theorem Effect.perform_unsampled (e : Effect) (m : Machine) (l : Latches)
    (silent : (MicroOp.effect e).samples = false) :
    (e.perform m l).1.interruptPending = m.interruptPending := by
  cases e with
  | branch mask expected => cases silent
  | branchAlways => cases silent
  | transfer source target => cases target <;> rfl
  | _ => rfl

namespace MicroOp

variable {op : MicroOp} (m : Machine) (l : Latches)

theorem perform_unsampled (silent : op.samples = false) :
    (op.perform m l).1.interruptPending = m.interruptPending := by
  cases op with
  | checkInterrupt => cases silent
  | effect e => exact e.perform_unsampled m l silent
  | pageCrossProbe =>
    simp only [perform]
    split <;> rfl
  | _ => rfl

theorem perform_gathers (gathers : op.gathers) :
    (op.perform m l).1.flags = m.flags ∧ (op.perform m l).1.bus.lines = m.bus.lines := by
  cases op with
  | write | zeroPageWrite | storeAccumulator | checkInterrupt | effect => cases gathers
  | pageCrossProbe =>
    simp only [perform]
    split <;> exact ⟨rfl, rfl⟩
  | _ => exact ⟨rfl, rfl⟩

theorem perform_samples (samples : op.samples) :
    (op.perform m l).1.interruptPending = m.asks := by
  cases op with
  | checkInterrupt => exact m.pending_sampleInterrupts
  | effect e =>
    cases e with
    | branch mask expected => exact m.pending_branch _
    | branchAlways => exact m.pending_branch true
    | _ => cases samples
  | _ => cases samples

end MicroOp

namespace Step

variable {s : Step} {steps : List Step} (m : Machine) (l : Latches)

theorem perform_unsampled (silent : s.samples = false) :
    (s.perform m l).1.interruptPending = m.interruptPending := by
  cases s with
  | op op => exact op.perform_unsampled m l silent
  | _ => rfl

theorem asks_perform (gathers : s.gathers) : Machine.asks (s.perform m l).1 = m.asks := by
  cases s with
  | op op =>
    obtain ⟨flags, lines⟩ := op.perform_gathers m l gathers
    simp only [Machine.asks, perform, flags, lines]
  | _ => rfl

theorem perform_samples (samples : s.samples) :
    (s.perform m l).1.interruptPending = m.asks := by
  cases s with
  | op op => exact op.perform_samples m l samples
  | _ => cases samples

theorem samples_of_gathers (gathers : s.gathers) : s.samples = false := by
  cases s with
  | op op => cases op <;> first | rfl | cases gathers
  | _ => rfl

theorem performAll_unsampled (silent : steps.all (!·.samples)) :
    (performAll steps m l).1.interruptPending = m.interruptPending := by
  induction steps generalizing m l with
  | nil => rfl
  | cons s rest ih =>
    simp only [List.all_cons, Bool.and_eq_true, Bool.not_eq_true'] at silent
    exact (ih _ _ silent.2).trans (perform_unsampled m l silent.1)

/-- Steps that sample once decide by what they find at their start. -/
theorem pending_performAll (once : samplesOnce steps) :
    (performAll steps m l).1.interruptPending = m.asks := by
  induction steps generalizing m l with
  | nil => cases once
  | cons s rest ih =>
    rw [samplesOnce] at once
    split at once
    case isTrue samples =>
      exact (performAll_unsampled _ _ once).trans (perform_samples m l samples)
    case isFalse =>
      rw [Bool.and_eq_true] at once
      exact (ih _ _ once.2).trans (asks_perform m l once.1)

theorem countP_samplesOnce (once : samplesOnce steps) : steps.countP (·.samples) = 1 := by
  induction steps with
  | nil => cases once
  | cons s rest ih =>
    rw [samplesOnce] at once
    split at once
    case isTrue samples =>
      have silent : rest.countP (·.samples) = 0 := by
        simpa [List.countP_eq_zero] using once
      rw [List.countP_cons_of_pos samples, silent]
    case isFalse =>
      rw [Bool.and_eq_true] at once
      rw [List.countP_cons_of_neg (ne_true_of_eq_false (samples_of_gathers once.1)), ih once.2]

end Step

theorem Behaviour.opening_eq {i : Instruction} {b : Behaviour} (modelled : of? i = some b) :
    b.opening = if i.mnemonic = .rti then [.returnFromInterrupt] else [] := by
  obtain ⟨mnemonic, mode⟩ := i
  unfold of? at modelled
  split at modelled
  case isTrue immediate =>
    cases immediate
    cases modelled
    rfl
  case isFalse => cases mnemonic <;> cases modelled <;> rfl

namespace Machine

/-- The mask of IRQs that an instruction finds: RTI finds that of the status it pulls. -/
def masked (m : Machine) (i : Instruction) : Bool :=
  if i.mnemonic = .rti then
    (m.bus.ram.read (stackAddress (m.registers.sp + 1))).toNat.testBit 2
  else m.flags.irqDisable

def decides (m : Machine) (i : Instruction) : Bool :=
  m.bus.lines.nmi || (m.bus.lines.irq && !m.masked i)

theorem samples_once {m : Machine} {p : Microprogram} {i : Instruction} {b : Behaviour}
    (modelled : Behaviour.of? i = some b) (regular : p.Regular m.variant i b) :
    p.steps.countP (·.samples) = 1 ∧
      (p.run m.fetchByte.2).interruptPending = m.decides i := by
  obtain ⟨rest, steps⟩ := regular.opens
  have once := regular.samples
  rw [← steps, List.drop_left' (by simp)] at once
  rw [Microprogram.run, ← steps, Step.performAll_append, List.countP_append,
    Step.countP_samplesOnce once, Step.pending_performAll _ _ once]
  have opening := Behaviour.opening_eq modelled
  by_cases rti : i.mnemonic = .rti
  · rw [if_pos rti] at opening
    simp only [opening, decides, masked, if_pos rti, ← Flags.ofByte_irqDisable]
    exact ⟨rfl, rfl⟩
  · rw [if_neg rti] at opening
    simp only [opening, decides, masked, if_neg rti]
    exact ⟨rfl, rfl⟩

theorem step_ran {m : Machine} {p : Microprogram} (running : m.halted = false)
    (found : m.microcode.lookup (m.peek m.pc) = some p) :
    let ran := p.run m.fetchByte.2
    m.step.2 = none ∧
      (ran.interruptPending = false → ∃ journal, m.step.1 = { ran with journal }) ∧
      (ran.interruptPending = true → Served ran m.step.1) := by
  obtain ⟨journal, stepped⟩ := Cpu.step_settle running found
  rw [stepped]
  refine ⟨rfl, fun passed => ⟨journal, if_neg (ne_true_of_eq_false passed)⟩, fun accepted => ?_⟩
  obtain ⟨served, -⟩ := served_serviceInterrupt
    { p.run m.fetchByte.2 with journal, interruptPending := false }
  rw [Cpu.settle, if_pos accepted]
  exact { served with entered := { served.entered with } }

/-- A step takes an interrupt if the lines before it ask for one, whatever the instruction does to
the lines; which one it takes goes by the lines that the instruction leaves. -/
theorem step_decides {m : Machine} {p : Microprogram} (running : m.halted = false)
    (found : m.microcode.lookup (m.peek m.pc) = some p) :
    ∃ i, decode m.variant (m.peek m.pc) = some i ∧ p.steps.countP (·.samples) = 1 ∧
      m.takesInterrupt = m.decides i ∧ m.step.2 = none ∧ m.step.1.interruptPending = false ∧
      let ran : Machine := p.run m.fetchByte.2
      (m.decides i = false → ∃ journal, m.step.1 = { ran with journal }) ∧
        (m.decides i = true → ran.Served m.step.1 ∧
          ran.interruptKind.vector = if ran.bus.lines.nmi then 0xFFFA else 0xFFFE) := by
  obtain ⟨i, b, decoded, modelled, regular⟩ := Microcode.regular_of_lookup found
  obtain ⟨journal, stepped⟩ := Cpu.step_settle running found
  obtain ⟨once, pending⟩ := samples_once modelled regular
  have takes : m.takesInterrupt = m.decides i := (Cpu.takesInterrupt_eq found).trans pending
  refine ⟨i, decoded, once, takes, by rw [stepped], ?_⟩
  rw [stepped]
  generalize p.run m.fetchByte.2 = ran at pending
  unfold Cpu.settle
  cases decision : m.decides i with
  | false =>
    rw [decision] at pending
    rw [if_neg (ne_true_of_eq_false pending)]
    exact ⟨pending, fun _ => ⟨journal, rfl⟩, nofun⟩
  | true =>
    rw [decision] at pending
    rw [if_pos pending]
    obtain ⟨served, settled⟩ := served_serviceInterrupt
      { ran with journal, interruptPending := false }
    exact ⟨settled, nofun, fun _ => ⟨{ served with entered := { served.entered with } },
      vector_interruptKind ran⟩⟩

/-- SEI comes too late for an IRQ that is there before it. -/
theorem step_decides_late :
    let m := requestIrq { loaded [0x78] with flags := {} } { feedback := true }
    m.halted = false ∧ (∃ p, m.microcode.lookup (m.peek m.pc) = some p) ∧
      m.takesInterrupt = true ∧ m.step.1.interruptPending = false := by
  intro m
  have compiled : (m.microcode.lookup (m.peek m.pc)).isSome := by decide +kernel
  obtain ⟨p, found⟩ := Option.isSome_iff_exists.1 compiled
  obtain ⟨i, decoded, -, takes, -, settled, -⟩ := step_decides (m := m) rfl found
  have sei : decode m.variant (m.peek m.pc) = some ⟨.sei, .implied⟩ := by decide +kernel
  cases decoded.symm.trans sei
  exact ⟨rfl, ⟨p, found⟩, takes, settled⟩

end Machine

end Cycle6502
