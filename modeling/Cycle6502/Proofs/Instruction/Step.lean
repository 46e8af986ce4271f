import Cycle6502.Machine
import Cycle6502.Proofs.Timing.Operations

/-! Steps of the processor. A step that takes no interrupt fetches an opcode and does what the
operations of its layout do. -/

set_option autoImplicit false

namespace Cycle6502

/-- Whether the next step takes an interrupt behind its instruction. -/
def Cpu.takesInterrupt {β : Type} [Bus β] (c : Cpu β) : Bool :=
  match c.microcode.lookup c.fetchByte.1 with
  | some program => (program.run c.fetchByte.2).interruptPending
  | none => false

theorem Cpu.takesInterrupt_eq {β : Type} [Bus β] {c : Cpu β} {program : Microprogram}
    (found : c.microcode.lookup c.fetchByte.1 = some program) :
    c.takesInterrupt = (program.run c.fetchByte.2).interruptPending := by
  simp only [takesInterrupt, found]

/-- What a step does behind its instruction: it takes an interrupt that the instruction found
pending. -/
def Cpu.settle {β : Type} [Bus β] (c : Cpu β) : Cpu β :=
  if c.interruptPending then { c with interruptPending := false }.serviceInterrupt else c

/-- A step is the fetch of an opcode, its program and what that leaves to be done, but for a trace
in the journal. -/
theorem Cpu.step_settle {β : Type} [Bus β] {c : Cpu β} {program : Microprogram}
    (running : c.halted = false) (found : c.microcode.lookup c.fetchByte.1 = some program) :
    ∃ journal, c.step = ({ program.run c.fetchByte.2 with journal }.settle, none) := by
  have executed : c.fetchByte.2.execute c.fetchByte.1 = (program.run c.fetchByte.2, none) :=
    execute_found found
  unfold step
  rw [if_neg (ne_true_of_eq_false running)]
  simp only [executed]
  generalize program.run c.fetchByte.2 = ran
  -- A trace is composed before and recorded after, and nothing but the journal has it.
  cases c.journal.admits .trace
  · exact ⟨ran.journal, rfl⟩
  · exact ⟨ran.journal.note .trace fun _ => ran.traceText (c.disassembly c.pc), rfl⟩

theorem Cpu.step_halted {β : Type} [Bus β] {c : Cpu β} (halted : c.halted = true) :
    c.step = (c, none) :=
  if_pos halted

theorem Cpu.step_invalid {β : Type} [Bus β] {c : Cpu β} (running : c.halted = false)
    (missing : c.microcode.lookup c.fetchByte.1 = none) :
    ∃ journal, c.step = ({ c.fetchByte.2 with pc := c.pc, halted := true, journal },
      some (c.fetchByte.2.invalidOpcode c.fetchByte.1)) := by
  have executed : c.fetchByte.2.execute c.fetchByte.1 =
      (c.fetchByte.2, some (c.fetchByte.2.invalidOpcode c.fetchByte.1)) :=
    execute_invalid missing
  unfold step
  rw [if_neg (ne_true_of_eq_false running)]
  simp only [executed]
  exact ⟨_, rfl⟩

theorem Cpu.step_eq {β : Type} [Bus β] {c : Cpu β} {program : Microprogram}
    (running : c.halted = false) (found : c.microcode.lookup c.fetchByte.1 = some program)
    (undisturbed : c.takesInterrupt = false) :
    ∃ journal, c.step = ({ program.run c.fetchByte.2 with journal }, none) := by
  obtain ⟨journal, stepped⟩ := step_settle running found
  rw [takesInterrupt_eq found] at undisturbed
  exact ⟨journal, stepped.trans (congrArg (·, none) (if_neg (ne_true_of_eq_false undisturbed)))⟩

theorem Behaviour.extra_lt {i : Instruction} {b : Behaviour} (modelled : of? i = some b) :
    b.extra.toNat < 2 ^ 31 := by
  have every : ∀ m ∈ Mnemonic.all, (ofMnemonic? m).all (·.extra.toNat < 2 ^ 31) := by decide
  unfold of? at modelled
  split at modelled
  · cases modelled
    decide
  · have bound := every i.mnemonic i.mnemonic.mem_all
    rw [modelled] at bound
    simpa using bound

theorem timed_of_effects {v : Variant} {opcode : UInt8} {i : Instruction} {b : Behaviour}
    (decoded : decode v opcode = some i) (modelled : Behaviour.of? i = some b)
    (acts : b.effects ≠ []) : opcode ∉ untimedOpcodes := by
  intro untimed
  -- Either part has a no-operation there.
  rw [List.mem_singleton.1 untimed] at decoded
  cases v <;> cases decoded <;> cases modelled <;> exact acts rfl

theorem Schedule.mode_of_delegated {opcode : UInt8} {i : Instruction} {b : Behaviour} {v : Variant}
    {ops : List MicroOp} (delegated : layOut opcode i b v = .ok (.delegated ops)) :
    i.mode = .relative := by
  unfold layOut at delegated
  split at delegated
  case h_2 relative => exact relative
  all_goals first | cases delegated | (split at delegated <;> cases delegated)

theorem Microprogram.of?_eq {v : Variant} {opcode : UInt8} {i : Instruction} {b : Behaviour}
    (decoded : decode v opcode = some i) (modelled : Behaviour.of? i = some b)
    (timed : opcode ∉ untimedOpcodes) (direct : i.mode ≠ .relative) :
    ∃ t, Schedule.layOut opcode i b v = .ok (.timed t) ∧
      of? v opcode = some ⟨opcode, Step.ofTimeline t.finish⟩ := by
  have compiled := compile_eq_ok v opcode
  unfold compile at compiled
  rw [if_neg timed, decoded] at compiled
  simp only [modelled] at compiled
  cases laid : Schedule.layOut opcode i b v with
  | error e =>
    rw [laid] at compiled
    cases compiled
  | ok schedule =>
    rw [laid] at compiled
    cases schedule with
    | timed t => exact ⟨t, rfl, (Except.ok.inj compiled).symm⟩
    | delegated ops => exact absurd (Schedule.mode_of_delegated laid) direct

open Board (SameButTime)

namespace Machine

/-- An instruction that is not a branch has a program, which does what its operations do at whatever
time. -/
theorem program_similar {m : Machine} {opcode : UInt8} {i : Instruction} {b : Behaviour}
    (decoded : decode m.variant opcode = some i) (modelled : Behaviour.of? i = some b)
    (timed : opcode ∉ untimedOpcodes) (direct : i.mode ≠ .relative) :
    ∃ program, m.microcode.lookup opcode = some program ∧
      Cpu.Similar SameButTime False (program.run m)
        (MicroOp.performAll (b.operations m.variant i.mode) m {}).1 := by
  obtain ⟨t, laid, program⟩ := Microprogram.of?_eq decoded modelled timed direct
  have lays := Schedule.lays (Behaviour.extra_lt modelled) laid
  exact ⟨_, (Microcode.lookup_eq _ _).trans program, (Step.performAll_finish lays m {}).1⟩

theorem execute_similar {m : Machine} {opcode : UInt8} {i : Instruction} {b : Behaviour}
    (decoded : decode m.variant opcode = some i) (modelled : Behaviour.of? i = some b)
    (timed : opcode ∉ untimedOpcodes) (direct : i.mode ≠ .relative) :
    ∃ r, m.execute opcode = (r, none) ∧
      Cpu.Similar SameButTime False r
        (MicroOp.performAll (b.operations m.variant i.mode) m {}).1 := by
  obtain ⟨program, found, performed⟩ := program_similar decoded modelled timed direct
  exact ⟨program.run m, Cpu.execute_found found, performed⟩

theorem step_similar {m : Machine} {i : Instruction} {b : Behaviour}
    (running : m.halted = false) (decoded : decode m.variant (m.peek m.pc) = some i)
    (modelled : Behaviour.of? i = some b) (acts : b.effects ≠ [])
    (direct : i.mode ≠ .relative) (undisturbed : m.takesInterrupt = false) :
    m.step.2 = none ∧
      Cpu.Similar SameButTime False m.step.1
        (MicroOp.performAll (b.operations m.variant i.mode) m.fetchByte.2 {}).1 := by
  obtain ⟨program, found, performed⟩ := program_similar (m := m.fetchByte.2) decoded modelled
    (timed_of_effects decoded modelled acts) direct
  obtain ⟨journal, stepped⟩ := Cpu.step_eq running found undisturbed
  rw [stepped]
  exact ⟨rfl, { performed with }⟩

end Machine

end Cycle6502
