import Cycle6502.Proofs.Instruction.Step
import Cycle6502.Proofs.Instruction.Textbook
import Cycle6502.Proofs.Run.Basic

/-! Steps that fail. An opcode without an instruction is read, and the processor halts in front of
it with all else as it was, interrupts that are due included. -/

set_option autoImplicit false

namespace Cycle6502

namespace Cpu

variable {β : Type} [Bus β]

/-- Nothing but a reset wakes a halted processor: no signal does, so each of its steps stands
still. -/
theorem starts_halted [Signalled β] {c : Cpu β} (halted : c.halted = true)
    (happenings : List Happening) : ∀ d ∈ c.starts happenings, d.step = (d, none) := by
  induction happenings generalizing c with
  | nil => exact List.forall_mem_nil _
  | cons happening rest ih =>
    cases happening with
    | signal s => exact ih (c := c.receive s) halted
    | step =>
      have still := step_halted halted
      have later := ih halted
      rw [starts, still]
      exact List.forall_mem_cons.2 ⟨still, later⟩

end Cpu

theorem Microcode.lookup_eq_none {μ : Microcode} {opcode : UInt8} :
    μ.lookup opcode = none ↔ Microprogram.compile μ.variant opcode = .ok none := by
  rw [lookup_eq, Microprogram.compile_eq_ok, Except.ok.injEq]

namespace Machine

structure Fails (m : Machine) (failure : InvalidOpcode) : Prop where
  step : ∃ journal, m.step =
    ({ m with
       bus := { m.bus with events := m.bus.events.add (.read m.pc (m.peek m.pc)) }
       halted := true
       journal }, some failure)
  execute : m.fetchByte.2.execute (m.peek m.pc) = (m.fetchByte.2, some failure)
  later : ∀ happenings, ∀ c ∈ m.step.1.starts happenings, c.step = (c, none)

theorem invalidOpcode_fetchByte (m : Machine) (opcode : UInt8) :
    m.fetchByte.2.invalidOpcode opcode =
      ⟨opcode, m.pc, (decode m.variant opcode).map (·.mnemonic)⟩ := by
  -- The program counter is brought back from behind the opcode, over the end of memory as well.
  have back : m.pc + 1 - 1 = m.pc := by grind
  exact congrArg (fun pc => (⟨opcode, pc, _⟩ : InvalidOpcode)) back

theorem fails_of_missing {m : Machine} (running : m.halted = false)
    (missing : m.microcode.lookup (m.peek m.pc) = none) :
    m.Fails ⟨m.peek m.pc, m.pc, (decode m.variant (m.peek m.pc)).map (·.mnemonic)⟩ := by
  obtain ⟨journal, stepped⟩ := Cpu.step_invalid running missing
  rw [← invalidOpcode_fetchByte]
  exact {
    step := ⟨journal, stepped⟩
    execute := Cpu.execute_invalid missing
    later := Cpu.starts_halted (by rw [stepped]) }

theorem isSome_step_iff (m : Machine) :
    m.step.2.isSome ↔ m.halted = false ∧ m.microcode.lookup (m.peek m.pc) = none := by
  cases running : m.halted with
  | true => simp [Cpu.step_halted running]
  | false =>
    cases found : m.microcode.lookup (m.peek m.pc) with
    | none =>
      obtain ⟨journal, stepped⟩ := (fails_of_missing running found).step
      simp [stepped]
    | some program =>
      obtain ⟨journal, stepped⟩ := Cpu.step_settle running found
      simp [stepped]

/-- A step fails on exactly the opcodes that have no instruction, and such an opcode changes nothing
wherever it is tried; a step only records its read, and halts for good. -/
theorem step_failure (m : Machine) :
    (m.step.2.isSome ↔
      m.halted = false ∧ Microprogram.compile m.variant (m.peek m.pc) = .ok none) ∧
    (m.step.2.isSome →
      m.Fails ⟨m.peek m.pc, m.pc, (decode m.variant (m.peek m.pc)).map (·.mnemonic)⟩) ∧
    (∀ c : Machine, c.halted = true → c.step = (c, none)) ∧
    ∀ opcode, Microprogram.compile m.variant opcode = .ok none →
      m.execute opcode =
        (m, some ⟨opcode, m.pc - 1, (decode m.variant opcode).map (·.mnemonic)⟩) := by
  have invalid := m.isSome_step_iff
  refine ⟨invalid.trans (and_congr_right' Microcode.lookup_eq_none), fun failed => ?_,
    fun _ => Cpu.step_halted,
    fun opcode missing => Cpu.execute_invalid (Microcode.lookup_eq_none.2 missing)⟩
  obtain ⟨running, missing⟩ := invalid.1 failed
  exact fails_of_missing running missing

/-- An NMI that has been requested waits in front of an invalid opcode. -/
theorem step_failure_nmi :
    let m := requestNmi (loaded [0x02])
    m.halted = false ∧ Microprogram.compile m.variant (m.peek m.pc) = .ok none ∧
      m.Fails ⟨0x02, 0x0000, none⟩ ∧ m.step.1.bus.lines.nmi = true ∧
      m.execute 0x02 = (m, some ⟨0x02, 0xFFFF, none⟩) := by
  intro m
  have opcode : m.peek m.pc = 0x02 := by decide +kernel
  have missing : Microprogram.compile m.variant 0x02 = .ok none := by decide +kernel
  obtain ⟨fails, failing, -, executed⟩ := step_failure m
  rw [opcode] at fails failing
  have failed := failing (fails.2 ⟨rfl, missing⟩)
  obtain ⟨journal, stepped⟩ := failed.step
  exact ⟨rfl, by rw [opcode]; exact missing, failed, by rw [stepped]; rfl, executed 0x02 missing⟩

end Machine

end Cycle6502
