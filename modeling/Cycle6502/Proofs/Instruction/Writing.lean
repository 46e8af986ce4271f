import Cycle6502.Proofs.Instruction.Address
import Cycle6502.Proofs.Instruction.Effects
import Cycle6502.Proofs.Instruction.Modes
import Cycle6502.Proofs.Instruction.Step

/-! Instructions that store a byte. Their last operation is the write, and what they have done
before it shows in the recording only. -/

set_option autoImplicit false

namespace Cycle6502

open Board (SameButTime)

namespace Mode

def writing : Mode → MicroOp
  | .zeroPage | .zeroPageX | .zeroPageY => .zeroPageWrite .effective
  | mode => .write mode.site

def writeEvent (mode : Mode) (addr : UInt16) (value : UInt8) : BusEvent :=
  if mode.inZeroPage then .zeroPageWrite addr value else .write addr value

/-- What a store does before its effect: an indexed one reads the early address. -/
def touching : Mode → List MicroOp
  | .absoluteX | .absoluteY | .indirectIndexed => [.read .nonCarried none]
  | _ => []

end Mode

theorem Behaviour.operations_writing (e : Effect) (v : Variant) {mode : Mode}
    (memory : mode.inMemory) :
    (writing [e]).operations v mode =
      mode.locating ++ mode.touching ++ [.effect e] ++ [mode.writing] := by
  cases mode <;> first | rfl | cases memory

namespace Machine

/-- A machine that has done all of an instruction but its effect on the flags and its last write:
that write will seem to be the only one. -/
structure Poised (m d : Machine) (mode : Mode) (addr : UInt16) (data : List BusEvent) : Prop where
  registers : d.registers = m.registers
  flags : d.flags = m.flags
  executed : m.Executed d mode data
  stored : ∀ {b : Board} {value : UInt8}, d.bus.Stored b addr value → m.bus.Stored b addr value

def touchAccesses (m : Machine) (mode : Mode) : List BusEvent :=
  match mode with
  | .absoluteX | .absoluteY | .indirectIndexed => m.pointerReads mode ++ [m.earlyRead mode]
  | _ => m.pointerReads mode

theorem storeAccesses_eq (m : Machine) (mode : Mode) (addr : UInt16) (value : UInt8) :
    m.storeAccesses mode addr value = m.touchAccesses mode ++ [mode.writeEvent addr value] := by
  cases mode <;> rfl

section
variable {m d : Machine} {mode : Mode} {addr : UInt16} {l : Latches} {data : List BusEvent}

theorem Reads.poised
    (reads : m.Reads d (1 + mode.operandBytes) (m.codeReads (1 + mode.operandBytes) ++ data))
    (addr : UInt16) : m.Poised d mode addr data :=
  ⟨reads.registers, reads.flags, ⟨reads.halted, reads.pc, reads.accesses⟩,
    fun stored => stored.of_left reads.ram reads.feedback reads.lines⟩

theorem Poised.write (poised : m.Poised d mode addr data) (address : l.resolve mode.site = addr)
    (low : mode.inZeroPage → addr.toNat < 256) (flags : Flags) :
    let written := (mode.writing.perform { d with flags } l).1
    m.Executed written mode (data ++ [mode.writeEvent addr l.operand]) ∧
      written.registers = m.registers ∧ written.flags = flags ∧
      m.bus.Stored written.bus addr l.operand := by
  intro written
  -- Either write moves neither the processor nor the recording but for one event.
  have moved {event : BusEvent} (access : event.isWait = false)
      (halted : written.halted = d.halted) (pc : written.pc = d.pc)
      (events : written.bus.events = d.bus.events.add event) :
      m.Executed written mode (data ++ [event]) := by
    refine ⟨halted.trans poised.executed.halted, pc.trans poised.executed.pc, ?_⟩
    rw [events, ← List.append_assoc]
    exact Recording.accesses_gain poised.executed.accesses access
  cases zeroPage : mode.inZeroPage with
  | true =>
    have performed : written = Cpu.zeroPageWrite { d with flags } addr l.operand := by
      rw [← address]
      cases mode <;> first | rfl | cases zeroPage
    rw [Mode.writeEvent, if_pos zeroPage]
    rw [performed] at moved ⊢
    exact ⟨moved rfl rfl rfl rfl, poised.registers, rfl,
      poised.stored (d.bus.stored_zeroPageWrite (low zeroPage) l.operand)⟩
  | false =>
    have performed : written = Cpu.write { d with flags } addr l.operand := by
      rw [← address]
      cases mode <;> first | rfl | cases zeroPage
    rw [Mode.writeEvent, if_neg (ne_true_of_eq_false zeroPage)]
    rw [performed] at moved ⊢
    exact ⟨moved rfl rfl rfl (d.bus.events_write _ _), poised.registers, rfl,
      poised.stored (d.bus.stored_write addr l.operand)⟩

theorem Located.touch (located : m.Located mode addr d l) :
    let touched := MicroOp.performAll mode.touching d l
    m.Poised touched.1 mode addr (m.touchAccesses mode) ∧ touched.2 = l := by
  cases mode
  case absoluteX | absoluteY | indirectIndexed =>
    obtain ⟨-, reads⟩ := located.reads.read l.nonCarried
    rw [List.append_assoc] at reads
    rw [touchAccesses, earlyRead, ← located.early rfl]
    exact ⟨reads.poised addr, rfl⟩
  all_goals exact ⟨located.reads.poised addr, rfl⟩

end

/-- A step that locates its operand, gets ready to write, takes effect and writes. -/
theorem step_writer {m : Machine} {i : Instruction} {b : Behaviour} {e : Effect} {addr : UInt16}
    {before : List MicroOp} {data : List BusEvent} {flags : Flags} {result : UInt8}
    (running : m.halted = false) (decoded : decode m.variant (m.peek m.pc) = some i)
    (modelled : Behaviour.of? i = some b) (acts : b.effects ≠ []) (memory : i.mode.inMemory)
    (undisturbed : m.takesInterrupt = false) (found : m.effectiveAddress i.mode = some addr)
    (split : b.operations m.variant i.mode =
      i.mode.locating ++ before ++ [.effect e] ++ [i.mode.writing])
    (prepares : ∀ {d : Machine} {l : Latches}, m.Located i.mode addr d l →
      let ready := MicroOp.performAll before d l
      m.Poised ready.1 i.mode addr data ∧ ready.2.resolve i.mode.site = addr ∧
        e.perform ready.1 ready.2 = ({ ready.1 with flags }, { ready.2 with operand := result })) :
    m.step.2 = none ∧
      m.Executed m.step.1 i.mode (data ++ [i.mode.writeEvent addr result]) ∧
      m.step.1.registers = m.registers ∧ m.step.1.flags = flags ∧
      m.bus.Stored m.step.1.bus addr result := by
  obtain ⟨stepped, similar⟩ :=
    step_similar running decoded modelled acts (Mode.ne_relative memory) undisturbed
  obtain ⟨poised, address, performed⟩ := prepares (m.located found)
  rw [split, MicroOp.performAll_append, MicroOp.performAll_append, MicroOp.performAll_append,
    MicroOp.performAll_singleton, MicroOp.performAll_singleton, MicroOp.perform_effect,
    performed] at similar
  -- The effect replaces the operand in its latch and leaves the address where it is.
  rw [← Latches.resolve_operand _ _ result] at address
  obtain ⟨executed, registers, kept, stored⟩ :=
    poised.write address (effectiveAddress_lt found) flags
  exact ⟨stepped, executed.of_similar similar, similar.registers.trans registers,
    similar.flags.trans kept, stored.of_right similar.bus⟩

/-- An instruction that stores a byte changes nothing else. -/
theorem step_store {m : Machine} {i : Instruction} (running : m.halted = false)
    (decoded : decode m.variant (m.peek m.pc) = some i)
    (store : i.mnemonic ∈ Textbook.stores) (undisturbed : m.takesInterrupt = false) :
    ∃ addr, m.effectiveAddress i.mode = some addr ∧ m.step.2 = none ∧
      let value := Textbook.stored i.mnemonic m.registers
      m.Executed m.step.1 i.mode (m.storeAccesses i.mode addr value) ∧
        m.step.1.registers = m.registers ∧ m.step.1.flags = m.flags ∧
        m.bus.Stored m.step.1.bus addr value := by
  have memory := (regular_of_decode decoded).2.2 store
  obtain ⟨addr, found⟩ := m.effectiveAddress_isSome memory
  obtain ⟨e, modelled, performs⟩ := Effect.perform_store (β := Board) store
  have prepares {d : Machine} {l : Latches} (located : m.Located i.mode addr d l) :
      let ready := MicroOp.performAll i.mode.touching d l
      m.Poised ready.1 i.mode addr (m.touchAccesses i.mode) ∧
        ready.2.resolve i.mode.site = addr ∧
        e.perform ready.1 ready.2 = ({ ready.1 with flags := m.flags },
          { ready.2 with operand := Textbook.stored i.mnemonic m.registers }) := by
    obtain ⟨poised, latches⟩ := located.touch
    refine ⟨poised, ?_, ?_⟩
    · rw [latches, located.address]
    · rw [performs, poised.registers, ← poised.flags]
  obtain ⟨stepped, executed, kept⟩ := step_writer running decoded modelled
    (List.cons_ne_nil _ _) memory undisturbed found (Behaviour.operations_writing e _ memory) prepares
  rw [← storeAccesses_eq] at executed
  exact ⟨addr, found, stepped, executed, kept⟩

/-- A store that replaces its own opcode. -/
theorem step_store_self :
    let m := loaded [0x85, 0x00]
    decode m.variant (m.peek m.pc) = some ⟨.sta, .zeroPage⟩ ∧ m.takesInterrupt = false ∧
      m.bus.Stored m.step.1.bus 0 m.registers.a := by
  have decoded : decode (loaded [0x85, 0x00]).variant ((loaded [0x85, 0x00]).peek 0) =
      some ⟨.sta, .zeroPage⟩ := by
    decide +kernel
  have undisturbed : (loaded [0x85, 0x00]).takesInterrupt = false := by decide +kernel
  have address : (loaded [0x85, 0x00]).effectiveAddress .zeroPage = some 0 := by decide +kernel
  obtain ⟨addr, found, -, -, -, -, stored⟩ := step_store rfl decoded (by decide) undisturbed
  cases found.symm.trans address
  exact ⟨decoded, undisturbed, stored⟩

end Machine

end Cycle6502
