import Cycle6502.Proofs.Instruction.Writing

/-! Instructions that replace their operand in memory. On the bus they write it back before they
write the result, which the feedback register must not take for an edge. -/

set_option autoImplicit false

namespace Cycle6502

open Board (SameButTime)

/-- What a modification does before its effect: it reads the operand, and on the bus it writes the
operand back. -/
def Mode.exchanging : Mode → List MicroOp
  | .zeroPage | .zeroPageX => [.zeroPageRead .effective .operand]
  | .absoluteX => [.read .nonCarried none, .read .carried (some .operand), .write .carried]
  | _ => [.read .effective (some .operand), .write .effective]

theorem Behaviour.operations_modifying (e : Effect) (v : Variant) {mode : Mode}
    (memory : mode ∈ Mode.modifiable) :
    (modifying [e]).operations v mode =
      mode.locating ++ mode.exchanging ++ [.effect e] ++ [mode.writing] := by
  simp only [Mode.modifiable, List.mem_cons, List.not_mem_nil, or_false] at memory
  rcases memory with rfl | rfl | rfl | rfl <;> rfl

namespace Machine

def exchangeAccesses (m : Machine) (mode : Mode) (addr : UInt16) : List BusEvent :=
  match mode with
  | .zeroPage | .zeroPageX => [.zeroPageRead addr (m.peek addr)]
  | .absoluteX => [m.earlyRead mode, .read addr (m.peek addr), .write addr (m.peek addr)]
  | _ => [.read addr (m.peek addr), .write addr (m.peek addr)]

theorem modifyAccesses_eq (m : Machine) {mode : Mode} (memory : mode ∈ Mode.modifiable)
    (addr : UInt16) (value : UInt8) :
    m.modifyAccesses mode addr value =
      m.exchangeAccesses mode addr ++ [mode.writeEvent addr value] := by
  simp only [Mode.modifiable, List.mem_cons, List.not_mem_nil, or_false] at memory
  rcases memory with rfl | rfl | rfl | rfl <;> rfl

section
variable {m d : Machine} {mode : Mode} {addr : UInt16} {l : Latches} {data : List BusEvent}

theorem Reads.writeBack
    (reads : m.Reads d (1 + mode.operandBytes) (m.codeReads (1 + mode.operandBytes) ++ data))
    (addr : UInt16) :
    m.Poised (d.write addr (m.peek addr)) mode addr (data ++ [.write addr (m.peek addr)]) where
  registers := reads.registers
  flags := reads.flags
  executed := by
    refine ⟨reads.halted, reads.pc, ?_⟩
    rw [← List.append_assoc]
    change (d.bus.write addr (m.peek addr)).events.accesses = _
    rw [Board.events_write]
    exact Recording.accesses_gain reads.accesses rfl
  -- The second write goes to the same address and covers the first.
  stored stored :=
    have back := (d.bus.stored_write addr (m.peek addr)).of_left reads.ram reads.feedback reads.lines
    back.again stored

theorem Located.exchange (located : m.Located mode addr d l) (memory : mode ∈ Mode.modifiable)
    (found : m.effectiveAddress mode = some addr) :
    let exchanged := MicroOp.performAll mode.exchanging d l
    m.Poised exchanged.1 mode addr (m.exchangeAccesses mode addr) ∧
      exchanged.2 = { l with operand := m.peek addr } := by
  obtain ⟨reads, rfl, early⟩ := located
  simp only [Mode.modifiable, List.mem_cons, List.not_mem_nil, or_false] at memory
  rcases memory with rfl | rfl | rfl | rfl
  case inl | inr.inl =>
    obtain ⟨value, reads⟩ := reads.zeroPageRead (effectiveAddress_lt found rfl)
    rw [List.append_assoc] at reads
    exact ⟨reads.poised _, congrArg (fun operand => { l with operand }) value⟩
  case inr.inr.inl =>
    obtain ⟨value, reads⟩ := reads.read l.addr
    have exchanged : MicroOp.performAll (Mode.exchanging .absolute) d l =
        ((d.read l.addr).2.write l.addr (m.peek l.addr), { l with operand := m.peek l.addr }) := by
      rw [← value]
      rfl
    rw [List.append_assoc] at reads
    rw [exchanged]
    exact ⟨reads.writeBack l.addr, rfl⟩
  case inr.inr.inr =>
    -- The byte of the early read goes nowhere; only the recording shows it.
    obtain ⟨-, reads⟩ := reads.read l.nonCarried
    obtain ⟨value, reads⟩ := reads.read l.carried
    have exchanged : MicroOp.performAll (Mode.exchanging .absoluteX) d l =
        (((d.read l.nonCarried).2.read l.carried).2.write l.carried (m.peek l.carried),
          { l with operand := m.peek l.carried }) := by
      rw [← value]
      rfl
    rw [List.append_assoc, List.append_assoc] at reads
    rw [exchanged, exchangeAccesses, earlyRead, ← early rfl]
    exact ⟨reads.writeBack l.carried, rfl⟩

end

/-- An instruction that replaces its operand in memory changes nothing else. If the operand is the
feedback register, writing it back raises no edge. -/
theorem step_modifier {m : Machine} {i : Instruction} (running : m.halted = false)
    (decoded : decode m.variant (m.peek m.pc) = some i)
    (modifier : i.mnemonic ∈ Textbook.modifiers) (memory : i.mode ≠ .accumulator)
    (undisturbed : m.takesInterrupt = false) :
    ∃ addr, m.effectiveAddress i.mode = some addr ∧ m.step.2 = none ∧
      let result := Textbook.modified i.mnemonic m.registers.a m.flags (m.peek addr)
      m.Executed m.step.1 i.mode (m.modifyAccesses i.mode addr result.1) ∧
        m.step.1.registers = m.registers ∧ m.step.1.flags = result.2 ∧
        m.bus.Stored m.step.1.bus addr result.1 ∧
        (m.bus.write addr (m.peek addr)).lines.nmi = m.bus.lines.nmi := by
  have modifiable := ((regular_of_decode decoded).2.1 modifier).resolve_left memory
  have inMemory := Mode.inMemory_of_modifiable modifiable
  obtain ⟨addr, found⟩ := m.effectiveAddress_isSome inMemory
  obtain ⟨e, modelled, performs⟩ := Effect.perform_modifier (β := Board) modifier
  let result := Textbook.modified i.mnemonic m.registers.a m.flags (m.peek addr)
  have prepares {d : Machine} {l : Latches} (located : m.Located i.mode addr d l) :
      let ready := MicroOp.performAll i.mode.exchanging d l
      m.Poised ready.1 i.mode addr (m.exchangeAccesses i.mode addr) ∧
        ready.2.resolve i.mode.site = addr ∧
        e.perform ready.1 ready.2 =
          ({ ready.1 with flags := result.2 }, { ready.2 with operand := result.1 }) := by
    intro ready
    obtain ⟨poised, latches⟩ := located.exchange modifiable found
    have same : Textbook.modified i.mnemonic ready.1.registers.a ready.1.flags ready.2.operand =
        result := by
      rw [poised.registers, poised.flags, latches]
    refine ⟨poised, ?_, ?_⟩
    · rw [latches, Latches.resolve_operand, located.address]
    · rw [performs, same]
  obtain ⟨stepped, executed, registers, flags, stored⟩ := step_writer running decoded modelled
    (List.cons_ne_nil _ _) inMemory undisturbed found
    (Behaviour.operations_modifying e _ modifiable) prepares
  rw [← modifyAccesses_eq m modifiable] at executed
  exact ⟨addr, found, stepped, executed, registers, flags, stored,
    (m.bus.stored_write addr (m.peek addr)).nmi_of_back⟩

/-- An increment of the feedback register from 1 to 2 raises an edge. -/
theorem step_modifier_edge :
    let m := loaded [0xEE, 0xFC, 0xBF]
    decode m.variant (m.peek m.pc) = some ⟨.inc, .absolute⟩ ∧ m.takesInterrupt = false ∧
      m.step.1.bus.feedback = 2 ∧ m.step.1.bus.lines.nmi = true := by
  have decoded : decode (loaded [0xEE, 0xFC, 0xBF]).variant ((loaded [0xEE, 0xFC, 0xBF]).peek 0) =
      some ⟨.inc, .absolute⟩ := by
    decide +kernel
  have undisturbed : (loaded [0xEE, 0xFC, 0xBF]).takesInterrupt = false := by decide +kernel
  have address : (loaded [0xEE, 0xFC, 0xBF]).effectiveAddress .absolute =
      some feedbackRegister := by
    decide +kernel
  obtain ⟨addr, found, -, -, -, -, stored, -⟩ :=
    step_modifier rfl decoded (by decide) (by decide) undisturbed
  cases found.symm.trans address
  obtain ⟨-, feedback, -, nmi⟩ := stored.register rfl
  exact ⟨decoded, undisturbed, feedback, nmi⟩

end Machine

end Cycle6502
