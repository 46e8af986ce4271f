import Cycle6502.Proofs.Instruction.Address
import Cycle6502.Proofs.Instruction.Effects
import Cycle6502.Proofs.Instruction.Modes
import Cycle6502.Proofs.Instruction.Step

/-! Instructions that read their operand. -/

set_option autoImplicit false

namespace Cycle6502

open Board (SameButTime)

def Mode.fetching : Mode → List MicroOp
  | .immediate => [.fetchImmediate]
  | .zeroPage | .zeroPageX | .zeroPageY => [.zeroPageRead .effective .operand]
  | .absoluteX | .absoluteY | .indirectIndexed =>
    [.pageCrossProbe, .read .carried (some .operand)]
  | _ => [.read .effective (some .operand)]

theorem Behaviour.operations_reading (e : Effect) (v : Variant) {mode : Mode}
    (readable : mode = .immediate ∨ mode.inMemory) :
    (reading [e]).operations v mode = mode.locating ++ mode.fetching ++ [.effect e] := by
  rcases readable with rfl | memory
  · rfl
  · cases mode <;> first | rfl | cases memory

namespace Machine

section
variable (m : Machine)

theorem base_lt (mode : Mode) : m.base mode < 65536 := by
  have byte : m.operandByte < 256 := UInt8.toNat_lt _
  have high : (m.peek (m.pc + 2)).toNat < 256 := UInt8.toNat_lt _
  have word : m.operandWord < 65536 := by
    rw [operandWord]
    omega
  have pointed : m.pointedWord m.operandByte < 65536 := by
    have low : (m.peek (.ofNat m.operandByte)).toNat < 256 := UInt8.toNat_lt _
    have high : (m.peek (.ofNat ((m.operandByte + 1) % 256))).toNat < 256 := UInt8.toNat_lt _
    rw [pointedWord]
    omega
  unfold base
  split <;> omega

theorem offset_lt (mode : Mode) : m.offset mode < 256 := by
  have x := m.registers.x.toNat_lt
  have y := m.registers.y.toNat_lt
  unfold offset
  split <;> omega

theorem eq_nonCarried_iff {mode : Mode} {addr : UInt16} (indexed : mode.site = .carried)
    (found : m.effectiveAddress mode = some addr) :
    addr = m.nonCarried mode ↔ ¬m.carries mode := by
  have base := m.base_lt mode
  have offset := m.offset_lt mode
  have sum : addr = .ofNat ((m.base mode + m.offset mode) % 65536) := by
    cases mode <;> cases indexed <;> cases found <;> rfl
  -- As numbers the two addresses have the same place; they differ in the page if there is a carry.
  rw [sum, nonCarried, carries, ← UInt16.toNat_inj, UInt16.toNat_ofNat', UInt16.toNat_ofNat']
  omega

end

section
variable {m d : Machine} {mode : Mode} {addr : UInt16} {l : Latches}

/-- The probe reads the early address if the offset carries, and the operand is read after it. -/
theorem Located.probe (located : m.Located mode addr d l) (indexed : mode.site = .carried)
    (found : m.effectiveAddress mode = some addr) :
    let fetched := MicroOp.performAll [.pageCrossProbe, .read .carried (some .operand)] d l
    m.Reads fetched.1 (1 + mode.operandBytes)
        (m.codeReads (1 + mode.operandBytes) ++ m.pointerReads mode ++
          (if m.carries mode then [m.earlyRead mode] else []) ++ [.read addr (m.peek addr)]) ∧
      fetched.2.operand = m.peek addr := by
  have carried : l.carried = addr := by
    have address := located.address
    rw [indexed] at address
    exact address
  have early := located.early indexed
  have same := m.eq_nonCarried_iff indexed found
  rw [← carried, ← early] at same
  rw [← carried, earlyRead, ← early]
  -- The probe overwrites the operand latch; the read behind it makes up for that.
  by_cases carries : m.carries mode
  · have different : l.carried ≠ l.nonCarried := fun equal => same.1 equal carries
    obtain ⟨-, probed⟩ := (located.reads.wait 1).read l.nonCarried
    obtain ⟨value, reads⟩ := probed.read l.carried
    simp only [MicroOp.performAll, MicroOp.perform, if_neg different, if_pos carries]
    exact ⟨reads, value⟩
  · obtain ⟨value, reads⟩ := located.reads.read l.carried
    simp only [MicroOp.performAll, MicroOp.perform, if_pos (same.2 carries), if_neg carries,
      List.append_nil]
    exact ⟨reads, value⟩

theorem Located.fetch (located : m.Located mode addr d l)
    (found : m.effectiveAddress mode = some addr) :
    let fetched := MicroOp.performAll mode.fetching d l
    m.Reads fetched.1 (1 + mode.operandBytes)
        (m.codeReads (1 + mode.operandBytes) ++ m.readAccesses mode) ∧
      fetched.2.operand = m.peek addr := by
  have address := located.address
  simp only [readAccesses, found]
  cases mode
  case zeroPage | zeroPageX | zeroPageY =>
    have low := effectiveAddress_lt found rfl
    rw [← address] at low ⊢
    obtain ⟨value, reads⟩ := located.reads.zeroPageRead low
    rw [List.append_assoc] at reads
    exact ⟨reads, value⟩
  case absoluteX | absoluteY | indirectIndexed =>
    obtain ⟨reads, value⟩ := located.probe rfl found
    rw [List.append_assoc, List.append_assoc, ← List.append_assoc (m.pointerReads _)] at reads
    exact ⟨reads, value⟩
  case absolute | indexedIndirect =>
    rw [← address]
    obtain ⟨value, reads⟩ := located.reads.read (l.resolve .effective)
    rw [List.append_assoc] at reads
    exact ⟨reads, value⟩
  all_goals cases found

end

theorem reads_operand (m : Machine) {mode : Mode}
    (readable : mode = .immediate ∨ mode.inMemory) :
    let fetched := MicroOp.performAll (mode.locating ++ mode.fetching) m.fetchByte.2 {}
    m.Reads fetched.1 (1 + mode.operandBytes)
        (m.codeReads (1 + mode.operandBytes) ++ m.readAccesses mode) ∧
      m.operand mode = some fetched.2.operand := by
  rcases readable with rfl | memory
  · obtain ⟨value, reads⟩ := m.reads_operandByte
    refine ⟨?_, congrArg some value.symm⟩
    have none : m.readAccesses .immediate = [] := rfl
    rw [none, List.append_nil]
    exact reads
  · obtain ⟨addr, found⟩ := m.effectiveAddress_isSome memory
    obtain ⟨reads, value⟩ := (m.located found).fetch found
    rw [MicroOp.performAll_append]
    refine ⟨reads, ?_⟩
    rw [value]
    cases mode <;> first | exact congrArg (Option.map m.peek) found | cases memory

/-- An instruction that reads its operand does to registers and flags what the manual says, and
nothing else but its reads. -/
theorem step_reader {m : Machine} {i : Instruction} (running : m.halted = false)
    (decoded : decode m.variant (m.peek m.pc) = some i)
    (reader : i.mnemonic ∈ Textbook.readers) (undisturbed : m.takesInterrupt = false) :
    ∃ value, m.operand i.mode = some value ∧ m.step.2 = none ∧
      m.Executed m.step.1 i.mode (m.readAccesses i.mode) ∧
      m.step.1.bus.ram = m.bus.ram ∧ m.step.1.bus.feedback = m.bus.feedback ∧
      m.step.1.bus.lines = m.bus.lines ∧
      ((i.mnemonic ∈ [.adc, .sbc] → m.flags.decimal = false) →
        (m.step.1.registers, m.step.1.flags) =
          Textbook.afterRead i m.registers m.flags value) ∧
      (i.mnemonic ∈ [.adc, .sbc] →
        Textbook.KeepsOthers m.registers m.step.1.registers m.flags m.step.1.flags) := by
  have readable := (regular_of_decode decoded).1 reader
  have direct : i.mode ≠ .relative := by
    rcases readable with immediate | memory
    · rw [immediate]
      decide
    · exact Mode.ne_relative memory
  obtain ⟨e, modelled, performs⟩ := Effect.perform_reader (β := Board) reader
  obtain ⟨stepped, similar⟩ := step_similar running decoded modelled
    (List.cons_ne_nil _ _) direct undisturbed
  obtain ⟨reads, operand⟩ := m.reads_operand readable
  rw [Behaviour.operations_reading e _ readable, MicroOp.performAll_append] at similar
  -- What is left is one effect on a machine that differs by its reads only.
  generalize MicroOp.performAll (i.mode.locating ++ i.mode.fetching) m.fetchByte.2 {} = fetched
    at reads operand similar
  obtain ⟨registers, flags, performed, binary, others⟩ := performs fetched.1 fetched.2
  rw [MicroOp.performAll_singleton, MicroOp.perform_effect, performed] at similar
  rw [reads.registers, reads.flags] at binary others
  have executed : m.Executed { fetched.1 with registers, flags } i.mode (m.readAccesses i.mode) :=
    ⟨reads.halted, reads.pc, reads.accesses⟩
  refine ⟨_, operand, stepped, executed.of_similar similar, similar.bus.ram.trans reads.ram,
    similar.bus.feedback.trans reads.feedback, similar.bus.lines.trans reads.lines, ?_⟩
  rw [similar.registers, similar.flags]
  exact ⟨binary, others⟩

/-- A sum through a pointer, of which the low byte carries. -/
theorem step_reader_sum :
    let m := loaded [0x71, 0x03, 0x00, 0xF0, 0x00]
    decode m.variant (m.peek m.pc) = some ⟨.adc, .indirectIndexed⟩ ∧ m.takesInterrupt = false ∧
      m.Executed m.step.1 .indirectIndexed (m.readAccesses .indirectIndexed) ∧
      (m.step.1.registers, m.step.1.flags) =
        Textbook.afterRead ⟨.adc, .indirectIndexed⟩ m.registers m.flags 0 := by
  have decoded : decode (loaded [0x71, 0x03, 0x00, 0xF0, 0x00]).variant
      ((loaded [0x71, 0x03, 0x00, 0xF0, 0x00]).peek 0) = some ⟨.adc, .indirectIndexed⟩ := by
    decide +kernel
  have undisturbed : (loaded [0x71, 0x03, 0x00, 0xF0, 0x00]).takesInterrupt = false := by
    decide +kernel
  have operand : (loaded [0x71, 0x03, 0x00, 0xF0, 0x00]).operand .indirectIndexed = some 0 := by
    decide +kernel
  obtain ⟨value, found, -, executed, -, -, -, binary, -⟩ :=
    step_reader rfl decoded (by decide) undisturbed
  cases found.symm.trans operand
  exact ⟨decoded, undisturbed, executed, binary fun _ => rfl⟩

end Machine

end Cycle6502
