import Cycle6502.Proofs.Instruction.Step
import Cycle6502.Proofs.Interrupt.Entry

/-! RTI undoes an entry to a handler. The two entries stack the same three bytes in the same order,
and the status among them was composed before the entry changed any flag. -/

set_option autoImplicit false

namespace Cycle6502

open Board (SameButTime)

namespace Flags

theorem ofByte_unused (status : UInt8) : (ofByte status).unused = status.toNat.testBit 5 := by
  revert status
  exact forall_byte (by decide +kernel)

theorem ofByte_brk (status : UInt8) : (ofByte status).brk = status.toNat.testBit 4 := by
  revert status
  exact forall_byte (by decide +kernel)

theorem stacked_toByte (p : Flags) (brk : Bool) :
    let status := { p with brk, unused := true }.toByte
    (ofByte status).live = p.live ∧ status.toNat.testBit 5 = true ∧
      status.toNat.testBit 4 = brk := by
  intro status
  have back : ofByte status = { p with brk, unused := true } := ofByte_toByte _
  rw [← ofByte_unused, ← ofByte_brk, back]
  exact ⟨rfl, rfl, rfl⟩

end Flags

namespace Machine

/-- The machine behind an entry to a handler of which RTI is the end: in any later state with the
stack pointer and the three stacked bytes of the entry, RTI brings back what was interrupted. -/
structure Interrupted (m d : Machine) (kind : Interrupt) (returnTo : UInt16) : Prop where
  entered : ∃ status, m.Entered d kind returnTo status ∧ status.toNat.testBit 5 = true ∧
    (status.toNat.testBit 4 = true ↔ kind = .brk)
  back : ∀ later : Machine, later.registers.sp = d.registers.sp →
    m.stackedAt.map later.bus.ram.read = m.stackedAt.map d.bus.ram.read →
    ∃ r, later.execute 0x40 = (r, none) ∧ r.pc = returnTo ∧ r.flags = m.flags.live ∧
      r.registers.sp = m.registers.sp

theorem execute_returnFromInterrupt (m : Machine) :
    ∃ r, m.execute 0x40 = (r, none) ∧
      r.pc = wordOf (m.bus.ram.read (stackAddress (m.registers.sp + 2)))
        (m.bus.ram.read (stackAddress (m.registers.sp + 3))) ∧
      r.flags = (Flags.ofByte (m.bus.ram.read (stackAddress (m.registers.sp + 1)))).live ∧
      r.registers.sp = m.registers.sp + 3 := by
  have decoded : decode m.variant 0x40 = some ⟨.rti, .implied⟩ := by
    cases m.variant <;> decide
  obtain ⟨r, executed, performed⟩ := execute_similar (m := m) decoded rfl (by decide) (by decide)
  have two : m.registers.sp + 1 + 1 = m.registers.sp + 2 := by grind
  have three : m.registers.sp + 1 + 1 + 1 = m.registers.sp + 3 := by grind
  refine ⟨r, executed, performed.pc.trans ?_, performed.flags, ?_⟩
  · rw [← two, ← three]
    rfl
  · rw [performed.registers, ← three]
    rfl

theorem Entered.interrupted {m d : Machine} {kind : Interrupt} {returnTo : UInt16} (brk : Bool)
    (entered : m.Entered d kind returnTo { m.flags with brk, unused := true }.toByte)
    (names : brk = true ↔ kind = .brk) : m.Interrupted d kind returnTo := by
  obtain ⟨live, unused, marked⟩ := Flags.stacked_toByte m.flags brk
  refine ⟨⟨_, entered, unused, by rw [marked, names]⟩, fun later pointer kept => ?_⟩
  obtain ⟨r, executed, pc, flags, sp⟩ := later.execute_returnFromInterrupt
  rw [entered.stacked] at kept
  simp only [stackedAt, List.map_cons, List.map_nil, List.cons.injEq, and_true] at kept
  obtain ⟨high, low, status⟩ := kept
  rw [entered.registers] at pointer
  -- Going up from where the entry left off, RTI meets the bytes in the opposite order.
  have first : later.registers.sp + 1 = m.registers.sp - 2 := by grind
  have second : later.registers.sp + 2 = m.registers.sp - 1 := by grind
  have third : later.registers.sp + 3 = m.registers.sp := by grind
  rw [second, third, low, high, wordOf_bytes] at pc
  rw [first, status, live] at flags
  exact ⟨r, executed, pc, flags, sp.trans third⟩

/-- Whatever a handler does in between, RTI undoes an interrupt, and a BRK but for the two bytes
that it takes. -/
theorem interrupted_entry (m : Machine) :
    m.Interrupted m.serviceInterrupt m.interruptKind m.pc ∧
      ∃ d, m.fetchByte.2.execute 0x00 = (d, none) ∧ m.Interrupted d .brk (m.pc + 2) := by
  constructor
  · refine m.served_serviceInterrupt.1.entered.interrupted false ?_
    unfold interruptKind
    split <;> simp
  · have decoded : decode m.variant 0x00 = some ⟨.brk, .implied⟩ := by
      cases m.variant <;> decide
    obtain ⟨d, executed, performed⟩ := execute_similar (m := m.fetchByte.2) decoded rfl
      (by decide) (by decide)
    refine ⟨d, executed, ?_⟩
    have entered := (entered_enterHandler m.fetchByte.2 .brk (m.fetchByte.2.pc + 1)
      m.fetchByte.2.statusByte).1.of_similar performed
    have behind : m.fetchByte.2.pc + 1 = m.pc + 2 := by
      change m.pc + 1 + 1 = m.pc + 2
      grind
    rw [behind] at entered
    -- The fetch of the opcode shows in the program counter and the recording only.
    have before : m.Entered d .brk (m.pc + 2) m.statusByte :=
      { entered with }
    exact before.interrupted true (by simp)

end Machine

end Cycle6502
