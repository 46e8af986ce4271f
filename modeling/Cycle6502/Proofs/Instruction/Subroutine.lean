import Cycle6502.Proofs.Instruction.Duration

/-! Subroutines. A call stacks the address of its own last byte, and a return goes to the byte
behind the one that it finds stacked, with the stack pointer where it was before the call. -/

set_option autoImplicit false

namespace Cycle6502

open Board (SameButTime)

namespace Machine

def returnAt (m : Machine) : List UInt16 :=
  [stackAddress m.registers.sp, stackAddress (m.registers.sp - 1)]

structure Called (m d : Machine) : Prop where
  pc : d.pc = .ofNat m.operandWord
  registers : d.registers = { m.registers with sp := m.registers.sp - 2 }
  flags : d.flags = m.flags
  stacked : m.returnAt.map d.bus.ram.read = [highByte (m.pc + 2), lowByte (m.pc + 2)]
  others : ∀ addr, addr ∉ m.returnAt → d.bus.ram.read addr = m.bus.ram.read addr

structure Returned (m later r : Machine) : Prop where
  pc : r.pc = m.pc + 3
  registers : r.registers = { later.registers with sp := m.registers.sp }
  flags : r.flags = later.flags

theorem ram_pushWord (m : Machine) (word : UInt16) (addr : UInt16) :
    (m.pushWord word).bus.ram.read addr =
      if stackAddress (m.registers.sp - 1) = addr then lowByte word
      else if stackAddress m.registers.sp = addr then highByte word
      else m.bus.ram.read addr := by
  simp only [Cpu.pushWord, ram_push, sp_push]

theorem called_jumpToSubroutine (m : Machine) :
    m.Called
      (MicroOp.performAll [.fetchAbsolute, .effect .jumpToSubroutine] m.fetchByte.2 {}).1 := by
  obtain ⟨reads, address⟩ := m.fetchAbsolute
  let fetched := MicroOp.performAll [.fetchAbsolute] m.fetchByte.2 {}
  have last : fetched.1.pc - 1 = m.pc + 2 := by
    have behind : fetched.1.pc = m.pc + 3 := reads.pc
    rw [behind]
    grind
  have two : m.registers.sp - 1 - 1 = m.registers.sp - 2 := by grind
  have ram (addr : UInt16) : (fetched.1.pushWord (fetched.1.pc - 1)).bus.ram.read addr =
      if stackAddress (m.registers.sp - 1) = addr then lowByte (m.pc + 2)
      else if stackAddress m.registers.sp = addr then highByte (m.pc + 2)
      else m.bus.ram.read addr := by
    have pushed := ram_pushWord fetched.1 (fetched.1.pc - 1) addr
    rw [last, reads.registers, reads.ram] at pushed
    rw [last]
    exact pushed
  have different : m.registers.sp - 1 ≠ m.registers.sp := by grind
  exact {
    pc := by
      change fetched.2.addr = _
      rw [← address, UInt16.ofNat_toNat]
    registers := by
      change { fetched.1.registers with sp := fetched.1.registers.sp - 1 - 1 } = _
      rw [reads.registers, two]
    flags := reads.flags
    stacked := by
      change m.returnAt.map (fetched.1.pushWord (fetched.1.pc - 1)).bus.ram.read = _
      simp [returnAt, ram, stackAddress_inj, different]
    others := fun addr outside => by
      simp only [returnAt, List.mem_cons, List.not_mem_nil, or_false, not_or] at outside
      refine (ram addr).trans ?_
      rw [if_neg (Ne.symm outside.2), if_neg (Ne.symm outside.1)] }

theorem Called.of_similar {m d d' : Machine} {decided : Prop} (called : m.Called d')
    (similar : Cpu.Similar SameButTime decided d d') : m.Called d where
  pc := similar.pc.trans called.pc
  registers := similar.registers.trans called.registers
  flags := similar.flags.trans called.flags
  stacked := by
    rw [similar.bus.ram]
    exact called.stacked
  others addr outside := by
    rw [similar.bus.ram]
    exact called.others addr outside

theorem step_jumpToSubroutine {m : Machine} (running : m.halted = false)
    (opcode : m.peek m.pc = 0x20) (undisturbed : m.takesInterrupt = false) :
    m.step.2 = none ∧ m.Called m.step.1 ∧ m.step.1.bus.clock = m.bus.clock + 6 := by
  have decoded : decode m.variant (m.peek m.pc) = some ⟨.jsr, .absolute⟩ := by
    rw [opcode]
    cases m.variant <;> decide
  obtain ⟨program, found, performed⟩ := program_similar (m := m.fetchByte.2) decoded rfl
    (by rw [opcode]; decide) (by decide)
  obtain ⟨i, b, decoded', modelled, regular⟩ := Microcode.regular_of_lookup found
  cases decoded.symm.trans decoded'
  cases modelled
  obtain ⟨journal, stepped⟩ := Cpu.step_eq running found undisturbed
  have clock := m.clock_run regular (by decide)
  -- A call indexes nothing, and has no data that the slow bus could put off.
  have sites : Behaviour.sites { effects := [.jumpToSubroutine], extra := 3 } m.variant .absolute =
      [] := by
    cases m.variant <;> rfl
  have plain : m.crossing { effects := [.jumpToSubroutine], extra := 3 } .absolute = 0 := by
    simp [crossing]
  have prompt : m.accesses { effects := [.jumpToSubroutine], extra := 3 } .absolute = [] := by
    simp [accesses, sites]
  rw [plain, prompt] at clock
  rw [stepped]
  exact ⟨rfl, (called_jumpToSubroutine m).of_similar { performed with }, clock⟩

structure Rejoined (m r : Machine) : Prop where
  pc : r.pc = wordOf (m.bus.ram.read (stackAddress (m.registers.sp + 1)))
    (m.bus.ram.read (stackAddress (m.registers.sp + 2))) + 1
  registers : r.registers = { m.registers with sp := m.registers.sp + 2 }
  flags : r.flags = m.flags

theorem rejoined_returnFromSubroutine (m : Machine) {r : Machine}
    (performed : Cpu.Similar SameButTime False r
      (MicroOp.performAll [.effect .returnFromSubroutine] m {}).1) : m.Rejoined r := by
  have two : m.registers.sp + 1 + 1 = m.registers.sp + 2 := by grind
  refine ⟨performed.pc.trans ?_, performed.registers.trans ?_, performed.flags⟩
  · rw [← two]
    rfl
  · rw [← two]
    rfl

theorem execute_returnFromSubroutine (m : Machine) :
    ∃ r, m.execute 0x60 = (r, none) ∧ m.Rejoined r := by
  have decoded : decode m.variant 0x60 = some ⟨.rts, .implied⟩ := by
    cases m.variant <;> decide
  obtain ⟨r, executed, performed⟩ := execute_similar (m := m) decoded rfl (by decide) (by decide)
  exact ⟨r, executed, m.rejoined_returnFromSubroutine performed⟩

theorem step_returnFromSubroutine {m : Machine} (running : m.halted = false)
    (opcode : m.peek m.pc = 0x60) (undisturbed : m.takesInterrupt = false) :
    m.step.2 = none ∧ m.Rejoined m.step.1 := by
  have decoded : decode m.variant (m.peek m.pc) = some ⟨.rts, .implied⟩ := by
    rw [opcode]
    cases m.variant <;> decide
  obtain ⟨proper, performed⟩ := step_similar running decoded rfl (by decide) (by decide) undisturbed
  -- The fetch of the opcode is seen neither in the registers nor in memory.
  exact ⟨proper, { rejoined_returnFromSubroutine m.fetchByte.2 performed with }⟩

theorem Called.returned {m d later r : Machine} (called : m.Called d)
    (pointer : later.registers.sp = d.registers.sp)
    (kept : m.returnAt.map later.bus.ram.read = m.returnAt.map d.bus.ram.read)
    (rejoined : later.Rejoined r) : m.Returned later r := by
  rw [called.stacked] at kept
  simp only [returnAt, List.map_cons, List.map_nil, List.cons.injEq, and_true] at kept
  obtain ⟨high, low⟩ := kept
  rw [called.registers] at pointer
  have first : later.registers.sp + 1 = m.registers.sp - 1 := by grind
  have second : later.registers.sp + 2 = m.registers.sp := by grind
  have behind : m.pc + 2 + 1 = m.pc + 3 := by grind
  obtain ⟨pc, registers, flags⟩ := rejoined
  rw [first, second, high, low, wordOf_bytes, behind] at pc
  rw [second] at registers
  exact ⟨pc, registers, flags⟩

/-- A call goes to its operand in six cycles, and whatever runs in between, a return that finds the
two bytes of the call on the stack goes on behind it. -/
theorem step_call {m : Machine} (running : m.halted = false) (opcode : m.peek m.pc = 0x20)
    (undisturbed : m.takesInterrupt = false) :
    m.step.2 = none ∧ m.Called m.step.1 ∧ m.step.1.bus.clock = m.bus.clock + 6 ∧
      ∀ later : Machine, later.registers.sp = m.step.1.registers.sp →
        m.returnAt.map later.bus.ram.read = m.returnAt.map m.step.1.bus.ram.read →
        (∃ r, later.execute 0x60 = (r, none) ∧ m.Returned later r) ∧
        (later.halted = false → later.peek later.pc = 0x60 → later.takesInterrupt = false →
          later.step.2 = none ∧ m.Returned later later.step.1) := by
  obtain ⟨proper, called, clock⟩ := step_jumpToSubroutine running opcode undisturbed
  refine ⟨proper, called, clock, fun later pointer kept =>
    ⟨?_, fun running opcode undisturbed => ?_⟩⟩
  · obtain ⟨r, executed, rejoined⟩ := later.execute_returnFromSubroutine
    exact ⟨r, executed, called.returned pointer kept rejoined⟩
  · obtain ⟨proper, rejoined⟩ := step_returnFromSubroutine running opcode undisturbed
    exact ⟨proper, called.returned pointer kept rejoined⟩

/-- A call with the stack at the bottom of its page, and the return to it from elsewhere. -/
theorem step_call_wrapped :
    let m := loaded [0x20, 0x34, 0x12]
    m.halted = false ∧ m.peek m.pc = 0x20 ∧ m.takesInterrupt = false ∧
      m.step.1.pc = 0x1234 ∧ m.step.1.registers.sp = 0xFE ∧
      ∃ later r : Machine, later.pc = 0x8000 ∧ later.registers.sp = m.step.1.registers.sp ∧
        later.execute 0x60 = (r, none) ∧ r.pc = 0x0003 ∧ r.registers.sp = 0x00 := by
  intro m
  have opcode : m.peek m.pc = 0x20 := by decide +kernel
  have undisturbed : m.takesInterrupt = false := by decide +kernel
  have word : UInt16.ofNat m.operandWord = 0x1234 := by decide +kernel
  obtain ⟨-, called, -, back⟩ := step_call (m := m) rfl opcode undisturbed
  generalize m.step.1 = d at called back ⊢
  let later : Machine := { d with pc := 0x8000 }
  obtain ⟨⟨r, executed, returned⟩, -⟩ := back later rfl rfl
  refine ⟨rfl, opcode, undisturbed, called.pc.trans word, ?_, later, r, rfl, rfl, executed,
    returned.pc, ?_⟩
  · rw [called.registers]
    rfl
  · rw [returned.registers]
    rfl

end Machine

end Cycle6502
