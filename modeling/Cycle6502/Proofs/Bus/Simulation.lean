import Cycle6502.Cpu.Execute
import Mathlib.Logic.Basic

/-! Simulation of one bus by another. A processor that is put on either bus does the same, operation
by operation, as long as the buses answer alike. -/

set_option autoImplicit false

namespace Cycle6502

variable {β γ : Type}

/-- A relation that the bus operations keep. The operations on zero page and the stack have to
keep it at the `fast` addresses only. -/
structure Bus.Simulation [Bus β] [Bus γ] (fast : UInt16 → Prop) (R : β → γ → Prop) : Prop where
  stack : ∀ sp : UInt8, fast (stackAddress sp)
  read : ∀ {b : β} {d : γ}, R b d → ∀ addr,
    (Bus.read b addr).1 = (Bus.read d addr).1 ∧ R (Bus.read b addr).2 (Bus.read d addr).2
  write : ∀ {b : β} {d : γ}, R b d → ∀ addr value, R (Bus.write b addr value) (Bus.write d addr value)
  zeroPageRead : ∀ {b : β} {d : γ}, R b d → ∀ addr, fast addr →
    (Bus.zeroPageRead b addr).1 = (Bus.zeroPageRead d addr).1 ∧
      R (Bus.zeroPageRead b addr).2 (Bus.zeroPageRead d addr).2
  zeroPageWrite : ∀ {b : β} {d : γ}, R b d → ∀ addr value, fast addr →
    R (Bus.zeroPageWrite b addr value) (Bus.zeroPageWrite d addr value)
  advance : ∀ {b : β} {d : γ}, R b d → ∀ cycles, R (Bus.advance b cycles) (Bus.advance d cycles)
  irqAsserted : ∀ {b : β} {d : γ}, R b d → Bus.irqAsserted b = Bus.irqAsserted d
  nmiAsserted : ∀ {b : β} {d : γ}, R b d → Bus.nmiAsserted b = Bus.nmiAsserted d

/-- The processors are alike but for their buses, which are related, and what only an operator
sees. If `decided`, the pending interrupt is the same as well. -/
structure Cpu.Similar (R : β → γ → Prop) (decided : Prop) (c : Cpu β) (d : Cpu γ) : Prop where
  bus : R c.bus d.bus
  registers : c.registers = d.registers
  pc : c.pc = d.pc
  flags : c.flags = d.flags
  halted : c.halted = d.halted
  variant : c.variant = d.variant
  pending : decided → c.interruptPending = d.interruptPending

theorem Cpu.Similar.refl {R : β → β → Prop} (reflexive : ∀ b, R b b) (decided : Prop)
    (c : Cpu β) : Similar R decided c c :=
  ⟨reflexive c.bus, rfl, rfl, rfl, rfl, rfl, fun _ => rfl⟩

theorem Cpu.Similar.trans {R : β → β → Prop} [Trans R R R] {decided : Prop} {c c' c'' : Cpu β}
    (first : Similar R decided c c') (next : Similar R decided c' c'') :
    Similar R decided c c'' where
  bus := Trans.trans first.bus next.bus
  registers := first.registers.trans next.registers
  pc := first.pc.trans next.pc
  flags := first.flags.trans next.flags
  halted := first.halted.trans next.halted
  variant := first.variant.trans next.variant
  pending h := (first.pending h).trans (next.pending h)

variable [Bus β] [Bus γ] {fast : UInt16 → Prop} {R : β → γ → Prop} {decided : Prop}
  {c : Cpu β} {d : Cpu γ}

namespace Cpu.Similar

theorem read (sim : Bus.Simulation fast R) (s : Similar R decided c d) (addr : UInt16) :
    (c.read addr).1 = (d.read addr).1 ∧ Similar R decided (c.read addr).2 (d.read addr).2 :=
  ⟨(sim.read s.bus addr).1, { s with bus := (sim.read s.bus addr).2 }⟩

theorem write (sim : Bus.Simulation fast R) (s : Similar R decided c d) (addr : UInt16)
    (value : UInt8) : Similar R decided (c.write addr value) (d.write addr value) :=
  { s with bus := sim.write s.bus addr value }

theorem zeroPageRead (sim : Bus.Simulation fast R) (s : Similar R decided c d) {addr : UInt16}
    (inside : fast addr) :
    (c.zeroPageRead addr).1 = (d.zeroPageRead addr).1 ∧
      Similar R decided (c.zeroPageRead addr).2 (d.zeroPageRead addr).2 :=
  ⟨(sim.zeroPageRead s.bus addr inside).1,
    { s with bus := (sim.zeroPageRead s.bus addr inside).2 }⟩

theorem zeroPageWrite (sim : Bus.Simulation fast R) (s : Similar R decided c d) {addr : UInt16}
    (inside : fast addr) (value : UInt8) :
    Similar R decided (c.zeroPageWrite addr value) (d.zeroPageWrite addr value) :=
  { s with bus := sim.zeroPageWrite s.bus addr value inside }

theorem wait (sim : Bus.Simulation fast R) (s : Similar R decided c d) (cycles : UInt32) :
    Similar R decided (c.wait cycles) (d.wait cycles) :=
  { s with bus := sim.advance s.bus cycles }

theorem fetchByte (sim : Bus.Simulation fast R) (s : Similar R decided c d) :
    c.fetchByte.1 = d.fetchByte.1 ∧ Similar R decided c.fetchByte.2 d.fetchByte.2 := by
  have fetched := sim.read s.bus c.pc
  rw [s.pc] at fetched
  refine ⟨?_, { s with bus := ?_, pc := congrArg (· + 1) s.pc }⟩
  · simpa only [Cpu.fetchByte, s.pc] using fetched.1
  · simpa only [Cpu.fetchByte, s.pc] using fetched.2

theorem fetchWord (sim : Bus.Simulation fast R) (s : Similar R decided c d) :
    c.fetchWord.1 = d.fetchWord.1 ∧ Similar R decided c.fetchWord.2 d.fetchWord.2 := by
  obtain ⟨low, s⟩ := s.fetchByte sim
  obtain ⟨high, s⟩ := s.fetchByte sim
  exact ⟨congrArg₂ wordOf low high, s⟩

theorem readWord (sim : Bus.Simulation fast R) (s : Similar R decided c d) (addr : UInt16) :
    (c.readWord addr).1 = (d.readWord addr).1 ∧
      Similar R decided (c.readWord addr).2 (d.readWord addr).2 := by
  obtain ⟨low, s⟩ := s.read sim addr
  obtain ⟨high, s⟩ := s.read sim (addr + 1)
  exact ⟨congrArg₂ wordOf low high, s⟩

theorem push (sim : Bus.Simulation fast R) (s : Similar R decided c d) (value : UInt8) :
    Similar R decided (c.push value) (d.push value) := by
  have pushed := s.zeroPageWrite sim (sim.stack d.registers.sp) value
  unfold Cpu.push
  rw [s.registers]
  exact { pushed with registers := congrArg (fun r => { r with sp := r.sp - 1 }) s.registers }

theorem pull (sim : Bus.Simulation fast R) (s : Similar R decided c d) :
    c.pull.1 = d.pull.1 ∧ Similar R decided c.pull.2 d.pull.2 := by
  have moved : Similar R decided
      { c with registers := { c.registers with sp := c.registers.sp + 1 } }
      { d with registers := { d.registers with sp := d.registers.sp + 1 } } :=
    { s with registers := congrArg (fun r => { r with sp := r.sp + 1 }) s.registers }
  have pulled := moved.zeroPageRead sim (sim.stack (d.registers.sp + 1))
  simpa only [Cpu.pull, s.registers] using pulled

theorem pushWord (sim : Bus.Simulation fast R) (s : Similar R decided c d) (value : UInt16) :
    Similar R decided (c.pushWord value) (d.pushWord value) :=
  (s.push sim (highByte value)).push sim (lowByte value)

theorem pullWord (sim : Bus.Simulation fast R) (s : Similar R decided c d) :
    c.pullWord.1 = d.pullWord.1 ∧ Similar R decided c.pullWord.2 d.pullWord.2 := by
  obtain ⟨low, s⟩ := s.pull sim
  obtain ⟨high, s⟩ := s.pull sim
  exact ⟨congrArg₂ wordOf low high, s⟩

omit [Bus β] [Bus γ] in
theorem goTo (s : Similar R decided c d) {pc pc' : UInt16} (same : pc = pc') :
    Similar R decided { c with pc := pc } { d with pc := pc' } :=
  { s with pc := same }

omit [Bus β] [Bus γ] in
theorem setRegisterAndFlags (s : Similar R decided c d) (r : Register) {value value' : UInt8}
    (same : value = value') :
    Similar R decided (c.setRegisterAndFlags r value) (d.setRegisterAndFlags r value') := by
  subst same
  exact { s with
    registers := congrArg (·.set r value) s.registers
    flags := congrArg (·.ofValue value) s.flags }

omit [Bus β] [Bus γ] in
theorem restoreStatus (s : Similar R decided c d) {status status' : UInt8}
    (same : status = status') :
    Similar R decided (c.restoreStatus status) (d.restoreStatus status') :=
  { s with flags := congrArg (fun b => (Flags.ofByte b).live) same }

theorem sampleInterrupts (sim : Bus.Simulation fast R) (s : Similar R decided c d) :
    Similar R decided c.sampleInterrupts d.sampleInterrupts := by
  refine { s with pending := fun _ => ?_ }
  simp only [Cpu.sampleInterrupts, sim.irqAsserted s.bus, sim.nmiAsserted s.bus, s.flags]

theorem branch (sim : Bus.Simulation fast R) (s : Similar R decided c d) (taken : Bool) :
    Similar R decided (c.branch taken) (d.branch taken) := by
  obtain ⟨offset, fetched⟩ := s.fetchByte sim
  cases taken with
  | false => exact ((fetched.wait sim 1).sampleInterrupts sim).wait sim 1
  | true =>
    simp only [Cpu.branch, if_true, offset, fetched.pc]
    exact (((fetched.goTo rfl).wait sim _).sampleInterrupts sim).wait sim 1

theorem enterHandler (sim : Bus.Simulation fast R) (s : Similar R decided c d) (kind : Interrupt)
    {returnTo returnTo' : UInt16} {status status' : UInt8} (sameReturn : returnTo = returnTo')
    (sameStatus : status = status') :
    Similar R decided (c.enterHandler kind returnTo status)
      (d.enterHandler kind returnTo' status') := by
  subst sameReturn sameStatus
  have stacked := (s.pushWord sim returnTo).push sim status
  have entered : Similar R decided
      { (c.pushWord returnTo).push status with
        flags := ((c.pushWord returnTo).push status).handlerFlags }
      { (d.pushWord returnTo).push status with
        flags := ((d.pushWord returnTo).push status).handlerFlags } :=
    { stacked with flags := by simp only [handlerFlags, stacked.flags, stacked.variant] }
  obtain ⟨handler, s⟩ := entered.readWord sim kind.vector
  exact s.goTo handler

end Cpu.Similar

theorem Effect.perform_similar (sim : Bus.Simulation fast R) (e : Effect) (l : Latches)
    (s : Cpu.Similar R decided c d) :
    Cpu.Similar R decided (e.perform c l).1 (e.perform d l).1 ∧
      (e.perform c l).2 = (e.perform d l).2 := by
  cases e with
  | branch mask expected =>
    refine ⟨?_, rfl⟩
    simp only [perform, s.flags]
    exact s.branch sim _
  | branchAlways => exact ⟨s.branch sim true, rfl⟩
  | push r =>
    refine ⟨?_, rfl⟩
    simp only [perform, Cpu.register, s.registers]
    exact s.push sim _
  | pushFlags =>
    refine ⟨?_, rfl⟩
    simp only [perform, Cpu.statusByte, s.flags]
    exact s.push sim _
  | pull r => exact ⟨(s.pull sim).2.setRegisterAndFlags r (s.pull sim).1, rfl⟩
  | pullFlags => exact ⟨(s.pull sim).2.restoreStatus (s.pull sim).1, rfl⟩
  | returnFromSubroutine =>
    exact ⟨(s.pullWord sim).2.goTo (congrArg (· + 1) (s.pullWord sim).1), rfl⟩
  | returnFromInterrupt =>
    obtain ⟨status, s⟩ := s.pull sim
    obtain ⟨returnTo, s⟩ := (s.restoreStatus status).pullWord sim
    exact ⟨s.goTo returnTo, rfl⟩
  | jumpToSubroutine =>
    refine ⟨?_, rfl⟩
    simp only [perform, s.pc]
    exact (s.pushWord sim _).goTo rfl
  | enterBreak =>
    refine ⟨?_, rfl⟩
    simp only [perform, Cpu.enterBreak, Cpu.statusByte, s.pc, s.flags]
    exact s.enterHandler sim .brk rfl rfl
  | writeBackToBase => exact ⟨s.write sim l.addr l.operand, rfl⟩
  -- The rest acts on registers, flags and latches alone, which are equal on both sides.
  | transfer source target =>
    obtain ⟨bus, microcode, registers, pc, flags, halted, pending⟩ := c
    obtain ⟨bus', microcode', registers', pc', flags', halted', pending'⟩ := d
    obtain ⟨related, rfl, rfl, rfl, rfl, variant, decision⟩ := s
    cases target <;> exact ⟨⟨related, rfl, rfl, rfl, rfl, variant, decision⟩, rfl⟩
  | _ =>
    obtain ⟨bus, microcode, registers, pc, flags, halted, pending⟩ := c
    obtain ⟨bus', microcode', registers', pc', flags', halted', pending'⟩ := d
    obtain ⟨related, rfl, rfl, rfl, rfl, variant, decision⟩ := s
    exact ⟨⟨related, rfl, rfl, rfl, rfl, variant, decision⟩, rfl⟩

def MicroOp.FastWithin (fast : UInt16 → Prop) (l : Latches) : MicroOp → Prop
  | .zeroPageRead site _ | .zeroPageWrite site => fast (l.resolve site)
  | _ => True

theorem MicroOp.fastWithin_true (op : MicroOp) (l : Latches) : op.FastWithin (fun _ => True) l := by
  cases op <;> exact trivial

theorem MicroOp.perform_similar (sim : Bus.Simulation fast R) (op : MicroOp) (l : Latches)
    (inside : op.FastWithin fast l) (s : Cpu.Similar R decided c d) :
    Cpu.Similar R decided (op.perform c l).1 (op.perform d l).1 ∧
      (op.perform c l).2 = (op.perform d l).2 := by
  have index (i : Option Index) : c.indexValue i = d.indexValue i := by
    simp only [Cpu.indexValue, s.registers]
  cases op with
  | fetchZeroPage i =>
    obtain ⟨base, fetched⟩ := s.fetchByte sim
    exact ⟨fetched, by simp only [perform, base, index]⟩
  | fetchAbsolute =>
    obtain ⟨addr, fetched⟩ := s.fetchWord sim
    exact ⟨fetched, by simp only [perform, addr]⟩
  | indexAbsolute i => exact ⟨s, by simp only [perform, index]⟩
  | fetchPointer i =>
    obtain ⟨base, fetched⟩ := s.fetchByte sim
    exact ⟨fetched, by simp only [perform, base, index]⟩
  | joinPointer => exact ⟨s, rfl⟩
  | fetchImmediate =>
    obtain ⟨operand, fetched⟩ := s.fetchByte sim
    exact ⟨fetched, by simp only [perform, operand]⟩
  | loadAccumulator => exact ⟨s, by simp only [perform, s.registers]⟩
  | storeAccumulator =>
    exact ⟨{ s with registers := congrArg (·.set .a l.operand) s.registers }, rfl⟩
  | read site into =>
    obtain ⟨value, s⟩ := s.read sim (l.resolve site)
    exact ⟨s, by simp only [perform, value]⟩
  | write site => exact ⟨s.write sim (l.resolve site) l.operand, rfl⟩
  | zeroPageRead site into =>
    obtain ⟨value, s⟩ := s.zeroPageRead sim inside
    exact ⟨s, by simp only [perform, value]⟩
  | zeroPageWrite site => exact ⟨s.zeroPageWrite sim inside l.operand, rfl⟩
  -- The latches decide whether there is a probe, so it happens on both sides or on neither.
  | pageCrossProbe =>
    simp only [perform]
    split
    · exact ⟨s, rfl⟩
    · obtain ⟨operand, s⟩ := (s.wait sim 1).read sim l.nonCarried
      exact ⟨s, by simp only [operand]⟩
  | checkInterrupt => exact ⟨s.sampleInterrupts sim, rfl⟩
  | effect e => exact e.perform_similar sim l s

end Cycle6502
