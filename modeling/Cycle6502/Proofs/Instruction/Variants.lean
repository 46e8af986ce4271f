import Cycle6502.Proofs.Instruction.Ownership

/-! The two processors where they agree. They differ in which programs they have, and in the flags
with which a handler begins: an entry leaves decimal mode on the CMOS part. -/

set_option autoImplicit false

namespace Cycle6502

section
variable {β : Type} [Bus β]

namespace Cpu

def retype (s : Microcode) (c : Cpu β) : Cpu β := { c with microcode := s }

def leaveDecimal (c : Cpu β) : Cpu β := { c with flags := { c.flags with decimal := false } }

omit [Bus β] in
theorem leaveDecimal_of_clear {c : Cpu β} (clear : c.flags.decimal = false) :
    c.leaveDecimal = c := by
  unfold leaveDecimal
  rw [← clear]

theorem branch_retype (s : Microcode) (c : Cpu β) (taken : Bool) :
    (c.retype s).branch taken = (c.branch taken).retype s := by
  cases taken <;> rfl

end Cpu

variable (s : Microcode) (c : Cpu β)

theorem Effect.perform_retype {e : Effect} (enters : e ≠ .enterBreak) (l : Latches) :
    e.perform (c.retype s) l = ((e.perform c l).1.retype s, (e.perform c l).2) := by
  cases e with
  | enterBreak => exact absurd rfl enters
  | transfer source target => cases target <;> rfl
  | branch mask expected => exact congrArg (·, l) (c.branch_retype s _)
  | branchAlways => exact congrArg (·, l) (c.branch_retype s true)
  | _ => rfl

theorem MicroOp.perform_retype {op : MicroOp} (enters : op ≠ .effect .enterBreak) (l : Latches) :
    op.perform (c.retype s) l = ((op.perform c l).1.retype s, (op.perform c l).2) := by
  cases op with
  | pageCrossProbe =>
    simp only [perform]
    split <;> rfl
  | effect e => exact e.perform_retype s c (fun same => enters (congrArg _ same)) l
  | _ => rfl

theorem Step.performAll_retype {steps : List Step} (enters : .op (.effect .enterBreak) ∉ steps)
    (l : Latches) :
    performAll steps (c.retype s) l =
      ((performAll steps c l).1.retype s, (performAll steps c l).2) := by
  induction steps generalizing c l with
  | nil => rfl
  | cons step rest ih =>
    rw [List.mem_cons, not_or] at enters
    have performed : step.perform (c.retype s) l =
        ((step.perform c l).1.retype s, (step.perform c l).2) := by
      cases step with
      | op op => exact op.perform_retype s c (fun same => enters.1 (congrArg _ same.symm)) l
      | _ => rfl
    simp only [performAll, performed]
    exact ih _ enters.2 _

theorem Microprogram.run_retype {p : Microprogram} (enters : .op (.effect .enterBreak) ∉ p.steps) :
    p.run (c.retype s) = (p.run c).retype s :=
  congrArg Prod.fst (Step.performAll_retype s c enters {})

namespace Cpu

section
variable {s : Microcode} (cmos : s.variant = .cmos)
include cmos

/-- An entry of the CMOS part is one of the NMOS part that ends in binary mode. -/
theorem enterHandler_retype (c : Cpu β) (kind : Interrupt) (returnTo : UInt16) (status : UInt8) :
    (c.retype s).enterHandler kind returnTo status =
      ((c.enterHandler kind returnTo status).leaveDecimal).retype s := by
  have variant : (((c.retype s).pushWord returnTo).push status).variant = .cmos := cmos
  have flags : (((c.retype s).pushWord returnTo).push status).handlerFlags =
      { ((c.pushWord returnTo).push status).handlerFlags with decimal := false } := by
    unfold handlerFlags
    rw [variant]
    rfl
  unfold enterHandler
  simp only [flags]
  rfl

theorem enterBreak_retype (c : Cpu β) :
    (c.retype s).enterBreak = c.enterBreak.leaveDecimal.retype s :=
  enterHandler_retype cmos c .brk (c.pc + 1) c.statusByte

theorem serviceInterrupt_retype (c : Cpu β) :
    (c.retype s).serviceInterrupt = c.serviceInterrupt.leaveDecimal.retype s := by
  -- What follows an entry, be it for an IRQ or an NMI.
  let finish (kind : Interrupt) (c : Cpu β) : Cpu β :=
    (c.wait 7).note .debug fun _ =>
      "Handling " ++ kind.name ++ " interrupt: jumping to 0x" ++ Text.hexWord (c.wait 7).pc
  have asserted : Bus.nmiAsserted (c.retype s).bus = Bus.nmiAsserted c.bus := rfl
  unfold serviceInterrupt
  rw [asserted]
  cases Bus.nmiAsserted c.bus with
  | false =>
    exact congrArg (finish .irq) (enterHandler_retype cmos c .irq c.pc c.interruptStatusByte)
  | true =>
    exact congrArg (finish .nmi) (enterHandler_retype cmos
      { c with bus := Bus.acknowledgeNmi c.bus } .nmi c.pc c.interruptStatusByte)

theorem settle_retype (c : Cpu β) :
    (c.retype s).settle =
      (if c.interruptPending then c.settle.leaveDecimal else c.settle).retype s := by
  have pending : (c.retype s).interruptPending = c.interruptPending := rfl
  unfold settle
  rw [pending]
  cases c.interruptPending with
  | false => rfl
  | true => exact serviceInterrupt_retype cmos { c with interruptPending := false }

end

end Cpu

end

/-- An opcode that both processors decode alike and lay out alike. -/
def Shared (opcode : UInt8) : Prop :=
  decode .nmos opcode = decode .cmos opcode ∧ decode .nmos opcode ≠ some ⟨.jmp, .indirect⟩

instance (opcode : UInt8) : Decidable (Shared opcode) := inferInstanceAs (Decidable (_ ∧ _))

theorem Microprogram.of?_shared {opcode : UInt8} (shared : Shared opcode) :
    of? .nmos opcode = of? .cmos opcode := by
  revert shared
  exact forall_byte (P := fun opcode => Shared opcode → of? .nmos opcode = of? .cmos opcode)
    (by decide +kernel) opcode

def Microprogram.brk : Microprogram where
  opcode := 0x00
  steps := [.wait 6, .op .checkInterrupt, .wait 1, .op (.effect .enterBreak)]

theorem Microprogram.of?_brk : of? .nmos 0x00 = some brk := by decide +kernel

theorem Microprogram.run_brk {β : Type} [Bus β] (c : Cpu β) :
    brk.run c = ((c.wait 6).sampleInterrupts.wait 1).enterBreak := rfl

/-- No other program has the entry of a break. -/
theorem Microprogram.enters_of? {opcode : UInt8} {p : Microprogram}
    (compiled : of? .nmos opcode = some p) (other : opcode ≠ 0x00) :
    .op (.effect .enterBreak) ∉ p.steps := by
  have every : ∀ opcode, opcode ≠ 0x00 →
      (of? .nmos opcode).all (fun p => decide (.op (.effect .enterBreak) ∉ p.steps)) :=
    forall_byte (by decide +kernel)
  have enters := every opcode other
  rw [compiled] at enters
  simpa using enters

/-- Two boards with different bytes at a place that a push went to last, and in its event. -/
structure Board.ApartAt (addr : UInt16) (byte byte' : UInt8) (b d : Board) : Prop where
  here : b.ram.read addr = byte ∧ d.ram.read addr = byte'
  ram : ∀ other, other ≠ addr → b.ram.read other = d.ram.read other
  clock : b.clock = d.clock
  lines : b.lines = d.lines
  feedback : b.feedback = d.feedback
  events : ∃ (earlier : Recording) (later : Array BusEvent),
    b.events = (earlier.add (.zeroPageWrite addr byte)).map (· ++ later) ∧
      d.events = (earlier.add (.zeroPageWrite addr byte')).map (· ++ later)

namespace Board.ApartAt

variable {addr : UInt16} {byte byte' : UInt8} {b d : Board}

theorem start (b : Board) (addr : UInt16) (byte byte' : UInt8) :
    ApartAt addr byte byte' (b.zeroPageWrite addr byte) (b.zeroPageWrite addr byte') where
  here := by simp [zeroPageWrite, Memory.read_write _ _ _ _ addr.toNat_lt]
  ram other different := by
    simp [zeroPageWrite, Memory.read_write _ _ _ _ addr.toNat_lt, different.symm]
  clock := rfl
  lines := rfl
  feedback := rfl
  events := ⟨b.events, #[], by simp [zeroPageWrite], by simp [zeroPageWrite]⟩

theorem add (apart : ApartAt addr byte byte' b d) (event : BusEvent) :
    ApartAt addr byte byte' { b with events := b.events.add event }
      { d with events := d.events.add event } where
  here := apart.here
  ram := apart.ram
  clock := apart.clock
  lines := apart.lines
  feedback := apart.feedback
  events := by
    obtain ⟨earlier, later, first, second⟩ := apart.events
    refine ⟨earlier, later.push event, ?_, ?_⟩
    · simp only [first]
      cases earlier <;> simp [Recording.add]
    · simp only [second]
      cases earlier <;> simp [Recording.add]

theorem read (apart : ApartAt addr byte byte' b d) {other : UInt16} (different : other ≠ addr) :
    (b.read other).1 = (d.read other).1 ∧
      ApartAt addr byte byte' (b.read other).2 (d.read other).2 := by
  have value : b.peek other = d.peek other := by
    unfold peek
    rw [apart.feedback, apart.ram other different]
  refine ⟨value, ?_⟩
  simp only [Board.read, value]
  exact apart.add _

theorem advance (apart : ApartAt addr byte byte' b d) (cycles : UInt32) :
    ApartAt addr byte byte' (b.advance cycles) (d.advance cycles) :=
  { apart.add (.wait cycles) with clock := congrArg (· + cycles.toUInt64) apart.clock }

end Board.ApartAt

namespace Machine

theorem enterHandler_apart {m d : Machine} (bus : m.bus = d.bus)
    (registers : m.registers = d.registers) (kind : Interrupt) (returnTo : UInt16)
    (status status' : UInt8) :
    let c := m.enterHandler kind returnTo status
    let e := d.enterHandler kind returnTo status'
    Board.ApartAt (stackAddress (m.registers.sp - 2)) status status' c.bus e.bus ∧
      c.registers = e.registers ∧ c.pc = e.pc := by
  obtain ⟨board, microcode, r, pc, flags, halted, pending, entry, symbols, journal⟩ := m
  obtain ⟨_, microcode', _, pc', flags', halted', pending', entry', symbols', journal'⟩ := d
  cases bus
  cases registers
  have third : r.sp - 1 - 1 = r.sp - 2 := by grind
  let stacked := (board.zeroPageWrite (stackAddress r.sp) (highByte returnTo)).zeroPageWrite
    (stackAddress (r.sp - 1)) (lowByte returnTo)
  have start := Board.ApartAt.start stacked (stackAddress (r.sp - 1 - 1)) status status'
  rw [third] at start
  have far {addr : UInt16} (outside : 0x200 ≤ addr.toNat) : addr ≠ stackAddress (r.sp - 2) := by
    rintro rfl
    have bound := (r.sp - 2).toNat_lt
    rw [toNat_stackAddress] at outside
    omega
  obtain ⟨low, apart⟩ := start.read (far (outside_vector kind).1)
  obtain ⟨high, apart⟩ := apart.read (far (outside_vector kind).2)
  rw [← third] at low high apart ⊢
  exact ⟨apart, rfl, congrArg₂ wordOf low high⟩

theorem halted_serviceInterrupt (m : Machine) :
    m.serviceInterrupt.halted = m.halted ∧
      m.serviceInterrupt.interruptPending = m.interruptPending := by
  obtain ⟨journal, serviced⟩ := m.serviceInterrupt_eq
  rw [serviced]
  exact ⟨rfl, rfl⟩

/-- An interrupt that is taken stacks the decimal flag, and leaves it alone on the NMOS part. -/
theorem serviceInterrupt_apart {m : Machine} (nmos : m.variant = .nmos) :
    let c := m.serviceInterrupt
    let d := m.leaveDecimal.serviceInterrupt
    c.flags = { m.flags with irqDisable := true } ∧
      d.flags = { m.flags with irqDisable := true, decimal := false } ∧
      Board.ApartAt (stackAddress (m.registers.sp - 2)) m.interruptStatusByte
        m.leaveDecimal.interruptStatusByte c.bus d.bus ∧
      c.registers = d.registers ∧ c.pc = d.pc ∧ c.halted = d.halted ∧
      c.interruptPending = d.interruptPending := by
  intro c d
  have flags : c.flags = { m.flags with irqDisable := true } := by
    rw [m.served_serviceInterrupt.1.entered.flags, nmos]
    simp
  have flags' : d.flags = { m.flags with irqDisable := true, decimal := false } := by
    have binary : m.leaveDecimal.flags.decimal = false := rfl
    rw [(served_serviceInterrupt m.leaveDecimal).1.entered.flags, binary, Bool.and_false]
    rfl
  obtain ⟨journal, taken⟩ := m.serviceInterrupt_eq
  obtain ⟨journal', taken'⟩ := serviceInterrupt_eq m.leaveDecimal
  obtain ⟨apart, registers, pc⟩ := enterHandler_apart
    (m := { m with bus := m.bus.acknowledgeNmi })
    (d := { m.leaveDecimal with bus := m.bus.acknowledgeNmi }) rfl rfl m.interruptKind m.pc
    m.interruptStatusByte m.leaveDecimal.interruptStatusByte
  obtain ⟨halted, pending⟩ := m.halted_serviceInterrupt
  obtain ⟨halted', pending'⟩ := halted_serviceInterrupt m.leaveDecimal
  refine ⟨flags, flags', ?_, ?_, ?_, halted.trans halted'.symm, pending.trans pending'.symm⟩ <;>
    simp only [c, d, taken, taken']
  · exact apart.advance 7
  · exact registers
  · exact pc

def ran (m : Machine) : Machine :=
  match m.microcode.lookup (m.peek m.pc) with
  | some p => p.run m.fetchByte.2
  | none => m.fetchByte.2

/-- The decimal flag at each entry of a handler that the next step makes: that of a break, and that
of the interrupt which is taken behind the instruction. -/
def entries (m : Machine) : List Bool :=
  if m.halted then []
  else (if m.peek m.pc = 0x00 then [m.flags.decimal] else []) ++
    (if m.takesInterrupt then [m.ran.flags.decimal] else [])

structure Counterparts (m d : Machine) : Prop where
  nmos : m.variant = .nmos
  cmos : d.variant = .cmos
  bus : m.bus = d.bus
  registers : m.registers = d.registers
  pc : m.pc = d.pc
  flags : m.flags = d.flags
  halted : m.halted = d.halted
  pending : m.interruptPending = d.interruptPending

structure ModeApart (m d : Machine) : Prop where
  nmos : m.variant = .nmos
  cmos : d.variant = .cmos
  decimal : m.flags.decimal = true
  flags : d.flags = { m.flags with decimal := false }
  registers : m.registers = d.registers
  pc : m.pc = d.pc
  halted : m.halted = d.halted
  pending : m.interruptPending = d.interruptPending

abbrev SameState (m d : Machine) : Prop := Cpu.Similar (Eq (α := Board)) True m d

theorem Counterparts.sameState {m d : Machine} (same : m.Counterparts d) :
    SameState d (m.retype d.microcode) :=
  ⟨same.bus.symm, same.registers.symm, same.pc.symm, same.flags.symm, same.halted.symm, rfl,
    fun _ => same.pending.symm⟩

theorem Counterparts.peek {m d : Machine} (same : m.Counterparts d) (addr : UInt16) :
    d.peek addr = m.peek addr :=
  congrArg (Board.peek · addr) same.bus.symm

theorem step_sameState {m : Machine} {p : Microprogram} (running : m.halted = false)
    (found : m.microcode.lookup (m.peek m.pc) = some p) :
    m.step.2 = none ∧ SameState m.step.1 (p.run m.fetchByte.2).settle := by
  obtain ⟨journal, stepped⟩ := Cpu.step_settle running found
  rw [stepped]
  exact ⟨rfl, Cpu.Similar.settle .eq ⟨rfl, rfl, rfl, rfl, rfl, rfl, fun _ => rfl⟩⟩

section
variable {m : Machine} {s : Microcode} {p : Microprogram}

theorem run_retype (nmos : m.variant = .nmos) (cmos : s.variant = .cmos)
    (found : m.microcode.lookup (m.peek m.pc) = some p) :
    p.run (m.retype s).fetchByte.2 =
      (if m.peek m.pc = 0x00 then (p.run m.fetchByte.2).leaveDecimal
        else p.run m.fetchByte.2).retype s := by
  have compiled : Microprogram.of? .nmos (m.peek m.pc) = some p := by
    rw [← found, Microcode.lookup_eq]
    exact congrArg (Microprogram.of? · _) nmos.symm
  by_cases brk : m.peek m.pc = 0x00
  · rw [brk, Microprogram.of?_brk] at compiled
    cases compiled
    rw [if_pos brk, Microprogram.run_brk, Microprogram.run_brk]
    exact Cpu.enterBreak_retype cmos ((m.fetchByte.2.wait 6).sampleInterrupts.wait 1)
  · rw [if_neg brk]
    exact Microprogram.run_retype s m.fetchByte.2 (Microprogram.enters_of? compiled brk)

theorem lookup_retype (nmos : m.variant = .nmos) (cmos : s.variant = .cmos)
    (shared : Shared (m.peek m.pc)) :
    (m.retype s).microcode.lookup (m.peek m.pc) = m.microcode.lookup (m.peek m.pc) := by
  have own : m.microcode.variant = .nmos := nmos
  rw [Microcode.lookup_eq, Microcode.lookup_eq, own, Microprogram.of?_shared shared, ← cmos]
  rfl

end

/-- What a step of the CMOS part does, from what the NMOS part does. -/
theorem step_retype {m : Machine} {s : Microcode} {p : Microprogram} (nmos : m.variant = .nmos)
    (cmos : s.variant = .cmos) (shared : Shared (m.peek m.pc)) (running : m.halted = false)
    (found : m.microcode.lookup (m.peek m.pc) = some p) :
    let behind := if m.peek m.pc = 0x00 then m.ran.leaveDecimal else m.ran
    SameState m.step.1 m.ran.settle ∧ m.step.2 = none ∧ (m.retype s).step.2 = none ∧
      SameState (m.retype s).step.1
        ((if m.takesInterrupt then behind.settle.leaveDecimal else behind.settle).retype s) := by
  intro behind
  have ran : m.ran = p.run m.fetchByte.2 := by simp only [Machine.ran, found]
  obtain ⟨succeeds, stepped⟩ := step_sameState running found
  rw [← ran] at stepped
  have found' : (m.retype s).microcode.lookup ((m.retype s).peek (m.retype s).pc) = some p :=
    (lookup_retype nmos cmos shared).trans found
  obtain ⟨succeeds', stepped'⟩ := step_sameState (m := m.retype s) running found'
  have takes : behind.interruptPending = m.takesInterrupt := by
    rw [Cpu.takesInterrupt_eq found, ← ran]
    simp only [behind]
    split <;> rfl
  rw [run_retype nmos cmos found, ← ran, Cpu.settle_retype cmos, takes] at stepped'
  exact ⟨stepped, succeeds, succeeds', stepped'⟩

theorem variant_run (p : Microprogram) (m : Machine) : (p.run m).variant = m.variant :=
  congrArg Microcode.variant
    (Step.performAll_keeps (P := fun d : Machine => d.microcode = m.microcode) (fun _ _ => id)
      (fun _ => id) (fun op _ d l => (op.perform_microcode d l).trans) {} rfl)

theorem variant_ran (m : Machine) : m.ran.variant = m.variant := by
  unfold ran
  split
  · exact variant_run _ m.fetchByte.2
  · rfl

theorem settle_nmos {m : Machine} (nmos : m.variant = .nmos) :
    m.settle.variant = .nmos ∧ m.settle.flags.decimal = m.flags.decimal := by
  unfold Cpu.settle
  split
  · have entered := (served_serviceInterrupt { m with interruptPending := false }).1.entered
    obtain ⟨journal, serviced⟩ := serviceInterrupt_eq { m with interruptPending := false }
    constructor
    · rw [serviced]
      exact nmos
    · rw [entered.flags]
      change (decide (m.variant = .nmos) && m.flags.decimal) = _
      rw [nmos]
      rfl
  · exact ⟨nmos, rfl⟩

theorem ran_brk {m : Machine} (nmos : m.variant = .nmos) (brk : m.peek m.pc = 0x00) :
    m.ran.flags.decimal = m.flags.decimal ∧ m.ran.registers.sp = m.registers.sp - 3 := by
  have own : m.microcode.variant = .nmos := nmos
  have found : m.microcode.lookup (m.peek m.pc) = some .brk := by
    rw [Microcode.lookup_eq, own, brk, Microprogram.of?_brk]
  have ran : m.ran = ((m.fetchByte.2.wait 6).sampleInterrupts.wait 1).enterBreak := by
    simp only [Machine.ran, found, Microprogram.run_brk]
  let ready : Machine := (m.fetchByte.2.wait 6).sampleInterrupts.wait 1
  have entered := (entered_enterHandler ready .brk (ready.pc + 1) ready.statusByte).1
  have flags : m.ran.flags = _ := (congrArg (·.flags) ran).trans entered.flags
  have registers : m.ran.registers = _ := (congrArg (·.registers) ran).trans entered.registers
  have variant : ready.variant = .nmos := nmos
  rw [flags, registers, variant]
  exact ⟨rfl, rfl⟩

theorem counterparts_of {m d x : Machine} {s : Microcode} (nmos : x.variant = .nmos)
    (cmos : s.variant = .cmos) (first : SameState m x) (second : SameState d (x.retype s)) :
    m.Counterparts d where
  nmos := first.variant.trans nmos
  cmos := second.variant.trans cmos
  bus := first.bus.trans second.bus.symm
  registers := first.registers.trans second.registers.symm
  pc := first.pc.trans second.pc.symm
  flags := first.flags.trans second.flags.symm
  halted := first.halted.trans second.halted.symm
  pending := (first.pending trivial).trans (second.pending trivial).symm

theorem modeApart_of {m d x : Machine} {s : Microcode} (nmos : x.variant = .nmos)
    (cmos : s.variant = .cmos) (decimal : x.flags.decimal = true) (first : SameState m x)
    (second : SameState d (x.leaveDecimal.retype s)) : m.ModeApart d ∧ m.bus = d.bus :=
  ⟨{ nmos := first.variant.trans nmos
     cmos := second.variant.trans cmos
     decimal := (congrArg Flags.decimal first.flags).trans decimal
     flags := by rw [second.flags, first.flags]; rfl
     registers := first.registers.trans second.registers.symm
     pc := first.pc.trans second.pc.symm
     halted := first.halted.trans second.halted.symm
     pending := (first.pending trivial).trans (second.pending trivial).symm },
   first.bus.trans second.bus.symm⟩

/-- What a step of either part has in common where both decode its opcode alike. Without an entry in
decimal mode the machines stay in the same state. An entry in decimal mode leaves it on the CMOS
part only; an interrupt behind such a break finds the parts apart, and stacks that. -/
structure StepsAlike (m d : Machine) : Prop where
  result : m.step.2 = d.step.2
  binary : true ∉ m.entries → Counterparts m.step.1 d.step.1
  decimal : true ∈ m.entries → ModeApart m.step.1 d.step.1
  board : true ∈ m.entries →
    m.entries = [true] ∧ m.step.1.bus = d.step.1.bus ∨
      m.entries = [true, true] ∧ ∃ p : Flags, p.decimal = true ∧
        Board.ApartAt (stackAddress (m.registers.sp - 5)) p.toByte
          { p with decimal := false }.toByte m.step.1.bus d.step.1.bus

section
variable {m d : Machine}

theorem StepsAlike.of_counterparts (result : m.step.2 = d.step.2) (none : m.entries = [])
    (same : Counterparts m.step.1 d.step.1) : m.StepsAlike d :=
  ⟨result, fun _ => same, by simp [none], by simp [none]⟩

theorem StepsAlike.of_entry {x : Machine} {s : Microcode} (result : m.step.2 = d.step.2)
    (nmos : x.variant = .nmos) (cmos : s.variant = .cmos) (one : m.entries = [x.flags.decimal])
    (first : SameState m.step.1 x) (second : SameState d.step.1 (x.leaveDecimal.retype s)) :
    m.StepsAlike d := by
  cases decimal : x.flags.decimal with
  | false =>
    rw [Cpu.leaveDecimal_of_clear decimal] at second
    have same := counterparts_of nmos cmos first second
    exact ⟨result, fun _ => same, by simp [one, decimal], by simp [one, decimal]⟩
  | true =>
    obtain ⟨apart, bus⟩ := modeApart_of nmos cmos decimal first second
    exact ⟨result, by simp [one, decimal], fun _ => apart, fun _ => .inl ⟨decimal ▸ one, bus⟩⟩

theorem StepsAlike.of_entries {x : Machine} {s : Microcode} (result : m.step.2 = d.step.2)
    (nmos : x.variant = .nmos) (cmos : s.variant = .cmos)
    (sp : x.registers.sp = m.registers.sp - 3)
    (two : m.entries = [x.flags.decimal, x.flags.decimal])
    (first : SameState m.step.1 x.serviceInterrupt)
    (second : SameState d.step.1 (x.leaveDecimal.serviceInterrupt.leaveDecimal.retype s)) :
    m.StepsAlike d := by
  obtain ⟨flags, flags', apart, registers, pc, halted, pending⟩ := serviceInterrupt_apart nmos
  obtain ⟨journal, serviced⟩ := x.serviceInterrupt_eq
  have kept : x.serviceInterrupt.variant = .nmos := by
    rw [serviced]
    exact nmos
  cases decimal : x.flags.decimal with
  | false =>
    have binary : x.serviceInterrupt.flags.decimal = false :=
      (congrArg Flags.decimal flags).trans decimal
    rw [Cpu.leaveDecimal_of_clear decimal, Cpu.leaveDecimal_of_clear binary] at second
    have same := counterparts_of kept cmos first second
    exact ⟨result, fun _ => same, by simp [two, decimal], by simp [two, decimal]⟩
  | true =>
    have place : stackAddress (x.registers.sp - 2) = stackAddress (m.registers.sp - 5) := by
      rw [sp]
      congr 1
      grind
    rw [place] at apart
    refine ⟨result, by simp [two, decimal], fun _ => ?_, fun _ => .inr ⟨decimal ▸ two, ?_⟩⟩
    · exact {
        nmos := first.variant.trans kept
        cmos := second.variant.trans cmos
        decimal := (congrArg Flags.decimal (first.flags.trans flags)).trans decimal
        flags := by
          rw [second.flags, first.flags, flags]
          exact congrArg (fun p : Flags => { p with decimal := false }) flags'
        registers := first.registers.trans (registers.trans second.registers.symm)
        pc := first.pc.trans (pc.trans second.pc.symm)
        halted := first.halted.trans (halted.trans second.halted.symm)
        pending := (first.pending trivial).trans (pending.trans (second.pending trivial).symm) }
    · refine ⟨{ x.flags with brk := false, unused := true }, decimal, ?_⟩
      rw [first.bus, second.bus]
      exact apart

theorem stepsAlike_missing (same : m.Counterparts d)
    (shared : m.halted = false → Shared (m.peek m.pc))
    (stuck : m.halted = true ∨ m.microcode.lookup (m.peek m.pc) = none) : m.StepsAlike d := by
  cases halted : m.halted with
  | true =>
    have halted' : d.halted = true := same.halted ▸ halted
    refine .of_counterparts ?_ (if_pos halted) ?_ <;>
      rw [Cpu.step_halted halted, Cpu.step_halted halted']
    exact same
  | false =>
    have missing := stuck.resolve_left (ne_true_of_eq_false halted)
    obtain ⟨alike, -⟩ := shared halted
    have own : m.microcode.variant = .nmos := same.nmos
    have other : d.microcode.variant = .cmos := same.cmos
    have opcode : d.fetchByte.1 = m.peek m.pc := by
      rw [same.pc]
      exact same.peek d.pc
    have missing' : d.microcode.lookup d.fetchByte.1 = none := by
      rw [← missing, opcode, Microcode.lookup_eq, Microcode.lookup_eq, own, other,
        Microprogram.of?_shared (shared halted)]
    have none : m.entries = [] := by
      have other : m.peek m.pc ≠ 0x00 := by
        intro brk
        rw [Microcode.lookup_eq, own, brk, Microprogram.of?_brk] at missing
        cases missing
      have passed : m.takesInterrupt = false := by
        unfold Cpu.takesInterrupt
        rw [show m.microcode.lookup m.fetchByte.1 = Option.none from missing]
      simp [entries, halted, other, passed]
    obtain ⟨journal, stepped⟩ := Cpu.step_invalid halted missing
    obtain ⟨journal', stepped'⟩ := Cpu.step_invalid (same.halted ▸ halted) missing'
    have failure : m.fetchByte.2.invalidOpcode m.fetchByte.1 =
        d.fetchByte.2.invalidOpcode d.fetchByte.1 := by
      have mnemonic : decode m.fetchByte.2.variant (m.peek m.pc) =
          decode d.fetchByte.2.variant (m.peek m.pc) :=
        (congrArg (decode · _) own).trans (alike.trans (congrArg (decode · _) other).symm)
      have pc : m.fetchByte.2.pc = d.fetchByte.2.pc := congrArg (· + 1) same.pc
      change m.fetchByte.2.invalidOpcode (m.peek m.pc) = _
      rw [opcode, Cpu.invalidOpcode, Cpu.invalidOpcode, mnemonic, pc]
    refine .of_counterparts ?_ none ?_ <;> rw [stepped, stepped']
    · exact congrArg some failure
    · exact { same with
        bus := congrArg₂ (fun (b : Board) addr => (b.read addr).2) same.bus same.pc
        halted := rfl }

theorem stepsAlike_found (same : m.Counterparts d) (shared : Shared (m.peek m.pc))
    (running : m.halted = false) {p : Microprogram}
    (found : m.microcode.lookup (m.peek m.pc) = some p) : m.StepsAlike d := by
  have nmos := same.nmos
  have cmos : d.microcode.variant = .cmos := same.cmos
  obtain ⟨stepped, succeeds, succeeds', stepped'⟩ := step_retype nmos cmos shared running found
  obtain ⟨results, similar⟩ := same.sameState.step .eq d.fastNext_true
  have result : m.step.2 = d.step.2 := succeeds.trans (succeeds'.symm.trans results.symm)
  have last := similar.trans stepped'
  have ranNmos := m.variant_ran.trans nmos
  have entries : m.entries = (if m.peek m.pc = 0x00 then [m.flags.decimal] else []) ++
      (if m.takesInterrupt then [m.ran.flags.decimal] else []) :=
    if_neg (ne_true_of_eq_false running)
  have pending : m.ran.interruptPending = m.takesInterrupt := by
    rw [Cpu.takesInterrupt_eq found]
    simp only [Machine.ran, found]
  by_cases brk : m.peek m.pc = 0x00
  · obtain ⟨decimal, sp⟩ := ran_brk nmos brk
    cases taken : m.takesInterrupt with
    | false =>
      rw [taken] at pending
      have settled : m.ran.settle = m.ran := if_neg (ne_true_of_eq_false pending)
      have settled' : m.ran.leaveDecimal.settle = m.ran.leaveDecimal :=
        if_neg (ne_true_of_eq_false pending)
      simp only [if_pos brk, taken, settled, settled', Bool.false_eq_true, if_false]
        at stepped last entries
      exact .of_entry result ranNmos cmos (by rw [entries, decimal, List.append_nil]) stepped last
    | true =>
      rw [taken] at pending
      let waiting : Machine := { m.ran with interruptPending := false }
      have settled : m.ran.settle = waiting.serviceInterrupt := if_pos pending
      have settled' : m.ran.leaveDecimal.settle = waiting.leaveDecimal.serviceInterrupt :=
        if_pos pending
      simp only [if_pos brk, taken, settled, settled', if_true] at stepped last entries
      exact .of_entries result (show waiting.variant = .nmos from ranNmos) cmos sp
        (by rw [entries, ← decimal]; rfl) stepped last
  · simp only [if_neg brk, List.nil_append] at last entries
    cases taken : m.takesInterrupt with
    | false =>
      simp only [taken, Bool.false_eq_true, if_false] at last entries
      exact .of_counterparts result entries
        (counterparts_of (settle_nmos ranNmos).1 cmos stepped last)
    | true =>
      simp only [taken, if_true] at last entries
      obtain ⟨settledNmos, decimal⟩ := settle_nmos ranNmos
      exact .of_entry result settledNmos cmos (by rw [entries, decimal]) stepped last

theorem stepsAlike (same : m.Counterparts d) (shared : m.halted = false → Shared (m.peek m.pc)) :
    m.StepsAlike d := by
  cases halted : m.halted with
  | true => exact stepsAlike_missing same shared (.inl halted)
  | false =>
    cases found : m.microcode.lookup (m.peek m.pc) with
    | none => exact stepsAlike_missing same shared (.inr found)
    | some p => exact stepsAlike_found same (shared halted) halted found

end

end Machine

end Cycle6502
