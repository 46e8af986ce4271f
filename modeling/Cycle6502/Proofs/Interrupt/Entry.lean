import Cycle6502.Proofs.Bus.Time
import Cycle6502.Proofs.Word

/-! How the processor enters a handler: three bytes go to the stack, which wraps within its page, and
the program counter comes from a vector. -/

set_option autoImplicit false

namespace Cycle6502

theorem toNat_stackAddress (sp : UInt8) : (stackAddress sp).toNat = 256 + sp.toNat := by
  revert sp
  exact forall_byte (by decide +kernel)

theorem stackAddress_inj {sp sp' : UInt8} : stackAddress sp = stackAddress sp' ↔ sp = sp' := by
  rw [← UInt16.toNat_inj, toNat_stackAddress, toNat_stackAddress, ← UInt8.toNat_inj]
  omega

namespace Machine

section
variable (m : Machine) (value : UInt8)

@[simp] theorem sp_push : (m.push value).registers.sp = m.registers.sp - 1 := rfl

theorem ram_push (addr : UInt16) :
    (m.push value).bus.ram.read addr =
      if stackAddress m.registers.sp = addr then value else m.bus.ram.read addr :=
  Memory.read_write _ _ _ _ (UInt16.toNat_lt _)

theorem peek_push {addr : UInt16} (outside : 0x200 ≤ addr.toNat) :
    (m.push value).peek addr = m.peek addr := by
  have different : stackAddress m.registers.sp ≠ addr := by
    intro same
    have bound := m.registers.sp.toNat_lt
    rw [← same, toNat_stackAddress] at outside
    omega
  have kept := m.ram_push value addr
  rw [if_neg different] at kept
  simp only [Cpu.peek, Bus.peek, Board.peek, kept]
  rfl

end

/-- Where an entry puts the return address, high byte first, and the status. -/
def stackedAt (m : Machine) : List UInt16 :=
  [stackAddress m.registers.sp, stackAddress (m.registers.sp - 1),
    stackAddress (m.registers.sp - 2)]

structure Entered (m d : Machine) (kind : Interrupt) (returnTo : UInt16) (status : UInt8) :
    Prop where
  registers : d.registers = { m.registers with sp := m.registers.sp - 3 }
  flags : d.flags = { m.flags with
    irqDisable := true
    decimal := decide (m.variant = .nmos) && m.flags.decimal }
  pc : d.pc = wordOf (m.peek kind.vector) (m.peek (kind.vector + 1))
  stacked : m.stackedAt.map d.bus.ram.read = [highByte returnTo, lowByte returnTo, status]
  others : ∀ addr, addr ∉ m.stackedAt → d.bus.ram.read addr = m.bus.ram.read addr
  feedback : d.bus.feedback = m.bus.feedback
  requests : d.bus.lines.requests = m.bus.lines.requests

theorem Entered.peek_eq {m d : Machine} {kind : Interrupt} {returnTo : UInt16} {status : UInt8}
    (entered : m.Entered d kind returnTo status) {addr : UInt16} (outside : 0x200 ≤ addr.toNat) :
    d.peek addr = m.peek addr := by
  have elsewhere (sp : UInt8) : addr ≠ stackAddress sp := by
    rintro rfl
    have bound := sp.toNat_lt
    rw [toNat_stackAddress] at outside
    omega
  have kept := entered.others addr (by simp [stackedAt, elsewhere])
  simp only [Cpu.peek, Bus.peek, Board.peek, kept, entered.feedback]

theorem Entered.stacked_returnTo {m d : Machine} {kind : Interrupt} {returnTo : UInt16}
    {status : UInt8} (entered : m.Entered d kind returnTo status) :
    wordOf (d.bus.ram.read (stackAddress (d.registers.sp + 2)))
      (d.bus.ram.read (stackAddress (d.registers.sp + 3))) = returnTo := by
  have low : d.registers.sp + 2 = m.registers.sp - 1 := by
    rw [entered.registers]
    grind
  have high : d.registers.sp + 3 = m.registers.sp := by
    rw [entered.registers]
    grind
  have stacked := entered.stacked
  simp only [stackedAt, List.map_cons, List.map_nil, List.cons.injEq] at stacked
  rw [low, high, stacked.1, stacked.2.1, wordOf_bytes]

def entryAccesses (m : Machine) (kind : Interrupt) (returnTo : UInt16) (status : UInt8) :
    List BusEvent :=
  List.zipWith .zeroPageWrite m.stackedAt [highByte returnTo, lowByte returnTo, status] ++
    [.read kind.vector (m.peek kind.vector), .read (kind.vector + 1) (m.peek (kind.vector + 1))]

theorem outside_vector (kind : Interrupt) :
    0x200 ≤ kind.vector.toNat ∧ 0x200 ≤ (kind.vector + 1).toNat := by
  cases kind <;> decide

theorem accesses_entered (r : Recording) (high low status first second : UInt8)
    (a b c vector : UInt16) :
    Recording.accesses (((((r.add (.zeroPageWrite a high)).add (.zeroPageWrite b low)).add
        (.zeroPageWrite c status)).add (.read vector first)).add (.read (vector + 1) second)) =
      r.accesses.map (· ++ [.zeroPageWrite a high, .zeroPageWrite b low, .zeroPageWrite c status,
        .read vector first, .read (vector + 1) second]) := by
  simp only [Recording.accesses_add, BusEvent.isWait, Bool.false_eq_true, if_false, Option.map_map,
    Function.comp_def, List.append_assoc, List.cons_append, List.nil_append]

theorem handlerFlags_eq (m : Machine) :
    m.handlerFlags = { m.flags with
      irqDisable := true
      decimal := decide (m.variant = .nmos) && m.flags.decimal } := by
  unfold Cpu.handlerFlags
  cases m.variant <;> simp

theorem entered_enterHandler (m : Machine) (kind : Interrupt) (returnTo : UInt16)
    (status : UInt8) :
    let d := m.enterHandler kind returnTo status
    m.Entered d kind returnTo status ∧
      d.bus.events.accesses =
        m.bus.events.accesses.map (· ++ m.entryAccesses kind returnTo status) := by
  intro d
  let stacked := ((m.push (highByte returnTo)).push (lowByte returnTo)).push status
  have two : m.registers.sp - 1 - 1 = m.registers.sp - 2 := by grind
  have three : m.registers.sp - 1 - 1 - 1 = m.registers.sp - 3 := by grind
  have ram (addr : UInt16) : stacked.bus.ram.read addr =
      if stackAddress (m.registers.sp - 2) = addr then status
      else if stackAddress (m.registers.sp - 1) = addr then lowByte returnTo
      else if stackAddress m.registers.sp = addr then highByte returnTo
      else m.bus.ram.read addr := by
    simp only [stacked, ram_push, sp_push, two]
  have vector {addr : UInt16} (outside : 0x200 ≤ addr.toNat) : stacked.peek addr = m.peek addr := by
    simp only [stacked, peek_push _ _ outside]
  have low := vector (outside_vector kind).1
  have high := vector (outside_vector kind).2
  -- The three addresses are different, whether the stack pointer wraps or not.
  have first : m.registers.sp - 2 ≠ m.registers.sp - 1 := by grind
  have second : m.registers.sp - 2 ≠ m.registers.sp := by grind
  have third : m.registers.sp - 1 ≠ m.registers.sp := by grind
  constructor
  · exact {
      registers := congrArg (fun sp => { m.registers with sp }) three
      flags := m.handlerFlags_eq
      pc := congrArg₂ wordOf low high
      stacked := by
        change m.stackedAt.map stacked.bus.ram.read = _
        simp [stackedAt, ram, stackAddress_inj, first, second, third]
      others := fun addr outside => by
        simp only [stackedAt, List.mem_cons, List.not_mem_nil, or_false, not_or] at outside
        obtain ⟨one, two, three⟩ := outside
        refine (ram addr).trans ?_
        rw [if_neg (Ne.symm three), if_neg (Ne.symm two), if_neg (Ne.symm one)]
      feedback := rfl
      requests := rfl }
  · rw [entryAccesses, ← low, ← high, stackedAt, ← two]
    exact accesses_entered m.bus.events (highByte returnTo) (lowByte returnTo) status
      (stacked.peek kind.vector) (stacked.peek (kind.vector + 1)) (stackAddress m.registers.sp)
      (stackAddress (m.registers.sp - 1)) (stackAddress (m.registers.sp - 1 - 1)) kind.vector

/-- The interrupt that is taken: an NMI goes before an IRQ. -/
def interruptKind (m : Machine) : Interrupt := if m.bus.lines.nmi then .nmi else .irq

theorem acknowledgeNmi_of_clear {b : Board} (clear : b.lines.nmi = false) :
    b.acknowledgeNmi = b := by
  obtain ⟨ram, clock, ⟨requests, nmi⟩, feedback, events⟩ := b
  cases clear
  rfl

theorem serviceInterrupt_eq (m : Machine) :
    ∃ journal, m.serviceInterrupt =
      { (Cpu.enterHandler { m with bus := m.bus.acknowledgeNmi } m.interruptKind m.pc
          m.interruptStatusByte).wait 7 with journal } := by
  have asserted : Bus.nmiAsserted m.bus = m.bus.lines.nmi := rfl
  unfold Cpu.serviceInterrupt interruptKind
  cases nmi : m.bus.lines.nmi with
  | true =>
    simp only [asserted, nmi, if_true]
    exact ⟨_, rfl⟩
  | false =>
    simp only [asserted, nmi, Bool.false_eq_true, if_false, acknowledgeNmi_of_clear nmi]
    exact ⟨_, rfl⟩

theorem vector_interruptKind (m : Machine) :
    m.interruptKind.vector = if m.bus.lines.nmi then 0xFFFA else 0xFFFE := by
  unfold interruptKind
  split <;> rfl

structure Served (m d : Machine) : Prop where
  entered : m.Entered d m.interruptKind m.pc m.interruptStatusByte
  accesses : d.bus.events.accesses = m.bus.events.accesses.map
    (· ++ m.entryAccesses m.interruptKind m.pc m.interruptStatusByte)
  acknowledged : d.bus.lines.nmi = false
  clock : d.bus.clock = m.bus.clock + 7

theorem served_serviceInterrupt (m : Machine) :
    m.Served m.serviceInterrupt ∧ m.serviceInterrupt.interruptPending = m.interruptPending := by
  obtain ⟨journal, serviced⟩ := m.serviceInterrupt_eq
  obtain ⟨entered, accesses⟩ := entered_enterHandler { m with bus := m.bus.acknowledgeNmi }
    m.interruptKind m.pc m.interruptStatusByte
  rw [serviced]
  -- The wait is in the recording, but it is no access.
  exact ⟨⟨{ entered with }, (Recording.accesses_add _ _).trans accesses, rfl, rfl⟩, rfl⟩

theorem Entered.of_similar {m d d' : Machine} {kind : Interrupt} {returnTo : UInt16}
    {status : UInt8} {decided : Prop} (entered : m.Entered d' kind returnTo status)
    (similar : Cpu.Similar Board.SameButTime decided d d') :
    m.Entered d kind returnTo status where
  registers := similar.registers.trans entered.registers
  flags := similar.flags.trans entered.flags
  pc := similar.pc.trans entered.pc
  stacked := by
    rw [similar.bus.ram]
    exact entered.stacked
  others addr outside := by
    rw [similar.bus.ram]
    exact entered.others addr outside
  feedback := similar.bus.feedback.trans entered.feedback
  requests := by
    rw [similar.bus.lines]
    exact entered.requests

end Machine

end Cycle6502
