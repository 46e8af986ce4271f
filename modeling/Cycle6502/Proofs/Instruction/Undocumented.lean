import Cycle6502.Proofs.Bus.Spread
import Cycle6502.Proofs.Instruction.Disassembly
import Cycle6502.Proofs.Instruction.Reading
import Cycle6502.Proofs.Instruction.Writing

/-! The undocumented instructions that software uses: the store of two registers at once, the two
shifts that are combined with logic, and the no-operations of many sizes. -/

set_option autoImplicit false

namespace Cycle6502

open Board (SameButTime)

namespace Mode

def combinable : List Mode :=
  [.zeroPage, .zeroPageX, .absolute, .absoluteX, .absoluteY, .indexedIndirect, .indirectIndexed]

/-- What such a shift does before its effects. Only some modes write the operand back. -/
def preparing : Mode → List MicroOp
  | .zeroPage | .zeroPageX => [.zeroPageRead .effective .operand]
  | .absolute => [.read .effective (some .operand), .write .effective]
  | .indexedIndirect => [.read .effective (some .operand)]
  | _ => [.read .nonCarried none, .read .carried (some .operand), .write .carried]

def skippable : List Mode := [.implied, .immediate, .zeroPage, .zeroPageX, .absolute, .absoluteX]

theorem isWait_writeEvent (mode : Mode) (addr : UInt16) (value : UInt8) :
    (mode.writeEvent addr value).isWait = false := by
  unfold writeEvent
  split <;> rfl

theorem inMemory_of_combinable {mode : Mode} (combinable : mode ∈ combinable) : mode.inMemory := by
  revert combinable
  cases mode <;> decide

end Mode

def Instruction.Extra (i : Instruction) : Prop :=
  (i.mnemonic = .sax → i.mode.inMemory) ∧ (i.mnemonic = .asr → i.mode = .immediate) ∧
    (i.mnemonic = .slo → i.mode ∈ Mode.combinable) ∧ (i.mnemonic = .nop → i.mode ∈ Mode.skippable)

instance (i : Instruction) : Decidable i.Extra := inferInstanceAs (Decidable (_ ∧ _))

theorem extra_of_decode {v : Variant} {opcode : UInt8} {i : Instruction}
    (decoded : decode v opcode = some i) : i.Extra :=
  of_decide_eq_true (decode_forall (P := fun i => decide i.Extra) (by decide +kernel)
    (by decide +kernel) decoded)

theorem Behaviour.operations_combined (e f g : Effect) (v : Variant) {mode : Mode}
    (memory : mode ∈ Mode.combinable) :
    (modifying [e, f, g]).operations v mode =
      mode.locating ++ mode.preparing ++ ([.effect e, .effect f, .effect g] ++ [mode.writing]) := by
  simp only [Mode.combinable, List.mem_cons, List.not_mem_nil, or_false] at memory
  rcases memory with rfl | rfl | rfl | rfl | rfl | rfl | rfl <;> rfl

namespace Machine

structure BothStored (m d : Machine) (mode : Mode) (addr : UInt16) : Prop where
  executed :
    m.Executed d mode (m.storeAccesses mode addr (m.registers.a &&& m.registers.x))
  registers : d.registers = m.registers
  flags : d.flags = m.flags
  stored : m.bus.Stored d.bus addr (m.registers.a &&& m.registers.x)

structure MaskRotated (m d : Machine) (value a : UInt8) : Prop where
  common : value = m.registers.a &&& m.peek (m.pc + 1)
  result : a = .ofNat (value.toNat / 2 + 128 * m.flags.carry.toNat)
  executed : m.Executed d .immediate []
  registers : d.registers = { m.registers with a }
  flags : d.flags = { Textbook.judge m.flags a with carry := value.toNat % 2 = 1 }
  ram : d.bus.ram = m.bus.ram
  feedback : d.bus.feedback = m.bus.feedback
  lines : d.bus.lines = m.bus.lines

structure Skipped (m d : Machine) (mode : Mode) : Prop where
  executed : m.Executed d mode []
  registers : d.registers = m.registers
  flags : d.flags = m.flags
  pending : d.interruptPending = false
  ram : d.bus.ram = m.bus.ram
  feedback : d.bus.feedback = m.bus.feedback
  lines : d.bus.lines = m.bus.lines

/-- Where a combined shift puts its result first: in the modes that index an address, where it leads
before that. -/
def firstPlace (m : Machine) (mode : Mode) (addr : UInt16) : UInt16 :=
  match mode with
  | .absoluteX | .absoluteY | .indirectIndexed => .ofNat (m.base mode)
  | _ => addr

def prepareAccesses (m : Machine) (mode : Mode) (addr : UInt16) : List BusEvent :=
  match mode with
  | .zeroPage | .zeroPageX => [.zeroPageRead addr (m.peek addr)]
  | .absolute => [.read addr (m.peek addr), .write addr (m.peek addr)]
  | .indexedIndirect => m.pointerReads mode ++ [.read addr (m.peek addr)]
  | _ =>
    m.pointerReads mode ++
      [m.earlyRead mode, .read addr (m.peek addr), .write addr (m.peek addr)]

/-- A machine that has shifted a byte in memory through the carry to the left, to its own place and
to where the result goes first, and has combined the result with the accumulator. -/
structure Combined (m d : Machine) (mode : Mode) (addr : UInt16) (result a : UInt8) : Prop where
  shifted : result = .ofNat ((2 * (m.peek addr).toNat + m.flags.carry.toNat) % 256)
  either : a = m.registers.a ||| result
  executed : m.Executed d mode (m.prepareAccesses mode addr ++
    [.write (m.firstPlace mode addr) result, mode.writeEvent addr result])
  registers : d.registers = { m.registers with a }
  flags : d.flags = { Textbook.judge m.flags a with carry := 128 ≤ (m.peek addr).toNat }
  spread : m.bus.Spread d.bus [addr, m.firstPlace mode addr] result

theorem Combined.of_similar {m d d' : Machine} {mode : Mode} {addr : UInt16} {result a : UInt8}
    {decided : Prop} (combined : m.Combined d' mode addr result a)
    (similar : Cpu.Similar SameButTime decided d d') : m.Combined d mode addr result a :=
  ⟨combined.shifted, combined.either, combined.executed.of_similar similar,
    similar.registers.trans combined.registers, similar.flags.trans combined.flags,
    combined.spread.of_right similar.bus⟩

structure Prepared (m d : Machine) (mode : Mode) (addr : UInt16) : Prop where
  registers : d.registers = m.registers
  flags : d.flags = m.flags
  executed : m.Executed d mode (m.prepareAccesses mode addr)
  spread : ∀ {b : Board} {places : List UInt16} {value : UInt8}, addr ∈ places →
    d.bus.Spread b places value → m.bus.Spread b places value

section
variable {m d : Machine} {mode : Mode} {addr : UInt16} {l : Latches}

theorem Reads.prepared
    (reads : m.Reads d (1 + mode.operandBytes)
      (m.codeReads (1 + mode.operandBytes) ++ m.prepareAccesses mode addr)) :
    m.Prepared d mode addr :=
  ⟨reads.registers, reads.flags, ⟨reads.halted, reads.pc, reads.accesses⟩,
    fun _ spread => spread.of_left reads.ram reads.feedback reads.lines⟩

theorem Reads.prepared_back {events : List BusEvent}
    (reads : m.Reads d (1 + mode.operandBytes) events)
    (data : events ++ [.write addr (m.peek addr)] =
      m.codeReads (1 + mode.operandBytes) ++ m.prepareAccesses mode addr) :
    m.Prepared (d.write addr (m.peek addr)) mode addr where
  registers := reads.registers
  flags := reads.flags
  executed := by
    refine ⟨reads.halted, reads.pc, ?_⟩
    rw [← data]
    change (d.bus.write addr (m.peek addr)).events.accesses = _
    rw [Board.events_write]
    exact Recording.accesses_gain reads.accesses rfl
  spread place spread :=
    have back := (d.bus.stored_write addr (m.peek addr)).of_left reads.ram reads.feedback
      reads.lines
    .of_back back place spread

theorem Located.prepare (located : m.Located mode addr d l) (memory : mode ∈ Mode.combinable)
    (found : m.effectiveAddress mode = some addr) :
    let prepared := MicroOp.performAll mode.preparing d l
    m.Prepared prepared.1 mode addr ∧ prepared.2 = { l with operand := m.peek addr } := by
  obtain ⟨reads, rfl, early⟩ := located
  simp only [Mode.combinable, List.mem_cons, List.not_mem_nil, or_false] at memory
  rcases memory with rfl | rfl | rfl | rfl | rfl | rfl | rfl
  case inl | inr.inl =>
    obtain ⟨value, reads⟩ := reads.zeroPageRead (effectiveAddress_lt found rfl)
    rw [List.append_assoc] at reads
    exact ⟨reads.prepared, congrArg (fun operand => { l with operand }) value⟩
  case inr.inr.inl =>
    obtain ⟨value, reads⟩ := reads.read l.addr
    have prepared : MicroOp.performAll (Mode.preparing .absolute) d l =
        ((d.read l.addr).2.write l.addr (m.peek l.addr), { l with operand := m.peek l.addr }) := by
      rw [← value]
      rfl
    rw [prepared]
    exact ⟨reads.prepared_back (by simp [prepareAccesses, pointerReads]), rfl⟩
  case inr.inr.inr.inr.inr.inl =>
    obtain ⟨value, reads⟩ := reads.read l.addr
    rw [List.append_assoc] at reads
    exact ⟨reads.prepared, congrArg (fun operand => { l with operand }) value⟩
  all_goals
    -- The byte of the early read goes nowhere; only the recording shows it.
    obtain ⟨-, reads⟩ := reads.read l.nonCarried
    obtain ⟨value, reads⟩ := reads.read l.carried
    have prepared : MicroOp.performAll
        [.read .nonCarried none, .read .carried (some .operand), .write .carried] d l =
          (((d.read l.nonCarried).2.read l.carried).2.write l.carried (m.peek l.carried),
            { l with operand := m.peek l.carried }) := by
      rw [← value]
      rfl
    simp only [Mode.preparing, prepared]
    refine ⟨reads.prepared_back ?_, rfl⟩
    simp [prepareAccesses, earlyRead, early rfl]

theorem addr_located (m : Machine) (memory : mode ∈ Mode.combinable)
    (found : m.effectiveAddress mode = some addr) :
    (MicroOp.performAll mode.locating m.fetchByte.2 {}).2.addr = m.firstPlace mode addr := by
  have plain {l : Latches} {word : Nat} (address : l.addr.toNat = word) : l.addr = .ofNat word := by
    rw [← address, UInt16.ofNat_toNat]
  have address := (m.located found).address
  simp only [Mode.combinable, List.mem_cons, List.not_mem_nil, or_false] at memory
  rcases memory with rfl | rfl | rfl | rfl | rfl | rfl | rfl
  case inr.inr.inr.inl | inr.inr.inr.inr.inl => exact plain m.fetchAbsolute.2
  case inr.inr.inr.inr.inr.inr =>
    have place : (m.operandByte + (m.indexValue none).toNat) % 256 = m.operandByte :=
      Nat.mod_eq_of_lt (UInt8.toNat_lt _)
    have pointed := (m.fetchPointer none).2
    rw [place] at pointed
    exact plain pointed
  all_goals exact address

theorem perform_writing (c : Machine) (address : l.resolve mode.site = addr)
    (low : mode.inZeroPage → addr.toNat < 256) :
    ∃ bus journal, (mode.writing.perform c l).1 = { c with bus, journal } ∧
      bus.events = c.bus.events.add (mode.writeEvent addr l.operand) ∧
      c.bus.Stored bus addr l.operand := by
  subst address
  cases zeroPage : mode.inZeroPage with
  | true =>
    refine ⟨c.bus.zeroPageWrite (l.resolve mode.site) l.operand, c.journal, ?_, ?_,
      c.bus.stored_zeroPageWrite (low zeroPage) l.operand⟩
    · cases mode <;> first | rfl | cases zeroPage
    · rw [Mode.writeEvent, if_pos zeroPage]
      rfl
  | false =>
    refine ⟨c.bus.write (l.resolve mode.site) l.operand,
      (c.write (l.resolve mode.site) l.operand).journal, ?_, ?_, c.bus.stored_write _ l.operand⟩
    · cases mode <;> first | rfl | cases zeroPage
    · rw [Mode.writeEvent, if_neg (ne_true_of_eq_false zeroPage)]
      exact c.bus.events_write _ _

/-- The effects of a combined shift and its last write. -/
theorem Prepared.combine (prepared : m.Prepared d mode addr)
    (address : l.resolve mode.site = addr) (first : l.addr = m.firstPlace mode addr)
    (low : mode.inZeroPage → addr.toNat < 256) (operand : l.operand = m.peek addr) :
    let done := (MicroOp.performAll ([.effect (.rotate true false), .effect .writeBackToBase,
      .effect .orIntoAccumulator] ++ [mode.writing]) d l).1
    ∃ result a, m.Combined done mode addr result a := by
  intro done
  let result : UInt8 := .ofNat ((2 * (m.peek addr).toNat + m.flags.carry.toNat) % 256)
  let a := m.registers.a ||| result
  let carry : Bool := 128 ≤ (m.peek addr).toNat
  have rotated : Alu.rotate l.operand d.flags.carry true false = (result, carry) := by
    rw [operand, prepared.flags, Alu.rotate_left, Bool.not_false, Bool.and_true]
  -- The machine in front of the last write.
  let turned : Machine := { d with flags := { d.flags.ofValue result with carry } }
  let ready := (turned.write l.addr result).setRegisterAndFlags .a a
  have effects : MicroOp.performAll [.effect (.rotate true false), .effect .writeBackToBase,
      .effect .orIntoAccumulator] d l = (ready, { l with operand := result }) := by
    simp only [MicroOp.performAll, MicroOp.perform_effect, Effect.perform, rotated]
    simp only [ready, a, ← prepared.registers]
    rfl
  rw [← Latches.resolve_operand _ _ result] at address
  obtain ⟨bus, journal, written, events, stored⟩ := perform_writing ready address low
  have done_eq : done = { ready with bus, journal } := by
    simp only [done, MicroOp.performAll_append, effects, MicroOp.performAll_singleton, written]
  refine ⟨result, a, rfl, rfl, ?_, ?_, ?_, ?_⟩ <;> rw [done_eq]
  · rw [← first]
    refine ⟨prepared.executed.halted, prepared.executed.pc, ?_⟩
    have board : ready.bus = d.bus.write l.addr result := rfl
    have gained := Recording.accesses_gain prepared.executed.accesses
      (rfl : (BusEvent.write l.addr result).isWait = false)
    rw [← d.bus.events_write, ← board] at gained
    change bus.events.accesses = _
    rw [events, Recording.accesses_gain gained (mode.isWait_writeEvent addr result),
      List.append_assoc, List.append_assoc]
    rfl
  · exact congrArg (fun r : Registers => { r with a }) prepared.registers
  · change ({ d.flags.ofValue result with carry } : Flags).ofValue a = _
    simp only [Flags.ofValue_eq, Textbook.judge, prepared.flags]
    rfl
  · rw [← first]
    exact prepared.spread List.mem_cons_self
      ((d.bus.stored_write l.addr result).spread.store stored)

end

theorem step_slo {m : Machine} {i : Instruction} (running : m.halted = false)
    (decoded : decode m.variant (m.peek m.pc) = some i) (slo : i.mnemonic = .slo)
    (undisturbed : m.takesInterrupt = false) :
    ∃ addr result a, m.effectiveAddress i.mode = some addr ∧ m.step.2 = none ∧
      m.Combined m.step.1 i.mode addr result a := by
  have memory := (extra_of_decode decoded).2.2.1 slo
  have inMemory := Mode.inMemory_of_combinable memory
  obtain ⟨addr, found⟩ := m.effectiveAddress_isSome inMemory
  have modelled : Behaviour.of? i =
      some (.modifying [.rotate true false, .writeBackToBase, .orIntoAccumulator]) := by
    obtain ⟨mnemonic, mode⟩ := i
    cases slo
    rfl
  obtain ⟨stepped, similar⟩ := step_similar running decoded modelled (List.cons_ne_nil _ _)
    (Mode.ne_relative inMemory) undisturbed
  have located := m.located found
  have first := m.addr_located memory found
  obtain ⟨prepared, latches⟩ := located.prepare memory found
  have address := located.address
  rw [Behaviour.operations_combined _ _ _ _ memory,
    MicroOp.performAll_append (i.mode.locating ++ i.mode.preparing),
    MicroOp.performAll_append i.mode.locating, latches] at similar
  rw [← Latches.resolve_operand _ _ (m.peek addr)] at address
  obtain ⟨result, a, combined⟩ := prepared.combine address first (effectiveAddress_lt found) rfl
  exact ⟨addr, result, a, found, stepped, combined.of_similar similar⟩

theorem step_sax {m : Machine} {i : Instruction} (running : m.halted = false)
    (decoded : decode m.variant (m.peek m.pc) = some i) (sax : i.mnemonic = .sax)
    (undisturbed : m.takesInterrupt = false) :
    ∃ addr, m.effectiveAddress i.mode = some addr ∧ m.step.2 = none ∧
      m.BothStored m.step.1 i.mode addr := by
  have memory := (extra_of_decode decoded).1 sax
  obtain ⟨addr, found⟩ := m.effectiveAddress_isSome memory
  have modelled : Behaviour.of? i = some (.writing [.storeAAndX]) := by
    obtain ⟨mnemonic, mode⟩ := i
    cases sax
    rfl
  have prepares {d : Machine} {l : Latches} (located : m.Located i.mode addr d l) :
      let ready := MicroOp.performAll i.mode.touching d l
      m.Poised ready.1 i.mode addr (m.touchAccesses i.mode) ∧
        ready.2.resolve i.mode.site = addr ∧
        Effect.storeAAndX.perform ready.1 ready.2 = ({ ready.1 with flags := m.flags },
          { ready.2 with operand := m.registers.a &&& m.registers.x }) := by
    obtain ⟨poised, latches⟩ := located.touch
    refine ⟨poised, ?_, ?_⟩
    · rw [latches, located.address]
    · rw [Effect.perform, poised.registers, ← poised.flags]
  obtain ⟨stepped, executed, registers, flags, stored⟩ := step_writer running decoded modelled
    (List.cons_ne_nil _ _) memory undisturbed found (Behaviour.operations_writing _ _ memory)
    prepares
  rw [← storeAccesses_eq] at executed
  exact ⟨addr, found, stepped, executed, registers, flags, stored⟩

theorem step_asr {m : Machine} {i : Instruction} (running : m.halted = false)
    (decoded : decode m.variant (m.peek m.pc) = some i) (asr : i.mnemonic = .asr)
    (undisturbed : m.takesInterrupt = false) :
    ∃ value a, i.mode = .immediate ∧ m.step.2 = none ∧ m.MaskRotated m.step.1 value a := by
  let value := m.registers.a &&& m.peek (m.pc + 1)
  let a : UInt8 := .ofNat (value.toNat / 2 + 128 * m.flags.carry.toNat)
  obtain ⟨mnemonic, mode⟩ := i
  cases asr
  cases (extra_of_decode decoded).2.1 rfl
  obtain ⟨stepped, similar⟩ :=
    step_similar running decoded rfl (List.cons_ne_nil _ _) (by decide) undisturbed
  obtain ⟨operand, reads⟩ := m.reads_operandByte
  let fetched : Machine := m.fetchByte.2.fetchByte.2
  have rotated : Alu.rotate (m.peek (m.pc + 1) &&& m.registers.a) m.flags.carry false false =
      (a, decide (value.toNat % 2 = 1)) := by
    rw [UInt8.and_comm, Alu.rotate_right, Bool.not_false, Bool.and_true]
  let done : Machine := { fetched with
    registers := { m.registers with a }
    flags := { Textbook.judge m.flags a with carry := decide (value.toNat % 2 = 1) } }
  have performed : (MicroOp.performAll ((Behaviour.mk [] [.andAccumulatorIntoOperand,
      .rotate false false, .operandToAccumulator] false false 0).operations m.variant .immediate)
      m.fetchByte.2 {}).1 = done := by
    simp only [Behaviour.operations, Behaviour.effectOps, List.map, List.singleton_append,
      MicroOp.performAll, MicroOp.perform, Effect.perform, operand, reads.registers, reads.flags,
      rotated, Flags.ofValue_eq]
    simp only [done, ← reads.registers]
    rfl
  rw [performed] at similar
  have executed : m.Executed done .immediate [] := ⟨reads.halted, reads.pc, reads.accesses⟩
  exact ⟨value, a, rfl, stepped, rfl, rfl, executed.of_similar similar, similar.registers,
    similar.flags, similar.bus.ram.trans reads.ram, similar.bus.feedback.trans reads.feedback,
    similar.bus.lines.trans reads.lines⟩

theorem reads_skipped (m : Machine) {mode : Mode} (skippable : mode ∈ Mode.skippable) :
    m.Reads (MicroOp.performAll ((Behaviour.mk [] [] false false 0).operations m.variant mode)
      m.fetchByte.2 {}).1 (1 + mode.operandBytes) (m.codeReads (1 + mode.operandBytes)) := by
  simp only [Mode.skippable, List.mem_cons, List.not_mem_nil, or_false] at skippable
  rcases skippable with rfl | rfl | rfl | rfl | rfl | rfl
  · exact m.reads_opcode
  · exact m.reads_operandByte.2
  · exact m.reads_operandByte.2
  · exact m.reads_operandByte.2
  · exact m.fetchAbsolute.1
  · exact m.fetchAbsolute.1

theorem step_nop {m : Machine} {i : Instruction} {p : Microprogram} (running : m.halted = false)
    (decoded : decode m.variant (m.peek m.pc) = some i) (nop : i.mnemonic = .nop)
    (found : m.microcode.lookup (m.peek m.pc) = some p) (undisturbed : m.takesInterrupt = false) :
    m.step.2 = none ∧ m.Skipped m.step.1 i.mode := by
  have skippable := (extra_of_decode decoded).2.2.2 nop
  have direct : i.mode ≠ .relative := by
    intro relative
    rw [relative] at skippable
    exact absurd skippable (by decide)
  have modelled : Behaviour.of? i = some {} := by
    obtain ⟨mnemonic, mode⟩ := i
    cases nop
    rfl
  have ran := run_similar found decoded modelled direct
  have reads := m.reads_skipped skippable
  have pending := (Cpu.takesInterrupt_eq found).symm.trans undisturbed
  obtain ⟨journal, stepped⟩ := Cpu.step_eq running found undisturbed
  rw [stepped]
  refine ⟨rfl, ?_, ran.registers.trans reads.registers, ran.flags.trans reads.flags, pending,
    ran.bus.ram.trans reads.ram, ran.bus.feedback.trans reads.feedback,
    ran.bus.lines.trans reads.lines⟩
  refine ⟨ran.halted.trans reads.halted, ran.pc.trans reads.pc, ?_⟩
  rw [List.append_nil]
  exact ran.bus.accesses.trans reads.accesses

/-- The undocumented instructions that have a program, in every mode that the table gives them. A
combined shift is the only one that can write to two places. -/
theorem step_undocumented {m : Machine} {i : Instruction} (running : m.halted = false)
    (decoded : decode m.variant (m.peek m.pc) = some i) (undisturbed : m.takesInterrupt = false) :
    (i.mnemonic = .sax →
      ∃ addr, m.effectiveAddress i.mode = some addr ∧ m.step.2 = none ∧
        m.BothStored m.step.1 i.mode addr) ∧
      (i.mnemonic = .asr →
        ∃ value a, i.mode = .immediate ∧ m.step.2 = none ∧ m.MaskRotated m.step.1 value a) ∧
      (i.mnemonic = .slo →
        ∃ addr result a, m.effectiveAddress i.mode = some addr ∧ m.step.2 = none ∧
          m.Combined m.step.1 i.mode addr result a) ∧
      ∀ p, i.mnemonic = .nop → m.microcode.lookup (m.peek m.pc) = some p →
        m.step.2 = none ∧ m.Skipped m.step.1 i.mode :=
  ⟨fun sax => step_sax running decoded sax undisturbed,
    fun asr => step_asr running decoded asr undisturbed,
    fun slo => step_slo running decoded slo undisturbed,
    fun _ nop found => step_nop running decoded nop found undisturbed⟩

/-- A combined shift of the feedback register, which is at 1, from a base below it; and one of each
of the others. -/
theorem step_undocumented_loaded :
    let slo := loaded [0x1B, 0xDC, 0xBF]
    let sax := loaded [0x87, 0x10]
    let asr := loaded [0x4B, 0x0F]
    let nop := loaded [0x3C, 0x00, 0xFE]
    (slo.step.1.bus.peek feedbackRegister = 2 ∧ slo.step.1.bus.peek 0xBFDC = 2 ∧
        slo.step.1.bus.lines.nmi = true) ∧
      sax.BothStored sax.step.1 .zeroPage 0x10 ∧ (∃ value a, asr.MaskRotated asr.step.1 value a) ∧
      nop.Skipped nop.step.1 .absoluteX := by
  intro slo sax asr nop
  refine ⟨?_, ?_, ?_, ?_⟩
  · have decoded : decode slo.variant (slo.peek slo.pc) = some ⟨.slo, .absoluteY⟩ := by
      decide +kernel
    have address : slo.effectiveAddress .absoluteY = some feedbackRegister := by decide +kernel
    have first : slo.firstPlace .absoluteY feedbackRegister = 0xBFDC := by decide +kernel
    have byte : slo.peek feedbackRegister = 1 := by decide +kernel
    obtain ⟨addr, result, a, found, -, combined⟩ :=
      (step_undocumented rfl decoded (by decide +kernel)).2.2.1 rfl
    cases found.symm.trans address
    have shifted := combined.shifted
    have spread := combined.spread
    rw [first] at spread
    rw [byte] at shifted
    cases shifted
    obtain ⟨-, -, nmi⟩ := spread.register (by simp)
    exact ⟨spread.found _ (by simp), spread.found _ (by simp), nmi.trans (by decide +kernel)⟩
  · have decoded : decode sax.variant (sax.peek sax.pc) = some ⟨.sax, .zeroPage⟩ := by
      decide +kernel
    have address : sax.effectiveAddress .zeroPage = some 0x10 := by decide +kernel
    obtain ⟨addr, found, -, stored⟩ := (step_undocumented rfl decoded (by decide +kernel)).1 rfl
    cases found.symm.trans address
    exact stored
  · have decoded : decode asr.variant (asr.peek asr.pc) = some ⟨.asr, .immediate⟩ := by
      decide +kernel
    obtain ⟨value, a, -, -, rotated⟩ := (step_undocumented rfl decoded (by decide +kernel)).2.1 rfl
    exact ⟨value, a, rotated⟩
  · have decoded : decode nop.variant (nop.peek nop.pc) = some ⟨.nop, .absoluteX⟩ := by
      decide +kernel
    have compiled : (nop.microcode.lookup (nop.peek nop.pc)).isSome := by decide +kernel
    obtain ⟨p, found⟩ := Option.isSome_iff_exists.1 compiled
    exact ((step_undocumented rfl decoded (by decide +kernel)).2.2.2 p rfl found).2

end Machine

end Cycle6502
