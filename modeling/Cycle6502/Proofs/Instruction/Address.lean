import Cycle6502.Proofs.Bus.Stored
import Cycle6502.Proofs.Instruction.Textbook
import Cycle6502.Proofs.Timing.Layout
import Cycle6502.Proofs.Word

/-! How the operations of an addressing mode find the operand: they read code and pointers, change
nothing, and leave the effective address in the latches. -/

set_option autoImplicit false

namespace Cycle6502

namespace Machine

/-- A machine behind some reads: it has fetched `bytes` bytes of code, and nothing is different but
the program counter, the time and the recording. -/
structure Reads (m d : Machine) (bytes : Nat) (events : List BusEvent) : Prop where
  registers : d.registers = m.registers
  flags : d.flags = m.flags
  halted : d.halted = m.halted
  pc : d.pc = m.pc + .ofNat bytes
  ram : d.bus.ram = m.bus.ram
  feedback : d.bus.feedback = m.bus.feedback
  lines : d.bus.lines = m.bus.lines
  accesses : d.bus.events.accesses = m.bus.events.accesses.map (· ++ events)

theorem ram_read_of_lt (m : Machine) {addr : UInt16} (low : addr.toNat < 256) :
    m.bus.ram.read addr = m.peek addr :=
  (if_neg (Board.ne_feedbackRegister low)).symm

namespace Reads

variable {m d : Machine} {bytes : Nat} {events : List BusEvent}

theorem refl (m : Machine) : Reads m m 0 [] :=
  ⟨rfl, rfl, rfl, (UInt16.add_zero _).symm, rfl, rfl, rfl, by simp⟩

theorem peek (r : Reads m d bytes events) (addr : UInt16) : d.peek addr = m.peek addr := by
  simp only [Cpu.peek, Bus.peek, Board.peek, r.ram, r.feedback]

theorem read (r : Reads m d bytes events) (addr : UInt16) :
    (d.read addr).1 = m.peek addr ∧
      Reads m (d.read addr).2 bytes (events ++ [.read addr (m.peek addr)]) := by
  have value := r.peek addr
  refine ⟨value, { r with accesses := ?_ }⟩
  rw [← value]
  exact Recording.accesses_gain r.accesses rfl

theorem zeroPageRead (r : Reads m d bytes events) {addr : UInt16} (low : addr.toNat < 256) :
    (d.zeroPageRead addr).1 = m.peek addr ∧
      Reads m (d.zeroPageRead addr).2 bytes (events ++ [.zeroPageRead addr (m.peek addr)]) := by
  have value := (d.ram_read_of_lt low).trans (r.peek addr)
  refine ⟨value, { r with accesses := ?_ }⟩
  rw [← value]
  exact Recording.accesses_gain r.accesses rfl

theorem fetchByte (r : Reads m d bytes events) :
    d.fetchByte.1 = m.peek (m.pc + .ofNat bytes) ∧
      Reads m d.fetchByte.2 (bytes + 1)
        (events ++ [.read (m.pc + .ofNat bytes) (m.peek (m.pc + .ofNat bytes))]) := by
  have fetched := r.read d.pc
  rw [← r.pc]
  refine ⟨fetched.1, { fetched.2 with pc := ?_ }⟩
  change d.pc + 1 = _
  rw [r.pc, UInt16.ofNat_add, UInt16.add_assoc]
  rfl

theorem wait (r : Reads m d bytes events) (cycles : UInt32) :
    Reads m (d.wait cycles) bytes events :=
  { r with accesses := (Recording.accesses_add _ _).trans r.accesses }

end Reads

end Machine

theorem Latches.resolve_operand (l : Latches) (site : Site) (operand : UInt8) :
    { l with operand }.resolve site = l.resolve site := by
  cases site <;> rfl

theorem Latches.carried_index (l : Latches) (offset : UInt8) :
    (l.index offset).carried = .ofNat ((l.addr.toNat + offset.toNat) % 65536) :=
  add_toUInt16 _ _

theorem Latches.nonCarried_index (l : Latches) (offset : UInt8) :
    (l.index offset).nonCarried =
      .ofNat (l.addr.toNat / 256 * 256 + (l.addr.toNat + offset.toNat) % 256) := by
  have place : (l.addr + offset.toUInt16).toNat % 256 = (l.addr.toNat + offset.toNat) % 256 := by
    rw [add_toUInt16, UInt16.toNat_ofNat']
    omega
  rw [index, page_or_place, place]

namespace Mode

def locating : Mode → List MicroOp
  | .zeroPage => [.fetchZeroPage none]
  | .zeroPageX => [.fetchZeroPage (some .x)]
  | .zeroPageY => [.fetchZeroPage (some .y)]
  | .absolute => [.fetchAbsolute]
  | .absoluteX => [.fetchAbsolute, .indexAbsolute .x]
  | .absoluteY => [.fetchAbsolute, .indexAbsolute .y]
  | .indexedIndirect => Behaviour.operations.pointed (some .x) ++ [.joinPointer]
  | .indirectIndexed =>
    Behaviour.operations.pointed none ++ [.joinPointer] ++ [.indexAbsolute .y]
  | _ => []

def inZeroPage : Mode → Bool
  | .zeroPage | .zeroPageX | .zeroPageY => true
  | _ => false

def site : Mode → Site
  | .absoluteX | .absoluteY | .indirectIndexed => .carried
  | _ => .effective

end Mode

namespace Machine

theorem effectiveAddress_lt {m : Machine} {mode : Mode} {addr : UInt16}
    (found : m.effectiveAddress mode = some addr) (zeroPage : mode.inZeroPage) :
    addr.toNat < 256 := by
  cases mode <;> cases zeroPage <;> cases found <;> rw [UInt16.toNat_ofNat'] <;> omega

structure Located (m : Machine) (mode : Mode) (addr : UInt16) (d : Machine) (l : Latches) :
    Prop where
  reads : m.Reads d (1 + mode.operandBytes)
    (m.codeReads (1 + mode.operandBytes) ++ m.pointerReads mode)
  address : l.resolve mode.site = addr
  early : mode.site = .carried → l.nonCarried = m.nonCarried mode

section
variable (m : Machine)

theorem reads_opcode : m.Reads m.fetchByte.2 1 (m.codeReads 1) :=
  (Reads.refl m).fetchByte.2

theorem codeReads_succ (count : Nat) :
    m.codeReads (count + 1) =
      m.codeReads count ++ [.read (m.pc + .ofNat count) (m.peek (m.pc + .ofNat count))] := by
  simp [codeReads, List.range_succ]

theorem reads_operandByte :
    m.fetchByte.2.fetchByte.1 = m.peek (m.pc + 1) ∧
      m.Reads m.fetchByte.2.fetchByte.2 2 (m.codeReads 2) := by
  obtain ⟨value, reads⟩ := m.reads_opcode.fetchByte
  exact ⟨value, m.codeReads_succ 1 ▸ reads⟩

theorem fetchZeroPage (index : Option Index) :
    let fetched := MicroOp.performAll [.fetchZeroPage index] m.fetchByte.2 {}
    m.Reads fetched.1 2 (m.codeReads 2) ∧
      fetched.2.addr = .ofNat ((m.operandByte + (m.indexValue index).toNat) % 256) := by
  intro fetched
  obtain ⟨value, reads⟩ := m.reads_operandByte
  refine ⟨reads, ?_⟩
  change (m.fetchByte.2.fetchByte.1 + m.indexValue index).toUInt16 = _
  rw [value, toUInt16_add]
  rfl

theorem fetchAbsolute :
    let fetched := MicroOp.performAll [.fetchAbsolute] m.fetchByte.2 {}
    m.Reads fetched.1 3 (m.codeReads 3) ∧ fetched.2.addr.toNat = m.operandWord := by
  intro fetched
  obtain ⟨low, reads⟩ := m.reads_operandByte
  obtain ⟨high, reads⟩ := reads.fetchByte
  refine ⟨m.codeReads_succ 2 ▸ reads, ?_⟩
  change (wordOf m.fetchByte.2.fetchByte.1 m.fetchByte.2.fetchByte.2.fetchByte.1).toNat = _
  rw [low, high, toNat_wordOf]
  rfl

theorem fetchPointer (index : Option Index) :
    let place := (m.operandByte + (m.indexValue index).toNat) % 256
    let fetched := MicroOp.performAll (Behaviour.operations.pointed index ++ [.joinPointer])
      m.fetchByte.2 {}
    m.Reads fetched.1 2 (m.codeReads 2 ++ m.wordReads place) ∧
      fetched.2.addr.toNat = m.pointedWord place := by
  intro place fetched
  obtain ⟨value, reads⟩ := m.reads_operandByte
  let pointer := m.fetchByte.2.fetchByte.1 + m.indexValue index
  -- The place as a byte is what wraps; as an address and as a number it is what is read.
  have first : pointer.toUInt16 = .ofNat place := by
    simp only [pointer, value, toUInt16_add]
    rfl
  have number : pointer.toNat = place := by
    have same := congrArg UInt16.toNat first
    rw [UInt8.toNat_toUInt16, UInt16.toNat_ofNat'] at same
    omega
  have next : (pointer + 1).toUInt16 = .ofNat ((place + 1) % 256) := by
    rw [toUInt16_add, number]
    rfl
  have small (b : UInt8) : b.toUInt16.toNat < 256 := b.toUInt16_toNat ▸ b.toNat_lt
  obtain ⟨low, reads⟩ := reads.zeroPageRead (small pointer)
  obtain ⟨high, reads⟩ := reads.zeroPageRead (small (pointer + 1))
  have events : m.wordReads place = [.zeroPageRead pointer.toUInt16 (m.peek pointer.toUInt16)] ++
      [.zeroPageRead (pointer + 1).toUInt16 (m.peek (pointer + 1).toUInt16)] := by
    rw [first, next]
    rfl
  have word : fetched.2.addr = wordOf (m.peek pointer.toUInt16) (m.peek (pointer + 1).toUInt16) :=
    congrArg₂ wordOf low high
  constructor
  · rw [events, ← List.append_assoc]
    exact reads
  · rw [word, toNat_wordOf, first, next]
    rfl

theorem Reads.index {m d : Machine} {l : Latches} {bytes word : Nat} {events : List BusEvent}
    (reads : m.Reads d bytes events) (address : l.addr.toNat = word) (index : Index) :
    let indexed := (MicroOp.indexAbsolute index).perform d l
    let offset := (m.indexValue (some index)).toNat
    m.Reads indexed.1 bytes events ∧
      indexed.2.carried = .ofNat ((word + offset) % 65536) ∧
      indexed.2.nonCarried = .ofNat (word / 256 * 256 + (word + offset) % 256) := by
  have same : d.indexValue (some index) = m.indexValue (some index) := by
    simp only [Cpu.indexValue, reads.registers]
  simp only [MicroOp.perform, same, Latches.carried_index, Latches.nonCarried_index, address]
  exact ⟨reads, trivial, trivial⟩

theorem located {mode : Mode} {addr : UInt16} (found : m.effectiveAddress mode = some addr) :
    let located := MicroOp.performAll mode.locating m.fetchByte.2 {}
    m.Located mode addr located.1 located.2 := by
  have plain {l : Latches} {word : Nat} (address : l.addr.toNat = word) : l.addr = .ofNat word := by
    rw [← address, UInt16.ofNat_toNat]
  -- The modes without a memory operand have no effective address and are gone at once.
  cases mode <;> cases found
  case zeroPage | zeroPageX | zeroPageY =>
    obtain ⟨reads, address⟩ := m.fetchZeroPage _
    exact ⟨(List.append_nil _).symm ▸ reads, address, fun same => nomatch same⟩
  case absolute =>
    obtain ⟨reads, address⟩ := m.fetchAbsolute
    refine ⟨(List.append_nil _).symm ▸ reads, ?_, fun same => nomatch same⟩
    -- Without an offset the operand word is in the address space as it is.
    have bound := (MicroOp.performAll [.fetchAbsolute] m.fetchByte.2 {}).2.addr.toNat_lt
    rw [address] at bound
    exact (plain address).trans (congrArg _ (Nat.mod_eq_of_lt bound).symm)
  case absoluteX | absoluteY =>
    obtain ⟨reads, address⟩ := m.fetchAbsolute
    obtain ⟨reads, carried, nonCarried⟩ := reads.index address _
    exact ⟨(List.append_nil _).symm ▸ reads, carried, fun _ => nonCarried⟩
  case indexedIndirect =>
    obtain ⟨reads, address⟩ := m.fetchPointer (some .x)
    exact ⟨reads, plain address, fun same => nomatch same⟩
  case indirectIndexed =>
    -- Y is added behind the pointer, whose place is the operand byte as it is.
    have bound : m.operandByte < 256 := UInt8.toNat_lt _
    have place : (m.operandByte + (m.indexValue none).toNat) % 256 = m.operandByte :=
      Nat.mod_eq_of_lt bound
    obtain ⟨reads, address⟩ := m.fetchPointer none
    rw [place] at reads address
    obtain ⟨reads, carried, nonCarried⟩ := reads.index address .y
    exact ⟨reads, carried, fun _ => nonCarried⟩

end

end Machine

end Cycle6502
