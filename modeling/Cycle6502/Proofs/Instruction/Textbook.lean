import Cycle6502.Proofs.Bus.Time

/-! Instructions as a programmer's manual has them: where an operand is, what is made of it, and
which accesses can be observed, all in the arithmetic of numbers. -/

set_option autoImplicit false

namespace Cycle6502

namespace Machine

variable (m : Machine)

def operandByte : Nat := (m.peek (m.pc + 1)).toNat

def operandWord : Nat := m.operandByte + 256 * (m.peek (m.pc + 2)).toNat

/-- The word at a place in zero page; the byte behind the last one there is the first one. -/
def pointedWord (place : Nat) : Nat :=
  (m.peek (.ofNat place)).toNat + 256 * (m.peek (.ofNat ((place + 1) % 256))).toNat

def offset : Mode → Nat
  | .zeroPageX | .absoluteX | .indexedIndirect => m.registers.x.toNat
  | .zeroPageY | .absoluteY | .indirectIndexed => m.registers.y.toNat
  | _ => 0

def base : Mode → Nat
  | .absolute | .absoluteX | .absoluteY => m.operandWord
  | .indirectIndexed => m.pointedWord m.operandByte
  | _ => m.operandByte

/-- Where a memory operand is, in the modes that have one. -/
def effectiveAddress (mode : Mode) : Option UInt16 :=
  match mode with
  | .zeroPage | .zeroPageX | .zeroPageY => some (.ofNat ((m.base mode + m.offset mode) % 256))
  | .absolute | .absoluteX | .absoluteY | .indirectIndexed =>
    some (.ofNat ((m.base mode + m.offset mode) % 65536))
  | .indexedIndirect => some (.ofNat (m.pointedWord ((m.base mode + m.offset mode) % 256)))
  | _ => none

def nonCarried (mode : Mode) : UInt16 :=
  .ofNat (m.base mode / 256 * 256 + (m.base mode + m.offset mode) % 256)

def carries (mode : Mode) : Prop := 256 ≤ m.base mode % 256 + m.offset mode

instance (mode : Mode) : Decidable (m.carries mode) := inferInstanceAs (Decidable (_ ≤ _))

/-- What an instruction reads: the byte behind its opcode, or the byte in memory. -/
def operand (mode : Mode) : Option UInt8 :=
  match mode with
  | .immediate => some (m.peek (m.pc + 1))
  | _ => (m.effectiveAddress mode).map m.peek

def codeReads (count : Nat) : List BusEvent :=
  (List.range count).map fun k => .read (m.pc + .ofNat k) (m.peek (m.pc + .ofNat k))

def wordReads (place : Nat) : List BusEvent :=
  let next := (place + 1) % 256
  [.zeroPageRead (.ofNat place) (m.peek (.ofNat place)),
    .zeroPageRead (.ofNat next) (m.peek (.ofNat next))]

def pointerReads : Mode → List BusEvent
  | .indexedIndirect => m.wordReads ((m.operandByte + m.registers.x.toNat) % 256)
  | .indirectIndexed => m.wordReads m.operandByte
  | _ => []

/-- A read of the indexed address that lacks its carry. -/
def earlyRead (mode : Mode) : BusEvent := .read (m.nonCarried mode) (m.peek (m.nonCarried mode))

def readAccesses (mode : Mode) : List BusEvent :=
  match m.effectiveAddress mode with
  | none => []
  | some addr =>
    match mode with
    | .zeroPage | .zeroPageX | .zeroPageY => [.zeroPageRead addr (m.peek addr)]
    | .absoluteX | .absoluteY | .indirectIndexed =>
      m.pointerReads mode ++ (if m.carries mode then [m.earlyRead mode] else [])
        ++ [.read addr (m.peek addr)]
    | _ => m.pointerReads mode ++ [.read addr (m.peek addr)]

def modifyAccesses (mode : Mode) (addr : UInt16) (value : UInt8) : List BusEvent :=
  match mode with
  | .zeroPage | .zeroPageX => [.zeroPageRead addr (m.peek addr), .zeroPageWrite addr value]
  | .absoluteX =>
    [m.earlyRead mode, .read addr (m.peek addr), .write addr (m.peek addr), .write addr value]
  | _ => [.read addr (m.peek addr), .write addr (m.peek addr), .write addr value]

def storeAccesses (mode : Mode) (addr : UInt16) (value : UInt8) : List BusEvent :=
  match mode with
  | .zeroPage | .zeroPageX | .zeroPageY => [.zeroPageWrite addr value]
  | .absoluteX | .absoluteY | .indirectIndexed =>
    m.pointerReads mode ++ [m.earlyRead mode, .write addr value]
  | _ => m.pointerReads mode ++ [.write addr value]

/-- A machine behind an instruction: the program counter has moved on by its bytes, and its
accesses have been recorded, those to the code first. -/
structure Executed (m d : Machine) (mode : Mode) (data : List BusEvent) : Prop where
  halted : d.halted = m.halted
  pc : d.pc = m.pc + .ofNat (1 + mode.operandBytes)
  accesses : d.bus.events.accesses =
    m.bus.events.accesses.map (· ++ (m.codeReads (1 + mode.operandBytes) ++ data))

theorem Executed.of_similar {m d d' : Machine} {mode : Mode} {data : List BusEvent}
    {decided : Prop} (executed : m.Executed d' mode data)
    (similar : Cpu.Similar Board.SameButTime decided d d') : m.Executed d mode data :=
  ⟨similar.halted.trans executed.halted, similar.pc.trans executed.pc,
    similar.bus.accesses.trans executed.accesses⟩

/-- A machine with a program at the start of memory, which is clear but for it, and a recording. -/
def loaded (program : List UInt8) : Machine where
  bus := {
    ram := ⟨"BUSRAM", ⟨⟨(program ++ List.replicate 0x10000 0).take 0x10000⟩, by
      rw [List.size_toArray, List.length_take, List.length_append, List.length_replicate]
      omega⟩⟩
    feedback := 0x01
    events := some #[] }
  microcode := .build .nmos .table
  registers := { a := 0x7F, y := 0x20 }

theorem read_loaded {program : List UInt8} {addr : UInt16}
    (beyond : program.length ≤ addr.toNat) : (loaded program).bus.ram.read addr = 0 := by
  rw [Memory.read, dif_pos addr.toNat_lt]
  simp only [loaded, Vector.getElem_mk, List.getElem_toArray, List.getElem_take]
  rw [List.getElem_append_right beyond, List.getElem_replicate]

theorem peek_loaded {program : List UInt8} {addr : UInt16}
    (beyond : program.length ≤ addr.toNat) (plain : addr ≠ feedbackRegister) :
    (loaded program).peek addr = 0 := by
  rw [← read_loaded beyond]
  exact if_neg plain

end Machine

namespace Textbook

def signed (b : UInt8) : Int := if b.toNat < 128 then b.toNat else b.toNat - 256

def overflows (n : Int) : Bool := n < -128 ∨ 127 < n

def judge (p : Flags) (value : UInt8) : Flags :=
  { p with zero := value = 0, negative := 128 ≤ value.toNat }

def compare (p : Flags) (register value : UInt8) : Flags :=
  { p with
    carry := value.toNat ≤ register.toNat
    zero := register = value
    negative := 128 ≤ ((register.toNat : Int) - value.toNat) % 256 }

def readers : List Mnemonic :=
  [.lda, .ldx, .ldy, .and, .ora, .eor, .cmp, .cpx, .cpy, .adc, .sbc, .bit]

/-- What a reading instruction makes of registers and flags, in binary arithmetic. -/
def afterRead (i : Instruction) (r : Registers) (p : Flags) (value : UInt8) : Registers × Flags :=
  match i.mnemonic with
  | .lda => ({ r with a := value }, judge p value)
  | .ldx => ({ r with x := value }, judge p value)
  | .ldy => ({ r with y := value }, judge p value)
  | .and => ({ r with a := r.a &&& value }, judge p (r.a &&& value))
  | .ora => ({ r with a := r.a ||| value }, judge p (r.a ||| value))
  | .eor => ({ r with a := r.a ^^^ value }, judge p (r.a ^^^ value))
  | .adc =>
    let sum := r.a.toNat + value.toNat + p.carry.toNat
    ({ r with a := .ofNat (sum % 256) },
      { judge p (.ofNat (sum % 256)) with
        carry := 256 ≤ sum
        overflow := overflows (signed r.a + signed value + p.carry.toNat) })
  | .sbc =>
    let borrow : Int := 1 - p.carry.toNat
    let difference := r.a.toNat - value.toNat - borrow
    ({ r with a := .ofNat (difference % 256).toNat },
      { judge p (.ofNat (difference % 256).toNat) with
        carry := 0 ≤ difference
        overflow := overflows (signed r.a - signed value - borrow) })
  | .cmp => (r, compare p r.a value)
  | .cpx => (r, compare p r.x value)
  | .cpy => (r, compare p r.y value)
  | .bit =>
    let p := { p with zero := r.a &&& value = 0 }
    if i.mode = .immediate then (r, p)
    else (r, { p with negative := 128 ≤ value.toNat, overflow := value.toNat / 64 % 2 = 1 })
  | _ => (r, p)

def KeepsOthers (r r' : Registers) (p p' : Flags) : Prop :=
  r' = { r with a := r'.a } ∧
    p' = { p with
      negative := p'.negative, overflow := p'.overflow, zero := p'.zero, carry := p'.carry }

def modifiers : List Mnemonic := [.asl, .lsr, .rol, .ror, .inc, .dec, .tsb, .trb]

def modified (mnemonic : Mnemonic) (a : UInt8) (p : Flags) (value : UInt8) : UInt8 × Flags :=
  let shifted (result : Nat) (carry : Bool) : UInt8 × Flags :=
    (.ofNat result, { judge p (.ofNat result) with carry })
  match mnemonic with
  | .asl => shifted (2 * value.toNat % 256) (128 ≤ value.toNat)
  | .rol => shifted ((2 * value.toNat + p.carry.toNat) % 256) (128 ≤ value.toNat)
  | .lsr => shifted (value.toNat / 2) (value.toNat % 2 = 1)
  | .ror => shifted (value.toNat / 2 + 128 * p.carry.toNat) (value.toNat % 2 = 1)
  | .inc =>
    let result := .ofNat ((value.toNat + 1) % 256)
    (result, judge p result)
  | .dec =>
    let result := .ofNat ((value.toNat + 255) % 256)
    (result, judge p result)
  | .tsb => (value ||| a, { p with zero := a &&& value = 0 })
  | .trb => (value &&& ~~~a, { p with zero := a &&& value = 0 })
  | _ => (value, p)

def stores : List Mnemonic := [.sta, .stx, .sty, .stz]

def stored (mnemonic : Mnemonic) (r : Registers) : UInt8 :=
  match mnemonic with
  | .sta => r.a
  | .stx => r.x
  | .sty => r.y
  | _ => 0

end Textbook

end Cycle6502
