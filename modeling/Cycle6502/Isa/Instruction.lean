import Cycle6502.Isa.Mnemonic

/-! Instructions as an opcode names them: what to do, and how the operand is addressed. -/

set_option autoImplicit false

namespace Cycle6502

inductive Mode where
  | implied
  | accumulator
  | immediate
  | zeroPage
  | zeroPageX
  | zeroPageY
  | absolute
  | absoluteX
  | absoluteY
  /-- The operand names a pointer in memory, for jumps only. -/
  | indirect
  /-- The operand names a zero-page pointer chosen by X. -/
  | indexedIndirect
  /-- The operand names a zero-page pointer, Y added to where it points. -/
  | indirectIndexed
  | relative
  deriving DecidableEq, Repr, Inhabited

namespace Mode

def name : Mode → String
  | .implied => "Implied"
  | .accumulator => "Accumulator"
  | .immediate => "Immediate"
  | .zeroPage => "ZeroPage"
  | .zeroPageX => "ZeroPageX"
  | .zeroPageY => "ZeroPageY"
  | .absolute => "Absolute"
  | .absoluteX => "AbsoluteX"
  | .absoluteY => "AbsoluteY"
  | .indirect => "Indirect"
  | .indexedIndirect => "IndexedIndirect"
  | .indirectIndexed => "IndirectIndexed"
  | .relative => "Relative"

def shorthand : Mode → String
  | .implied => ""
  | .accumulator => "A"
  | .immediate => "imm"
  | .zeroPage => "zp"
  | .zeroPageX => "zp,x"
  | .zeroPageY => "zp,y"
  | .absolute => "abs"
  | .absoluteX => "abs,x"
  | .absoluteY => "abs,y"
  | .indirect => "()"
  | .indexedIndirect => "(,x)"
  | .indirectIndexed => "(),y"
  | .relative => "branch"

def operandBytes : Mode → Nat
  | .implied | .accumulator => 0
  | .immediate | .zeroPage | .zeroPageX | .zeroPageY | .relative | .indexedIndirect
  | .indirectIndexed => 1
  | .absolute | .absoluteX | .absoluteY | .indirect => 2

end Mode

structure Instruction where
  mnemonic : Mnemonic
  mode : Mode
  deriving DecidableEq, Repr, Inhabited

/-- The short text: the mnemonic, and the mode's shorthand unless the operand is implied. -/
def Instruction.text (i : Instruction) : String :=
  match i.mode with
  | .implied => i.mnemonic.name
  | mode => i.mnemonic.name ++ " " ++ mode.shorthand

end Cycle6502
