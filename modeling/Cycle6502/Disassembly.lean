import Cycle6502.Isa.Decode
import Cycle6502.Memory
import Cycle6502.Text.Column
import Cycle6502.Text.Hex

/-! Disassembly: an instruction in memory as a line of text. -/

set_option autoImplicit false

namespace Cycle6502.Disassembly

/-- The operand of an instruction at `addr`, from the two bytes behind its opcode. -/
def operand (addr : UInt16) (mode : Mode) (first second : UInt8) : String :=
  let byte := "$" ++ Text.hexByte first
  let word := "$" ++ Text.hexWord (wordOf first second)
  match mode with
  | .implied => ""
  | .accumulator => "A"
  | .immediate => "#" ++ byte
  | .zeroPage => byte
  | .zeroPageX => byte ++ ",X"
  | .zeroPageY => byte ++ ",Y"
  | .absolute => word
  | .absoluteX => word ++ ",X"
  | .absoluteY => word ++ ",Y"
  | .indirect => "(" ++ word ++ ")"
  | .indexedIndirect => "(" ++ byte ++ ",X)"
  | .indirectIndexed => "(" ++ byte ++ "),Y"
  | .relative => "$" ++ Text.hexWord (branchTarget (addr + 2) first)

def length (v : Variant) (peek : UInt16 → UInt8) (addr : UInt16) : UInt16 :=
  match decode v (peek addr) with
  | some i => 1 + UInt16.ofNat i.mode.operandBytes
  | none => 1

/-- The line of the instruction at an address: the address, the bytes, and the text. -/
def line (v : Variant) (peek : UInt16 → UInt8) (addr : UInt16) : String :=
  let opcode := peek addr
  let (name, mode) := match decode v opcode with
    | some i => (i.mnemonic.name, i.mode)
    | none => ("???", .implied)
  let first := peek (addr + 1)
  let second := peek (addr + 2)
  let bytes := [opcode, first, second].take (1 + mode.operandBytes)
  "$" ++ Text.hexWord addr ++ "  " ++ Text.left 8 (" ".intercalate (bytes.map Text.hexByte))
    ++ "  -  " ++ Text.left 4 name ++ " " ++ Text.left 8 (operand addr mode first second)

end Cycle6502.Disassembly
