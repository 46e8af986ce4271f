import Cycle6502.Isa.Flags

/-! Effects: the primitive things that an instruction does to registers, flags, the stack and its
operand, whatever the addressing mode. -/

set_option autoImplicit false

namespace Cycle6502

inductive Register where
  | a
  | x
  | y
  | s
  deriving DecidableEq, Repr, Inhabited

inductive Effect where
  | setFlag (mask : Flags) (on : Bool)
  /-- The operand goes to a register and decides zero and negative. -/
  | load (register : Register)
  /-- A register becomes the operand. -/
  | store (register : Register)
  | storeAAndX
  | storeZero
  | incrementOperand
  | decrementOperand
  | increment (register : Register)
  | decrement (register : Register)
  | addWithCarry
  | subtractWithCarry
  | bitTest
  /-- The bit test of an immediate operand, which decides zero only. -/
  | bitTestImmediate
  /-- Moves the operand by one bit; a logical shift moves a clear bit in, not the carry. -/
  | rotate (left logical : Bool)
  | orOperand
  | andOperand
  | exclusiveOrOperand
  | compare (register : Register)
  | transfer (source target : Register)
  /-- A branch taken when all flags of the mask being set is the same as `expected`. -/
  | branch (mask : Flags) (expected : Bool)
  | branchAlways
  | push (register : Register)
  | pushFlags
  | pull (register : Register)
  | pullFlags
  | returnFromSubroutine
  | returnFromInterrupt
  | jumpToSubroutine
  | jump
  | enterBreak
  | andAccumulatorIntoOperand
  | operandToAccumulator
  /-- Writes the operand to the effective address before indexing. -/
  | writeBackToBase
  | orIntoAccumulator
  | testAndSet
  | testAndReset
  deriving DecidableEq, Repr, Inhabited

end Cycle6502
