import Cycle6502.Micro.Op

/-! The latches that carry addresses and bytes between the micro-operations of an instruction. -/

set_option autoImplicit false

namespace Cycle6502

structure Latches where
  operand : UInt8 := 0
  addr : UInt16 := 0
  carried : UInt16 := 0
  nonCarried : UInt16 := 0
  pointer : UInt8 := 0
  low : UInt8 := 0
  high : UInt8 := 0
  deriving DecidableEq, Repr, Inhabited

namespace Latches

def resolve (l : Latches) : Site → UInt16
  | .effective => l.addr
  | .carried => l.carried
  | .nonCarried => l.nonCarried
  | .pointer => l.pointer.toUInt16
  | .pointerNext => (l.pointer + 1).toUInt16
  | .effectiveNextInPage => (l.addr &&& 0xFF00) ||| ((l.addr + 1) &&& 0x00FF)
  | .effectiveNext => l.addr + 1

def store (l : Latches) (latch : Latch) (value : UInt8) : Latches :=
  match latch with
  | .operand => { l with operand := value }
  | .low => { l with low := value }
  | .high => { l with high := value }

/-- Adds an index to the effective address, with and without the carry into the high byte. -/
def index (l : Latches) (offset : UInt8) : Latches :=
  let carried := l.addr + offset.toUInt16
  { l with carried := carried, nonCarried := (l.addr &&& 0xFF00) ||| (carried &&& 0x00FF) }

end Latches

end Cycle6502
