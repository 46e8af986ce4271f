import Cycle6502.Isa.Effect

/-! Micro-operations: what an instruction does within one cycle. -/

set_option autoImplicit false

namespace Cycle6502

inductive Index where
  | x
  | y
  deriving DecidableEq, Repr, Inhabited

inductive Site where
  | effective
  /-- The effective address plus the index. -/
  | carried
  /-- The indexed address before the carry reaches its high byte. -/
  | nonCarried
  | pointer
  | pointerNext
  /-- The byte behind the effective address, in the same page. -/
  | effectiveNextInPage
  | effectiveNext
  deriving DecidableEq, Repr, Inhabited

inductive Latch where
  | operand
  | low
  | high
  deriving DecidableEq, Repr, Inhabited

inductive MicroOp where
  | fetchZeroPage (index : Option Index)
  | fetchAbsolute
  | indexAbsolute (index : Index)
  | fetchPointer (index : Option Index)
  /-- Makes the effective address of the low and high latches. -/
  | joinPointer
  | fetchImmediate
  | loadAccumulator
  | storeAccumulator
  | read (site : Site) (into : Option Latch)
  | write (site : Site)
  | zeroPageRead (site : Site) (into : Latch)
  | zeroPageWrite (site : Site)
  /-- One more read, and one more cycle, when the index carried into the high byte. -/
  | pageCrossProbe
  | checkInterrupt
  | effect (e : Effect)
  deriving DecidableEq, Repr, Inhabited

end Cycle6502
