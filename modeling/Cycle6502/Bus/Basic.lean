import Cycle6502.Journal

/-! The bus: memory, clock and interrupt lines as the processor sees them. Reads and writes take
no time of their own; the processor advances the clock. -/

set_option autoImplicit false

namespace Cycle6502

class Bus (β : Type) where
  read : β → UInt16 → UInt8 × β
  write : β → UInt16 → UInt8 → β
  /-- Reads zero page or the stack, where there are no devices. -/
  zeroPageRead : β → UInt16 → UInt8 × β := read
  /-- Writes to zero page or the stack. -/
  zeroPageWrite : β → UInt16 → UInt8 → β := write
  /-- What a read would return, without its side effects. -/
  peek : β → UInt16 → UInt8
  /-- Whether an access has to wait for the slow clock. -/
  isSlow : β → UInt16 → Bool := fun _ _ => false
  advance : β → UInt32 → β
  clock : β → UInt64
  irqAsserted : β → Bool := fun _ => false
  nmiAsserted : β → Bool := fun _ => false
  acknowledgeNmi : β → β := id
  /-- What is reported of a write that is about to happen. -/
  writeReport : β → UInt16 → UInt8 → List Record := fun _ _ _ => []

inductive BusEvent where
  | read (addr : UInt16) (value : UInt8)
  | write (addr : UInt16) (value : UInt8)
  | zeroPageRead (addr : UInt16) (value : UInt8)
  | zeroPageWrite (addr : UInt16) (value : UInt8)
  | wait (cycles : UInt32)
  deriving DecidableEq, Repr, Inhabited

/-- The events recorded so far, if there is a recording. -/
abbrev Recording := Option (Array BusEvent)

def Recording.add (r : Recording) (event : BusEvent) : Recording :=
  match r with
  | none => none
  | some events => some (events.push event)

end Cycle6502
