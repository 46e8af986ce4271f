/-! The status flags, and their written and byte forms. -/

set_option autoImplicit false

namespace Cycle6502

/-- A set of status flags: the register itself, or the flags that an effect names. -/
structure Flags where
  negative : Bool := false
  overflow : Bool := false
  unused : Bool := false
  brk : Bool := false
  decimal : Bool := false
  irqDisable : Bool := false
  zero : Bool := false
  carry : Bool := false
  deriving DecidableEq, Repr, Inhabited

namespace Flags

def toByte (p : Flags) : UInt8 :=
  p.negative.toUInt8 <<< 7 ||| p.overflow.toUInt8 <<< 6 ||| p.unused.toUInt8 <<< 5
    ||| p.brk.toUInt8 <<< 4 ||| p.decimal.toUInt8 <<< 3 ||| p.irqDisable.toUInt8 <<< 2
    ||| p.zero.toUInt8 <<< 1 ||| p.carry.toUInt8

def ofByte (b : UInt8) : Flags where
  negative := b &&& 0x80 != 0
  overflow := b &&& 0x40 != 0
  unused := b &&& 0x20 != 0
  brk := b &&& 0x10 != 0
  decimal := b &&& 0x08 != 0
  irqDisable := b &&& 0x04 != 0
  zero := b &&& 0x02 != 0
  carry := b &&& 0x01 != 0

/-- The flags without the two that exist only in a stacked byte. -/
def live (p : Flags) : Flags := { p with unused := false, brk := false }

def put (p mask : Flags) (on : Bool) : Flags where
  negative := if mask.negative then on else p.negative
  overflow := if mask.overflow then on else p.overflow
  unused := if mask.unused then on else p.unused
  brk := if mask.brk then on else p.brk
  decimal := if mask.decimal then on else p.decimal
  irqDisable := if mask.irqDisable then on else p.irqDisable
  zero := if mask.zero then on else p.zero
  carry := if mask.carry then on else p.carry

def includes (p mask : Flags) : Bool :=
  (!mask.negative || p.negative) && (!mask.overflow || p.overflow)
    && (!mask.unused || p.unused) && (!mask.brk || p.brk)
    && (!mask.decimal || p.decimal) && (!mask.irqDisable || p.irqDisable)
    && (!mask.zero || p.zero) && (!mask.carry || p.carry)

def ofValue (p : Flags) (value : UInt8) : Flags :=
  { p with zero := value == 0, negative := value &&& 0x80 != 0 }

def text (p : Flags) : String :=
  String.ofList [mark 'N' p.negative, mark 'V' p.overflow, mark '-' p.unused, mark 'B' p.brk,
    mark 'D' p.decimal, mark 'I' p.irqDisable, mark 'Z' p.zero, mark 'C' p.carry]
where
  /-- A flag's letter, or a point when it is clear. -/
  mark (letter : Char) (on : Bool) : Char := if on then letter else '.'

theorem ofByte_toByte (p : Flags) : ofByte p.toByte = p := by
  rcases p with ⟨n, v, u, b, d, i, z, c⟩
  cases n <;> cases v <;> cases u <;> cases b <;> cases d <;> cases i <;> cases z <;> cases c <;>
    rfl

end Flags

end Cycle6502
