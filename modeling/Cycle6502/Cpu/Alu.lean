/-! Arithmetic of the accumulator: sums and differences with carry, binary or decimal, and shifts
by one bit. -/

set_option autoImplicit false

namespace Cycle6502.Alu

/-- A result with its carry; the carry of a difference is clear when there was a borrow. -/
structure Result where
  value : UInt8
  carry : Bool
  overflow : Bool
  deriving DecidableEq, Repr

def signBit (b : UInt8) : Bool := b &&& 0x80 != 0

def addBinary (a b : UInt8) (carry : Bool) : UInt8 × Bool :=
  let sum := a.toNat + b.toNat + carry.toNat
  (UInt8.ofNat sum, 0xFF < sum)

/-- The sum of two bytes of two decimal digits. A digit above nine is passed on as the processor
does it: the low one is brought down by ten once, and counts modulo sixteen. -/
def addDecimal (a b : UInt8) (carry : Bool) : UInt8 × Bool :=
  let low := a.toNat % 16 + b.toNat % 16 + carry.toNat
  let high := a.toNat / 16 + b.toNat / 16
  let (low, high) := if 9 < low then (low - 10, high + 1) else (low, high)
  let carry := decide (9 < high)
  let high := if carry then high - 10 else high
  (UInt8.ofNat (16 * (high % 16) + low % 16), carry)

/-- Adds with carry. Overflow goes by the signs of the operands and of the result as it is. -/
def add (a b : UInt8) (carry decimal : Bool) : Result :=
  let (value, carry) := if decimal then addDecimal a b carry else addBinary a b carry
  ⟨value, carry, signBit a == signBit b && signBit a != signBit value⟩

def subtractBinary (a b : UInt8) (carry : Bool) : UInt8 × Bool :=
  let sum := a.toNat + (255 - b.toNat) + carry.toNat
  (UInt8.ofNat sum, 0x100 ≤ sum)

/-- The difference of two bytes of two decimal digits. The carry is clear after a borrow of the
binary difference, too. -/
def subtractDecimal (a b : UInt8) (carry : Bool) : UInt8 × Bool :=
  let low := (a.toNat % 16 : Int) - b.toNat % 16 - (1 - carry.toNat)
  let high := (a.toNat / 16 : Int) - b.toNat / 16
  let (low, high) := if low < 0 then ((low - 6) % 16, high - 1) else (low, high)
  let adjusted := decide (high < 0 ∨ 9 < high)
  let high := if adjusted then (high - 6) % 16 else high
  (UInt8.ofNat (16 * high + low).toNat, (subtractBinary a b carry).2 && !adjusted)

def subtract (a b : UInt8) (carry decimal : Bool) : Result :=
  let (value, carry) := if decimal then subtractDecimal a b carry else subtractBinary a b carry
  ⟨value, carry, signBit a != signBit b && signBit a != signBit value⟩

/-- Moves a byte by one bit. The carry moves in, unless the shift is logical; the bit that leaves
is the new carry. -/
def rotate (value : UInt8) (carry left logical : Bool) : UInt8 × Bool :=
  let bit := (carry && !logical).toUInt8
  if left then (value <<< 1 ||| bit, value &&& 0x80 != 0)
  else (value >>> 1 ||| bit <<< 7, value &&& 0x01 != 0)

end Cycle6502.Alu
