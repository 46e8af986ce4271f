import Cycle6502.Text.Hex

/-! Hexadecimal dumps: sixteen bytes a row, with the address of the first and the characters of
all. -/

set_option autoImplicit false

namespace Cycle6502.Text

/-- A byte's character: printable ASCII as it is, a point for anything else. -/
def dumpChar (b : UInt8) : Char :=
  if 0x20 ≤ b ∧ b ≤ 0x7E then Char.ofNat b.toNat else '.'

/-- A row of at most sixteen bytes; missing ones leave their columns blank. -/
def dumpRow (address : Nat) (bytes : List UInt8) : String :=
  hexAtLeast 4 address ++ ": "
    ++ String.join (bytes.map fun b => hexByte b ++ " ")
    ++ String.join (List.replicate (16 - bytes.length) "   ")
    ++ " | " ++ String.ofList (bytes.map dumpChar) ++ "\n"

def dumpRows (address : Nat) (bytes : List UInt8) : List String :=
  let bytes := bytes.toArray
  (List.range ((bytes.size + 15) / 16)).map fun row =>
    dumpRow (address + 16 * row) (bytes.extract (16 * row) (16 * row + 16)).toList

/-- The dump of at most `limit` bytes of `data`, whose first is at `start`. -/
def dump (data : List UInt8) (start : Nat) (limit : Option Nat) : String :=
  String.join (dumpRows start (match limit with
    | none => data
    | some n => data.take n))

end Cycle6502.Text
