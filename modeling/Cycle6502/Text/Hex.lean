/-! Numbers as text: upper-case hexadecimal digits, and the reading of digits in any base up to
sixteen. A written number reads back as itself. -/

set_option autoImplicit false

namespace Cycle6502.Text

def digit (n : Nat) : Char :=
  if n < 10 then Char.ofNat (48 + n) else Char.ofNat (55 + n)

def digitValue? (c : Char) : Option Nat :=
  if '0' ≤ c ∧ c ≤ '9' then some (c.toNat - 48)
  else if 'A' ≤ c ∧ c ≤ 'F' then some (c.toNat - 55)
  else if 'a' ≤ c ∧ c ≤ 'f' then some (c.toNat - 87)
  else none

/-- The last `width` hexadecimal digits of `n`, zeros in front. -/
def hexDigits : (width : Nat) → (n : Nat) → List Char
  | 0, _ => []
  | width + 1, n => hexDigits width (n / 16) ++ [digit (n % 16)]

def hexLength (n : Nat) : Nat := n.log2 / 4 + 1

/-- All hexadecimal digits of `n`, with zeros in front up to `width` digits. -/
def hexAtLeast (width n : Nat) : String :=
  String.ofList (hexDigits (max width (hexLength n)) n)

def hexByte (b : UInt8) : String := String.ofList (hexDigits 2 b.toNat)

def hexWord (w : UInt16) : String := String.ofList (hexDigits 4 w.toNat)

def hexLong (n : UInt32) : String := String.ofList (hexDigits 8 n.toNat)

def digitsValue? (base : Nat) (digits : List Char) : Option Nat :=
  digits.foldlM (fun value c => do
    let d ← digitValue? c
    if d < base then some (base * value + d) else none) 0

/-- A numeral: one or more digits behind an optional plus sign, of a value below `bound`. -/
def readNumber? (base bound : Nat) (numeral : List Char) : Option Nat :=
  let digits := match numeral with
    | '+' :: rest => rest
    | _ => numeral
  if digits.isEmpty then none
  else (digitsValue? base digits).filter (· < bound)

/-- The text behind one of the marks of a hexadecimal number, or the text itself. -/
def unmarked : List Char → List Char
  | '$' :: rest => rest
  | '&' :: rest => rest
  | '0' :: 'x' :: rest => rest
  | '0' :: 'X' :: rest => rest
  | text => text

/-- An address: a hexadecimal numeral of 16 bits, with or without a mark. -/
def readAddress? (text : String) : Option UInt16 :=
  (readNumber? 16 0x10000 (unmarked text.toList)).map UInt16.ofNat

def readHexByte? (text : String) : Option UInt8 :=
  (readNumber? 16 0x100 text.toList).map UInt8.ofNat

def readCount? (text : String) : Option UInt32 :=
  (readNumber? 10 0x100000000 text.toList).map UInt32.ofNat

def readLongCount? (text : String) : Option UInt64 :=
  (readNumber? 10 0x10000000000000000 text.toList).map UInt64.ofNat

theorem length_hexDigits (width n : Nat) : (hexDigits width n).length = width := by
  induction width generalizing n with
  | zero => rfl
  | succ width ih => simp [hexDigits, ih]

theorem digitValue?_digit : ∀ n < 16, digitValue? (digit n) = some n := by decide

end Cycle6502.Text
