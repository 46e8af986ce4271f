import Cycle6502.Memory
import Cycle6502.Text.Hex

/-! Records of Intel HEX: a colon, then pairs of hexadecimal digits for the count of data bytes,
the address, the type, the data, and a checksum that makes the sum of all pairs zero. -/

set_option autoImplicit false

namespace Cycle6502

structure HexRecord where
  addr : UInt16
  kind : UInt8
  data : List UInt8
  deriving DecidableEq, Repr, Inhabited

namespace HexRecord

inductive Error where
  | notARecord
  /-- The two characters at a column, counted from one, are not a pair of digits. -/
  | badDigits (column : Nat)
  | wrongLength (count : UInt8)
  | wrongChecksum (found computed : UInt8)
  deriving DecidableEq, Repr

def Error.message : Error → String
  | .notARecord => "invalid Intel HEX record"
  | .badDigits column => "bad hex digits at column " ++ toString column
  | .wrongLength count =>
    "record length does not match byte count " ++ toString count.toNat
  | .wrongChecksum found computed =>
    "checksum mismatch: expected " ++ Text.hexByte found ++ ", computed "
      ++ Text.hexByte computed

/-- The byte of two characters. A pair is a numeral, and may have a sign for its first digit. -/
def pair? (first second : UInt8) : Option UInt8 :=
  (Text.readNumber? 16 0x100 [Char.ofUInt8 first, Char.ofUInt8 second]).map UInt8.ofNat

def pairs (column : Nat) : List UInt8 → Except Error (List UInt8)
  | first :: second :: rest =>
    match pair? first second with
    | none => .error (.badDigits column)
    | some byte => (pairs (column + 2) rest).map (byte :: ·)
  | [_] => .error (.badDigits column)
  | [] => .ok []

def sum (bytes : List UInt8) : UInt8 := bytes.foldl (· + ·) 0

/-- The record of its bytes, the checksum among them. -/
def ofBytes : List UInt8 → Except Error HexRecord
  | count :: high :: low :: kind :: rest =>
    let data := rest.dropLast
    let checksum := rest.getLast?.getD 0
    let computed := -(sum (count :: high :: low :: kind :: data))
    if computed = checksum then .ok ⟨wordOf low high, kind, data⟩
    else .error (.wrongChecksum checksum computed)
  | _ => .error .notARecord

/-- Reads a line without blanks around it, given as its UTF-8 bytes. -/
def parse (line : List UInt8) : Except Error HexRecord :=
  match line with
  | 0x3A :: first :: second :: rest =>
    if line.length < 11 then .error .notARecord
    else match pair? first second with
      | none => .error (.badDigits 2)
      | some count =>
        if line.length = 11 + 2 * count.toNat then
          match pairs 2 (first :: second :: rest) with
          | .error e => .error e
          | .ok bytes => ofBytes bytes
        else .error (.wrongLength count)
  | _ => .error .notARecord

end HexRecord

end Cycle6502
