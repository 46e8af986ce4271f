import Cycle6502.Text.Blank
import Cycle6502.Text.Hex
import Std.Data.HashMap

/-! Symbols: names of addresses, read from text and shown beside a disassembly. -/

set_option autoImplicit false

namespace Cycle6502

structure Symbols where
  names : Std.HashMap UInt16 String := {}

namespace Symbols

instance : Inhabited Symbols := ⟨{}⟩

def get? (s : Symbols) (addr : UInt16) : Option String := s.names[addr]?

def insert (s : Symbols) (addr : UInt16) (name : String) : Symbols :=
  ⟨s.names.insert addr name⟩

def size (s : Symbols) : Nat := s.names.size

/-- A line of a symbol text: an address and a name. Other words may follow; any other line has no
meaning. -/
def readLine? (line : List Char) : Option (UInt16 × String) :=
  match Text.wordsBy Text.isBlank line with
  | addr :: name :: _ =>
    (Text.readAddress? (String.ofList addr)).map (·, String.ofList name)
  | _ => none

def definitions (text : String) : List (UInt16 × String) :=
  (Text.lines '\n' text.toList).filterMap readLine?

/-- Adds the symbols of a text; a later definition of an address replaces an earlier one. -/
def load (s : Symbols) (text : String) : Symbols :=
  (definitions text).foldl (fun s (addr, name) => s.insert addr name) s

/-- The text of a symbol file, whose lines may end in a carriage return and a line feed. -/
def fileText (contents : String) : String :=
  String.ofList (contents.toList.filter (· != '\r'))

def upperDigit? (c : Char) : Option Nat :=
  if c.isLower then none else Text.digitValue? c

def fourDigits? (a b c d : Char) : Option UInt16 := do
  let a ← upperDigit? a
  let b ← upperDigit? b
  let c ← upperDigit? c
  let d ← upperDigit? d
  some (UInt16.ofNat (16 * (16 * (16 * a + b) + c) + d))

/-- The addresses in a text: each a dollar sign and four upper-case digits, from the left and
without overlap. -/
def addressesIn : List Char → List UInt16
  | '$' :: a :: b :: c :: d :: rest =>
    match fourDigits? a b c d with
    | some addr => addr :: addressesIn rest
    | none => addressesIn (a :: b :: c :: d :: rest)
  | _ :: rest => addressesIn rest
  | [] => []

/-- The annotation of a line of disassembly: the name of the first address with one, the address
that opens the line apart. -/
def annotation (s : Symbols) (line : String) : String :=
  match ((addressesIn line.toList).drop 1).findSome? s.get? with
  | some name => " ; " ++ name
  | none => ""

end Symbols

end Cycle6502
