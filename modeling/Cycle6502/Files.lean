import Cycle6502.Image.Basic
import Cycle6502.Symbols

/-! Files that the program reads, as a function from names to contents. -/

set_option autoImplicit false

namespace Cycle6502

inductive ReadError where
  | notFound
  | isDirectory
  | notADirectory
  | permissionDenied
  | nameTooLong
  | nulInName
  | notUtf8
  /-- Any other reason, in the system's words. -/
  | other (text : String)
  deriving DecidableEq, Repr

def ReadError.message : ReadError → String
  | .notFound => "No such file or directory (os error 2)"
  | .isDirectory => "Is a directory (os error 21)"
  | .notADirectory => "Not a directory (os error 20)"
  | .permissionDenied => "Permission denied (os error 13)"
  | .nameTooLong => "File name too long (os error 36)"
  | .nulInName => "file name contained an unexpected NUL byte"
  | .notUtf8 => "stream did not contain valid UTF-8"
  | .other text => text

def ReadError.kind : ReadError → ErrorKind
  | .notFound => .notFound
  | .isDirectory => .isDirectory
  | .notADirectory => .notADirectory
  | .permissionDenied => .permissionDenied
  | .nameTooLong => .invalidName
  | .nulInName => .invalidInput
  | .notUtf8 => .invalidData
  | .other _ => .other

inductive LoadError where
  | unreadable (e : ReadError)
  | malformed (e : Image.Error)
  deriving DecidableEq, Repr

def LoadError.message : LoadError → String
  | .unreadable e => e.message
  | .malformed e => e.message

def LoadError.kind : LoadError → ErrorKind
  | .unreadable e => e.kind
  | .malformed e => e.kind

abbrev Files := String → Except ReadError ByteArray

namespace Files

/-- The files that have been read so far; there are no others. -/
def ofList (read : List (String × Except ReadError ByteArray)) : Files := fun name =>
  (read.lookup name).getD (.error .notFound)

def text (files : Files) (name : String) : Except ReadError String := do
  match String.fromUTF8? (← files name) with
  | some text => .ok text
  | none => .error .notUtf8

def image (files : Files) (name : String) (base : UInt16) : Except LoadError Image := do
  let bytes ← (files name).mapError .unreadable
  (Image.ofBytes bytes.data.toList base).mapError .malformed

def hexImage (files : Files) (name : String) : Except LoadError Image := do
  let text ← (files.text name).mapError .unreadable
  (Image.ofHexText text).mapError .malformed

end Files

end Cycle6502
