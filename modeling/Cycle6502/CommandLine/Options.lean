import Cycle6502.Microcode.Store
import Cycle6502.Text.Hex

/-! The arguments of the command line. -/

set_option autoImplicit false

namespace Cycle6502.CommandLine

/-- What an argument, or an option with its value, asks for. -/
inductive Setting where
  | image (path : String)
  | load (addr : UInt16)
  | entry (addr : UInt16)
  | intelHex
  | cpu (v : Variant)
  | dispatch (arrangement : Arrangement)
  | maxInstructions (count : UInt64)
  | trace
  | monitor
  | symbols (path : String)
  deriving DecidableEq, Repr

/-- The name under which a setting is given, which it may be only once. -/
def Setting.name : Setting → String
  | .image _ => "<IMAGE>"
  | .load _ => "--load"
  | .entry _ => "--entry"
  | .intelHex => "--intel-hex"
  | .cpu _ => "--cpu"
  | .dispatch _ => "--dispatch"
  | .maxInstructions _ => "--max-instructions"
  | .trace => "--trace"
  | .monitor => "--monitor"
  | .symbols _ => "--symbols"

inductive UsageError where
  | unknownOption (text : String)
  | missingValue (option : String)
  | unexpectedValue (option value : String)
  | invalidValue (option value : String)
  | repeated (name : String)
  | missingImage
  deriving DecidableEq, Repr

def UsageError.message : UsageError → String
  | .unknownOption text => "unknown option '" ++ text ++ "'"
  | .missingValue option => "option '" ++ option ++ "' needs a value"
  | .unexpectedValue option value =>
    "option '" ++ option ++ "' takes no value, and was given '" ++ value ++ "'"
  | .invalidValue option value => "'" ++ value ++ "' is no value of '" ++ option ++ "'"
  | .repeated name => "'" ++ name ++ "' is given more than once"
  | .missingImage => "no image is given"

def path? (text : String) : Option String := if text.isEmpty then none else some text

def variant? : String → Option Variant
  | "nmos" => some .nmos
  | "cmos" => some .cmos
  | _ => none

def arrangement? : String → Option Arrangement
  | "table" => some .table
  | "split" => some .split
  | _ => none

def flag? : String → Option Setting
  | "--intel-hex" => some .intelHex
  | "--trace" => some .trace
  | "--monitor" => some .monitor
  | _ => none

def valued? : String → Option (String → Option Setting)
  | "--load" => some fun value => (Text.readAddress? value).map .load
  | "--entry" => some fun value => (Text.readAddress? value).map .entry
  | "--cpu" => some fun value => (variant? value).map .cpu
  | "--dispatch" => some fun value => (arrangement? value).map .dispatch
  | "--max-instructions" => some fun value => (Text.readLongCount? value).map .maxInstructions
  | "--symbols" => some fun value => (path? value).map .symbols
  | _ => none

/-- Whether an argument is an option rather than a value; a lone dash is a value. -/
def isOption (arg : String) : Bool :=
  match arg.toList with
  | ['-'] => false
  | '-' :: _ => true
  | _ => false

def splitOption (arg : String) : String × Option String :=
  let name := arg.toList.takeWhile (· != '=')
  match arg.toList.drop name.length with
  | _ :: value => (String.ofList name, some (String.ofList value))
  | [] => (arg, none)

def readValue (option value : String) (read : String → Option Setting) :
    Except UsageError Setting :=
  match read value with
  | some setting => .ok setting
  | none => .error (.invalidValue option value)

def positional (arg : String) : Except UsageError Setting :=
  readValue "<IMAGE>" arg fun path => (path? path).map .image

/-- The settings of arguments, in order. Behind a double dash there are no options. -/
def settings : List String → Except UsageError (List Setting)
  | [] => .ok []
  | "--" :: rest => rest.mapM positional
  | arg :: rest => do
    if isOption arg then
      let (name, attached) := splitOption arg
      match flag? name, valued? name, attached with
      | some setting, _, none => return setting :: (← settings rest)
      | some _, _, some value => throw (.unexpectedValue name value)
      | none, some read, some value => return (← readValue name value read) :: (← settings rest)
      | none, some read, none =>
        match rest with
        | value :: rest =>
          if isOption value then throw (.missingValue name)
          return (← readValue name value read) :: (← settings rest)
        | [] => throw (.missingValue name)
      | none, none, _ => throw (.unknownOption name)
    else return (← positional arg) :: (← settings rest)

def repeated? : List Setting → Option String
  | [] => none
  | s :: rest => if rest.any (·.name == s.name) then some s.name else repeated? rest

structure Options where
  image : String
  load : UInt16 := 0x1900
  entry : Option UInt16 := none
  intelHex : Bool := false
  cpu : Variant := .nmos
  dispatch : Arrangement := .table
  maxInstructions : Option UInt64 := none
  trace : Bool := false
  monitor : Bool := false
  symbols : Option String := none
  deriving DecidableEq, Repr

def Options.apply (o : Options) : Setting → Options
  | .image path => { o with image := path }
  | .load addr => { o with load := addr }
  | .entry addr => { o with entry := some addr }
  | .intelHex => { o with intelHex := true }
  | .cpu v => { o with cpu := v }
  | .dispatch arrangement => { o with dispatch := arrangement }
  | .maxInstructions count => { o with maxInstructions := some count }
  | .trace => { o with trace := true }
  | .monitor => { o with monitor := true }
  | .symbols path => { o with symbols := some path }

/-- The options of arguments. Each may be given once; the image must be. -/
def Options.ofArgs (args : List String) : Except UsageError Options := do
  let settings ← settings args
  if let some name := repeated? settings then throw (.repeated name)
  if settings.any fun s => s.name == "<IMAGE>" then
    return settings.foldl Options.apply { image := "" }
  else throw .missingImage

end Cycle6502.CommandLine
