import Cycle6502.CommandLine.Options
import Cycle6502.Monitor.Session

/-! Invocations: the program from its arguments, files and input to its output and exit code. -/

set_option autoImplicit false

namespace Cycle6502.CommandLine

inductive Failure where
  | image (path : String) (e : LoadError)
  | symbols (path : String) (e : ReadError)
  | instruction (e : InvalidOpcode)
  | monitor (e : ReadError)
  deriving DecidableEq, Repr

def causedBy (context cause : String) : String :=
  "Error: " ++ context ++ "\n\nCaused by:\n    " ++ cause

def Failure.message : Failure → String
  | .image path e => causedBy ("failed to load image " ++ path) e.message
  | .symbols path e => causedBy ("failed to read symbols from " ++ path) e.message
  | .instruction e => "Error: " ++ e.message
  | .monitor e => causedBy "monitor I/O failed" e.message

/-- What is recorded: failures of the machine always, everything when tracing. -/
def Options.journal (o : Options) : Journal :=
  { threshold := some (if o.trace then .trace else .error) }

def Options.loadImage (o : Options) (files : Files) : Except Failure Image :=
  (if o.intelHex then files.hexImage o.image else files.image o.image o.load).mapError
    (.image o.image)

def Options.loadSymbols (o : Options) (files : Files) : Except Failure Symbols :=
  match o.symbols with
  | none => .ok {}
  | some path => ((files.text path).mapError (.symbols path)).map fun text =>
    Symbols.load {} (Symbols.fileText text)

def Options.machine (o : Options) (files : Files) : Except Failure Machine := do
  let image ← o.loadImage files
  let symbols ← o.loadSymbols files
  let microcode := Microcode.build o.cpu o.dispatch
  let journal := (o.journal.note .debug fun _ => microcode.report).append image.report
  let bus := Board.new.load image.base image.data
  return Cpu.reset { bus, microcode, symbols, entryOverride := o.entry, journal }

def summary (c : Machine) : String :=
  "PC=" ++ Text.hexWord c.pc ++ " A=" ++ Text.hexByte c.registers.a
    ++ " X=" ++ Text.hexByte c.registers.x ++ " Y=" ++ Text.hexByte c.registers.y
    ++ " SP=" ++ Text.hexByte c.registers.sp ++ " P=" ++ c.flags.text
    ++ " cycles=" ++ toString c.clock.toNat ++ "\n"

structure Outcome where
  output : String := ""
  failure : Option Failure := none
  records : Array Record := #[]

def headless (limit : Nat) (c : Machine) : Outcome :=
  let run := c.runUntil (fun _ => false) limit 0
  { output := summary run.cpu
    failure := run.failure.map .instruction
    records := run.cpu.journal.records }

def monitored (files : Files) (patience : Nat) (input : ByteArray) (c : Machine) : Outcome :=
  let ended := Monitor.session files patience { cpu := c } input
  { output := ended.output
    failure := ended.failure.map .monitor
    records := ended.monitor.cpu.journal.records }

/-- The number of instructions that a run may take; `patience` of them if none is given. -/
def Options.limit (o : Options) (patience : Nat) : Nat :=
  match o.maxInstructions with
  | some count => count.toNat
  | none => patience

def Options.run (o : Options) (files : Files) (patience : Nat) (input : ByteArray) : Outcome :=
  match o.machine files with
  | .error failure => { failure := some failure }
  | .ok c => if o.monitor then monitored files patience input c else headless (o.limit patience) c

def usageCode : Nat := 2

def Outcome.code (r : Outcome) : Nat := if r.failure.isSome then 1 else 0

end Cycle6502.CommandLine
