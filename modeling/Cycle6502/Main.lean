import Cycle6502.CommandLine.Invocation

/-! The program: it reads files and lines for the command line and the monitor, and prints what
they answer. -/

set_option autoImplicit false

namespace Cycle6502.Program

/-- Reads a file. A path that leads through a file fails before there is anything to open, and
the error names the path; one that leads to a directory fails when it is read. -/
def readFile (name : String) : IO (Except ReadError ByteArray) := do
  if name.contains '\x00' then return .error .nulInName
  try return .ok (← IO.FS.readBinFile name)
  catch
    | .noFileOrDirectory _ _ _ => return .error .notFound
    | .inappropriateType (some _) _ _ => return .error .notADirectory
    | .inappropriateType none _ _ => return .error .isDirectory
    | .permissionDenied _ _ _ => return .error .permissionDenied
    | .invalidArgument _ _ "name too long" => return .error .nameTooLong
    | e => return .error (.other (toString e))

def readFiles (names : List String) : IO Files := do
  return Files.ofList (← names.mapM fun name => do return (name, ← readFile name))

def report (m : Machine) : IO Machine := do
  for record in m.journal.records do
    IO.eprintln record.text
  return { m with journal := m.journal.cleared }

def fail (failure : CommandLine.Failure) : IO UInt32 := do
  IO.eprintln failure.message
  return 1

/-- The number of instructions between two reports of a run. -/
def stride : Nat := 10000

def endless : Nat := 0x4000000000000000

/-- Runs as many instructions as are left, any number without a limit. -/
partial def run (left : Option Nat) (m : Machine) : IO UInt32 := do
  let limit := min stride (left.getD stride)
  let run := m.runUntil (fun _ => false) limit 0
  let m ← report run.cpu
  match run.failure with
  | some failure =>
    IO.print (CommandLine.summary m)
    fail (.instruction failure)
  | none =>
    if left = some limit then
      IO.print (CommandLine.summary m)
      return 0
    Program.run (left.map (· - limit)) m

/-- The bytes of the input's next line behind those read of it; none at the end of the input. -/
partial def nextLine (input : IO.FS.Stream) (line : ByteArray) : IO ByteArray := do
  let byte ← input.read 1
  if byte.isEmpty || byte[0]? = some 0x0A then return line ++ byte
  nextLine input (line ++ byte)

/-- Prompts for commands and does them. -/
partial def converse (m : Monitor) : IO UInt32 := do
  IO.print Monitor.promptText
  (← IO.getStdout).flush
  let line ← nextLine (← IO.getStdin) .empty
  if line.isEmpty then return 0
  match Monitor.lineText? line.data.toList with
  | none => fail (.monitor .notUtf8)
  | some text =>
    let command := Command.ofText (String.ofList text)
    let files ← readFiles command.file?.toList
    let reply := m.execute files endless command
    IO.print reply.output
    let cpu ← report reply.monitor.cpu
    if reply.more then converse { reply.monitor with cpu } else return 0

def converseFrom (m : Machine) : IO UInt32 := do
  let startup ← readFiles [Monitor.startupFile]
  let lines := Monitor.inputLines (Monitor.startupBytes startup)
  let files ← readFiles (Monitor.startupFiles lines)
  let (m, output) := Monitor.startUp files endless lines { cpu := m } ""
  IO.print output
  converse { m with cpu := ← report m.cpu }

def start (o : CommandLine.Options) : IO UInt32 := do
  let files ← readFiles (o.image :: o.symbols.toList)
  match o.machine files with
  | .error failure => fail failure
  | .ok m =>
    let m ← report m
    if o.monitor then converseFrom m else run (o.maxInstructions.map (·.toNat)) m

end Cycle6502.Program

def main (args : List String) : IO UInt32 := do
  match Cycle6502.CommandLine.Options.ofArgs args with
  | .error e =>
    IO.eprintln ("error: " ++ e.message)
    return UInt32.ofNat Cycle6502.CommandLine.usageCode
  | .ok options => Cycle6502.Program.start options
