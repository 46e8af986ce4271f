import Cycle6502.Monitor.Basic

/-! Sessions: a start-up file of commands, then commands from the input with a prompt for each. -/

set_option autoImplicit false

namespace Cycle6502.Monitor

def promptText : String := "monitor> "

def startupFile : String := ".monitorrc"

def inputLines (bytes : ByteArray) : List (List UInt8) := Text.lines 0x0A bytes.data.toList

def lineText? (line : List UInt8) : Option (List Char) :=
  (String.fromUTF8? ⟨line.toArray⟩).map fun text => Text.trim text.toList

def startupFiles (lines : List (List UInt8)) : List String :=
  (lines.filterMap lineText?).filterMap fun text => (Command.ofText (String.ofList text)).file?

/-- Does the commands of a start-up file. Empty lines and comments are skipped, as are lines that
are not text; a command that ends the session ends the file only. -/
def startUp (files : Files) (patience : Nat) : List (List UInt8) → Monitor → (out : String) →
    Monitor × String
  | [], m, out => (m, out)
  | line :: rest, m, out =>
    match lineText? line with
    | none | some [] | some ('#' :: _) => startUp files patience rest m out
    | some text =>
      let reply := m.execute files patience (.ofText (String.ofList text))
      let out := out ++ reply.output
      if reply.more then startUp files patience rest reply.monitor out else (reply.monitor, out)

/-- How a session ended; it fails when a line of its input is not text. -/
structure Ended where
  monitor : Monitor
  output : String
  failure : Option ReadError := none

def converse (files : Files) (patience : Nat) : List (List UInt8) → Monitor → (out : String) →
    Ended
  | [], m, out => { monitor := m, output := out ++ promptText }
  | line :: rest, m, out =>
    let out := out ++ promptText
    match lineText? line with
    | none => { monitor := m, output := out, failure := some .notUtf8 }
    | some text =>
      let reply := m.execute files patience (.ofText (String.ofList text))
      let out := out ++ reply.output
      if reply.more then converse files patience rest reply.monitor out
      else { monitor := reply.monitor, output := out }

def startupBytes (files : Files) : ByteArray :=
  match files startupFile with
  | .ok bytes => bytes
  | .error _ => .empty

def session (files : Files) (patience : Nat) (m : Monitor) (input : ByteArray) : Ended :=
  let (m, out) := startUp files patience (inputLines (startupBytes files)) m ""
  converse files patience (inputLines input) m out

end Cycle6502.Monitor
