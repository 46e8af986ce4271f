import Cycle6502.Cpu.Step
import Cycle6502.Text.Blank

/-! Commands of the monitor. A command is a line of words; an operand that cannot be read makes a
command do nothing, unless the operand is optional. -/

set_option autoImplicit false

namespace Cycle6502

inductive Command where
  /-- A line without words. -/
  | blank
  | help
  | reset
  | step (count : UInt32)
  /-- Runs until a breakpoint or a failure. -/
  | proceed
  | setBreakpoint (addr : UInt16)
  | clearBreakpoint (addr : UInt16)
  | registers
  | flags
  | cycles
  | halt
  | load (file : String) (addr : UInt16)
  | memory (first last : UInt16)
  | page (addr : UInt16)
  | write (addr : UInt16) (value : UInt8)
  | disassemble (addr : Option UInt16) (count : UInt32)
  | quit
  /-- A command with an operand that cannot be read. -/
  | unreadable
  | unknown
  deriving DecidableEq, Repr, Inhabited

namespace Command

def defaultSteps : UInt32 := 1

def defaultLines : UInt32 := 16

def orUnreadable (command : Option Command) : Command := command.getD .unreadable

/-- A memory range; an end that cannot be read is the start. -/
def ofRange (first : String) (last : Option String) : Command :=
  orUnreadable do
    let first ← Text.readAddress? first
    some (.memory first ((last.bind Text.readAddress?).getD first))

def ofWords : List String → Command
  | [] => .blank
  | "help" :: _ => .help
  | "reset" :: _ => .reset
  | "step" :: rest | "s" :: rest => .step ((rest.head?.bind Text.readCount?).getD defaultSteps)
  | "continue" :: _ | "c" :: _ => .proceed
  | ["break", addr] => orUnreadable ((Text.readAddress? addr).map .setBreakpoint)
  | ["delete", addr] => orUnreadable ((Text.readAddress? addr).map .clearBreakpoint)
  | "registers" :: _ | "r" :: _ => .registers
  | "flags" :: _ => .flags
  | "cycles" :: _ => .cycles
  | "halt" :: _ => .halt
  | ["load", file] => .load file Cpu.defaultEntry
  | ["load", file, addr] => .load file ((Text.readAddress? addr).getD Cpu.defaultEntry)
  | ["mem", first] => ofRange first none
  | ["mem", first, last] => ofRange first (some last)
  | ["page", addr] => orUnreadable ((Text.readAddress? addr).map .page)
  | ["write", addr, value] => orUnreadable do
    some (.write (← Text.readAddress? addr) (← Text.readHexByte? value))
  | "dis" :: rest =>
    .disassemble (rest.head?.bind Text.readAddress?)
      ((rest[1]?.bind Text.readCount?).getD defaultLines)
  | "exit" :: _ | "quit" :: _ => .quit
  | _ => .unknown

def ofText (line : String) : Command := ofWords (Text.words line)

def file? : Command → Option String
  | .load file _ => some file
  | _ => none

end Command

end Cycle6502
