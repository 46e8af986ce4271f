import Cycle6502.Files
import Cycle6502.Machine
import Cycle6502.Monitor.Command

/-! The monitor: it runs a machine under commands, and answers each with text. -/

set_option autoImplicit false

namespace Cycle6502

structure Monitor where
  cpu : Machine
  /-- Addresses that stop a run once it gets there. -/
  breakpoints : List UInt16 := []

/-- What a command leads to; the session ends unless there is `more`. -/
structure Reply where
  monitor : Monitor
  output : String
  more : Bool := true

namespace Monitor

def helpText : String :=
  String.join <| [
    "Available commands:",
    "  help           - Show this help message",
    "  load <file> [addr]  - Load a binary image at [addr] (default 1900)",
    "  reset          - Reset the CPU",
    "  step (s) [n]   - Execute n instructions (default 1)",
    "  continue (c)   - Run until a breakpoint, halt or Ctrl-C",
    "  break <addr>   - Set a breakpoint at <addr> (hex)",
    "  delete <addr>  - Remove a breakpoint at <addr> (hex)",
    "  registers (r)  - Show CPU registers",
    "  flags          - Show CPU status flags",
    "  cycles         - Show the cycle counter",
    "  halt           - Halt the CPU",
    "  mem <addr>     - View memory at <addr> (hex)",
    "  mem <start> <end> - View memory range (hex)",
    "  page <addr>    - View a full 256-byte memory page",
    "  write <addr> <value> - Write <value> (hex) to <addr> (hex)",
    "  dis [addr] [n] - Disassemble n instructions (default PC, 16)",
    "  quit | exit    - Exit the monitor"].map (· ++ "\n")

def haltedText : String := "CPU is halted. Use 'reset' to restart.\n"

def registersText (c : Machine) : String :=
  "PC: " ++ Text.Highlight.yellow.apply (Text.hexWord c.pc)
    ++ "  A: " ++ Text.hexByte c.registers.a ++ "  X: " ++ Text.hexByte c.registers.x
    ++ "  Y: " ++ Text.hexByte c.registers.y ++ "  SP: " ++ Text.hexByte c.registers.sp
    ++ "  P: " ++ c.flags.text ++ "  "
    ++ Text.Highlight.dimmed.apply c.bus.lines.status ++ "\n"

def flagsText (p : Flags) : String :=
  let bit (on : Bool) : String := if on then "1" else "0"
  "Flags: C=" ++ bit p.carry ++ " Z=" ++ bit p.zero ++ " I=" ++ bit p.irqDisable
    ++ " D=" ++ bit p.decimal ++ " V=" ++ bit p.overflow ++ " N=" ++ bit p.negative ++ "\n"

def failureText (e : InvalidOpcode) : String := Text.Highlight.red.apply e.message ++ "\n"

/-- One line for each address of a range, which may be in the wrong order. -/
def memoryText (c : Machine) (first last : UInt16) : String :=
  if last < first then "Invalid range: start address must be <= end address\n"
  else
    String.join <| (List.range' first.toNat (last.toNat + 1 - first.toNat)).map fun n =>
      "$" ++ Text.hexWord (UInt16.ofNat n) ++ ": " ++ Text.hexByte (c.peek (UInt16.ofNat n))
        ++ "\n"

/-- The dump of the page that an address is in, as RAM holds it. -/
def pageText (c : Machine) (addr : UInt16) : String :=
  let first := addr &&& 0xFF00
  c.bus.ram.dump (by decide) first (first ||| 0x00FF)

def disassemblyText (c : Machine) : (count : Nat) → (addr : UInt16) → (out : String) → String
  | 0, _, out => out
  | count + 1, addr, out =>
    let line := c.disassembly addr
    let shown := (if addr = c.pc then ">" else " ") ++ line
      ++ Text.Highlight.green.apply (c.symbols.annotation line) ++ "\n"
    disassemblyText c count (addr + Disassembly.length c.variant c.peek addr) (out ++ shown)

def stepMany (breakpoints : List UInt16) : (count : Nat) → Machine → (out : String) →
    Machine × String
  | 0, c, out => (c, out)
  | count + 1, c, out =>
    let out := out ++ c.disassembly c.pc ++ "\n"
    match c.step with
    | (c, some failure) => (c, out ++ failureText failure)
    | (c, none) =>
      if breakpoints.contains c.pc then
        (c, out ++ "Hit breakpoint at " ++ Text.hexWord c.pc ++ ".\n")
      else stepMany breakpoints count c out

inductive Stop where
  | failed (failure : InvalidOpcode)
  | atBreakpoint
  /-- It was asked to stop between two instructions. -/
  | interrupted
  deriving DecidableEq, Repr

def Stop.text (s : Stop) (pc : UInt16) : String :=
  match s with
  | .failed failure => failureText failure
  | .atBreakpoint => "Hit breakpoint at " ++ Text.hexWord pc ++ ". Execution halted.\n"
  | .interrupted => "Interrupted at " ++ Text.hexWord pc ++ ".\n"

/-- Runs up to a failure or a breakpoint; after `patience` instructions the run is interrupted. -/
def proceed (breakpoints : List UInt16) : (patience : Nat) → Machine → Machine × Stop
  | 0, c => (c, .interrupted)
  | patience + 1, c =>
    match c.step with
    | (c, some failure) => (c, .failed failure)
    | (c, none) =>
      if breakpoints.contains c.pc then (c, .atBreakpoint) else proceed breakpoints patience c

def proceedReply (m : Monitor) (patience : Nat) : Machine × String :=
  let start := m.cpu.clock
  let (c, stop) := proceed m.breakpoints patience m.cpu
  (c, "Resuming execution...\n" ++ stop.text c.pc ++ toString (c.clock - start).toNat
    ++ " cycles elapsed\n" ++ registersText c)

def loadReply (c : Machine) (files : Files) (file : String) (addr : UInt16) :
    Machine × String :=
  match files.image file addr with
  | .error e => (c, "Error loading image: " ++ e.message ++ "\n")
  | .ok image =>
    let text := "Loaded '" ++ file ++ "' at $" ++ Text.hexWord image.base ++ " ("
      ++ toString image.data.length ++ " bytes, crc32 " ++ Text.hexLong image.crc ++ ")\n"
    let journal := c.journal.append image.report
    (Machine.load { c with journal } image.base image.data, text)

/-- Does a command. A run is interrupted after `patience` instructions. -/
def execute (files : Files) (patience : Nat) (m : Monitor) (command : Command) : Reply :=
  match command with
  | .blank | .unreadable => { monitor := m, output := "" }
  | .help => { monitor := m, output := helpText }
  | .reset => { monitor := { m with cpu := m.cpu.reset }, output := "" }
  | .step count =>
    if m.cpu.halted then { monitor := m, output := haltedText }
    else
      let (c, out) := stepMany m.breakpoints count.toNat m.cpu ""
      { monitor := { m with cpu := c }, output := out ++ registersText c }
  | .proceed =>
    if m.cpu.halted then { monitor := m, output := haltedText }
    else
      let (c, output) := m.proceedReply patience
      { monitor := { m with cpu := c }, output }
  | .setBreakpoint addr =>
    { monitor := { m with breakpoints := m.breakpoints.insert addr }
      output := "Breakpoint set at $" ++ Text.hexWord addr ++ "\n" }
  | .clearBreakpoint addr =>
    { monitor := { m with breakpoints := m.breakpoints.filter (· != addr) }
      output := "Breakpoint removed at $" ++ Text.hexWord addr ++ "\n" }
  | .registers => { monitor := m, output := registersText m.cpu }
  | .flags => { monitor := m, output := flagsText m.cpu.flags }
  | .cycles => { monitor := m, output := toString m.cpu.clock.toNat ++ " cycles\n" }
  | .halt =>
    { monitor := { m with cpu := { m.cpu with halted := true } }, output := "CPU halted.\n" }
  | .load file addr =>
    let (c, output) := loadReply m.cpu files file addr
    { monitor := { m with cpu := c }, output }
  | .memory first last => { monitor := m, output := memoryText m.cpu first last }
  | .page addr => { monitor := m, output := pageText m.cpu addr }
  | .write addr value =>
    { monitor := { m with cpu := m.cpu.write addr value }
      output := "Wrote " ++ Text.hexByte value ++ " to $" ++ Text.hexWord addr ++ "\n" }
  | .disassemble addr count =>
    { monitor := m, output := disassemblyText m.cpu count.toNat (addr.getD m.cpu.pc) "" }
  | .quit => { monitor := m, output := "Exiting monitor.\n", more := false }
  | .unknown =>
    { monitor := m, output := "Unknown command. Type 'help' for available commands.\n" }

end Monitor

end Cycle6502
