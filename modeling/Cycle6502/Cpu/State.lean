import Cycle6502.Bus.Basic
import Cycle6502.Isa.Effect
import Cycle6502.Journal
import Cycle6502.Memory
import Cycle6502.Microcode.Store
import Cycle6502.Symbols

/-! The processor's state on a bus, and the accesses that instructions are made of. -/

set_option autoImplicit false

namespace Cycle6502

structure Registers where
  a : UInt8 := 0
  x : UInt8 := 0
  y : UInt8 := 0
  sp : UInt8 := 0
  deriving DecidableEq, Repr, Inhabited

namespace Registers

def get (r : Registers) : Register → UInt8
  | .a => r.a
  | .x => r.x
  | .y => r.y
  | .s => r.sp

def set (r : Registers) (register : Register) (value : UInt8) : Registers :=
  match register with
  | .a => { r with a := value }
  | .x => { r with x := value }
  | .y => { r with y := value }
  | .s => { r with sp := value }

end Registers

structure Cpu (β : Type) where
  bus : β
  microcode : Microcode
  registers : Registers := {}
  pc : UInt16 := 0
  flags : Flags := { irqDisable := true }
  /-- Set by an invalid opcode; a halted processor does nothing. -/
  halted : Bool := false
  /-- Whether the lines, when they were last sampled, asked for an interrupt. -/
  interruptPending : Bool := false
  /-- Where to start after a reset, whatever the reset vector says. -/
  entryOverride : Option UInt16 := none
  symbols : Symbols := {}
  journal : Journal := {}

namespace Cpu

variable {β : Type} [Bus β]

def variant (c : Cpu β) : Variant := c.microcode.variant

def note (c : Cpu β) (level : Level) (message : Unit → String) : Cpu β :=
  { c with journal := c.journal.note level message }

def peek (c : Cpu β) (addr : UInt16) : UInt8 := Bus.peek c.bus addr

def clock (c : Cpu β) : UInt64 := Bus.clock c.bus

def read (c : Cpu β) (addr : UInt16) : UInt8 × Cpu β :=
  let (value, bus) := Bus.read c.bus addr
  (value, { c with bus := bus })

def write (c : Cpu β) (addr : UInt16) (value : UInt8) : Cpu β :=
  let report := Bus.writeReport c.bus addr value
  { c with bus := Bus.write c.bus addr value, journal := c.journal.append report }

def zeroPageRead (c : Cpu β) (addr : UInt16) : UInt8 × Cpu β :=
  let (value, bus) := Bus.zeroPageRead c.bus addr
  (value, { c with bus := bus })

def zeroPageWrite (c : Cpu β) (addr : UInt16) (value : UInt8) : Cpu β :=
  { c with bus := Bus.zeroPageWrite c.bus addr value }

def wait (c : Cpu β) (cycles : UInt32) : Cpu β := { c with bus := Bus.advance c.bus cycles }

def fetchByte (c : Cpu β) : UInt8 × Cpu β :=
  let (value, bus) := Bus.read c.bus c.pc
  (value, { c with bus := bus, pc := c.pc + 1 })

def fetchWord (c : Cpu β) : UInt16 × Cpu β :=
  let (low, c) := c.fetchByte
  let (high, c) := c.fetchByte
  (wordOf low high, c)

def readWord (c : Cpu β) (addr : UInt16) : UInt16 × Cpu β :=
  let (low, c) := c.read addr
  let (high, c) := c.read (addr + 1)
  (wordOf low high, c)

def push (c : Cpu β) (value : UInt8) : Cpu β :=
  let c := c.zeroPageWrite (stackAddress c.registers.sp) value
  { c with registers := { c.registers with sp := c.registers.sp - 1 } }

def pushWord (c : Cpu β) (value : UInt16) : Cpu β :=
  (c.push (highByte value)).push (lowByte value)

def pull (c : Cpu β) : UInt8 × Cpu β :=
  let sp := c.registers.sp + 1
  { c with registers := { c.registers with sp } }.zeroPageRead (stackAddress sp)

def pullWord (c : Cpu β) : UInt16 × Cpu β :=
  let (low, c) := c.pull
  let (high, c) := c.pull
  (wordOf low high, c)

def register (c : Cpu β) (r : Register) : UInt8 := c.registers.get r

def setRegister (c : Cpu β) (r : Register) (value : UInt8) : Cpu β :=
  { c with registers := c.registers.set r value }

def setRegisterAndFlags (c : Cpu β) (r : Register) (value : UInt8) : Cpu β :=
  { c with registers := c.registers.set r value, flags := c.flags.ofValue value }

/-- The status byte that an instruction pushes: the two flags that exist only on the stack are
set in it. -/
def statusByte (c : Cpu β) : UInt8 := { c.flags with brk := true, unused := true }.toByte

def interruptStatusByte (c : Cpu β) : UInt8 :=
  { c.flags with brk := false, unused := true }.toByte

def restoreStatus (c : Cpu β) (status : UInt8) : Cpu β :=
  { c with flags := (Flags.ofByte status).live }

end Cpu

end Cycle6502
