import Cycle6502.Bus.Basic
import Cycle6502.Bus.Interrupt
import Cycle6502.Memory

/-! The BBC Micro's board: 64 KiB of RAM, the 1 MHz region, the interrupt lines, and the feedback
register through which a test program drives them. -/

set_option autoImplicit false

namespace Cycle6502

/-- Whether an address is accessed at 1 MHz: two pages, and four of the eight blocks of 32 bytes
in the next page. -/
def isOneMegahertz (addr : UInt16) : Bool :=
  if 0xFC00 ≤ addr ∧ addr ≤ 0xFDFF then true
  else if 0xFE00 ≤ addr ∧ addr ≤ 0xFEFF then
    match (addr >>> 5) &&& 7 with
    | 0 | 2 | 3 | 6 => true
    | _ => false
  else false

/-- The feedback register. Bit 0 holds the IRQ line; bit 1 requests an NMI when it rises. -/
def feedbackRegister : UInt16 := 0xBFFC

structure Board where
  ram : Memory 0x10000
  clock : UInt64 := 0
  lines : InterruptLines := {}
  /-- The byte last written to the feedback register. -/
  feedback : UInt8 := 0
  events : Recording := none

namespace Board

def new : Board := { ram := .new 0x10000 "BUSRAM" }

instance : Inhabited Board := ⟨new⟩

def load (b : Board) (addr : UInt16) (data : List UInt8) : Board :=
  { b with ram := b.ram.load addr data }

def record (b : Board) : Board := { b with events := some #[] }

/-- Drops the events recorded so far, and goes on recording if there is a recording. -/
def drain (b : Board) : Board := { b with events := b.events.map fun _ => #[] }

def raisesNmi (b : Board) (value : UInt8) : Bool :=
  value &&& 0x02 != 0 && b.feedback &&& 0x02 == 0

def feedbackLines (b : Board) (value : UInt8) : InterruptLines :=
  let lines := if value &&& 0x01 != 0 then b.lines.requestIrq { feedback := true }
    else b.lines.clearIrq { feedback := true }
  if b.raisesNmi value then lines.requestNmi else lines

def feedbackReport (b : Board) (value : UInt8) : List Record :=
  (if value &&& 0x01 != 0 then b.lines.irqReport { feedback := true } else [])
    ++ (if b.raisesNmi value then InterruptLines.nmiReport else [])

def peek (b : Board) (addr : UInt16) : UInt8 :=
  if addr = feedbackRegister then b.feedback else b.ram.read addr

def read (b : Board) (addr : UInt16) : UInt8 × Board :=
  let value := b.peek addr
  (value, { b with events := b.events.add (.read addr value) })

def write (b : Board) (addr : UInt16) (value : UInt8) : Board :=
  if addr = feedbackRegister then
    { b with
      lines := b.feedbackLines value
      feedback := value
      events := b.events.add (.write addr value) }
  else
    { b with ram := b.ram.write addr value, events := b.events.add (.write addr value) }

def zeroPageRead (b : Board) (addr : UInt16) : UInt8 × Board :=
  let value := b.ram.read addr
  (value, { b with events := b.events.add (.zeroPageRead addr value) })

def zeroPageWrite (b : Board) (addr : UInt16) (value : UInt8) : Board :=
  { b with ram := b.ram.write addr value, events := b.events.add (.zeroPageWrite addr value) }

def advance (b : Board) (cycles : UInt32) : Board :=
  { b with clock := b.clock + cycles.toUInt64, events := b.events.add (.wait cycles) }

def requestIrq (b : Board) (sources : IrqSources) : Board :=
  { b with lines := b.lines.requestIrq sources }

def clearIrq (b : Board) (sources : IrqSources) : Board :=
  { b with lines := b.lines.clearIrq sources }

def requestNmi (b : Board) : Board := { b with lines := b.lines.requestNmi }

def acknowledgeNmi (b : Board) : Board := { b with lines := b.lines.acknowledgeNmi }

instance : Bus Board where
  read := read
  write := write
  zeroPageRead := zeroPageRead
  zeroPageWrite := zeroPageWrite
  peek := peek
  isSlow _ := isOneMegahertz
  advance := advance
  clock := clock
  irqAsserted b := b.lines.irq
  nmiAsserted b := b.lines.nmi
  acknowledgeNmi := acknowledgeNmi
  writeReport b addr value := if addr = feedbackRegister then b.feedbackReport value else []

end Board

end Cycle6502
