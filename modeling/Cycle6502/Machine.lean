import Cycle6502.Bus.Board
import Cycle6502.Cpu.Step

/-! The machine: a processor on the board, with what happens to it from outside. -/

set_option autoImplicit false

namespace Cycle6502

abbrev Machine := Cpu Board

namespace Machine

def requestIrq (m : Machine) (sources : IrqSources) : Machine :=
  let journal := m.journal.append (m.bus.lines.irqReport sources)
  { m with bus := m.bus.requestIrq sources, journal }

def clearIrq (m : Machine) (sources : IrqSources) : Machine :=
  { m with bus := m.bus.clearIrq sources }

def requestNmi (m : Machine) : Machine :=
  let journal := m.journal.append InterruptLines.nmiReport
  { m with bus := m.bus.requestNmi, journal }

def load (m : Machine) (addr : UInt16) (data : List UInt8) : Machine :=
  let journal := m.journal.append (m.bus.ram.loadReport addr data.length)
  { m with bus := m.bus.load addr data, journal }

def room (m : Machine) (addr : UInt16) (count : Nat) : Nat := m.bus.ram.room addr count

end Machine

end Cycle6502
