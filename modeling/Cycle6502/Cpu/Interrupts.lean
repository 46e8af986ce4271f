import Cycle6502.Bus.Interrupt
import Cycle6502.Cpu.State

/-! How the processor samples the interrupt lines and enters handlers. -/

set_option autoImplicit false

namespace Cycle6502.Cpu

variable {β : Type} [Bus β]

/-- Samples the lines. What they ask for is done when the instruction is over. -/
def sampleInterrupts (c : Cpu β) : Cpu β :=
  let irq := Bus.irqAsserted c.bus && !c.flags.irqDisable
  let nmi := Bus.nmiAsserted c.bus
  { c with interruptPending := irq || nmi }

/-- The flags in a handler: further IRQs are off, and the CMOS part leaves decimal mode. -/
def handlerFlags (c : Cpu β) : Flags :=
  { c.flags with
    irqDisable := true
    decimal := match c.variant with
      | .nmos => c.flags.decimal
      | .cmos => false }

def enterHandler (c : Cpu β) (kind : Interrupt) (returnTo : UInt16) (status : UInt8) : Cpu β :=
  let c := (c.pushWord returnTo).push status
  let flags := c.handlerFlags
  let (handler, c) := { c with flags }.readWord kind.vector
  { c with pc := handler }

/-- The effect of BRK, which returns to the second byte behind its opcode. -/
def enterBreak (c : Cpu β) : Cpu β :=
  let returnTo := c.pc + 1
  let status := c.statusByte
  c.enterHandler .brk returnTo status

/-- Takes an interrupt: an NMI that is latched by now, else an IRQ. -/
def serviceInterrupt (c : Cpu β) : Cpu β :=
  let kind := if Bus.nmiAsserted c.bus then Interrupt.nmi else .irq
  let c := match kind with
    | .nmi => { c with bus := Bus.acknowledgeNmi c.bus }
    | _ => c
  let returnTo := c.pc
  let status := c.interruptStatusByte
  let c := (c.enterHandler kind returnTo status).wait 7
  let handler := c.pc
  c.note .debug fun _ =>
    "Handling " ++ kind.name ++ " interrupt: jumping to 0x" ++ Text.hexWord handler

/-- A relative branch, with its own timing: two cycles if not taken, three if taken, four if the
target is in another page. The lines are sampled before the last cycle. -/
def branch (c : Cpu β) (taken : Bool) : Cpu β :=
  let (offset, c) := c.fetchByte
  if taken then
    let next := c.pc
    let target := branchTarget next offset
    let c := { c with pc := target }.wait (if samePage next target then 2 else 3)
    c.sampleInterrupts.wait 1
  else (c.wait 1).sampleInterrupts.wait 1

end Cycle6502.Cpu
