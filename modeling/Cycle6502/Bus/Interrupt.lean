import Cycle6502.Journal

/-! Interrupts: their vectors, the devices that request IRQ, and the state of the two lines. -/

set_option autoImplicit false

namespace Cycle6502

inductive Interrupt where
  | nmi
  | irq
  | brk
  deriving DecidableEq, Repr, Inhabited

namespace Interrupt

def name : Interrupt → String
  | .nmi => "NMI"
  | .irq => "IRQ"
  | .brk => "BRK"

def vector : Interrupt → UInt16
  | .nmi => 0xFFFA
  | .irq | .brk => 0xFFFE

end Interrupt

/-- A set of devices that can hold the IRQ line. -/
structure IrqSources where
  feedback : Bool := false
  systemVia : Bool := false
  userVia : Bool := false
  deriving DecidableEq, Repr, Inhabited

namespace IrqSources

/-- The devices whose bits are set; other bits mean nothing. -/
def ofByte (b : UInt8) : IrqSources where
  feedback := b &&& 1 != 0
  systemVia := b &&& 2 != 0
  userVia := b &&& 4 != 0

def union (s t : IrqSources) : IrqSources :=
  ⟨s.feedback || t.feedback, s.systemVia || t.systemVia, s.userVia || t.userVia⟩

def without (s t : IrqSources) : IrqSources :=
  ⟨s.feedback && !t.feedback, s.systemVia && !t.systemVia, s.userVia && !t.userVia⟩

def any (s : IrqSources) : Bool := s.feedback || s.systemVia || s.userVia

def includes (s t : IrqSources) : Bool := s.union t == s

def text (s : IrqSources) : String :=
  let names := (if s.feedback then ["FEEDBACK"] else [])
    ++ (if s.systemVia then ["SYSTEM_VIA"] else []) ++ (if s.userVia then ["USER_VIA"] else [])
  "IrqSource(" ++ (if names.isEmpty then "0x0" else " | ".intercalate names) ++ ")"

end IrqSources

/-- The interrupt lines. IRQ is a level, held while any device requests it; NMI is an edge,
latched until the processor takes it. -/
structure InterruptLines where
  requests : IrqSources := {}
  nmi : Bool := false
  deriving DecidableEq, Repr, Inhabited

namespace InterruptLines

def irq (l : InterruptLines) : Bool := l.requests.any

def requestIrq (l : InterruptLines) (sources : IrqSources) : InterruptLines :=
  { l with requests := l.requests.union sources }

def clearIrq (l : InterruptLines) (sources : IrqSources) : InterruptLines :=
  { l with requests := l.requests.without sources }

def requestNmi (l : InterruptLines) : InterruptLines := { l with nmi := true }

def acknowledgeNmi (l : InterruptLines) : InterruptLines := { l with nmi := false }

/-- What is reported of a request: nothing if all its devices hold the line already. -/
def irqReport (l : InterruptLines) (sources : IrqSources) : List Record :=
  if l.requests.includes sources then [] else [⟨.debug, "IRQ asserted by " ++ sources.text⟩]

def nmiReport : List Record := [⟨.debug, "NMI requested"⟩]

def status (l : InterruptLines) : String :=
  "I:" ++ (if l.nmi then "N" else ".") ++ (if l.irq then "I" else ".")

end InterruptLines

end Cycle6502
