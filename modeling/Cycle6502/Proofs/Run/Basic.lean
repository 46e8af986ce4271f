import Cycle6502.Machine

/-! Runs: steps of a processor, with signals from outside at any points between them. -/

set_option autoImplicit false

namespace Cycle6502

inductive Signal where
  | requestIrq (sources : IrqSources)
  | clearIrq (sources : IrqSources)
  | requestNmi
  deriving DecidableEq, Repr

inductive Happening where
  | step
  | signal (s : Signal)
  deriving DecidableEq, Repr

class Signalled (β : Type) where
  drive : β → Signal → β
  /-- What is reported of a signal that is about to arrive. -/
  report : β → Signal → List Record := fun _ _ => []

instance : Signalled Board where
  drive b
    | .requestIrq sources => b.requestIrq sources
    | .clearIrq sources => b.clearIrq sources
    | .requestNmi => b.requestNmi
  report b
    | .requestIrq sources => b.lines.irqReport sources
    | .clearIrq _ => []
    | .requestNmi => InterruptLines.nmiReport

def Signal.drives : Signal → InterruptLines → InterruptLines
  | .requestIrq sources => (·.requestIrq sources)
  | .clearIrq sources => (·.clearIrq sources)
  | .requestNmi => (·.requestNmi)

theorem Board.drive_eq (b : Board) (s : Signal) :
    Signalled.drive b s = { b with lines := s.drives b.lines } := by
  cases s <;> rfl

namespace Cpu

variable {β : Type} [Bus β] [Signalled β]

def receive (c : Cpu β) (s : Signal) : Cpu β :=
  { c with
    bus := Signalled.drive c.bus s
    journal := c.journal.append (Signalled.report c.bus s) }

def undergo (c : Cpu β) : Happening → Cpu β
  | .step => c.step.1
  | .signal s => c.receive s

def after (c : Cpu β) (happenings : List Happening) : Cpu β := happenings.foldl undergo c

/-- The states in which the steps of a run begin, in order. -/
def starts (c : Cpu β) : List Happening → List (Cpu β)
  | [] => []
  | .step :: rest => c :: starts c.step.1 rest
  | .signal s :: rest => starts (c.receive s) rest

def results (c : Cpu β) (happenings : List Happening) : List (Option InvalidOpcode) :=
  (c.starts happenings).map (·.step.2)

end Cpu

def Machine.recording (m : Machine) : Machine := { m with bus := m.bus.record }

end Cycle6502
