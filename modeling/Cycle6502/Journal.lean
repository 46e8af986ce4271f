/-! The journal: messages that the machine records for its operator, by importance. -/

set_option autoImplicit false

namespace Cycle6502

inductive Level where
  | error
  | warn
  | info
  | debug
  | trace
  deriving DecidableEq, Repr, Inhabited

namespace Level

/-- The most important level has the least rank. -/
def rank : Level → Nat
  | .error => 1
  | .warn => 2
  | .info => 3
  | .debug => 4
  | .trace => 5

def name : Level → String
  | .error => "ERROR"
  | .warn => "WARN"
  | .info => "INFO"
  | .debug => "DEBUG"
  | .trace => "TRACE"

end Level

structure Record where
  level : Level
  message : String
  deriving DecidableEq, Repr, Inhabited

def Record.text (r : Record) : String := r.level.name ++ " " ++ r.message

/-- The records kept so far, and the least important level that is kept; none is kept without. -/
structure Journal where
  threshold : Option Level := none
  records : Array Record := #[]
  deriving Inhabited

namespace Journal

def admits (j : Journal) (level : Level) : Bool :=
  match j.threshold with
  | none => false
  | some threshold => level.rank ≤ threshold.rank

/-- Records a message, which is not composed unless it is kept. -/
def note (j : Journal) (level : Level) (message : Unit → String) : Journal :=
  if j.admits level then { j with records := j.records.push ⟨level, message ()⟩ } else j

def append (j : Journal) (records : List Record) : Journal :=
  match records with
  | [] => j
  | record :: rest => (j.note record.level fun _ => record.message).append rest

def cleared (j : Journal) : Journal := { j with records := #[] }

end Journal

end Cycle6502
