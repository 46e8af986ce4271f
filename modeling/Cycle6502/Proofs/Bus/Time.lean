import Cycle6502.Machine
import Cycle6502.Proofs.Bus.Simulation

/-! Boards that differ in time only. A recording shows its waits to nobody but an operator, so a
board some cycles later is the same board to every access. -/

set_option autoImplicit false

namespace Cycle6502

theorem toUInt64_eq_ofNat (cycles : UInt32) : cycles.toUInt64 = .ofNat cycles.toNat := by
  apply UInt64.toNat_inj.1
  simp

def BusEvent.isWait : BusEvent → Bool
  | .wait _ => true
  | _ => false

def Recording.accesses (r : Recording) : Option (List BusEvent) :=
  r.map fun events => events.toList.filter (!·.isWait)

theorem Recording.accesses_add (r : Recording) (event : BusEvent) :
    (r.add event).accesses =
      if event.isWait then r.accesses else r.accesses.map (· ++ [event]) := by
  cases r with
  | none => simp [add, accesses]
  | some events => cases wait : event.isWait <;> simp [add, accesses, wait]

theorem Recording.accesses_gain {r r' : Recording} {events : List BusEvent} {event : BusEvent}
    (gained : r'.accesses = r.accesses.map (· ++ events)) (access : event.isWait = false) :
    (r'.add event).accesses = r.accesses.map (· ++ (events ++ [event])) := by
  rw [accesses_add, access, gained]
  simp [Function.comp_def]

namespace Board

theorem feedbackLines_congr {b d : Board} (lines : b.lines = d.lines)
    (feedback : b.feedback = d.feedback) (value : UInt8) :
    b.feedbackLines value = d.feedbackLines value := by
  unfold feedbackLines raisesNmi
  rw [lines, feedback]

/-- The boards are the same but for their clocks and recorded waits. -/
structure SameButTime (b b' : Board) : Prop where
  ram : b.ram = b'.ram
  feedback : b.feedback = b'.feedback
  lines : b.lines = b'.lines
  accesses : b.events.accesses = b'.events.accesses

namespace SameButTime

variable {b b' : Board}

theorem refl (b : Board) : SameButTime b b := ⟨rfl, rfl, rfl, rfl⟩

theorem trans {b'' : Board} (first : SameButTime b b') (next : SameButTime b' b'') :
    SameButTime b b'' :=
  ⟨first.ram.trans next.ram, first.feedback.trans next.feedback, first.lines.trans next.lines,
    first.accesses.trans next.accesses⟩

instance : Trans SameButTime SameButTime SameButTime := ⟨trans⟩

theorem peek (same : SameButTime b b') (addr : UInt16) : b.peek addr = b'.peek addr := by
  simp only [Board.peek, same.ram, same.feedback]

theorem record (same : SameButTime b b') (event : BusEvent) :
    SameButTime { b with events := b.events.add event }
      { b' with events := b'.events.add event } :=
  { same with accesses := by simp only [Recording.accesses_add, same.accesses] }

theorem advance_left (same : SameButTime b b') (wait : UInt32) :
    SameButTime (b.advance wait) b' :=
  { same with accesses := by simp [Board.advance, Recording.accesses_add, BusEvent.isWait,
      same.accesses] }

theorem advance_right (same : SameButTime b b') (wait : UInt32) :
    SameButTime b (b'.advance wait) :=
  { same with accesses := by simp [Board.advance, Recording.accesses_add, BusEvent.isWait,
      same.accesses] }

theorem simulation : Bus.Simulation (fun _ => True) SameButTime where
  stack _ := trivial
  read {b d} same addr := by
    have value := same.peek addr
    refine ⟨value, ?_⟩
    simp only [Bus.read, Board.read, value]
    exact same.record _
  write {b d} same addr value := by
    have accesses := (same.record (.write addr value)).accesses
    simp only [Bus.write, Board.write]
    split
    · exact ⟨same.ram, rfl, feedbackLines_congr same.lines same.feedback value, accesses⟩
    · exact ⟨congrArg (·.write addr value) same.ram, same.feedback, same.lines, accesses⟩
  zeroPageRead {b d} same addr _ := by
    have value : b.ram.read addr = d.ram.read addr := by rw [same.ram]
    refine ⟨value, ?_⟩
    simp only [Bus.zeroPageRead, Board.zeroPageRead, value]
    exact same.record _
  zeroPageWrite {b d} same addr value _ :=
    ⟨congrArg (·.write addr value) same.ram, same.feedback, same.lines,
      (same.record (.zeroPageWrite addr value)).accesses⟩
  advance {b d} same wait := (same.advance_left wait).advance_right wait
  irqAsserted {b d} same := by simp only [Bus.irqAsserted, same.lines]
  nmiAsserted {b d} same := by simp only [Bus.nmiAsserted, same.lines]

end SameButTime

@[simp] theorem clock_write (b : Board) (addr : UInt16) (value : UInt8) :
    (b.write addr value).clock = b.clock := by
  unfold write
  split <;> rfl

@[simp] theorem events_write (b : Board) (addr : UInt16) (value : UInt8) :
    (b.write addr value).events = b.events.add (.write addr value) := by
  unfold write
  split <;> rfl

theorem clock_advance (b : Board) (wait : UInt32) :
    (b.advance wait).clock = b.clock + .ofNat wait.toNat :=
  congrArg (b.clock + ·) (toUInt64_eq_ofNat wait)

structure Later (cycles : Nat) (b b' : Board) : Prop extends SameButTime b b' where
  clock : b.clock + UInt64.ofNat cycles = b'.clock

namespace Later

variable {cycles : Nat} {b b' : Board}

theorem advance (later : Later cycles b b') (wait : UInt32) :
    Later (cycles + wait.toNat) b (b'.advance wait) where
  toSameButTime := later.advance_right wait
  clock := by rw [UInt64.ofNat_add, ← UInt64.add_assoc, later.clock, clock_advance]

theorem catchUp {wait : UInt32} (later : Later (cycles + wait.toNat) b b') :
    Later cycles (b.advance wait) b' where
  toSameButTime := later.advance_left wait
  clock := by
    rw [← later.clock, clock_advance, UInt64.ofNat_add]
    ac_rfl

theorem meet (later : Later cycles b b') {wait step : UInt32}
    (total : wait.toNat = cycles + step.toNat) : Later 0 (b.advance wait) (b'.advance step) :=
  catchUp (by simpa only [Nat.zero_add, total] using later.advance step)

theorem simulation (cycles : Nat) : Bus.Simulation (fun _ => True) (Later cycles) where
  stack _ := trivial
  read later addr :=
    have kept := SameButTime.simulation.read later.toSameButTime addr
    ⟨kept.1, ⟨kept.2, later.clock⟩⟩
  write later addr value :=
    ⟨SameButTime.simulation.write later.toSameButTime addr value,
      by simpa only [Bus.write, clock_write] using later.clock⟩
  zeroPageRead later addr inside :=
    have kept := SameButTime.simulation.zeroPageRead later.toSameButTime addr inside
    ⟨kept.1, ⟨kept.2, later.clock⟩⟩
  zeroPageWrite later addr value inside :=
    ⟨SameButTime.simulation.zeroPageWrite later.toSameButTime addr value inside, later.clock⟩
  advance later wait := (later.advance wait).catchUp
  irqAsserted later := SameButTime.simulation.irqAsserted later.toSameButTime
  nmiAsserted later := SameButTime.simulation.nmiAsserted later.toSameButTime

end Later

end Board

end Cycle6502
