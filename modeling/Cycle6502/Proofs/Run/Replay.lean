import Cycle6502.Proofs.Bus.Recorded
import Cycle6502.Proofs.Run.Calls

/-! Recordings are faithful. The events of a board, replayed on what it held at the start, are
accepted one by one and lead to what it holds at the end; taking them in pieces loses none of them,
and recording makes no difference to what is recorded. -/

set_option autoImplicit false

namespace Cycle6502

structure Contents where
  ram : Memory 0x10000
  feedback : UInt8
  clock : UInt64

namespace Contents

/-- The contents behind an event. A value that was read has to be the one that is there. -/
def accept? (s : Contents) : BusEvent → Option Contents
  | .read addr value =>
    if (if addr = feedbackRegister then s.feedback else s.ram.read addr) = value then some s
    else none
  | .write addr value =>
    if addr = feedbackRegister then some { s with feedback := value }
    else some { s with ram := s.ram.write addr value }
  | .zeroPageRead addr value => if s.ram.read addr = value then some s else none
  | .zeroPageWrite addr value => some { s with ram := s.ram.write addr value }
  | .wait cycles => some { s with clock := s.clock + cycles.toUInt64 }

def replay? (s : Contents) (events : List BusEvent) : Option Contents := events.foldlM accept? s

end Contents

namespace Board

def contents (b : Board) : Contents := ⟨b.ram, b.feedback, b.clock⟩

def silent (b : Board) : Board := { b with events := none }

structure Records (b d : Board) (events : List BusEvent) : Prop where
  recorded : d.events = b.events.map (· ++ events.toArray)
  replays : b.contents.replay? events = some d.contents

namespace Records

variable {b d d' : Board} {events more : List BusEvent}

theorem quiet (recorded : d.events = b.events) (contents : d.contents = b.contents) :
    Records b d [] :=
  ⟨by simp [recorded], congrArg some contents.symm⟩

theorem trans (first : Records b d events) (next : Records d d' more) :
    Records b d' (events ++ more) where
  recorded := by
    rw [next.recorded, first.recorded]
    simp [Function.comp_def]
  replays := by
    rw [Contents.replay?, List.foldlM_append]
    exact (congrArg (· >>= _) first.replays).trans next.replays

theorem event {e : BusEvent} (recorded : d.events = b.events.add e)
    (accepted : b.contents.accept? e = some d.contents) : Records b d [e] where
  recorded := by
    rw [recorded]
    cases b.events <;> simp [Recording.add]
  replays := by simp [Contents.replay?, accepted]

end Records

end Board

def Bus.Call.logged : Bus.Call → Option UInt8 → List BusEvent
  | .read addr, some value => [.read addr value]
  | .write addr value, _ => [.write addr value]
  | .zeroPageRead addr, some value => [.zeroPageRead addr value]
  | .zeroPageWrite addr value, _ => [.zeroPageWrite addr value]
  | .advance cycles, _ => [.wait cycles]
  | _, _ => []

namespace Board

open Bus (Call)

def log (b : Board) : List Call → List BusEvent
  | [] => []
  | c :: rest => c.logged (Bus.call b c).1 ++ log (Bus.call b c).2 rest

theorem records_call (b : Board) (c : Call) :
    Records b (Bus.call b c).2 (c.logged (Bus.call b c).1) := by
  cases c with
  | read addr => exact .event rfl (if_pos rfl)
  | write addr value =>
    refine .event (b.events_write addr value) ?_
    simp only [Bus.call, Bus.write, Board.write, Contents.accept?]
    split <;> rfl
  | zeroPageRead addr => exact .event rfl (if_pos rfl)
  | zeroPageWrite addr value => exact .event rfl rfl
  | advance cycles => exact .event rfl rfl
  | acknowledgeNmi => exact .quiet rfl rfl
  | signal s =>
    rw [Bus.call, drive_eq]
    exact .quiet rfl rfl

theorem records_after (b : Board) (calls : List Call) :
    Records b (Bus.after b calls) (b.log calls) := by
  induction calls generalizing b with
  | nil => exact .quiet rfl rfl
  | cons c rest ih => exact (b.records_call c).trans (ih _)

namespace Continues

variable {earlier : Recording}

theorem lockstep : Bus.Lockstep (fun _ => True) (Continues earlier) where
  toSimulation := simulation
  stretchedWait {b d} same cycles addr _ := by
    have clock : Bus.clock b = Bus.clock d := same.clock
    rw [clock]
    exact simulation.advance same _
  acknowledgeNmi same := { same with lines := congrArg (·.acknowledgeNmi) same.lines }
  drive same s := by
    rw [drive_eq, drive_eq]
    exact { same with lines := congrArg s.drives same.lines }

end Continues

inductive Use where
  | call (c : Call)
  | take
  deriving DecidableEq, Repr

def Use.calls (uses : List Use) : List Call :=
  uses.filterMap fun
    | .call c => some c
    | .take => none

def use (b : Board) : List Use → List (List BusEvent) × Board
  | [] => ([], b)
  | .call c :: rest => use (Bus.call b c).2 rest
  | .take :: rest =>
    let (pieces, d) := use b.drain rest
    ((b.events.getD #[]).toList :: pieces, d)

theorem Continues.drain {taken : Array BusEvent} {b d : Board}
    (same : Continues (some taken) b d) :
    Continues (some (taken ++ d.events.getD #[])) b d.drain := by
  obtain ⟨events, recorded, gained⟩ := same.events
  refine { same with events := ⟨#[], ?_, ?_⟩ }
  · rw [Board.drain, recorded]
    rfl
  · simp [gained, recorded]

/-- A board whose events are taken is behind its twin by the pieces. -/
theorem Continues.use {taken : Array BusEvent} {b d : Board} (same : Continues (some taken) b d)
    (uses : List Use) :
    Continues (some (taken ++ (d.use uses).1.flatten.toArray)) (Bus.after b (Use.calls uses))
      (d.use uses).2 := by
  induction uses generalizing taken b d with
  | nil => simpa [Board.use, Use.calls, Bus.after] using same
  | cons u rest ih =>
    cases u with
    | call c => exact ih (lockstep.call same c).2
    | take =>
      -- The twin keeps what is taken in front of what it records from here on.
      have later := ih same.drain
      have pieces : (d.use (.take :: rest)).1.flatten.toArray =
          d.events.getD #[] ++ (d.drain.use rest).1.flatten.toArray := by
        rw [Board.use, List.flatten_cons, ← List.append_toArray, Array.toArray_toList]
      rw [pieces, ← Array.append_assoc]
      exact later

structure Faithful (b : Board) (uses : List Use) : Prop where
  recorded : (Bus.after b.record (Use.calls uses)).events =
    some (b.record.log (Use.calls uses)).toArray
  replays : b.contents.replay? (b.record.log (Use.calls uses)) =
    some (Bus.after b.record (Use.calls uses)).contents
  -- The pieces that are taken, and what is left, are the events of the same calls without taking.
  taken : Continues (some (b.record.use uses).1.flatten.toArray)
    (Bus.after b.record (Use.calls uses)) (b.record.use uses).2
  answers : Bus.answers b.silent (Use.calls uses) = Bus.answers b.record (Use.calls uses)
  silent : Continues none (Bus.after b.silent (Use.calls uses))
    (Bus.after b.record (Use.calls uses))

theorem faithful (b : Board) (uses : List Use) : b.Faithful uses := by
  have records := b.record.records_after (Use.calls uses)
  have taken := (Continues.record b.record).use uses
  rw [Array.empty_append] at taken
  obtain ⟨answers, silent⟩ := Continues.lockstep.calls (Continues.record b.silent) (Use.calls uses)
  refine ⟨?_, records.replays, taken, answers, silent⟩
  rw [records.recorded]
  simp [Board.record]

end Board

namespace Overheard

open Board (Continues)

structure Alike (earlier : Recording) (w w' : Overheard Board) : Prop where
  bus : Continues earlier w.bus w'.bus
  calls : w.calls = w'.calls

namespace Alike

variable {earlier : Recording} {w w' : Overheard Board}

theorem make (alike : Alike earlier w w') (c : Bus.Call) :
    Alike earlier (w.make c) (w'.make c) where
  bus := (Continues.lockstep.call alike.bus c).2
  calls := congrArg (· ++ [c]) alike.calls

theorem lockstep : Bus.Lockstep (fun _ => True) (Alike earlier) := by
  refine Overheard.lockstep Continues.lockstep bus make fun {w w'} alike cycles addr _ => ?_
  have clock : Bus.clock w = Bus.clock w' := alike.bus.clock
  rw [clock]
  exact alike.make (.advance _)

end Alike

end Overheard

namespace Machine

open Board (Continues)

/-- Recordings are faithful to any calls, however they are taken, and so to any run: a run consists
of calls, and which calls they are does not depend on a recording. -/
theorem recording_faithful (m : Machine) :
    (∀ uses, m.bus.Faithful uses) ∧
    ∀ happenings,
      (m.after happenings).bus = Bus.after m.bus (m.calls happenings) ∧
      (m.recording.after happenings).bus = Bus.after m.bus.record (m.calls happenings) ∧
      m.results happenings = m.recording.results happenings ∧
      Cpu.Similar (Continues m.bus.events) True (m.after happenings)
        (m.recording.after happenings) := by
  refine ⟨m.bus.faithful, fun happenings => ?_⟩
  have same : Cpu.Similar (Continues m.bus.events) True m m.recording :=
    ⟨.record m.bus, rfl, rfl, rfl, rfl, rfl, fun _ => rfl⟩
  have heard : Cpu.Similar (Overheard.Alike m.bus.events) True m.overheard m.recording.overheard :=
    { same with bus := ⟨same.bus, rfl⟩ }
  obtain ⟨results, alike⟩ := same.after Continues.lockstep fun c _ => c.fastNext_true
  have calls : m.calls happenings = m.recording.calls happenings :=
    (heard.after Overheard.Alike.lockstep fun c _ => c.fastNext_true).2.bus.calls
  exact ⟨m.bus_after happenings, calls ▸ m.recording.bus_after happenings, results, alike⟩

end Machine

end Cycle6502
