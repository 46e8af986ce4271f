import Cycle6502.Proofs.Run.FirstPages

/-! The path for zero page and the stack does not show. It passes by the feedback register, which is
in neither, so a board without it does the same and records the same accesses by other names. -/

set_option autoImplicit false

namespace Cycle6502

def Plain (β : Type) : Type := β

section
variable {β : Type}

-- The two operations on zero page and the stack are left to the defaults of the class.
instance [bus : Bus β] : Bus (Plain β) where
  read := bus.read
  write := bus.write
  peek := bus.peek
  isSlow := bus.isSlow
  advance := bus.advance
  clock := bus.clock
  irqAsserted := bus.irqAsserted
  nmiAsserted := bus.nmiAsserted
  acknowledgeNmi := bus.acknowledgeNmi
  writeReport := bus.writeReport

instance [signalled : Signalled β] : Signalled (Plain β) where
  drive := signalled.drive
  report := signalled.report

def Cpu.plain (c : Cpu β) : Cpu (Plain β) := { c with bus := c.bus }

end

namespace BusEvent

def plain : BusEvent → BusEvent
  | .zeroPageRead addr value => .read addr value
  | .zeroPageWrite addr value => .write addr value
  | event => event

/-- An access to zero page or the stack by their own path goes there. -/
def InPlace : BusEvent → Prop
  | .zeroPageRead addr _ | .zeroPageWrite addr _ => FirstPages addr
  | _ => True

end BusEvent

def Recording.Renamed (start r s : Recording) : Prop :=
  ∃ gained : Array BusEvent, r = start.map (· ++ gained) ∧
    s = start.map (· ++ gained.map BusEvent.plain) ∧ ∀ event ∈ gained, event.InPlace

theorem Recording.Renamed.refl (r : Recording) : Renamed r r r :=
  ⟨#[], by simp, by simp, by simp⟩

theorem Recording.Renamed.add {start r s : Recording} (renamed : Renamed start r s)
    {event event' : BusEvent} (inPlace : event.InPlace) (named : event.plain = event') :
    Renamed start (r.add event) (s.add event') := by
  subst named
  obtain ⟨gained, rfl, rfl, every⟩ := renamed
  refine ⟨gained.push event, ?_, ?_, fun other member => ?_⟩
  · cases start <;> simp [Recording.add]
  · cases start <;> simp [Recording.add]
  · rcases Array.mem_push.1 member with member | same
    · exact every other member
    · exact same ▸ inPlace

namespace Board

structure Renamed (start : Recording) (b d : Board) : Prop where
  ram : b.ram = d.ram
  clock : b.clock = d.clock
  lines : b.lines = d.lines
  feedback : b.feedback = d.feedback
  events : Recording.Renamed start b.events d.events

namespace Renamed

variable {start : Recording} {b d : Board}

theorem peek (same : Renamed start b d) (addr : UInt16) : b.peek addr = d.peek addr := by
  simp only [Board.peek, same.ram, same.feedback]

theorem advance (same : Renamed start b d) (cycles : UInt32) :
    Renamed start (b.advance cycles) (d.advance cycles) :=
  { same with
    clock := congrArg (· + cycles.toUInt64) same.clock
    events := same.events.add trivial rfl }

theorem drive (same : Renamed start b d) (s : Signal) :
    Renamed start (Signalled.drive b s) (Signalled.drive d s) := by
  rw [drive_eq, drive_eq]
  exact { same with lines := congrArg s.drives same.lines }

theorem lockstep : Bus.Lockstep (β := Board) (γ := Plain Board) FirstPages (Renamed start) where
  stack := .stack
  read same addr :=
    have value := same.peek addr
    ⟨value, { same with events := same.events.add trivial (congrArg (BusEvent.read addr) value) }⟩
  write {b d} same addr value := by
    have added : Recording.Renamed start (b.events.add (.write addr value))
        (Board.events d |>.add (.write addr value)) := same.events.add trivial rfl
    simp only [Bus.write, Board.write]
    split
    · exact ⟨same.ram, same.clock, feedbackLines_congr same.lines same.feedback value, rfl, added⟩
    · exact ⟨congrArg (·.write addr value) same.ram, same.clock, same.lines, same.feedback, added⟩
  zeroPageRead {b d} same addr inside := by
    -- The register is not there, so the plain board reads RAM as well.
    have value : b.ram.read addr = Board.peek d addr := by
      rw [← same.peek, Board.peek, if_neg inside.ne_feedbackRegister]
    exact ⟨value,
      { same with events := same.events.add inside (congrArg (BusEvent.read addr) value) }⟩
  zeroPageWrite {b d} same addr value inside := by
    have written : Board.write d addr value =
        { d with ram := d.ram.write addr value, events := d.events.add (.write addr value) } :=
      if_neg inside.ne_feedbackRegister
    change Renamed start (b.zeroPageWrite addr value) (Board.write d addr value)
    rw [written]
    exact { same with
      ram := congrArg (·.write addr value) same.ram
      events := same.events.add inside rfl }
  advance same cycles := same.advance cycles
  irqAsserted same := congrArg (·.irq) same.lines
  nmiAsserted same := congrArg (·.nmi) same.lines
  stretchedWait {b d} same cycles addr _ := by
    have clock : Bus.clock b = Bus.clock (β := Plain Board) d := same.clock
    rw [clock]
    exact same.advance _
  acknowledgeNmi same := { same with lines := congrArg (·.acknowledgeNmi) same.lines }
  drive same s := same.drive s

end Renamed

end Board

namespace Machine

theorem plain_similar (m : Machine) :
    Cpu.Similar (Board.Renamed m.bus.events) True m m.plain :=
  ⟨⟨rfl, rfl, rfl, rfl, .refl _⟩, rfl, rfl, rfl, rfl, rfl, fun _ => rfl⟩

/-- The path for zero page and the stack does not show: on a board without it, a processor goes
through the same states and records the same accesses by other names. No access by that path leaves
the first two pages. -/
theorem plain_alike (m : Machine) (happenings : List Happening) :
    m.results happenings = m.plain.results happenings ∧
      Cpu.Similar (Board.Renamed m.bus.events) True (m.after happenings)
        (m.plain.after happenings) ∧
      ∃ events, (m.recording.after happenings).bus.events = some events ∧
        ∀ event ∈ events, event.InPlace := by
  have inside (m : Machine) : ∀ c ∈ m.starts happenings, c.FastNext FirstPages :=
    fun c _ => c.fastNext
  obtain ⟨results, alike⟩ := m.plain_similar.after Board.Renamed.lockstep (inside m)
  obtain ⟨-, recorded⟩ :=
    m.recording.plain_similar.after Board.Renamed.lockstep (inside m.recording)
  obtain ⟨events, gained, -, inPlace⟩ := recorded.bus.events
  refine ⟨results, alike, events, ?_, inPlace⟩
  rw [gained]
  simp [recording, Board.record]

end Machine

end Cycle6502
