import Cycle6502.Proofs.Bus.Time
import Cycle6502.Proofs.Timing.Folding

/-! Recordings only grow. What is recorded does not depend on what has been recorded before, which
stays in front of it. -/

set_option autoImplicit false

namespace Cycle6502

namespace Recording

def Continues (earlier r s : Recording) : Prop :=
  ∃ events, s = some events ∧ r = earlier.map (· ++ events)

theorem Continues.add {earlier r s : Recording} (continues : Continues earlier r s)
    (event : BusEvent) : Continues earlier (r.add event) (s.add event) := by
  obtain ⟨events, rfl, rfl⟩ := continues
  refine ⟨events.push event, rfl, ?_⟩
  cases earlier <;> simp [Recording.add]

theorem accesses_append (r : Recording) (events : Array BusEvent) :
    Recording.accesses (r.map (· ++ events)) =
      r.accesses.map (· ++ events.toList.filter (!·.isWait)) := by
  cases r <;> simp [accesses]

end Recording

namespace Board

structure Continues (earlier : Recording) (b d : Board) : Prop where
  ram : b.ram = d.ram
  clock : b.clock = d.clock
  lines : b.lines = d.lines
  feedback : b.feedback = d.feedback
  events : Recording.Continues earlier b.events d.events

namespace Continues

variable {earlier : Recording}

theorem record (b : Board) : Continues b.events b b.record :=
  ⟨rfl, rfl, rfl, rfl, #[], rfl, by simp⟩

theorem simulation : Bus.Simulation (fun _ => True) (Continues earlier) where
  stack _ := trivial
  read {b d} same addr := by
    have value : b.peek addr = d.peek addr := by simp only [Board.peek, same.ram, same.feedback]
    refine ⟨value, ?_⟩
    simp only [Bus.read, Board.read, value]
    exact { same with events := same.events.add _ }
  write {b d} same addr value := by
    have events := same.events.add (.write addr value)
    simp only [Bus.write, Board.write]
    split
    · exact ⟨same.ram, same.clock, feedbackLines_congr same.lines same.feedback value, rfl, events⟩
    · exact ⟨congrArg (·.write addr value) same.ram, same.clock, same.lines, same.feedback, events⟩
  zeroPageRead {b d} same addr _ := by
    have value : b.ram.read addr = d.ram.read addr := by rw [same.ram]
    refine ⟨value, ?_⟩
    simp only [Bus.zeroPageRead, Board.zeroPageRead, value]
    exact { same with events := same.events.add _ }
  zeroPageWrite same addr value _ :=
    { same with
      ram := congrArg (·.write addr value) same.ram
      events := same.events.add _ }
  advance same cycles :=
    { same with
      clock := congrArg (· + cycles.toUInt64) same.clock
      events := same.events.add _ }
  irqAsserted same := congrArg (·.irq) same.lines
  nmiAsserted same := congrArg (·.nmi) same.lines

end Continues

end Board

theorem MicroOp.performAll_gains (ops : List MicroOp) (m : Machine) (l : Latches) :
    ∃ data, (performAll ops m l).1.bus.events.accesses =
      m.bus.events.accesses.map (· ++ data) := by
  have start : Cpu.Similar (Board.Continues m.bus.events) False m { m with bus := m.bus.record } :=
    ⟨.record _, rfl, rfl, rfl, rfl, rfl, False.elim⟩
  obtain ⟨performed, -⟩ := performAll_similar Board.Continues.simulation ops l start
  obtain ⟨events, -, gained⟩ := performed.bus.events
  exact ⟨_, (congrArg Recording.accesses gained).trans (Recording.accesses_append _ events)⟩

end Cycle6502
