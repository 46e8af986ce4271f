import Cycle6502.Proofs.Instruction.Textbook
import Cycle6502.Proofs.Run.FirstPages

/-! The byte of RAM behind the feedback register. The register stands in front of it on every path
to its address, and the path that passes by the register does not lead there: whatever the byte is,
no run tells, and none changes it. -/

set_option autoImplicit false

namespace Cycle6502

namespace Board

/-- The boards are the same but for the bytes of RAM behind their feedback registers, which are
known. -/
structure SameInFront (hidden hidden' : UInt8) (b d : Board) : Prop where
  ram : ∀ addr, addr ≠ feedbackRegister → b.ram.read addr = d.ram.read addr
  behind : b.ram.read feedbackRegister = hidden
  behind' : d.ram.read feedbackRegister = hidden'
  clock : b.clock = d.clock
  lines : b.lines = d.lines
  feedback : b.feedback = d.feedback
  events : b.events = d.events

namespace SameInFront

variable {hidden hidden' : UInt8} {b d : Board}

theorem peek (same : SameInFront hidden hidden' b d) (addr : UInt16) :
    b.peek addr = d.peek addr := by
  unfold Board.peek
  split
  · exact same.feedback
  case isFalse plain => exact same.ram addr plain

theorem replaced (b : Board) (value : UInt8) :
    SameInFront (b.ram.read feedbackRegister) value b
      { b with ram := b.ram.write feedbackRegister value } where
  ram addr plain := by rw [Memory.read_write _ _ _ _ (by decide), if_neg plain.symm]
  behind := rfl
  behind' := by rw [Memory.read_write _ _ _ _ (by decide), if_pos rfl]
  clock := rfl
  lines := rfl
  feedback := rfl
  events := rfl

theorem write_ram (same : SameInFront hidden hidden' b d) {addr : UInt16}
    (plain : addr ≠ feedbackRegister) (value : UInt8) (event : BusEvent) :
    SameInFront hidden hidden'
      { b with ram := b.ram.write addr value, events := b.events.add event }
      { d with ram := d.ram.write addr value, events := d.events.add event } where
  ram other front := by
    rw [Memory.read_write _ _ _ _ addr.toNat_lt, Memory.read_write _ _ _ _ addr.toNat_lt,
      same.ram other front]
  behind := by rw [Memory.read_write _ _ _ _ addr.toNat_lt, if_neg plain, same.behind]
  behind' := by rw [Memory.read_write _ _ _ _ addr.toNat_lt, if_neg plain, same.behind']
  clock := same.clock
  lines := same.lines
  feedback := same.feedback
  events := congrArg (·.add event) same.events

theorem advance (same : SameInFront hidden hidden' b d) (cycles : UInt32) :
    SameInFront hidden hidden' (b.advance cycles) (d.advance cycles) :=
  { same with
    clock := congrArg (· + cycles.toUInt64) same.clock
    events := congrArg (·.add (.wait cycles)) same.events }

theorem lockstep : Bus.Lockstep FirstPages (SameInFront hidden hidden') where
  stack := .stack
  read {b d} same addr := by
    refine ⟨same.peek addr, ?_⟩
    simp only [Bus.read, Board.read, same.peek addr]
    exact { same with events := congrArg (·.add (.read addr (d.peek addr))) same.events }
  write {b d} same addr value := by
    simp only [Bus.write, Board.write]
    split
    · exact { same with
        lines := feedbackLines_congr same.lines same.feedback value
        feedback := rfl
        events := congrArg (·.add (.write addr value)) same.events }
    case isFalse plain => exact same.write_ram plain value _
  zeroPageRead {b d} same addr inside := by
    have value := same.ram addr inside.ne_feedbackRegister
    refine ⟨value, ?_⟩
    simp only [Bus.zeroPageRead, Board.zeroPageRead, value]
    exact { same with
      events := congrArg (·.add (.zeroPageRead addr (d.ram.read addr))) same.events }
  zeroPageWrite same addr value inside := same.write_ram inside.ne_feedbackRegister value _
  advance same cycles := same.advance cycles
  irqAsserted same := congrArg (·.irq) same.lines
  nmiAsserted same := congrArg (·.nmi) same.lines
  stretchedWait {b d} same cycles addr _ := by
    have clock : Bus.clock b = Bus.clock d := same.clock
    rw [clock]
    exact same.advance _
  acknowledgeNmi same := { same with lines := congrArg (·.acknowledgeNmi) same.lines }
  drive {b d} same s := by
    rw [drive_eq, drive_eq]
    exact { same with lines := congrArg s.drives same.lines }

end SameInFront

end Board

namespace Machine

variable {hidden hidden' : UInt8} {m d : Machine}

def withHidden (m : Machine) (value : UInt8) : Machine :=
  { m with bus := { m.bus with ram := m.bus.ram.write feedbackRegister value } }

theorem withHidden_similar (m : Machine) (value : UInt8) :
    Cpu.Similar (Board.SameInFront (m.bus.ram.read feedbackRegister) value) True m
      (m.withHidden value) :=
  ⟨.replaced m.bus value, rfl, rfl, rfl, rfl, rfl, fun _ => rfl⟩

theorem disassembly_alike (alike : Cpu.Similar (Board.SameInFront hidden hidden') True m d)
    (addr : UInt16) : m.disassembly addr = d.disassembly addr := by
  have peek : m.peek = d.peek := funext alike.bus.peek
  rw [Cpu.disassembly, Cpu.disassembly, alike.variant, peek]

/-- The byte behind the feedback register is hidden: two machines that differ in nothing else go
through the same states with the same accesses, and keep the byte that they have there. -/
theorem hidden_alike (alike : Cpu.Similar (Board.SameInFront hidden hidden') True m d)
    (happenings : List Happening) :
    m.results happenings = d.results happenings ∧
      Cpu.Similar (Board.SameInFront hidden hidden') True (m.after happenings)
        (d.after happenings) ∧
      ∀ addr, (m.after happenings).disassembly addr = (d.after happenings).disassembly addr := by
  obtain ⟨results, remaining⟩ :=
    alike.after Board.SameInFront.lockstep fun (c : Machine) (_ : c ∈ m.starts happenings) =>
      c.fastNext
  exact ⟨results, remaining, disassembly_alike remaining⟩

/-- The register is counted up over another byte. -/
theorem hidden_alike_loaded :
    let m := loaded [0xEE, 0xFC, 0xBF]
    let d := m.withHidden 0x55
    let happenings := [.step, .signal .requestNmi, .step]
    Cpu.Similar (Board.SameInFront 0x00 0x55) True m d ∧
      m.results happenings = d.results happenings ∧
      Cpu.Similar (Board.SameInFront 0x00 0x55) True (m.after happenings) (d.after happenings) ∧
      ∀ addr, (m.after happenings).disassembly addr = (d.after happenings).disassembly addr := by
  intro m d happenings
  have behind : m.bus.ram.read feedbackRegister = 0x00 := read_loaded (by decide)
  have alike := withHidden_similar m 0x55
  rw [behind] at alike
  exact ⟨alike, hidden_alike alike happenings⟩

end Machine

end Cycle6502
