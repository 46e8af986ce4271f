import Cycle6502.Proofs.Instruction.Textbook
import Cycle6502.Proofs.Run.Calls
import Cycle6502.Proofs.Timing.Stretch

/-! Time does not show. Nothing that a processor does depends on when it does it: whatever accesses
have to wait for the slow clock, and wherever the clock stands at the start, a run has the same
accesses and comes to the same state. Without slow accesses it takes the least time. -/

set_option autoImplicit false

namespace Cycle6502

/-- A bus with other slow accesses. What is slow may depend on all that the bus holds. -/
def Paced (β : Type) (_slow : β → UInt16 → Bool) : Type := β

section
variable {β : Type} {slow : β → UInt16 → Bool}

instance [bus : Bus β] : Bus (Paced β slow) := { bus with isSlow := slow }

instance [signalled : Signalled β] : Signalled (Paced β slow) := signalled

def Cpu.paced (c : Cpu β) (slow : β → UInt16 → Bool) : Cpu (Paced β slow) := { c with bus := c.bus }

end

def Bus.Call.cycles : Call → Nat
  | .advance cycles => cycles.toNat
  | _ => 0

namespace Overheard

variable {β : Type}

/-- The cycles that have passed, which do not wrap as a clock does. -/
def elapsed (w : Overheard β) : Nat := (w.calls.map Bus.Call.cycles).sum

theorem elapsed_make [Bus β] [Signalled β] (w : Overheard β) (c : Bus.Call) :
    (w.make c).elapsed = w.elapsed + c.cycles := by
  simp [elapsed, make]

end Overheard

def Cpu.elapsed {β : Type} [Bus β] [Signalled β] (c : Cpu β) (happenings : List Happening) : Nat :=
  (c.overheard.after happenings).bus.elapsed

namespace Board

theorem clock_drive (b : Board) (s : Signal) : (Signalled.drive b s).clock = b.clock := by
  rw [drive_eq]

theorem SameButTime.drive {b d : Board} (same : SameButTime b d) (s : Signal) :
    SameButTime (Signalled.drive b s) (Signalled.drive d s) := by
  rw [drive_eq, drive_eq]
  exact { same with lines := congrArg s.drives same.lines }

variable {slow slow' : Board → UInt16 → Bool}

theorem SameButTime.lockstep :
    Bus.Lockstep (β := Paced Board slow) (γ := Paced Board slow') (fun _ => True) SameButTime where
  toSimulation := { SameButTime.simulation with }
  stretchedWait same _ _ _ := (same.advance_left _).advance_right _
  acknowledgeNmi same := { same with lines := congrArg (·.acknowledgeNmi) same.lines }
  drive same s := same.drive s

theorem clock_call (b : Paced Board slow) (c : Bus.Call) :
    Bus.clock (Bus.call b c).2 = Bus.clock b + .ofNat c.cycles := by
  have still : Bus.clock b = Bus.clock b + .ofNat 0 := (UInt64.add_zero _).symm
  cases c with
  | write addr value => exact (clock_write b addr value).trans still
  | advance cycles => exact clock_advance b cycles
  | signal s => exact (clock_drive b s).trans still
  | _ => exact still

theorem clock_after (b : Paced Board slow) (calls : List Bus.Call) :
    Bus.clock (Bus.after b calls) = Bus.clock b + .ofNat (calls.map Bus.Call.cycles).sum := by
  induction calls generalizing b with
  | nil => exact (UInt64.add_zero _).symm
  | cons c rest ih =>
    have later := ih (Bus.call b c).2
    rw [clock_call, UInt64.add_assoc, ← UInt64.ofNat_add] at later
    rw [List.map_cons, List.sum_cons]
    exact later

/-- The boards are the same but for time, and no more has passed on the first one. -/
structure Behind (w : Overheard (Paced Board slow)) (w' : Overheard (Paced Board slow')) :
    Prop where
  same : SameButTime w.bus w'.bus
  elapsed : w.elapsed ≤ w'.elapsed

namespace Behind

variable {w : Overheard (Paced Board slow)} {w' : Overheard (Paced Board slow')}

theorem make (behind : Behind w w') (c c' : Bus.Call)
    (same : SameButTime (Bus.call w.bus c).2 (Bus.call w'.bus c').2)
    (longer : c.cycles ≤ c'.cycles) :
    Behind (w.make c) (w'.make c') where
  same := same
  elapsed := by
    rw [Overheard.elapsed_make, Overheard.elapsed_make]
    exact Nat.add_le_add behind.elapsed longer

theorem call (behind : Behind w w') (c : Bus.Call) : Behind (w.make c) (w'.make c) :=
  behind.make c c (SameButTime.lockstep.call behind.same c).2 (Nat.le_refl _)

theorem lockstep (never : ∀ b addr, slow b addr = false) :
    Bus.Lockstep (fun _ => True) (@Behind slow slow') := by
  refine Overheard.lockstep SameButTime.lockstep same call fun {w w'} behind cycles addr short => ?_
  have fast : Bus.isSlow w addr = false := never w.bus addr
  have waits := SameButTime.lockstep.stretchedWait behind.same cycles addr short
  refine behind.make (.advance _) (.advance _) waits ?_
  -- A stretch only adds to the wait as it is written, and does not make it wrap.
  rw [Bus.Call.cycles, Bus.Call.cycles, fast, Step.stretch_eq, if_neg Bool.false_ne_true,
    UInt32.add_zero, Step.toNat_stretched (by omega)]
  exact Nat.le_add_right _ _

end Behind

end Board

namespace Cpu

open Board (SameButTime)

variable {slow slow' : Board → UInt16 → Bool}

theorem clock_after (c : Cpu (Paced Board slow)) (happenings : List Happening) :
    (c.after happenings).clock = c.clock + .ofNat (c.elapsed happenings) := by
  rw [clock, c.bus_after, Board.clock_after]
  rfl

/-- Time does not show in a run: two processors that differ in their clocks only, on boards with any
slow accesses, have the same results and accesses and come to the same state. The one without slow
accesses is never the later one. -/
theorem paced_alike {c : Cpu (Paced Board slow)} {d : Cpu (Paced Board slow')}
    (similar : Similar SameButTime True c d) (happenings : List Happening) :
    c.results happenings = d.results happenings ∧
      Similar SameButTime True (c.after happenings) (d.after happenings) ∧
      ((∀ b addr, slow b addr = false) → c.clock = d.clock →
        d.clock.toNat + d.elapsed happenings < 2 ^ 64 →
        (c.after happenings).clock ≤ (d.after happenings).clock) := by
  obtain ⟨results, alike⟩ := similar.after SameButTime.lockstep fun e _ => e.fastNext_true
  refine ⟨results, alike, fun never together bounded => ?_⟩
  have start : Similar Board.Behind True c.overheard d.overheard :=
    { similar with bus := ⟨similar.bus, Nat.le_refl 0⟩ }
  obtain ⟨-, behind⟩ := start.after (Board.Behind.lockstep never) fun e _ => e.fastNext_true
  have least : c.elapsed happenings ≤ d.elapsed happenings := behind.bus.elapsed
  refine UInt64.le_iff_toNat_le.2 ?_
  rw [clock_after, clock_after, together]
  simp only [UInt64.toNat_add, UInt64.toNat_ofNat']
  omega

/-- A load from the slow bus, which takes one cycle more where that is slow. -/
theorem paced_alike_port :
    let c := (Machine.loaded [0xAD, 0x00, 0xFE]).paced fun _ _ => false
    let d := (Machine.loaded [0xAD, 0x00, 0xFE]).paced fun _ => isOneMegahertz
    Similar SameButTime True c d ∧ c.clock = d.clock ∧ d.elapsed [.step] = 5 ∧
      (c.after [.step]).clock = 4 ∧ (d.after [.step]).clock = 5 ∧
      Similar SameButTime True (c.after [.step]) (d.after [.step]) ∧
      (c.after [.step]).clock ≤ (d.after [.step]).clock := by
  intro c d
  have similar : Similar SameButTime True c d :=
    ⟨.refl _, rfl, rfl, rfl, rfl, rfl, fun _ => rfl⟩
  have elapsed : d.elapsed [.step] = 5 := by decide +kernel
  obtain ⟨-, alike, ordered⟩ := paced_alike similar [.step]
  exact ⟨similar, rfl, elapsed, by decide +kernel, by decide +kernel, alike,
    ordered (fun _ _ => rfl) rfl (by rw [elapsed]; decide)⟩

end Cpu

end Cycle6502
