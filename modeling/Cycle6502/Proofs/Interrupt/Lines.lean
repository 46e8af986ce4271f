import Cycle6502.Proofs.Bus.Stored
import Cycle6502.Proofs.Run.Calls
import Mathlib.Data.List.Induction

/-! The interrupt lines behind any history of a board. A device holds the IRQ line from a request of
its own to its next release, whatever the others do. The NMI latch remembers requests and rising bits
since it was last acknowledged, and the bit rises by the byte that was written before. -/

set_option autoImplicit false

namespace Cycle6502

inductive Device where
  | feedback
  | systemVia
  | userVia
  deriving DecidableEq, Repr

namespace IrqSources

variable (s t : IrqSources) (d : Device)

def has : Device → Bool
  | .feedback => s.feedback
  | .systemVia => s.systemVia
  | .userVia => s.userVia

theorem has_union : (s.union t).has d = (s.has d || t.has d) := by
  cases d <;> rfl

theorem has_without : (s.without t).has d = (s.has d && !t.has d) := by
  cases d <;> rfl

theorem any_iff : s.any = true ↔ ∃ d, s.has d = true := by
  constructor
  · intro some
    simp only [any, Bool.or_eq_true] at some
    rcases some with (held | held) | held
    · exact ⟨.feedback, held⟩
    · exact ⟨.systemVia, held⟩
    · exact ⟨.userVia, held⟩
  · rintro ⟨d, held⟩
    cases d <;> simp_all [has, any]

end IrqSources

namespace Bus

/-- What a call wants of the IRQ line on behalf of a device: to hold it or to let go of it, or
nothing. Bit 0 of a byte for the feedback register speaks for that device. -/
def Call.wants (d : Device) : Call → Option Bool
  | .write addr value =>
    if addr = feedbackRegister ∧ d = .feedback then some (value.toNat.testBit 0) else none
  | .signal (.requestIrq sources) => if sources.has d then some true else none
  | .signal (.clearIrq sources) => if sources.has d then some false else none
  | _ => none

def Call.feedback? : Call → Option UInt8
  | .write addr value => if addr = feedbackRegister then some value else none
  | _ => none

def lastFeedback (calls : List Call) : UInt8 := (calls.filterMap Call.feedback?).getLast?.getD 0

def Call.RequestsNmi (before : List Call) : Call → Prop
  | .signal .requestNmi => True
  | .write addr value => addr = feedbackRegister ∧ value.toNat.testBit 1 = true ∧
      (lastFeedback before).toNat.testBit 1 = false
  | _ => False

def Latched (calls : List Call) : Prop :=
  ∃ before c since, calls = before ++ c :: since ∧ c.RequestsNmi before ∧
    .acknowledgeNmi ∉ since

theorem latched_concat (calls : List Call) (c : Call) :
    Latched (calls ++ [c]) ↔ c.RequestsNmi calls ∨ Latched calls ∧ c ≠ .acknowledgeNmi := by
  constructor
  · rintro ⟨before, request, since, split, requests, unanswered⟩
    -- The request is the last call, or stands among the earlier ones.
    rcases List.eq_nil_or_concat since with rfl | ⟨since, last, rfl⟩
    · obtain ⟨rfl, same⟩ := List.append_inj' split rfl
      cases same
      exact .inl requests
    · rw [List.concat_eq_append] at split unanswered
      rw [← List.cons_append, ← List.append_assoc] at split
      obtain ⟨rfl, same⟩ := List.append_inj' split rfl
      cases same
      simp only [List.mem_append, List.mem_singleton, not_or] at unanswered
      exact .inr ⟨⟨before, request, since, rfl, requests, unanswered.1⟩, Ne.symm unanswered.2⟩
  · rintro (requests | ⟨⟨before, request, since, rfl, requests, unanswered⟩, other⟩)
    · exact ⟨calls, c, [], rfl, requests, List.not_mem_nil⟩
    · refine ⟨before, request, since ++ [c], by simp, requests, ?_⟩
      simp [unanswered, Ne.symm other]

end Bus

namespace Board

open Bus (Call Latched lastFeedback)

structure Reflects (b : Board) (calls : List Call) : Prop where
  requests : ∀ d, b.lines.requests.has d = (calls.filterMap (·.wants d)).getLast?.getD false
  nmi : b.lines.nmi = true ↔ Latched calls
  feedback : b.feedback = lastFeedback calls

namespace Reflects

variable {b b' : Board} {calls : List Call} {c : Call}

/-- One more call: a device that it names follows it, and the others stay as they are. -/
theorem concat (reflects : b.Reflects calls)
    (requests : ∀ d, b'.lines.requests.has d = (c.wants d).getD (b.lines.requests.has d))
    (nmi : b'.lines.nmi = true ↔
      c.RequestsNmi calls ∨ b.lines.nmi = true ∧ c ≠ .acknowledgeNmi)
    (feedback : b'.feedback = c.feedback?.getD b.feedback) : b'.Reflects (calls ++ [c]) where
  requests d := by
    rw [requests, reflects.requests, List.filterMap_append]
    cases wanted : c.wants d <;> simp [wanted]
  nmi := by rw [nmi, reflects.nmi, Bus.latched_concat]
  feedback := by
    rw [feedback, reflects.feedback, lastFeedback, lastFeedback, List.filterMap_append]
    cases written : c.feedback? <;> simp [written]

theorem idle (reflects : b.Reflects calls) (lines : b'.lines = b.lines)
    (feedback : b'.feedback = b.feedback) (wants : ∀ d, c.wants d = none)
    (silent : ¬ c.RequestsNmi calls) (keeps : c ≠ .acknowledgeNmi) (unwritten : c.feedback? = none) :
    b'.Reflects (calls ++ [c]) := by
  refine reflects.concat (fun d => ?_) ?_ ?_
  · rw [lines, wants, Option.getD_none]
  · rw [lines]
    simp [silent, keeps]
  · rw [feedback, unwritten, Option.getD_none]

theorem write (reflects : b.Reflects calls) (addr : UInt16) (value : UInt8) :
    (b.write addr value).Reflects (calls ++ [.write addr value]) := by
  have stored := b.stored_write addr value
  by_cases register : addr = feedbackRegister
  · obtain ⟨-, feedback, requests, nmi⟩ := stored.register register
    refine reflects.concat (fun d => ?_) ?_ ?_
    · rw [requests]
      cases d <;> simp [IrqSources.has, Call.wants, register]
    · rw [nmi, Bool.or_eq_true, Bool.and_eq_true, Bool.not_eq_true', reflects.feedback]
      simp [Call.RequestsNmi, register, or_comm]
    · rw [feedback, Call.feedback?, if_pos register, Option.getD_some]
  · obtain ⟨feedback, lines⟩ := stored.elsewhere register
    exact reflects.idle lines feedback (by simp [Call.wants, register])
      (by simp [Call.RequestsNmi, register]) (by simp) (by simp [Call.feedback?, register])

theorem signal (reflects : b.Reflects calls) (s : Signal) :
    (Signalled.drive b s).Reflects (calls ++ [.signal s]) := by
  rw [drive_eq]
  cases s with
  | requestIrq sources =>
    refine reflects.concat (fun d => ?_) ?_ rfl
    · simp only [Signal.drives, InterruptLines.requestIrq, IrqSources.has_union, Call.wants]
      cases sources.has d <;> simp
    · simp [Signal.drives, InterruptLines.requestIrq, Call.RequestsNmi]
  | clearIrq sources =>
    refine reflects.concat (fun d => ?_) ?_ rfl
    · simp only [Signal.drives, InterruptLines.clearIrq, IrqSources.has_without, Call.wants]
      cases sources.has d <;> simp
    · simp [Signal.drives, InterruptLines.clearIrq, Call.RequestsNmi]
  | requestNmi =>
    refine reflects.concat (fun d => rfl) ?_ rfl
    simp [Signal.drives, InterruptLines.requestNmi, Call.RequestsNmi]

theorem call (reflects : b.Reflects calls) (c : Call) :
    (Bus.call b c).2.Reflects (calls ++ [c]) := by
  cases c with
  | write addr value => exact reflects.write addr value
  | signal s => exact reflects.signal s
  | acknowledgeNmi =>
    refine reflects.concat (fun d => rfl) ?_ rfl
    simp [Bus.call, Bus.acknowledgeNmi, acknowledgeNmi, InterruptLines.acknowledgeNmi,
      Call.RequestsNmi]
  -- Zero page and the stack have no register, at whatever address they are reached.
  | _ => exact reflects.idle rfl rfl (fun _ => rfl) id (by simp) rfl

end Reflects

theorem reflects_after (calls : List Call) : (Bus.after new calls).Reflects calls := by
  induction calls using List.reverseRecOn with
  | nil =>
    refine ⟨fun d => by cases d <;> rfl, ?_, rfl⟩
    simp [Latched, Bus.after, new]
  | append_singleton calls c reflects =>
    rw [Bus.after_concat]
    exact reflects.call c

/-- The lines behind any calls of a new board, in any order. The IRQ line is held if the latest call
that names some device is a request; a release is for the devices that it names; the NMI latch is
set if an NMI has been asked for since the last acknowledgement; and the register reads as the byte
last written. -/
theorem lines_after (calls : List Call) :
    let b := Bus.after new calls
    (Bus.irqAsserted b = true ↔ ∃ d, (calls.filterMap (·.wants d)).getLast? = some true) ∧
    (∀ sources d,
      (Bus.after new (calls ++ [.signal (.clearIrq sources)])).lines.requests.has d =
        (b.lines.requests.has d && !sources.has d)) ∧
    (Bus.nmiAsserted b = true ↔
      ∃ before c since, calls = before ++ c :: since ∧ c.RequestsNmi before ∧
        .acknowledgeNmi ∉ since) ∧
    (Bus.read b feedbackRegister).1 = lastFeedback calls := by
  intro b
  have reflects := reflects_after calls
  refine ⟨?_, fun sources d => ?_, reflects.nmi, ?_⟩
  · have held : Bus.irqAsserted b = b.lines.requests.any := rfl
    rw [held, IrqSources.any_iff]
    refine exists_congr fun d => ?_
    rw [reflects.requests]
    cases (calls.filterMap (·.wants d)).getLast? <;> simp
  · rw [Bus.after_concat]
    exact IrqSources.has_without _ _ _
  · have register : b.peek feedbackRegister = b.feedback := if_pos rfl
    exact register.trans reflects.feedback

end Board

end Cycle6502
