import Cycle6502.Proofs.Bus.Time
import Cycle6502.Proofs.Word

/-! What a byte that is written does to the board: it is found at its address again, and in the
feedback register it drives the interrupt lines. -/

set_option autoImplicit false

namespace Cycle6502.Board

structure Stored (b b' : Board) (addr : UInt16) (value : UInt8) : Prop where
  found : b'.peek addr = value
  others : ∀ other, other ≠ addr → b'.ram.read other = b.ram.read other
  elsewhere : addr ≠ feedbackRegister → b'.feedback = b.feedback ∧ b'.lines = b.lines
  register : addr = feedbackRegister →
    b'.ram = b.ram ∧ b'.feedback = value ∧
      b'.lines.requests = { b.lines.requests with feedback := value.toNat.testBit 0 } ∧
      b'.lines.nmi = (b.lines.nmi || (value.toNat.testBit 1 && !b.feedback.toNat.testBit 1))

theorem and_irq (value : UInt8) : (value &&& 0x01 != 0) = value.toNat.testBit 0 := by
  revert value
  exact forall_byte (by decide +kernel)

theorem and_nmi (value : UInt8) : (value &&& 0x02 != 0) = value.toNat.testBit 1 := by
  revert value
  exact forall_byte (by decide +kernel)

theorem raisesNmi_eq (b : Board) (value : UInt8) :
    b.raisesNmi value = (value.toNat.testBit 1 && !b.feedback.toNat.testBit 1) := by
  have clear : (b.feedback &&& 0x02 == 0) = !(b.feedback &&& 0x02 != 0) := (Bool.not_not _).symm
  rw [raisesNmi, clear, and_nmi, and_nmi]

theorem requests_feedbackLines (b : Board) (value : UInt8) :
    (b.feedbackLines value).requests =
      { b.lines.requests with feedback := value.toNat.testBit 0 } := by
  unfold feedbackLines
  rw [and_irq]
  cases value.toNat.testBit 0 <;> cases b.raisesNmi value <;>
    simp [InterruptLines.requestIrq, InterruptLines.clearIrq, InterruptLines.requestNmi,
      IrqSources.union, IrqSources.without]

theorem nmi_feedbackLines (b : Board) (value : UInt8) :
    (b.feedbackLines value).nmi =
      (b.lines.nmi || (value.toNat.testBit 1 && !b.feedback.toNat.testBit 1)) := by
  unfold feedbackLines
  rw [← raisesNmi_eq]
  cases value &&& 0x01 != 0 <;> cases b.raisesNmi value <;>
    simp [InterruptLines.requestIrq, InterruptLines.clearIrq, InterruptLines.requestNmi]

theorem Stored.of_ram {b b' : Board} {addr : UInt16} {value : UInt8}
    (plain : addr ≠ feedbackRegister) (ram : b'.ram = b.ram.write addr value)
    (feedback : b'.feedback = b.feedback) (lines : b'.lines = b.lines) :
    b.Stored b' addr value where
  found := by
    rw [peek, if_neg plain, ram, Memory.read_write _ _ _ _ addr.toNat_lt, if_pos rfl]
  others other different := by
    rw [ram, Memory.read_write _ _ _ _ addr.toNat_lt, if_neg different.symm]
  elsewhere _ := ⟨feedback, lines⟩
  register same := absurd same plain

theorem stored_write (b : Board) (addr : UInt16) (value : UInt8) :
    b.Stored (b.write addr value) addr value := by
  unfold write
  by_cases register : addr = feedbackRegister
  · rw [if_pos register]
    exact ⟨if_pos register, fun _ _ => rfl, fun plain => absurd register plain, fun _ =>
      ⟨rfl, rfl, b.requests_feedbackLines value, b.nmi_feedbackLines value⟩⟩
  · rw [if_neg register]
    exact .of_ram register rfl rfl rfl

theorem ne_feedbackRegister {addr : UInt16} (low : addr.toNat < 256) : addr ≠ feedbackRegister := by
  intro same
  rw [same] at low
  exact absurd low (by decide)

theorem stored_zeroPageWrite (b : Board) {addr : UInt16} (low : addr.toNat < 256) (value : UInt8) :
    b.Stored (b.zeroPageWrite addr value) addr value :=
  .of_ram (ne_feedbackRegister low) rfl rfl rfl

namespace Stored

variable {b b' c c' : Board} {addr : UInt16} {value : UInt8}

theorem of_left (stored : c.Stored b' addr value) (ram : c.ram = b.ram)
    (feedback : c.feedback = b.feedback) (lines : c.lines = b.lines) : b.Stored b' addr value := by
  obtain ⟨found, others, elsewhere, register⟩ := stored
  rw [ram] at others register
  rw [feedback] at elsewhere register
  rw [lines] at elsewhere register
  exact ⟨found, others, elsewhere, register⟩

theorem of_right (stored : b.Stored c' addr value) (same : SameButTime b' c') :
    b.Stored b' addr value where
  found := (same.peek addr).trans stored.found
  others other different := by rw [same.ram, stored.others other different]
  elsewhere plain := by
    rw [same.feedback, same.lines]
    exact stored.elsewhere plain
  register feedback := by
    rw [same.ram, same.feedback, same.lines]
    exact stored.register feedback

theorem nmi_of_back (back : b.Stored c addr (b.peek addr)) : c.lines.nmi = b.lines.nmi := by
  by_cases register : addr = feedbackRegister
  -- The register holds the byte already, so its second bit cannot rise.
  · have there : b.peek addr = b.feedback := if_pos register
    rw [(back.register register).2.2.2, there, Bool.and_not_self, Bool.or_false]
  · rw [(back.elsewhere register).2]

theorem again (back : b.Stored c addr (b.peek addr)) (stored : c.Stored b' addr value) :
    b.Stored b' addr value where
  found := stored.found
  others other different := (stored.others other different).trans (back.others other different)
  elsewhere plain :=
    ⟨(stored.elsewhere plain).1.trans (back.elsewhere plain).1,
      (stored.elsewhere plain).2.trans (back.elsewhere plain).2⟩
  register same := by
    have there : b.peek addr = b.feedback := if_pos same
    obtain ⟨ram, feedback, requests, -⟩ := back.register same
    obtain ⟨ram', feedback', requests', nmi'⟩ := stored.register same
    rw [requests] at requests'
    -- The edge of the second write is judged by what the first one left, which was there before.
    rw [back.nmi_of_back, feedback, there] at nmi'
    exact ⟨ram'.trans ram, feedback', requests', nmi'⟩

end Stored

end Cycle6502.Board
