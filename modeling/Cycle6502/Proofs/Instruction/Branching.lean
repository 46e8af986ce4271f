import Cycle6502.Proofs.Instruction.Address
import Cycle6502.Proofs.Timing.Clock

/-! Branches: when they are taken, where they lead, and the cycles that they take by themselves. -/

set_option autoImplicit false

namespace Cycle6502

def Textbook.taken (mnemonic : Mnemonic) (p : Flags) : Bool :=
  match mnemonic with
  | .bpl => !p.negative
  | .bmi => p.negative
  | .bvc => !p.overflow
  | .bvs => p.overflow
  | .bcc => !p.carry
  | .bcs => p.carry
  | .bne => !p.zero
  | .beq => p.zero
  | .bra => true
  | _ => false

namespace Machine

def branchEnd (m : Machine) : Nat := (m.pc.toNat + 2) % 65536

def destination (m : Machine) : Nat :=
  ((m.branchEnd + Textbook.signed (m.peek (m.pc + 1))) % 65536).toNat

/-- The cycles of a branch: one more if it is taken, and another one if that leads to a page that
is not the one of the byte behind it. -/
def branchCycles (m : Machine) (mnemonic : Mnemonic) : Nat :=
  if Textbook.taken mnemonic m.flags then
    if m.destination / 256 = m.branchEnd / 256 then 3 else 4
  else 2

end Machine

theorem samePage_eq (a b : UInt16) : samePage a b = decide (a.toNat / 256 = b.toNat / 256) := by
  have page (a : UInt16) : (a &&& 0xFF00).toNat = a.toNat / 256 * 256 := by
    have bound := a.toNat_lt
    rw [UInt16.toNat_and]
    exact (and_page bound).trans (Nat.shiftLeft_eq _ _)
  rw [samePage, Bool.eq_iff_iff, beq_iff_eq, decide_eq_true_iff, ← UInt16.toNat_inj, page, page]
  omega

theorem toNat_branchTarget (next : UInt16) (offset : UInt8) :
    (branchTarget next offset).toNat =
      ((next.toNat + Textbook.signed offset) % 65536).toNat := by
  have nextBound := next.toNat_lt
  have offsetBound := offset.toNat_lt
  have extended : (0xFF00 ||| offset.toUInt16).toNat = 0xFF00 + offset.toNat := by
    revert offset
    exact forall_byte (by decide +kernel)
  have sign : offset < 0x80 ↔ offset.toNat < 128 := UInt8.lt_iff_toNat_lt
  simp only [branchTarget, Textbook.signed, sign, UInt16.toNat_add]
  split
  · rw [UInt8.toNat_toUInt16]
    omega
  · rw [extended]
    omega

theorem Effect.perform_branch {i : Instruction} {b : Behaviour}
    (modelled : Behaviour.of? i = some b) (branches : b.isBranch) :
    ∃ e, b.effects = [e] ∧ ∀ (m : Machine) (l : Latches),
      e.perform m l = (m.branch (Textbook.taken i.mnemonic m.flags), l) := by
  obtain ⟨mnemonic, mode⟩ := i
  unfold Behaviour.of? at modelled
  split at modelled
  · cases modelled
    cases branches
  · cases mnemonic <;> cases modelled <;> first
      | exact absurd branches Bool.false_ne_true
      | refine ⟨_, rfl, fun m l => ?_⟩
    all_goals simp [perform, Textbook.taken, Flags.includes]

namespace Machine

theorem run_branch (m : Machine) {p : Microprogram} {i : Instruction} {b : Behaviour}
    (modelled : Behaviour.of? i = some b) (regular : p.Regular m.variant i b)
    (relative : i.mode = .relative) :
    p.run m.fetchByte.2 = m.fetchByte.2.branch (Textbook.taken i.mnemonic m.flags) := by
  obtain ⟨branches, steps⟩ := regular.branches relative
  obtain ⟨e, effects, performs⟩ := Effect.perform_branch modelled branches
  rw [Microprogram.run, steps, Behaviour.effectOps, effects]
  exact congrArg Prod.fst (performs m.fetchByte.2 {})

theorem clock_branch (m : Machine) (mnemonic : Mnemonic) :
    (m.fetchByte.2.branch (Textbook.taken mnemonic m.flags)).bus.clock =
      m.bus.clock + .ofNat (m.branchCycles mnemonic) := by
  obtain ⟨offset, fetched⟩ := m.reads_opcode.fetchByte
  have behind : m.fetchByte.2.fetchByte.2.pc.toNat = m.branchEnd := by
    rw [fetched.pc, UInt16.toNat_add]
    rfl
  have target : (branchTarget m.fetchByte.2.fetchByte.2.pc m.fetchByte.2.fetchByte.1).toNat =
      m.destination := by
    rw [toNat_branchTarget, behind, offset]
    rfl
  unfold Cpu.branch branchCycles
  cases taken : Textbook.taken mnemonic m.flags with
  | false =>
    simp only [clock_wait, clock_sampleInterrupts, clock_fetchByte, UInt64.add_assoc,
      Bool.false_eq_true, if_false]
    rfl
  | true =>
    simp only [clock_wait, clock_sampleInterrupts, UInt64.add_assoc, if_true, samePage_eq, behind,
      target, decide_eq_true_eq, eq_comm (a := m.branchEnd / 256)]
    split <;> rfl

end Machine

end Cycle6502
