import Cycle6502.Microcode.Program
import Mathlib.Algebra.Ring.Nat

/-! How far the slow bus lengthens a wait. The stretch goes by parities alone, so a wait can be
taken in one piece or in several: only its last cycle decides. -/

set_option autoImplicit false

namespace Cycle6502.Step

theorem stretch_eq (cycles : UInt32) (slow : Bool) (now : UInt64) :
    stretch cycles slow now =
      if slow then UInt32.ofNat ((now.toNat + cycles.toNat) % 2 + 1) else 0 := by
  unfold stretch
  cases slow with
  | false => rfl
  | true =>
    -- Both masks take a parity, which the change of width keeps.
    have odd : (now &&& 1).toUInt32 = UInt32.ofNat (now.toNat % 2) := by
      apply UInt32.toNat_inj.1
      simp only [UInt64.toNat_toUInt32, UInt64.toNat_and, UInt64.reduceToNat, Nat.and_one_is_mod,
        UInt32.toNat_ofNat']
    have wait : cycles &&& 1 = UInt32.ofNat (cycles.toNat % 2) := by
      apply UInt32.toNat_inj.1
      simp only [UInt32.toNat_and, UInt32.reduceToNat, Nat.and_one_is_mod, UInt32.toNat_ofNat']
      omega
    rw [odd, wait]
    rcases Nat.mod_two_eq_zero_or_one now.toNat with even | odd <;>
      rcases Nat.mod_two_eq_zero_or_one cycles.toNat with even' | odd' <;>
      simp [Nat.add_mod, *]

theorem stretch_add (first last : Nat) (slow : Bool) (now : UInt64) :
    stretch (UInt32.ofNat (first + last)) slow now =
      stretch (UInt32.ofNat last) slow (now + UInt64.ofNat first) := by
  rw [stretch_eq, stretch_eq]
  congr 3
  simp only [UInt32.toNat_ofNat', UInt64.toNat_add, UInt64.toNat_ofNat']
  omega

theorem toNat_stretch_le (cycles : UInt32) (slow : Bool) (now : UInt64) :
    (stretch cycles slow now).toNat ≤ 2 := by
  rw [stretch_eq]
  split
  · rw [UInt32.toNat_ofNat']
    omega
  · exact Nat.zero_le 2

/-- The two extra cycles at most do not make a wait wrap. -/
theorem toNat_stretched {cycles : UInt32} (short : cycles.toNat < 2 ^ 32 - 2) (slow : Bool)
    (now : UInt64) :
    (cycles + stretch cycles slow now).toNat = cycles.toNat + (stretch cycles slow now).toNat := by
  have bound := toNat_stretch_le cycles slow now
  rw [UInt32.toNat_add]
  omega

end Cycle6502.Step
