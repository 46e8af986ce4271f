import Cycle6502.Memory
import Cycle6502.Micro.Latches
import Mathlib.Data.Nat.Bitwise

/-! Bytes and addresses as numbers. -/

set_option autoImplicit false

namespace Cycle6502

theorem forall_byte {P : UInt8 → Prop} (every : ∀ n < 256, P (.ofNat n)) (b : UInt8) : P b := by
  have holds := every b.toNat b.toNat_lt
  rwa [UInt8.ofNat_toNat] at holds

theorem and_sign (b : UInt8) : (b &&& 0x80 != 0) = decide (128 ≤ b.toNat) := by
  revert b
  exact forall_byte (by decide +kernel)

theorem wordOf_eq (low high : UInt8) :
    wordOf low high = .ofNat (low.toNat + 256 * high.toNat) := by
  have lowBound := low.toNat_lt
  have highBound := high.toNat_lt
  apply UInt16.toNat_inj.1
  have shifted : high.toNat <<< 8 % 2 ^ 16 = high.toNat <<< 8 := by
    rw [Nat.shiftLeft_eq]
    omega
  simp only [wordOf, UInt16.toNat_or, UInt16.toNat_shiftLeft, UInt8.toNat_toUInt16,
    UInt16.reduceToNat, UInt16.toNat_ofNat', Nat.reduceMod, shifted]
  rw [← Nat.shiftLeft_add_eq_or_of_lt lowBound, Nat.shiftLeft_eq]
  omega

theorem toNat_wordOf (low high : UInt8) :
    (wordOf low high).toNat = low.toNat + 256 * high.toNat := by
  have lowBound := low.toNat_lt
  have highBound := high.toNat_lt
  rw [wordOf_eq, UInt16.toNat_ofNat']
  omega

theorem wordOf_bytes (word : UInt16) : wordOf (lowByte word) (highByte word) = word := by
  have bound := word.toNat_lt
  have high : (word >>> 8).toNat = word.toNat / 256 := by
    rw [UInt16.toNat_shiftRight]
    exact Nat.shiftRight_eq_div_pow word.toNat 8
  apply UInt16.toNat_inj.1
  rw [toNat_wordOf, lowByte, highByte, UInt16.toNat_toUInt8, UInt16.toNat_toUInt8, high]
  omega

theorem toUInt16_add (base offset : UInt8) :
    (base + offset).toUInt16 = .ofNat ((base.toNat + offset.toNat) % 256) := by
  apply UInt16.toNat_inj.1
  rw [UInt8.toNat_toUInt16, UInt8.toNat_add, UInt16.toNat_ofNat']
  omega

theorem add_toUInt16 (base : UInt16) (offset : UInt8) :
    base + offset.toUInt16 = .ofNat ((base.toNat + offset.toNat) % 65536) := by
  apply UInt16.toNat_inj.1
  rw [UInt16.toNat_add, UInt8.toNat_toUInt16, UInt16.toNat_ofNat']
  omega

theorem and_page {n : Nat} (short : n < 2 ^ 16) : n &&& 0xFF00 = (n / 256) <<< 8 := by
  have mask : 0xFF00 = (2 ^ 8 - 1) <<< 8 := by decide
  have page : n / 256 = n >>> 8 := (Nat.shiftRight_eq_div_pow n 8).symm
  rw [mask, page]
  -- The low eight bits are cleared, the next eight are kept, and the number has no others.
  apply Nat.eq_of_testBit_eq
  intro i
  simp only [Nat.testBit_and, Nat.testBit_shiftLeft, Nat.testBit_shiftRight,
    Nat.testBit_two_pow_sub_one]
  by_cases low : 8 ≤ i
  · have place : 8 + (i - 8) = i := by omega
    by_cases high : i < 16
    · simp [low, place]
      omega
    · have clear : n.testBit i = false :=
        Nat.testBit_lt_two_pow (Nat.lt_of_lt_of_le short
          (Nat.pow_le_pow_right (by decide) (Nat.not_lt.1 high)))
      simp [low, place, clear]
  · simp [low]

theorem page_or_place (page place : UInt16) :
    (page &&& 0xFF00) ||| (place &&& 0x00FF) =
      .ofNat (page.toNat / 256 * 256 + place.toNat % 256) := by
  have pageBound := page.toNat_lt
  apply UInt16.toNat_inj.1
  have low : place.toNat &&& 0x00FF = place.toNat % 256 :=
    Nat.and_two_pow_sub_one_eq_mod _ 8
  simp only [UInt16.toNat_or, UInt16.toNat_and, UInt16.reduceToNat, UInt16.toNat_ofNat',
    and_page pageBound, low]
  rw [← Nat.shiftLeft_add_eq_or_of_lt (Nat.mod_lt _ (by decide)), Nat.shiftLeft_eq]
  omega

end Cycle6502
