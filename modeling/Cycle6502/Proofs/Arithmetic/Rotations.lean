import Cycle6502.Cpu.Execute
import Cycle6502.Isa.Behaviour
import Cycle6502.Proofs.Arithmetic.Multibyte
import Cycle6502.Proofs.Instruction.Effects

/-! Rotations of numbers of many bytes. The carry is one bit more at the end that the bytes move
away from: a pass to the left doubles the number, one to the right halves it, and each takes the
other back. -/

set_option autoImplicit false

namespace Cycle6502

open Multibyte

namespace Cpu

variable {β : Type} [Bus β]

def modify (mnemonic : Mnemonic) (c : Cpu β) (b : UInt8) : UInt8 × Cpu β :=
  let effects := ((Behaviour.ofMnemonic? mnemonic).map (·.effects)).getD []
  let (d, l) := effects.foldl (fun (c, l) e => e.perform c l) (c, { operand := b })
  (l.operand, d)

def rotateLeft (c : Cpu β) (bytes : List UInt8) : List UInt8 × Cpu β :=
  upward (modify .rol) bytes c

def rotateRight (c : Cpu β) (bytes : List UInt8) : List UInt8 × Cpu β :=
  downward (modify .ror) bytes c

theorem modify_rol (c : Cpu β) (b : UInt8) :
    (modify .rol c b).1.toNat + 256 * (modify .rol c b).2.flags.carry.toNat =
      2 * b.toNat + c.flags.carry.toNat := by
  have byte := b.toNat_lt
  have carryBound := c.flags.carry.toNat_le
  have rotated := Alu.rotate_left b c.flags.carry false
  show (Alu.rotate b c.flags.carry true false).1.toNat +
    256 * (Alu.rotate b c.flags.carry true false).2.toNat = _
  simp only [rotated, UInt8.toNat_ofNat', Bool.not_false, Bool.and_true, toNat_decide]
  split <;> omega

theorem modify_ror (c : Cpu β) (b : UInt8) :
    2 * (modify .ror c b).1.toNat + (modify .ror c b).2.flags.carry.toNat =
      b.toNat + 256 * c.flags.carry.toNat := by
  have byte := b.toNat_lt
  have carryBound := c.flags.carry.toNat_le
  have rotated := Alu.rotate_right b c.flags.carry false
  show 2 * (Alu.rotate b c.flags.carry false false).1.toNat +
    (Alu.rotate b c.flags.carry false false).2.toNat = _
  simp only [rotated, UInt8.toNat_ofNat', Bool.not_false, Bool.and_true, toNat_decide]
  split <;> omega

@[simp] theorem length_rotateLeft (c : Cpu β) (bytes : List UInt8) :
    (c.rotateLeft bytes).1.length = bytes.length := length_upward _ bytes c

@[simp] theorem length_rotateRight (c : Cpu β) (bytes : List UInt8) :
    (c.rotateRight bytes).1.length = bytes.length := length_downward _ bytes c

theorem rotateLeft_total (c : Cpu β) (bytes : List UInt8) :
    unsigned (c.rotateLeft bytes).1 +
        256 ^ bytes.length * (c.rotateLeft bytes).2.flags.carry.toNat =
      2 * unsigned bytes + c.flags.carry.toNat := by
  induction bytes generalizing c with
  | nil => simp [rotateLeft, upward, unsigned, number]
  | cons b rest ih =>
    have first := modify_rol c b
    have later := ih (modify .rol c b).2
    have unfolded : c.rotateLeft (b :: rest) =
      ((modify .rol c b).1 :: ((modify .rol c b).2.rotateLeft rest).1,
        ((modify .rol c b).2.rotateLeft rest).2) := rfl
    simp only [unfolded, unsigned, number_cons, List.length_cons] at later ⊢
    linear_combination first + 256 * later

theorem rotateRight_total (c : Cpu β) (bytes : List UInt8) :
    2 * unsigned (c.rotateRight bytes).1 + (c.rotateRight bytes).2.flags.carry.toNat =
      unsigned bytes + 256 ^ bytes.length * c.flags.carry.toNat := by
  induction bytes with
  | nil => simp [rotateRight, downward, unsigned, number]
  | cons b rest ih =>
    have last := modify_ror (c.rotateRight rest).2 b
    have unfolded : c.rotateRight (b :: rest) =
      ((modify .ror (c.rotateRight rest).2 b).1 :: (c.rotateRight rest).1,
        (modify .ror (c.rotateRight rest).2 b).2) := rfl
    simp only [unfolded, unsigned, number_cons, List.length_cons] at ih ⊢
    linear_combination last + 256 * ih

theorem rotateLeft_carry (c : Cpu β) {bytes : List UInt8} (some : bytes ≠ []) :
    (c.rotateLeft bytes).2.flags.carry = (unsigned bytes).testBit (8 * bytes.length - 1) := by
  have below := unsigned_lt (c.rotateLeft bytes).1
  have bound := unsigned_lt bytes
  have carryBound := c.flags.carry.toNat_le
  have total : (unsigned (c.rotateLeft bytes).1 : Int) +
      (256 ^ bytes.length : Nat) * ((c.rotateLeft bytes).2.flags.carry.toNat - 0) =
        2 * unsigned bytes + c.flags.carry.toNat := by
    rw [sub_zero]
    exact_mod_cast rotateLeft_total c bytes
  have top : 256 ^ bytes.length = 2 ^ (8 * bytes.length - 1 + 1) := by
    have positive := List.length_pos_iff.2 some
    rw [show 256 = 2 ^ 8 from rfl, ← Nat.pow_mul]
    congr 1
    omega
  rw [length_rotateLeft] at below
  rw [(carry_of_total below total).2, testBit_top (top ▸ bound), decide_eq_decide, top,
    Nat.pow_succ]
  generalize 2 ^ (8 * bytes.length - 1) = half
  push_cast
  omega

theorem rotateRight_carry (c : Cpu β) {bytes : List UInt8} (some : bytes ≠ []) :
    (c.rotateRight bytes).2.flags.carry = (unsigned bytes).testBit 0 := by
  have total := rotateRight_total c bytes
  obtain ⟨half, even⟩ := exists_pow some
  rw [even, Nat.mul_assoc] at total
  have low : (c.rotateRight bytes).2.flags.carry.toNat = unsigned bytes % 2 := by
    have carryBound := (c.rotateRight bytes).2.flags.carry.toNat_le
    omega
  rw [Nat.testBit_zero, ← low]
  cases (c.rotateRight bytes).2.flags.carry <;> rfl

def Restores (first second : Cpu β → List UInt8 → List UInt8 × Cpu β) (c : Cpu β)
    (bytes : List UInt8) : Prop :=
  let turned := first c bytes
  (second turned.2 turned.1).1 = bytes ∧ (second turned.2 turned.1).2.flags.carry = c.flags.carry

theorem rotateLeft_rotateRight (c : Cpu β) (bytes : List UInt8) :
    Restores rotateRight rotateLeft c bytes := by
  let turned := c.rotateRight bytes
  have right := rotateRight_total c bytes
  have left := rotateLeft_total turned.2 turned.1
  have length : turned.1.length = bytes.length := length_rotateRight c bytes
  have same : (turned.2.rotateLeft turned.1).1.length = bytes.length := by simp [length]
  refine eq_of_total same ?_
  rw [same, ← right, ← left, length]

theorem rotateRight_rotateLeft (c : Cpu β) (bytes : List UInt8) :
    Restores rotateLeft rotateRight c bytes := by
  let turned := c.rotateLeft bytes
  have left := rotateLeft_total c bytes
  have right := rotateRight_total turned.2 turned.1
  have length : turned.1.length = bytes.length := length_rotateLeft c bytes
  have same : (turned.2.rotateRight turned.1).1.length = bytes.length := by simp [length]
  rw [length, left] at right
  -- Twice a number and one bit more are told apart by the remainder.
  have carryIn := c.flags.carry.toNat_le
  have carryOut := (turned.2.rotateRight turned.1).2.flags.carry.toNat_le
  have bit : (turned.2.rotateRight turned.1).2.flags.carry.toNat = c.flags.carry.toNat := by omega
  have whole : unsigned (turned.2.rotateRight turned.1).1 = unsigned bytes := by omega
  refine eq_of_total same ?_
  rw [bit, whole]

theorem modify_logical (c : Cpu β) (b : UInt8) :
    let clear := { c with flags := { c.flags with carry := false } }
    modify .asl c b = modify .rol clear b ∧ modify .lsr c b = modify .ror clear b := by
  intro clear
  have rotated (left : Bool) (l : Latches) :
      (Effect.rotate left true).perform c l = (Effect.rotate left false).perform clear l := by
    simp only [Effect.perform, Alu.rotate, clear, Bool.not_true, Bool.and_false, Bool.false_and]
    rfl
  exact ⟨congrArg (fun (d, l) => (l.operand, d)) (rotated true { operand := b }),
    congrArg (fun (d, l) => (l.operand, d)) (rotated false { operand := b })⟩

structure Rotations (c : Cpu β) (bytes : List UInt8) : Prop where
  lengths :
    (c.rotateLeft bytes).1.length = bytes.length ∧ (c.rotateRight bytes).1.length = bytes.length
  left : unsigned (c.rotateLeft bytes).1 =
    (2 * unsigned bytes + c.flags.carry.toNat) % 256 ^ bytes.length
  leftCarry : (c.rotateLeft bytes).2.flags.carry =
    if bytes = [] then c.flags.carry else (unsigned bytes).testBit (8 * bytes.length - 1)
  right : unsigned (c.rotateRight bytes).1 =
    (unsigned bytes + c.flags.carry.toNat * 256 ^ bytes.length) / 2
  rightCarry : (c.rotateRight bytes).2.flags.carry =
    if bytes = [] then c.flags.carry else (unsigned bytes).testBit 0

theorem rotations (c : Cpu β) (bytes : List UInt8) : Rotations c bytes where
  lengths := ⟨length_rotateLeft c bytes, length_rotateRight c bytes⟩
  left := by
    have below := unsigned_lt (c.rotateLeft bytes).1
    rw [length_rotateLeft] at below
    rw [← rotateLeft_total, Nat.add_mul_mod_self_left, Nat.mod_eq_of_lt below]
  leftCarry := by
    split
    case isTrue none =>
      subst none
      rfl
    case isFalse some => exact rotateLeft_carry c some
  right := by
    have total := rotateRight_total c bytes
    have carryBound := (c.rotateRight bytes).2.flags.carry.toNat_le
    rw [Nat.mul_comm (256 ^ bytes.length)] at total
    omega
  rightCarry := by
    split
    case isTrue none =>
      subst none
      rfl
    case isFalse some => exact rotateRight_carry c some

/-- Rotations of numbers of many bytes, in both directions and back, and the shifts. -/
theorem rotate_bytes (c : Cpu β) (bytes : List UInt8) :
    Rotations c bytes ∧
      Restores rotateRight rotateLeft c bytes ∧ Restores rotateLeft rotateRight c bytes ∧
      ∀ b, let clear := { c with flags := { c.flags with carry := false } }
        modify .asl c b = modify .rol clear b ∧ modify .lsr c b = modify .ror clear b :=
  ⟨rotations c bytes, rotateLeft_rotateRight c bytes, rotateRight_rotateLeft c bytes,
    modify_logical c⟩

end Cpu

end Cycle6502
