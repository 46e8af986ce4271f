import Cycle6502.Proofs.Word
import Mathlib.Data.Nat.Digits.Lemmas
import Mathlib.Tactic.LinearCombination
import Mathlib.Tactic.Ring

/-! Numbers of many bytes, the lowest byte first, and passes over them. A pass takes one byte after
the other and hands a state on, of which a carry is part. -/

set_option autoImplicit false

namespace Cycle6502.Multibyte

/-- The number that some bytes are, each of them a digit of it. -/
def number (base : Nat) (digit : UInt8 → Nat) (bytes : List UInt8) : Nat :=
  Nat.ofDigits base (bytes.map digit)

def unsigned (bytes : List UInt8) : Nat := number 256 UInt8.toNat bytes

def signed (bytes : List UInt8) : Int :=
  if 2 * unsigned bytes < 256 ^ bytes.length then unsigned bytes
  else unsigned bytes - 256 ^ bytes.length

def overflows (count : Nat) (n : Int) : Bool := 2 * n < -256 ^ count ∨ 256 ^ count ≤ 2 * n

def IsDecimal (b : UInt8) : Prop := b.toNat / 16 ≤ 9 ∧ b.toNat % 16 ≤ 9

instance (b : UInt8) : Decidable (IsDecimal b) := inferInstanceAs (Decidable (_ ∧ _))

def tens (b : UInt8) : Nat := 10 * (b.toNat / 16) + b.toNat % 16

theorem tens_lt {b : UInt8} (decimal : IsDecimal b) : tens b < 100 := by
  obtain ⟨high, low⟩ := decimal
  rw [tens]
  omega

theorem tens_ofNat {high low : Nat} (highDigit : high ≤ 9) (lowDigit : low ≤ 9) :
    IsDecimal (.ofNat (16 * high + low)) ∧ tens (.ofNat (16 * high + low)) = 10 * high + low := by
  simp only [IsDecimal, tens, UInt8.toNat_ofNat']
  omega

theorem toNat_decide (p : Prop) [Decidable p] : (decide p).toNat = if p then 1 else 0 := by
  by_cases holds : p <;> simp [holds]

section
variable {σ α : Type}

def upward (step : σ → α → UInt8 × σ) : List α → σ → List UInt8 × σ
  | [], s => ([], s)
  | x :: rest, s =>
    let (byte, s) := step s x
    let (bytes, s) := upward step rest s
    (byte :: bytes, s)

def downward (step : σ → α → UInt8 × σ) : List α → σ → List UInt8 × σ
  | [], s => ([], s)
  | x :: rest, s =>
    let (bytes, s) := downward step rest s
    let (byte, s) := step s x
    (byte :: bytes, s)

@[simp] theorem length_upward (step : σ → α → UInt8 × σ) (xs : List α) (s : σ) :
    (upward step xs s).1.length = xs.length := by
  induction xs generalizing s with
  | nil => rfl
  | cons x rest ih => simp [upward, ih]

@[simp] theorem length_downward (step : σ → α → UInt8 × σ) (xs : List α) (s : σ) :
    (downward step xs s).1.length = xs.length := by
  induction xs with
  | nil => rfl
  | cons x rest ih => simp [downward, ih]

end

theorem number_cons (base : Nat) (digit : UInt8 → Nat) (b : UInt8) (rest : List UInt8) :
    number base digit (b :: rest) = digit b + base * number base digit rest := by
  simp [number, Nat.ofDigits_cons]

theorem number_lt {base : Nat} (positive : 1 < base) {digit : UInt8 → Nat} {bytes : List UInt8}
    (bounded : ∀ b ∈ bytes, digit b < base) : number base digit bytes < base ^ bytes.length := by
  have below := Nat.ofDigits_lt_base_pow_length positive (List.forall_mem_map.2 bounded)
  rwa [List.length_map] at below

theorem unsigned_lt (bytes : List UInt8) : unsigned bytes < 256 ^ bytes.length :=
  number_lt (by decide) fun b _ => b.toNat_lt

theorem eq_of_unsigned {xs ys : List UInt8} (length : xs.length = ys.length)
    (same : unsigned xs = unsigned ys) : xs = ys := by
  have digits : xs.map UInt8.toNat = ys.map UInt8.toNat := by
    have bounded (bytes : List UInt8) : ∀ n ∈ bytes.map UInt8.toNat, n < 256 :=
      List.forall_mem_map.2 fun b _ => b.toNat_lt
    exact Nat.ofDigits_inj_of_len_eq (by decide) (by simp [length]) (bounded xs) (bounded ys) same
  exact List.map_injective_iff.2 (fun _ _ => UInt8.toNat_inj.1) digits

/-- What a word and its carry are, if together they make a number and the carry counts from
`rest`. -/
theorem carry_of_total {count value : Nat} {carry : Bool} {rest total : Int} (below : value < count)
    (equation : (value : Int) + count * (carry.toNat - rest) = total) :
    (value : Int) = total % count ∧ carry = decide (count * (1 - rest) ≤ total) := by
  have positive : (0 : Int) < count := by omega
  have unique := (Int.ediv_emod_unique positive).2 ⟨equation, by omega, by exact_mod_cast below⟩
  refine ⟨unique.2.symm, ?_⟩
  -- The carry counts as often as there are values.
  have carried : count * (1 - rest) = count + count * (0 - rest) := by ring
  cases carry with
  | false =>
    have equation : (value : Int) + count * (0 - rest) = total := equation
    exact (decide_eq_false (by omega)).symm
  | true =>
    have equation : (value : Int) + count * (1 - rest) = total := equation
    exact (decide_eq_true (by omega)).symm

theorem eq_of_total {xs ys : List UInt8} {k l : Bool} (length : xs.length = ys.length)
    (same : unsigned xs + 256 ^ xs.length * k.toNat = unsigned ys + 256 ^ xs.length * l.toNat) :
    xs = ys ∧ k = l := by
  have xsBound := unsigned_lt xs
  have ysBound := unsigned_lt ys
  rw [← length] at ysBound
  cases k <;> cases l <;>
    simp only [Bool.toNat_false, Bool.toNat_true, Nat.mul_zero, Nat.mul_one] at same
  · exact ⟨eq_of_unsigned length (by omega), rfl⟩
  · omega
  · omega
  · exact ⟨eq_of_unsigned length (by omega), rfl⟩

theorem testBit_top {v top : Nat} (below : v < 2 ^ (top + 1)) :
    v.testBit top = decide (2 ^ top ≤ v) := by
  by_cases upper : 2 ^ top ≤ v
  · rw [Nat.testBit_of_two_pow_le_and_two_pow_add_one_gt upper below, decide_eq_true upper]
  · rw [Nat.testBit_lt_two_pow (Nat.not_le.1 upper), decide_eq_false upper]

section
variable (b : UInt8) {rest : List UInt8}

theorem exists_pow (some : rest ≠ []) : ∃ half : Nat, 256 ^ rest.length = 2 * half := by
  obtain ⟨count, length⟩ := Nat.exists_eq_succ_of_ne_zero (List.length_pos_iff.2 some).ne'
  refine ⟨128 * 256 ^ count, ?_⟩
  rw [length, Nat.pow_succ]
  omega

theorem signed_cons (some : rest ≠ []) : signed (b :: rest) = b.toNat + 256 * signed rest := by
  obtain ⟨half, even⟩ := exists_pow some
  have byte := b.toNat_lt
  have more : (256 : Int) ^ rest.length = 2 * half := by exact_mod_cast even
  -- The first byte is too small to make a difference to the sign.
  simp only [signed, unsigned, number_cons, List.length_cons, pow_succ, even, more]
  split <;> split <;> omega

theorem signed_neg_cons (some : rest ≠ []) : signed (b :: rest) < 0 ↔ signed rest < 0 := by
  have byte := b.toNat_lt
  rw [signed_cons b some]
  omega

theorem overflows_cons (some : rest ≠ []) (n : Int) :
    overflows (b :: rest).length (b.toNat + 256 * n) = overflows rest.length n := by
  obtain ⟨half, even⟩ := exists_pow some
  have byte := b.toNat_lt
  have more : (256 : Int) ^ rest.length = 2 * half := by exact_mod_cast even
  simp only [overflows, List.length_cons, pow_succ, more, decide_eq_decide]
  omega

end

end Cycle6502.Multibyte
