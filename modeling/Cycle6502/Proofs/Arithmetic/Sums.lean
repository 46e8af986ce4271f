import Cycle6502.Cpu.Execute
import Cycle6502.Proofs.Arithmetic.Multibyte
import Cycle6502.Proofs.Instruction.Effects

/-! Sums and differences of numbers of many bytes, byte by byte through the accumulator. The carry
that an operation leaves is what the next one needs, in binary and in decimal arithmetic. -/

set_option autoImplicit false

namespace Cycle6502

open Multibyte

namespace Alu

/-- An operation is right in one column of numbers: what it leaves is a digit again and, with the
carry, what the column comes to. The second operand counts `sign` times, and the carry from `rest`,
which it is when nothing is carried. -/
structure Columns (op : UInt8 → UInt8 → Bool → Bool → Result) (decimal : Bool) (base : Nat)
    (digit : UInt8 → Nat) (Fits : UInt8 → Prop) (sign rest : Int) : Prop where
  large : 1 < base
  bounded : ∀ {b}, Fits b → digit b < base
  fits : ∀ {a b} (carry : Bool), Fits a → Fits b → Fits (op a b carry decimal).value
  equation : ∀ {a b} (carry : Bool), Fits a → Fits b →
    let r := op a b carry decimal
    (digit r.value : Int) + base * (r.carry.toNat - rest) =
      digit a + sign * digit b + (carry.toNat - rest)

theorem columns_add : Columns add false 256 UInt8.toNat (fun _ => True) 1 0 where
  large := by decide
  bounded _ := UInt8.toNat_lt _
  fits _ _ _ := trivial
  equation {a b} carry _ _ := by
    have aBound := a.toNat_lt
    have bBound := b.toNat_lt
    have carryBound := carry.toNat_le
    simp only [add, addBinary, Bool.false_eq_true, if_false, UInt8.toNat_ofNat', toNat_decide]
    split <;> omega

theorem columns_subtract : Columns subtract false 256 UInt8.toNat (fun _ => True) (-1) 1 where
  large := by decide
  bounded _ := UInt8.toNat_lt _
  fits _ _ _ := trivial
  equation {a b} carry _ _ := by
    have aBound := a.toNat_lt
    have bBound := b.toNat_lt
    have carryBound := carry.toNat_le
    simp only [subtract, subtractBinary, Bool.false_eq_true, if_false, UInt8.toNat_ofNat',
      toNat_decide]
    split <;> omega

theorem addDecimal_eq {a b : UInt8} (carry : Bool) (aFits : IsDecimal a) (bFits : IsDecimal b) :
    let low := a.toNat % 16 + b.toNat % 16 + carry.toNat
    let high := a.toNat / 16 + b.toNat / 16 + low / 10
    addDecimal a b carry = (.ofNat (16 * (high % 10) + low % 10), decide (10 ≤ high)) := by
  have passed {low high : Nat} (below : low < 20) :
      (if 9 < low then (low - 10, high + 1) else (low, high)) = (low % 10, high + low / 10) := by
    split <;> exact Prod.ext (by dsimp only; omega) (by dsimp only; omega)
  have lowered {high : Nat} (below : high < 20) :
      (if 9 < high then high - 10 else high) % 16 = high % 10 := by
    split <;> omega
  obtain ⟨aHigh, aLow⟩ := aFits
  obtain ⟨bHigh, bLow⟩ := bFits
  have carryBound := carry.toNat_le
  intro low high
  have digit : low % 10 % 16 = low % 10 := by omega
  have unpacked : addDecimal a b carry =
      (.ofNat (16 * ((if 9 < high then high - 10 else high) % 16) + low % 10 % 16),
        decide (9 < high)) := by
    simp only [addDecimal, passed (show a.toNat % 16 + b.toNat % 16 + carry.toNat < 20 by omega),
      decide_eq_true_eq, low, high]
  rw [unpacked, lowered (by omega), digit]
  rfl

/-- The digits of a decimal difference, the borrow of the low one taken from the high one. The
binary difference never borrows alone. -/
theorem subtractDecimal_eq {a b : UInt8} (carry : Bool) (aFits : IsDecimal a)
    (bFits : IsDecimal b) :
    let low : Int := a.toNat % 16 - b.toNat % 16 - (1 - carry.toNat)
    let high : Int := a.toNat / 16 - b.toNat / 16 + low / 10
    subtractDecimal a b carry =
      (.ofNat (16 * (high % 10).toNat + (low % 10).toNat), decide (0 ≤ high)) := by
  have passed {low high : Int} (bounds : -10 ≤ low ∧ low ≤ 9) :
      (if low < 0 then ((low - 6) % 16, high - 1) else (low, high)) =
        (low % 10, high + low / 10) := by
    split <;> exact Prod.ext (by dsimp only; omega) (by dsimp only; omega)
  have lowered {high : Int} (bounds : -10 ≤ high ∧ high ≤ 9) :
      (if high < 0 ∨ 9 < high then (high - 6) % 16 else high) = high % 10 := by
    split <;> omega
  obtain ⟨aHigh, aLow⟩ := aFits
  obtain ⟨bHigh, bLow⟩ := bFits
  have bBound := b.toNat_lt
  have carryBound := carry.toNat_le
  intro low high
  have unpacked : subtractDecimal a b carry =
      (.ofNat (16 * (if high < 0 ∨ 9 < high then (high - 6) % 16 else high) + low % 10).toNat,
        decide (256 ≤ a.toNat + (255 - b.toNat) + carry.toNat ∧ ¬(high < 0 ∨ 9 < high))) := by
    simp only [subtractDecimal, subtractBinary,
      passed (show -10 ≤ (a.toNat % 16 : Int) - b.toNat % 16 - (1 - carry.toNat) ∧
        (a.toNat % 16 : Int) - b.toNat % 16 - (1 - carry.toNat) ≤ 9 by omega),
      decide_eq_true_eq, Bool.decide_and, decide_not, low, high]
  rw [unpacked, lowered (by omega)]
  exact Prod.ext (congrArg UInt8.ofNat (by omega)) (decide_eq_decide.2 (by omega))

theorem columns_addDecimal : Columns add true 100 tens IsDecimal 1 0 where
  large := by decide
  bounded := tens_lt
  fits carry aFits bFits := by
    simp only [add, addDecimal_eq carry aFits bFits, if_true]
    exact (tens_ofNat (by omega) (by omega)).1
  equation {a b} carry aFits bFits := by
    have carryBound := carry.toNat_le
    simp only [add, addDecimal_eq carry aFits bFits, if_true]
    rw [(tens_ofNat (by omega) (by omega)).2, toNat_decide]
    obtain ⟨aHigh, aLow⟩ := aFits
    obtain ⟨bHigh, bLow⟩ := bFits
    simp only [tens]
    split <;> omega

theorem columns_subtractDecimal : Columns subtract true 100 tens IsDecimal (-1) 1 where
  large := by decide
  bounded := tens_lt
  fits carry aFits bFits := by
    simp only [subtract, subtractDecimal_eq carry aFits bFits, if_true]
    exact (tens_ofNat (by omega) (by omega)).1
  equation {a b} carry aFits bFits := by
    have carryBound := carry.toNat_le
    simp only [subtract, subtractDecimal_eq carry aFits bFits, if_true]
    rw [(tens_ofNat (by omega) (by omega)).2, toNat_decide]
    obtain ⟨aHigh, aLow⟩ := aFits
    obtain ⟨bHigh, bLow⟩ := bFits
    simp only [tens]
    split <;> omega

end Alu

namespace Multibyte

theorem signed_single (b : UInt8) : signed [b] = Textbook.signed b := by
  have bound := b.toNat_lt
  have whole : unsigned [b] = b.toNat := by simp [unsigned, number]
  simp only [signed, Textbook.signed, whole, List.length_cons, List.length_nil]
  split <;> split <;> omega

theorem signed_single_neg (b : UInt8) : signed [b] < 0 ↔ 128 ≤ b.toNat := by
  have bound := b.toNat_lt
  rw [signed_single, Textbook.signed]
  split <;> omega

theorem overflows_single (n : Int) : overflows 1 n = Textbook.overflows n := by
  simp only [overflows, Textbook.overflows, decide_eq_decide]
  omega

end Multibyte

namespace Cpu

variable {β : Type}

/-- One column of numbers: the accumulator gets the first operand and is left with the result. -/
def column (op : Cpu β → UInt8 → Cpu β) (c : Cpu β) (operands : UInt8 × UInt8) : UInt8 × Cpu β :=
  let d := op (c.setRegister .a operands.1) operands.2
  (d.registers.a, d)

def addBytes (c : Cpu β) (xs ys : List UInt8) : List UInt8 × Cpu β :=
  upward (column add) (xs.zip ys) c

def subtractBytes (c : Cpu β) (xs ys : List UInt8) : List UInt8 × Cpu β :=
  upward (column subtract) (xs.zip ys) c

section
variable {op : Cpu β → UInt8 → Cpu β} {result : UInt8 → UInt8 → Bool → Bool → Alu.Result}
  (is : ∀ c b, op c b = c.accumulate (result c.registers.a b c.flags.carry c.flags.decimal))
  {decimal : Bool} {base : Nat} {digit : UInt8 → Nat} {Fits : UInt8 → Prop} {sign rest : Int}

include is

theorem upward_column_cons (c : Cpu β) (x y : UInt8) (xs ys : List UInt8) :
    let r := result x y c.flags.carry c.flags.decimal
    let later := upward (column op) (xs.zip ys) ((c.setRegister .a x).accumulate r)
    upward (column op) ((x :: xs).zip (y :: ys)) c = (r.value :: later.1, later.2) := by
  simp only [List.zip_cons_cons, upward, column, is]
  rfl

theorem equation_columns (columns : Alu.Columns result decimal base digit Fits sign rest)
    {c : Cpu β} (mode : c.flags.decimal = decimal) {xs ys : List UInt8}
    (length : xs.length = ys.length) (xsFit : ∀ b ∈ xs, Fits b) (ysFit : ∀ b ∈ ys, Fits b) :
    let passed := upward (column op) (xs.zip ys) c
    (∀ b ∈ passed.1, Fits b) ∧
      (number base digit passed.1 : Int) +
          base ^ xs.length * (passed.2.flags.carry.toNat - rest) =
        number base digit xs + sign * number base digit ys + (c.flags.carry.toNat - rest) := by
  induction xs generalizing ys c with
  | nil =>
    obtain rfl := List.length_eq_zero_iff.1 length.symm
    simp [upward, number]
  | cons x xs ih =>
    obtain ⟨y, ys, rfl⟩ := List.exists_cons_of_length_eq_add_one length.symm
    obtain ⟨xFits, xsFit⟩ := List.forall_mem_cons.1 xsFit
    obtain ⟨yFits, ysFit⟩ := List.forall_mem_cons.1 ysFit
    let r := result x y c.flags.carry decimal
    obtain ⟨fits, later⟩ := ih
      (show ((c.setRegister .a x).accumulate r).flags.decimal = decimal from mode)
      (Nat.succ.inj length) xsFit ysFit
    simp only [upward_column_cons is, mode]
    refine ⟨List.forall_mem_cons.2 ⟨columns.fits _ xFits yFits, fits⟩, ?_⟩
    -- The carry between the first column and the others goes out of one and into the next.
    have here := columns.equation c.flags.carry xFits yFits
    have between : ((c.setRegister .a x).accumulate r).flags.carry = r.carry := rfl
    rw [between] at later
    simp only [number_cons, List.length_cons]
    push_cast
    linear_combination here + base * later

theorem total_columns (columns : Alu.Columns result decimal base digit Fits sign rest)
    {c : Cpu β} (mode : c.flags.decimal = decimal) {xs ys : List UInt8}
    (length : xs.length = ys.length) (fits : ∀ b ∈ xs ++ ys, Fits b) :
    let passed := upward (column op) (xs.zip ys) c
    let total := number base digit xs + sign * number base digit ys + (c.flags.carry.toNat - rest)
    (∀ b ∈ passed.1, Fits b) ∧
      (number base digit passed.1 : Int) = total % base ^ xs.length ∧
      passed.2.flags.carry = decide ((base : Int) ^ xs.length * (1 - rest) ≤ total) := by
  intro passed total
  obtain ⟨xsFit, ysFit⟩ := List.forall_mem_append.1 fits
  obtain ⟨given, equation⟩ := equation_columns is columns mode length xsFit ysFit
  have count : passed.1.length = xs.length := by
    simp [passed, length]
  have below : number base digit passed.1 < base ^ xs.length := by
    rw [← count]
    exact number_lt columns.large fun b inside => columns.bounded (given b inside)
  obtain ⟨value, carry⟩ := carry_of_total below (by exact_mod_cast equation)
  exact ⟨given, by exact_mod_cast value, by exact_mod_cast carry⟩

theorem signs_columns
    (columns : Alu.Columns result false 256 UInt8.toNat (fun _ => True) sign rest)
    (single : ∀ a b carry, (result a b carry false).overflow =
      overflows 1 (signed [a] + sign * signed [b] + (carry.toNat - rest)))
    {c : Cpu β} (binary : c.flags.decimal = false) {xs ys : List UInt8}
    (length : xs.length = ys.length) (some : xs ≠ []) :
    let passed := upward (column op) (xs.zip ys) c
    passed.2.flags.overflow = overflows xs.length
        (signed xs + sign * signed ys + (c.flags.carry.toNat - rest)) ∧
      passed.2.flags.negative = decide (signed passed.1 < 0) := by
  induction xs generalizing ys c with
  | nil => exact absurd rfl some
  | cons x xs ih =>
    obtain ⟨y, ys, rfl⟩ := List.exists_cons_of_length_eq_add_one length.symm
    have length : xs.length = ys.length := Nat.succ.inj length
    let r := result x y c.flags.carry false
    simp only [upward_column_cons is, binary]
    by_cases last : xs = []
    · subst last
      obtain rfl : ys = [] := List.length_eq_zero_iff.1 length.symm
      exact ⟨single x y c.flags.carry,
        (and_sign r.value).trans (decide_eq_decide.2 (signed_single_neg r.value).symm)⟩
    · obtain ⟨overflow, negative⟩ := ih
        (show ((c.setRegister .a x).accumulate r).flags.decimal = false from binary) length last
      have others : ys ≠ [] := by
        rwa [← List.length_pos_iff, ← length, List.length_pos_iff]
      have more : (upward (column op) (xs.zip ys) ((c.setRegister .a x).accumulate r)).1 ≠ [] := by
        rwa [← List.length_pos_iff, length_upward, List.length_zip, ← length, Nat.min_self,
          List.length_pos_iff]
      -- The first column adds only a byte to what the others come to.
      have total : signed (x :: xs) + sign * signed (y :: ys) + (c.flags.carry.toNat - rest) =
          r.value.toNat + 256 * (signed xs + sign * signed ys + (r.carry.toNat - rest)) := by
        have equation := columns.equation c.flags.carry (a := x) (b := y) trivial trivial
        rw [signed_cons x last, signed_cons y others]
        push_cast at equation
        linear_combination -equation
      rw [total]
      exact ⟨overflow.trans (overflows_cons r.value last _).symm,
        negative.trans (decide_eq_decide.2 (signed_neg_cons r.value more).symm)⟩

end

section
variable (base : Nat) (digit : UInt8 → Nat) (c : Cpu β) (xs ys : List UInt8)

structure Sums : Prop where
  lengths : (c.addBytes xs ys).1.length = xs.length ∧ (c.subtractBytes xs ys).1.length = xs.length
  sum : number base digit (c.addBytes xs ys).1 =
    (number base digit xs + number base digit ys + c.flags.carry.toNat) % base ^ xs.length
  carry : (c.addBytes xs ys).2.flags.carry =
    decide (base ^ xs.length ≤ number base digit xs + number base digit ys + c.flags.carry.toNat)
  difference : (number base digit (c.subtractBytes xs ys).1 : Int) =
    (number base digit xs - number base digit ys - (1 - c.flags.carry.toNat)) % base ^ xs.length
  borrow : (c.subtractBytes xs ys).2.flags.carry =
    decide ((0 : Int) ≤ number base digit xs - number base digit ys - (1 - c.flags.carry.toNat))

structure Signs : Prop where
  sumOverflow : (c.addBytes xs ys).2.flags.overflow =
    overflows xs.length (signed xs + signed ys + c.flags.carry.toNat)
  sumNegative : (c.addBytes xs ys).2.flags.negative = decide (signed (c.addBytes xs ys).1 < 0)
  differenceOverflow : (c.subtractBytes xs ys).2.flags.overflow =
    overflows xs.length (signed xs - signed ys - (1 - c.flags.carry.toNat))
  differenceNegative : (c.subtractBytes xs ys).2.flags.negative =
    decide (signed (c.subtractBytes xs ys).1 < 0)

end

theorem sums_of_columns {decimal : Bool} {base : Nat} {digit : UInt8 → Nat} {Fits : UInt8 → Prop}
    (sum : Alu.Columns Alu.add decimal base digit Fits 1 0)
    (difference : Alu.Columns Alu.subtract decimal base digit Fits (-1) 1)
    {c : Cpu β} (mode : c.flags.decimal = decimal) {xs ys : List UInt8}
    (length : xs.length = ys.length) (fits : ∀ b ∈ xs ++ ys, Fits b) :
    Sums base digit c xs ys ∧ ∀ b ∈ (c.addBytes xs ys).1 ++ (c.subtractBytes xs ys).1, Fits b := by
  obtain ⟨sumFits, sum, carry⟩ := total_columns (fun _ _ => rfl) sum mode length fits
  obtain ⟨differenceFits, difference, borrow⟩ :=
    total_columns (fun _ _ => rfl) difference mode length fits
  have terms (x y k : Int) : x + -1 * y + (k - 1) = x - y - (1 - k) := by ring
  simp only [one_mul, sub_zero, mul_one] at sum carry
  simp only [terms, sub_self, mul_zero] at difference borrow
  refine ⟨⟨?_, ?_, ?_, difference, borrow⟩,
    List.forall_mem_append.2 ⟨sumFits, differenceFits⟩⟩
  · simp [addBytes, subtractBytes, length]
  · exact_mod_cast sum
  · exact_mod_cast carry

theorem signs_of_bytes {c : Cpu β} (binary : c.flags.decimal = false) {xs ys : List UInt8}
    (length : xs.length = ys.length) (some : xs ≠ []) : Signs c xs ys := by
  have terms (x y k : Int) : x + -1 * y + (k - 1) = x - y - (1 - k) := by ring
  obtain ⟨sumOverflow, sumNegative⟩ := signs_columns (fun _ _ => rfl) Alu.columns_add
    (fun a b carry => by
      rw [Alu.add_overflow, overflows_single, signed_single, signed_single, one_mul, sub_zero])
    binary length some
  obtain ⟨differenceOverflow, differenceNegative⟩ :=
    signs_columns (fun _ _ => rfl) Alu.columns_subtract
      (fun a b carry => by
        rw [Alu.subtract_overflow, overflows_single, signed_single, signed_single, terms])
      binary length some
  simp only [one_mul, sub_zero] at sumOverflow
  simp only [terms] at differenceOverflow
  exact ⟨sumOverflow, sumNegative, differenceOverflow, differenceNegative⟩

theorem subtractBytes_addBytes {c d : Cpu β} (binary : c.flags.decimal = false)
    (after : d.flags.decimal = false) (opposite : d.flags.carry = !c.flags.carry)
    {xs ys : List UInt8} (length : xs.length = ys.length) :
    (d.subtractBytes (c.addBytes xs ys).1 ys).1 = xs := by
  have fits (bytes : List UInt8) : ∀ b ∈ bytes, True := fun _ _ => trivial
  have sums := (sums_of_columns Alu.columns_add Alu.columns_subtract binary length (fits _)).1
  have middle : (c.addBytes xs ys).1.length = ys.length := sums.lengths.1.trans length
  have back := (sums_of_columns Alu.columns_add Alu.columns_subtract after middle (fits _)).1
  have count := back.lengths.2.trans sums.lengths.1
  have carries : (1 : Int) - d.flags.carry.toNat = c.flags.carry.toNat := by
    rw [opposite]
    cases c.flags.carry <;> rfl
  let total := number 256 UInt8.toNat xs + number 256 UInt8.toNat ys + c.flags.carry.toNat
  have sum : (number 256 UInt8.toNat (c.addBytes xs ys).1 : Int) =
      total - (256 ^ xs.length : Nat) * (total / (256 ^ xs.length : Nat)) := by
    rw [sums.sum, Int.natCast_mod, Int.emod_def]
  have below : (number 256 UInt8.toNat xs : Int) < (256 ^ xs.length : Nat) := by
    exact_mod_cast unsigned_lt xs
  have whole : (number 256 UInt8.toNat ((d.subtractBytes (c.addBytes xs ys).1 ys).1) : Int) =
      number 256 UInt8.toNat xs := by
    calc
      _ = (number 256 UInt8.toNat (c.addBytes xs ys).1 - number 256 UInt8.toNat ys
            - c.flags.carry.toNat : Int) % (256 ^ xs.length : Nat) := by
          rw [back.difference, carries, sums.lengths.1]
          push_cast
          rfl
      _ = (number 256 UInt8.toNat xs - (256 ^ xs.length : Nat) *
            (total / (256 ^ xs.length : Nat)) : Int) % (256 ^ xs.length : Nat) := by
          congr 1
          rw [sum]
          push_cast [total]
          ring
      _ = number 256 UInt8.toNat xs := by
          rw [Int.sub_mul_emod_self_left, Int.emod_eq_of_lt (Int.natCast_nonneg _) below]
  exact eq_of_unsigned count (by exact_mod_cast whole)

/-- Arithmetic on numbers of many bytes: in binary the sum and the difference modulo what the bytes
can hold, the difference with the opposite carry taking back the sum, and in decimal those of the
digits. -/
theorem sums_of_bytes (c : Cpu β) {xs ys : List UInt8} (length : xs.length = ys.length)
    (some : xs ≠ []) :
    (c.flags.decimal = false →
      Sums 256 UInt8.toNat c xs ys ∧ Signs c xs ys ∧
      ∀ d : Cpu β, d.flags.decimal = false → d.flags.carry = !c.flags.carry →
        (d.subtractBytes (c.addBytes xs ys).1 ys).1 = xs) ∧
    (c.flags.decimal = true → (∀ b ∈ xs ++ ys, IsDecimal b) →
      Sums 100 tens c xs ys ∧
      ∀ b ∈ (c.addBytes xs ys).1 ++ (c.subtractBytes xs ys).1, IsDecimal b) := by
  refine ⟨fun binary => ?_, fun mode decimal =>
    sums_of_columns Alu.columns_addDecimal Alu.columns_subtractDecimal mode length decimal⟩
  have sums := sums_of_columns Alu.columns_add Alu.columns_subtract binary length
    fun _ _ => trivial
  exact ⟨sums.1, signs_of_bytes binary length some, fun d after opposite =>
    subtractBytes_addBytes binary after opposite length⟩

theorem sums_of_bytes_loaded :
    let c := Machine.loaded []
    let decimal := { c with flags := { c.flags with decimal := true } }
    (Sums 256 UInt8.toNat c [0xFF, 0x7F] [0x01, 0x00] ∧ Signs c [0xFF, 0x7F] [0x01, 0x00] ∧
      (c.addBytes [0xFF, 0x7F] [0x01, 0x00]).1 = [0x00, 0x80]) ∧
    Sums 100 tens decimal [0x99, 0x19] [0x01, 0x00] ∧
      (decimal.addBytes [0x99, 0x19] [0x01, 0x00]).1 = [0x00, 0x20] := by
  intro c decimal
  have binary := (sums_of_bytes c (show [0xFF, 0x7F].length = [0x01, 0x00].length from rfl)
    (List.cons_ne_nil _ _)).1 rfl
  have digits := (sums_of_bytes decimal (show [0x99, 0x19].length = [0x01, 0x00].length from rfl)
    (List.cons_ne_nil _ _)).2 rfl (by simp [IsDecimal])
  exact ⟨⟨binary.1, binary.2.1, by decide⟩, digits.1, by decide⟩

end Cpu

end Cycle6502
