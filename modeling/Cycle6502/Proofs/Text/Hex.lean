import Cycle6502.Proofs.Text.Ascii
import Cycle6502.Text.Blank
import Cycle6502.Text.Hex
import Mathlib.Algebra.Ring.Nat

/-! Hexadecimal digits and their values, and numbers that are written, which read back as
themselves. -/

set_option autoImplicit false

namespace Cycle6502.Text

def upperDigits : List Char :=
  ['0', '1', '2', '3', '4', '5', '6', '7', '8', '9', 'A', 'B', 'C', 'D', 'E', 'F']

def lowerDigits : List Char :=
  ['0', '1', '2', '3', '4', '5', '6', '7', '8', '9', 'a', 'b', 'c', 'd', 'e', 'f']

def IsDigit (c : Char) (value : Nat) : Prop :=
  upperDigits[value]? = some c ∨ lowerDigits[value]? = some c
  deriving Decidable

section
variable {c : Char} {value : Nat}

theorem IsDigit.lt (digit : IsDigit c value) : value < 16 := by
  rcases digit with upper | lower
  · exact (List.getElem?_eq_some_iff.1 upper).1
  · exact (List.getElem?_eq_some_iff.1 lower).1

theorem digitValue?_upper :
    ∀ value < 16, upperDigits[value]?.bind digitValue? = some value := by decide

theorem digitValue?_lower :
    ∀ value < 16, lowerDigits[value]?.bind digitValue? = some value := by decide

theorem isDigit_ofNat :
    ∀ n < 128, ∀ value ∈ digitValue? (Char.ofNat n), IsDigit (Char.ofNat n) value := by
  decide +kernel

theorem ascii_of_digitValue? (found : digitValue? c = some value) : c.toNat < 128 := by
  by_contra wide
  have above (last : Char) (narrow : last.toNat < 128) : ¬ c ≤ last :=
    fun order => wide (Nat.lt_of_le_of_lt order narrow)
  simp [digitValue?, above] at found

theorem digitValue?_eq_some : digitValue? c = some value ↔ IsDigit c value := by
  constructor
  · intro found
    have ascii := ascii_of_digitValue? found
    exact forall_ascii (P := fun c => ∀ value ∈ digitValue? c, IsDigit c value) isDigit_ofNat ascii
      value found
  · intro digit
    have short := digit.lt
    rcases digit with upper | lower
    · simpa [upper] using digitValue?_upper value short
    · simpa [lower] using digitValue?_lower value short

theorem IsDigit.ascii (digit : IsDigit c value) : c.toNat < 128 :=
  ascii_of_digitValue? (digitValue?_eq_some.2 digit)

theorem IsDigit.isBlank (digit : IsDigit c value) : isBlank c = false := by
  have inked : (upperDigits ++ lowerDigits).all (!Text.isBlank ·) := by decide
  have member : c ∈ upperDigits ++ lowerDigits := by
    rcases digit with upper | lower
    · exact List.mem_append_left _ (List.mem_of_getElem? upper)
    · exact List.mem_append_right _ (List.mem_of_getElem? lower)
  simpa using List.all_eq_true.1 inked c member

theorem not_isDigit_plus (value : Nat) : ¬ IsDigit '+' value := by
  intro digit
  cases digitValue?_eq_some.2 digit

end

theorem digitsValue?_single (c : Char) : digitsValue? 16 [c] = digitValue? c := by
  cases read : digitValue? c with
  | none => simp [digitsValue?, read]
  | some value =>
    have short := (digitValue?_eq_some.1 read).lt
    simp [digitsValue?, read, short]

theorem digitsValue?_pair {first second : Char} {value : Nat} :
    digitsValue? 16 [first, second] = some value ↔
      IsDigit first (value / 16) ∧ IsDigit second (value % 16) := by
  rw [← digitValue?_eq_some, ← digitValue?_eq_some]
  cases higher : digitValue? first with
  | none => simp [digitsValue?, higher]
  | some high =>
    cases lower : digitValue? second with
    | none => simp [digitsValue?, higher, lower]
    | some low =>
      have highShort := (digitValue?_eq_some.1 higher).lt
      have lowShort := (digitValue?_eq_some.1 lower).lt
      have read : digitsValue? 16 [first, second] = some (16 * high + low) := by
        simp [digitsValue?, higher, lower, highShort, lowShort]
      simp only [read, Option.some.injEq]
      omega

theorem map_ofNat_filter {value? : Option Nat} {byte : UInt8} :
    (value?.filter (· < 0x100)).map UInt8.ofNat = some byte ↔ value? = some byte.toNat := by
  simp only [Option.map_eq_some_iff, Option.filter_eq_some_iff, decide_eq_true_eq]
  constructor
  · rintro ⟨value, ⟨found, short⟩, rfl⟩
    rw [found, UInt8.toNat_ofNat_of_lt' short]
  · intro found
    exact ⟨byte.toNat, ⟨found, byte.toNat_lt⟩, UInt8.ofNat_toNat⟩

theorem digitsValue?_concat {base value d : Nat} {digits : List Char} {c : Char}
    (front : digitsValue? base digits = some value) (last : digitValue? c = some d)
    (small : d < base) : digitsValue? base (digits ++ [c]) = some (base * value + d) := by
  unfold digitsValue? at front ⊢
  rw [List.foldlM_append, front]
  simp [last, small]

theorem digitsValue?_hexDigits (width n : Nat) :
    digitsValue? 16 (hexDigits width n) = some (n % 16 ^ width) := by
  induction width generalizing n with
  | zero => exact congrArg some (Nat.mod_one n).symm
  | succ width ih =>
    have last : n % 16 < 16 := Nat.mod_lt n (by decide)
    rw [hexDigits, digitsValue?_concat (ih (n / 16)) (digitValue?_digit _ last) last, Nat.pow_succ',
      Nat.mod_mul, Nat.add_comm]

theorem digit_mem_upperDigits : ∀ n < 16, digit n ∈ upperDigits := by decide

theorem mem_upperDigits {width n : Nat} {c : Char} (member : c ∈ hexDigits width n) :
    c ∈ upperDigits := by
  induction width generalizing n with
  | zero => cases member
  | succ width ih =>
    rcases List.mem_append.1 member with front | last
    · exact ih front
    · rw [List.mem_singleton.1 last]
      exact digit_mem_upperDigits (n % 16) (Nat.mod_lt n (by decide))

theorem plus_notMem_hexDigits (width n : Nat) : '+' ∉ hexDigits width n := fun member =>
  absurd (mem_upperDigits member) (by decide)

theorem readNumber?_unsigned {base bound : Nat} {numeral : List Char} (unsigned : '+' ∉ numeral)
    (nonempty : numeral ≠ []) :
    readNumber? base bound numeral = (digitsValue? base numeral).filter (· < bound) := by
  cases numeral with
  | nil => exact absurd rfl nonempty
  | cons c rest =>
    have digit : c ≠ '+' := fun sign => unsigned (sign ▸ List.mem_cons_self)
    simp [readNumber?, digit]

theorem readNumber?_hexDigits {width bound n : Nat} (digits : width ≠ 0) (inside : n < bound)
    (short : n < 16 ^ width) : readNumber? 16 bound (hexDigits width n) = some n := by
  have nonempty : hexDigits width n ≠ [] := by
    rwa [ne_eq, ← List.length_eq_zero_iff, length_hexDigits]
  rw [readNumber?_unsigned (plus_notMem_hexDigits width n) nonempty, digitsValue?_hexDigits,
    Nat.mod_eq_of_lt short, Option.filter_some, if_pos (decide_eq_true inside)]

theorem readAddress?_hexWord (addr : UInt16) : readAddress? ("$" ++ hexWord addr) = some addr := by
  have numeral : unmarked ("$" ++ hexWord addr).toList = hexDigits 4 addr.toNat := by
    simp [hexWord, unmarked]
  have bound := addr.toNat_lt
  rw [readAddress?, numeral, readNumber?_hexDigits (by decide) bound bound, Option.map_some,
    UInt16.ofNat_toNat]

end Cycle6502.Text
