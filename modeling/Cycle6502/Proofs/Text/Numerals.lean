import Cycle6502.Proofs.Text.Hex
import Mathlib.Data.List.Forall2
import Mathlib.Data.Nat.Digits.Defs

/-! The grammar of addresses. A word for an address is a mark or none, a sign if one is allowed, and
one or more hexadecimal digits of a value that fits. The reader allows a plus sign. -/

set_option autoImplicit false

namespace Cycle6502.Text

def HasValue (digits : List Char) (value : Nat) : Prop :=
  digits ≠ [] ∧
    ∃ values, List.Forall₂ IsDigit digits values ∧ Nat.ofDigits 16 values.reverse = value

def marks : List (List Char) := [[], ['$'], ['&'], ['0', 'x'], ['0', 'X']]

def unsigned : List (List Char) := [[]]

def optionalPlus : List (List Char) := [[], ['+']]

/-- A word for an address: at most one mark, one of the signs, and digits. -/
def Numeral (signs : List (List Char)) (word : List Char) (addr : UInt16) : Prop :=
  ∃ mark ∈ marks, ∃ sign ∈ signs, ∃ digits, word = mark ++ sign ++ digits ∧
    HasValue digits addr.toNat

section
variable {digits : List Char} {value : Nat}

theorem foldlM_digits (start : Nat) :
    digits.foldlM (fun value c => do
        let d ← digitValue? c
        if d < 16 then some (16 * value + d) else none) start = some value ↔
      ∃ values, List.Forall₂ IsDigit digits values ∧
        values.foldl (fun value d => d + 16 * value) start = value := by
  induction digits generalizing start with
  | nil => simp
  | cons c digits ih =>
    rw [List.foldlM_cons]
    cases read : digitValue? c with
    | none =>
      have other (d : Nat) : ¬ IsDigit c d := fun digit => by
        rw [digitValue?_eq_some.2 digit] at read
        cases read
      simp [List.forall₂_cons_left_iff, other]
    | some d =>
      have same (e : Nat) : IsDigit c e ↔ e = d := by
        rw [← digitValue?_eq_some, read, Option.some.injEq, eq_comm]
      have short : d < 16 := ((same d).2 rfl).lt
      simpa [short, List.forall₂_cons_left_iff, same, Nat.add_comm d] using ih (16 * start + d)

theorem digitsValue?_eq_some : digitsValue? 16 digits = some value ↔
    ∃ values, List.Forall₂ IsDigit digits values ∧ Nat.ofDigits 16 values.reverse = value := by
  refine (foldlM_digits 0).trans (exists_congr fun values => and_congr_right fun _ => ?_)
  rw [Nat.ofDigits_eq_foldr, List.foldr_reverse]
  rfl

theorem HasValue.digit (valued : HasValue digits value) {c : Char} (member : c ∈ digits) :
    ∃ d, IsDigit c d := by
  obtain ⟨-, values, each, -⟩ := valued
  induction each with
  | nil => cases member
  | @cons c' d _ _ digit _ ih =>
    rcases List.mem_cons.1 member with same | member
    · exact ⟨d, same ▸ digit⟩
    · exact ih member

theorem HasValue.plus_notMem (valued : HasValue digits value) : '+' ∉ digits := fun member =>
  have ⟨d, digit⟩ := valued.digit member
  not_isDigit_plus d digit

theorem readNumber?_of_not_sign {base bound : Nat} {numeral : List Char}
    (plain : ∀ rest, numeral ≠ '+' :: rest) :
    readNumber? base bound numeral =
      if numeral.isEmpty then none else (digitsValue? base numeral).filter (· < bound) := by
  simp [readNumber?]

theorem readNumber?_eq_some {bound : Nat} {numeral : List Char} :
    readNumber? 16 bound numeral = some value ↔
      (∃ sign ∈ optionalPlus, ∃ digits, numeral = sign ++ digits ∧ HasValue digits value) ∧
        value < bound := by
  have digits (text : List Char) : (if text.isEmpty then none
      else (digitsValue? 16 text).filter (· < bound)) = some value ↔
        HasValue text value ∧ value < bound := by
    cases text with
    | nil => simp [HasValue]
    | cons c text =>
      simp [HasValue, Option.filter_eq_some_iff, digitsValue?_eq_some]
  by_cases signed : ∃ rest, numeral = '+' :: rest
  case pos =>
    obtain ⟨rest, rfl⟩ := signed
    refine (digits rest).trans (and_congr_left fun _ => ⟨fun valued => ?_, ?_⟩)
    · exact ⟨['+'], by decide, rest, rfl, valued⟩
    · rintro ⟨sign, member, tail, split, valued⟩
      rcases List.mem_pair.1 member with rfl | rfl
      · cases split
        exact absurd List.mem_cons_self valued.plus_notMem
      · cases split
        exact valued
  case neg =>
    rw [readNumber?_of_not_sign (not_exists.1 signed), digits]
    refine and_congr_left fun _ => ⟨fun valued => ⟨[], by decide, numeral, rfl, valued⟩, ?_⟩
    rintro ⟨sign, member, tail, split, valued⟩
    rcases List.mem_pair.1 member with rfl | rfl
    · cases split
      exact valued
    · exact absurd ⟨tail, split⟩ signed

end

theorem mark_unmarked (word : List Char) : ∃ mark ∈ marks, word = mark ++ unmarked word := by
  unfold unmarked
  split
  case h_1 => exact ⟨['$'], by decide, rfl⟩
  case h_2 => exact ⟨['&'], by decide, rfl⟩
  case h_3 => exact ⟨['0', 'x'], by decide, rfl⟩
  case h_4 => exact ⟨['0', 'X'], by decide, rfl⟩
  case h_5 => exact ⟨[], by decide, rfl⟩

theorem unmarked_of_plain {text : List Char} (plain : ∀ c ∈ text, c = '+' ∨ ∃ d, IsDigit c d) :
    unmarked text = text := by
  have other {c : Char} (plus : c ≠ '+') (none : digitValue? c = none) : c ∉ text := by
    intro member
    obtain same | ⟨d, digit⟩ := plain c member
    · exact plus same
    · rw [digitValue?_eq_some.2 digit] at none
      cases none
  unfold unmarked
  split
  case h_1 => exact absurd List.mem_cons_self (other (by decide) (by decide))
  case h_2 => exact absurd List.mem_cons_self (other (by decide) (by decide))
  case h_3 => exact absurd (by simp) (other (c := 'x') (by decide) (by decide))
  case h_4 => exact absurd (by simp) (other (c := 'X') (by decide) (by decide))
  case h_5 => rfl

theorem unmarked_mark {mark text : List Char} (member : mark ∈ marks)
    (plain : ∀ c ∈ text, c = '+' ∨ ∃ d, IsDigit c d) : unmarked (mark ++ text) = text := by
  have each : mark = [] ∨ mark = ['$'] ∨ mark = ['&'] ∨ mark = ['0', 'x'] ∨ mark = ['0', 'X'] := by
    simpa [marks] using member
  rcases each with rfl | rfl | rfl | rfl | rfl
  · exact unmarked_of_plain plain
  all_goals rfl

theorem readAddress?_eq_some {word : List Char} {addr : UInt16} :
    readAddress? (String.ofList word) = some addr ↔ Numeral optionalPlus word addr := by
  have bound := addr.toNat_lt
  have number : readAddress? (String.ofList word) = some addr ↔
      readNumber? 16 0x10000 (unmarked word) = some addr.toNat := by
    rw [readAddress?, String.toList_ofList, Option.map_eq_some_iff]
    constructor
    · rintro ⟨value, read, rfl⟩
      have short := (readNumber?_eq_some.1 read).2
      rwa [UInt16.toNat_ofNat_of_lt' short]
    · exact fun read => ⟨addr.toNat, read, UInt16.ofNat_toNat⟩
  rw [number, readNumber?_eq_some, and_iff_left bound]
  constructor
  case mp =>
    rintro ⟨sign, signed, digits, split, valued⟩
    obtain ⟨mark, marked, whole⟩ := mark_unmarked word
    exact ⟨mark, marked, sign, signed, digits, by rw [whole, split, List.append_assoc], valued⟩
  case mpr =>
    rintro ⟨mark, marked, sign, signed, digits, rfl, valued⟩
    refine ⟨sign, signed, digits, ?_, valued⟩
    rw [List.append_assoc]
    refine unmarked_mark marked fun c member => ?_
    rcases List.mem_append.1 member with front | back
    · rcases List.mem_pair.1 signed with rfl | rfl
      · cases front
      · exact .inl (List.mem_singleton.1 front)
    · exact .inr (valued.digit back)

theorem numeral_optionalPlus_iff {word : List Char} {addr : UInt16} (plain : '+' ∉ word) :
    Numeral optionalPlus word addr ↔ Numeral unsigned word addr := by
  constructor
  case mp =>
    rintro ⟨mark, marked, sign, signed, digits, rfl, valued⟩
    rcases List.mem_pair.1 signed with rfl | rfl
    · exact ⟨mark, marked, [], by decide, digits, rfl, valued⟩
    · exact absurd (by simp) plain
  case mpr =>
    rintro ⟨mark, marked, sign, signed, digits, rfl, valued⟩
    have allowed : sign ∈ optionalPlus := List.mem_pair.2 (.inl (List.mem_singleton.1 signed))
    exact ⟨mark, marked, sign, allowed, digits, rfl, valued⟩

theorem Numeral.plus_notMem {word : List Char} {addr : UInt16}
    (numeral : Numeral unsigned word addr) : '+' ∉ word := by
  obtain ⟨mark, marked, sign, signed, digits, rfl, valued⟩ := numeral
  have bare : ∀ mark ∈ marks, '+' ∉ mark := by decide
  rw [List.mem_singleton.1 signed, List.append_nil, List.mem_append, not_or]
  exact ⟨bare mark marked, valued.plus_notMem⟩

end Cycle6502.Text
