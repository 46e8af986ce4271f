import Cycle6502.Text.Blank
import Mathlib.Data.List.TakeWhile

/-! Lines with blanks around what is written on them. A line ends at its separator, and trimming
leaves what stands between the blanks. -/

set_option autoImplicit false

namespace Cycle6502.Text

section
variable {α : Type} [DecidableEq α] {separator : α}

theorem lines_cons_separator (rest : List α) :
    lines separator (separator :: rest) = [] :: lines separator rest := by
  rw [lines, List.foldr_cons, ← lines]
  cases lines separator rest <;> simp [lineStep]

theorem lines_append_line {line : List α} (unended : separator ∉ line) (rest : List α) :
    lines separator (line ++ separator :: rest) = line :: lines separator rest := by
  induction line with
  | nil => exact lines_cons_separator rest
  | cons c line ih =>
    simp only [List.mem_cons, not_or] at unended
    obtain ⟨other, unended⟩ := unended
    rw [List.cons_append, lines, List.foldr_cons, ← lines, ih unended]
    simp [lineStep, Ne.symm other]

theorem lines_last {line : List α} (unended : separator ∉ line) (filled : line ≠ []) :
    lines separator line = [line] := by
  induction line with
  | nil => exact absurd rfl filled
  | cons c line ih =>
    simp only [List.mem_cons, not_or] at unended
    obtain ⟨other, unended⟩ := unended
    rw [lines, List.foldr_cons, ← lines]
    cases line with
    | nil => simp [lines, lineStep, Ne.symm other]
    | cons d line => simp [ih unended (List.cons_ne_nil d line), lineStep, Ne.symm other]

theorem lines_flatMap {written : List (List α)} (unended : ∀ line ∈ written, separator ∉ line) :
    lines separator (written.flatMap (· ++ [separator])) = written := by
  induction written with
  | nil => rfl
  | cons line rest ih =>
    obtain ⟨first, rest⟩ := List.forall_mem_cons.1 unended
    rw [List.flatMap_cons, List.append_assoc, List.singleton_append, lines_append_line first,
      ih rest]

end

def AllBlank (text : List Char) : Prop := ∀ c ∈ text, isBlank c

instance (text : List Char) : Decidable (AllBlank text) :=
  decidable_of_iff (text.all isBlank) List.all_eq_true

def Unbroken (text : List Char) : Prop := ∀ c ∈ text, isBlank c = false

variable {before text after : List Char}

theorem AllBlank.reverse (blank : AllBlank text) : AllBlank text.reverse :=
  fun c member => blank c (List.mem_reverse.1 member)

theorem Unbroken.reverse (unbroken : Unbroken text) : Unbroken text.reverse :=
  fun c member => unbroken c (List.mem_reverse.1 member)

theorem Unbroken.dropWhile_append (unbroken : Unbroken text) (filled : text ≠ [])
    (rest : List Char) : (text ++ rest).dropWhile isBlank = text ++ rest := by
  cases text with
  | nil => exact absurd rfl filled
  | cons c text => simp [unbroken c List.mem_cons_self]

theorem trim_padded (blankBefore : AllBlank before) (unbroken : Unbroken text)
    (blankAfter : AllBlank after) (filled : text ≠ []) : trim (before ++ text ++ after) = text := by
  have filledBack : text.reverse ≠ [] := mt List.reverse_eq_nil_iff.1 filled
  have back := unbroken.reverse.dropWhile_append filledBack []
  rw [List.append_nil] at back
  rw [trim, List.append_assoc, List.dropWhile_append_of_pos blankBefore,
    unbroken.dropWhile_append filled, List.reverse_append,
    List.dropWhile_append_of_pos blankAfter.reverse, back, List.reverse_reverse]

theorem trim_blank (blank : AllBlank text) : trim text = [] := by
  rw [trim, List.dropWhile_eq_nil_iff.2 blank]
  rfl

end Cycle6502.Text
