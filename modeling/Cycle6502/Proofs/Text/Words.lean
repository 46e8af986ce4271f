import Cycle6502.Proofs.Text.Lines

/-! The words of a text: the runs of characters between its blanks, in their order. A line has the
same words without the carriage return at its end. -/

set_option autoImplicit false

namespace Cycle6502.Text

def Parted (text : List Char) : Prop := ∀ c ∈ text.head?, isBlank c

inductive Words : List Char → List (List Char) → Prop where
  | none {text : List Char} : AllBlank text → Words text []
  | word {before word rest : List Char} {words : List (List Char)} : AllBlank before →
      word ≠ [] → Unbroken word → Parted rest → Words rest words →
      Words (before ++ word ++ rest) (word :: words)

namespace Words

variable {text word rest : List Char} {words : List (List Char)} {c : Char}

theorem cons_blank (blank : isBlank c) (found : Words text words) : Words (c :: text) words := by
  cases found with
  | none all => exact .none (List.forall_mem_cons.2 ⟨blank, all⟩)
  | word before filled unbroken parted found =>
    exact .word (List.forall_mem_cons.2 ⟨blank, before⟩) filled unbroken parted found

theorem push (unbroken : Unbroken word) (parted : Parted rest) (found : Words rest words) :
    Words (word ++ rest) (pushWord word words) := by
  cases word with
  | nil => exact found
  | cons c word =>
    have blank : AllBlank [] := fun _ none => nomatch none
    exact .word blank (List.cons_ne_nil c word) unbroken parted found

end Words

def opened (text : List Char) : List Char × List (List Char) :=
  text.foldr (wordStep isBlank) ([], [])

theorem wordsBy_eq (text : List Char) :
    wordsBy isBlank text = pushWord (opened text).1 (opened text).2 := rfl

theorem opened_cons (c : Char) (text : List Char) :
    opened (c :: text) = wordStep isBlank c (opened text) := rfl

theorem opened_cons_blank {c : Char} (blank : isBlank c) (text : List Char) :
    opened (c :: text) = ([], wordsBy isBlank text) := by
  rw [opened_cons, wordStep, if_pos blank, wordsBy_eq]

theorem opened_cons_of_not {c : Char} (inked : isBlank c = false) (text : List Char) :
    opened (c :: text) = (c :: (opened text).1, (opened text).2) := by
  rw [opened_cons, wordStep, if_neg (Bool.eq_false_iff.1 inked)]

theorem opened_of_parted {rest : List Char} (parted : Parted rest) :
    opened rest = ([], wordsBy isBlank rest) := by
  cases rest with
  | nil => rfl
  | cons c rest =>
    have blank := parted c rfl
    rw [wordsBy_eq, opened_cons_blank blank]
    rfl

theorem opened_append {word : List Char} (unbroken : Unbroken word) (rest : List Char) :
    opened (word ++ rest) = (word ++ (opened rest).1, (opened rest).2) := by
  induction word with
  | nil => rfl
  | cons c word ih =>
    obtain ⟨inked, unbroken⟩ := List.forall_mem_cons.1 unbroken
    rw [List.cons_append, opened_cons_of_not inked, ih unbroken]
    rfl

theorem wordsBy_append_of_blank {before : List Char} (blank : AllBlank before) (rest : List Char) :
    wordsBy isBlank (before ++ rest) = wordsBy isBlank rest := by
  induction before with
  | nil => rfl
  | cons c before ih =>
    obtain ⟨first, blank⟩ := List.forall_mem_cons.1 blank
    rw [List.cons_append, wordsBy_eq, opened_cons_blank first, ih blank]
    rfl

theorem opened_spec (text : List Char) :
    ∃ rest, text = (opened text).1 ++ rest ∧ Unbroken (opened text).1 ∧ Parted rest ∧
      Words rest (opened text).2 := by
  induction text with
  | nil =>
    have nothing {P : Char → Prop} : ∀ c ∈ ([] : List Char), P c := fun _ none => nomatch none
    exact ⟨[], rfl, nothing, fun _ none => (nomatch none), .none nothing⟩
  | cons c text ih =>
    obtain ⟨rest, split, unbroken, parted, found⟩ := ih
    cases blank : isBlank c with
    | true =>
      have behind : Words text (wordsBy isBlank text) := by
        have pushed := Words.push unbroken parted found
        rwa [← split] at pushed
      rw [opened_cons_blank blank]
      refine ⟨c :: text, rfl, fun _ none => (nomatch none), ?_, behind.cons_blank blank⟩
      intro first head
      cases head
      exact blank
    | false =>
      rw [opened_cons_of_not blank]
      exact ⟨rest, congrArg (c :: ·) split, List.forall_mem_cons.2 ⟨blank, unbroken⟩, parted, found⟩

theorem wordsBy_eq_iff {text : List Char} {words : List (List Char)} :
    wordsBy isBlank text = words ↔ Words text words := by
  constructor
  case mp =>
    rintro rfl
    obtain ⟨rest, split, unbroken, parted, found⟩ := opened_spec text
    have pushed := Words.push unbroken parted found
    rwa [← split] at pushed
  case mpr =>
    intro found
    induction found with
    | none blank =>
      have plain := wordsBy_append_of_blank blank []
      rwa [List.append_nil] at plain
    | @word before word rest words blank filled unbroken parted _ ih =>
      have nonempty : word.isEmpty = false := List.isEmpty_eq_false_iff.2 filled
      rw [List.append_assoc, wordsBy_append_of_blank blank, wordsBy_eq, opened_append unbroken,
        opened_of_parted parted, ih, List.append_nil, pushWord, nonempty]
      rfl

def Paired (text : List Char) : Prop :=
  ∀ n, text[n]? = some '\r' → text[n + 1]? = some '\n'

instance (text : List Char) : Decidable (Paired text) :=
  decidable_of_iff (∀ n < text.length, text[n]? = some '\r' → text[n + 1]? = some '\n')
    ⟨fun every n found => every n (List.getElem?_eq_some_iff.1 found).1 found,
     fun paired n _ => paired n⟩

theorem Paired.tail {c : Char} {text : List Char} (paired : Paired (c :: text)) : Paired text :=
  fun n => paired (n + 1)

theorem map_lineStep {separator c : Char} {left right : List (List Char)}
    (same : left.map opened = right.map opened) :
    (lineStep separator c left).map opened = (lineStep separator c right).map opened := by
  cases left with
  | nil =>
    cases right with
    | nil => rfl
    | cons => cases same
  | cons line left =>
    cases right with
    | nil => cases same
    | cons other right =>
      obtain ⟨first, others⟩ := List.cons.inj same
      by_cases ends : c = separator
      · simp only [lineStep, if_pos ends, List.map_cons, first, others]
      · simp only [lineStep, if_neg ends, List.map_cons, opened_cons, first, others]

/-- Without its carriage returns a text has the same words on each line. -/
theorem map_lines_filter {text : List Char} (paired : Paired text) :
    (lines '\n' (text.filter (· != '\r'))).map opened = (lines '\n' text).map opened := by
  induction text with
  | nil => rfl
  | cons c text ih =>
    have tail := ih paired.tail
    by_cases returns : c = '\r'
    case pos =>
      subst returns
      have behind : text.head? = some '\n' := List.head?_eq_getElem?.trans (paired 0 rfl)
      obtain ⟨rest, rfl⟩ := List.head?_eq_some_iff.1 behind
      rw [List.filter_cons_of_neg (by decide), tail, lines_cons_separator]
      have alone : '\n' ∉ ['\r'] := by decide
      have line : lines '\n' ('\r' :: '\n' :: rest) = ['\r'] :: lines '\n' rest :=
        lines_append_line alone rest
      rw [line]
      rfl
    case neg =>
      have kept : (c :: text).filter (· != '\r') = c :: text.filter (· != '\r') :=
        List.filter_cons_of_pos (p := (· != '\r')) (bne_iff_ne.2 returns)
      rw [kept]
      exact map_lineStep tail

end Cycle6502.Text
