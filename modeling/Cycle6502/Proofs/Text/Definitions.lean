import Cycle6502.Proofs.Text.Numerals
import Cycle6502.Proofs.Text.Words
import Cycle6502.Symbols

/-! Symbol texts. A line is taken if its first word is an address and there is another word, which is
the name; the last name that is given to an address counts. -/

set_option autoImplicit false

namespace Cycle6502.Symbols

open Text (Words Numeral Paired unsigned optionalPlus)

def Takes (signs : List (List Char)) (line : List Char) (addr : UInt16) (name : String) : Prop :=
  ∃ first more, Words line (first :: name.toList :: more) ∧ Numeral signs first addr

theorem readLine?_eq_some {line : List Char} {addr : UInt16} {name : String} :
    readLine? line = some (addr, name) ↔ Takes optionalPlus line addr name := by
  constructor
  case mp =>
    intro read
    unfold readLine? at read
    split at read
    case h_1 first second more words =>
      obtain ⟨_, found, same⟩ := Option.map_eq_some_iff.1 read
      cases same
      refine ⟨first, more, ?_, Text.readAddress?_eq_some.1 found⟩
      rw [String.toList_ofList]
      exact Text.wordsBy_eq_iff.1 words
    case h_2 => cases read
  case mpr =>
    rintro ⟨first, more, words, numeral⟩
    rw [readLine?, Text.wordsBy_eq_iff.2 words]
    simp only [Text.readAddress?_eq_some.2 numeral, Option.map_some, String.ofList_toList]

instance (line : List Char) : Decidable (∃ addr name, Takes optionalPlus line addr name) :=
  decidable_of_iff ((readLine? line).isSome = true) <| by
    simp only [Option.isSome_iff_exists, Prod.exists, readLine?_eq_some]

theorem length_definitions (text : String) :
    (definitions text).length =
      (Text.lines '\n' text.toList).countP fun line =>
        ∃ addr name, Takes optionalPlus line addr name := by
  rw [definitions, List.length_filterMap_eq_countP]
  refine List.countP_congr fun line _ => ?_
  simp only [Option.isSome_iff_exists, Prod.exists, readLine?_eq_some, decide_eq_true_eq]

theorem get?_insert (s : Symbols) (addr other : UInt16) (name : String) :
    (s.insert addr name).get? other = if addr = other then some name else s.get? other := by
  simp [insert, get?, Std.HashMap.getElem?_insert]

section
variable {s : Symbols} {text : String} {addr : UInt16} {name : String}

def insertAll (s : Symbols) (entries : List (UInt16 × String)) : Symbols :=
  entries.foldl (fun s (addr, name) => s.insert addr name) s

theorem load_eq (s : Symbols) (text : String) : s.load text = s.insertAll (definitions text) := rfl

theorem get?_insertAll_of_not {entries : List (UInt16 × String)}
    (other : ∀ entry ∈ entries, entry.1 ≠ addr) : (s.insertAll entries).get? addr = s.get? addr := by
  induction entries generalizing s with
  | nil => rfl
  | cons entry entries ih =>
    obtain ⟨first, other⟩ := List.forall_mem_cons.1 other
    exact (ih other).trans ((get?_insert s _ _ _).trans (if_neg first))

theorem get?_insertAll_of_last {before after : List (UInt16 × String)}
    (last : ∀ entry ∈ after, entry.1 ≠ addr) :
    (s.insertAll (before ++ (addr, name) :: after)).get? addr = some name := by
  rw [insertAll, List.foldl_append, List.foldl_cons]
  exact (get?_insertAll_of_not last).trans ((get?_insert _ _ _ _).trans (if_pos rfl))

theorem ne_of_not_takes {lines : List (List Char)}
    (none : ∀ line ∈ lines, ∀ name, ¬ Takes optionalPlus line addr name) :
    ∀ entry ∈ lines.filterMap readLine?, entry.1 ≠ addr := by
  rintro ⟨found, name⟩ member rfl
  obtain ⟨line, inside, read⟩ := List.mem_filterMap.1 member
  exact none line inside name (readLine?_eq_some.1 read)

end

def readWords? : List (List Char) → Option (UInt16 × String)
  | addr :: name :: _ => (Text.readAddress? (String.ofList addr)).map (·, String.ofList name)
  | _ => none

theorem readLine?_eq : readLine? =
    (fun found => readWords? (Text.pushWord found.1 found.2)) ∘ Text.opened := rfl

theorem definitions_fileText {text : String} (paired : Paired text.toList) :
    definitions (fileText text) = definitions text := by
  rw [definitions, definitions, fileText, String.toList_ofList, readLine?_eq, ← List.filterMap_map,
    Text.map_lines_filter paired, List.filterMap_map]

/-- A line is taken if its first word is an address, with a plus sign in front of the digits or none,
and it has a second word. The last line taken for an address names it, and an address that no line
names keeps its name. Carriage returns in front of line feeds make no difference in a file. -/
theorem load_takes (s : Symbols) (text : String) :
    let lines := Text.lines '\n' text.toList
    let taken := Takes optionalPlus
    (definitions text).length = lines.countP (fun line => ∃ addr name, taken line addr name) ∧
    (∀ before line after addr name, lines = before ++ line :: after → taken line addr name →
      (∀ later ∈ after, ∀ other, ¬ taken later addr other) →
      (s.load text).get? addr = some name) ∧
    (∀ addr, (∀ line ∈ lines, ∀ name, ¬ taken line addr name) →
      (s.load text).get? addr = s.get? addr) ∧
    (Paired text.toList → (definitions (fileText text)).length = (definitions text).length ∧
      s.load (fileText text) = s.load text) ∧
    ∀ line addr name, (∀ first more, Words line (first :: more) → '+' ∉ first) →
      (taken line addr name ↔ Takes unsigned line addr name) := by
  intro lines taken
  refine ⟨length_definitions text, ?_, fun addr none => ?_, fun paired => ?_, ?_⟩
  · intro before line after addr name split takes last
    have found : definitions text = before.filterMap readLine? ++ (addr, name) ::
        after.filterMap readLine? := by
      rw [definitions, show Text.lines '\n' text.toList = _ from split, List.filterMap_append,
        List.filterMap_cons_some (readLine?_eq_some.2 takes)]
    rw [load_eq, found]
    exact get?_insertAll_of_last (ne_of_not_takes last)
  · exact get?_insertAll_of_not (ne_of_not_takes none)
  · have same := definitions_fileText paired
    exact ⟨congrArg List.length same, by rw [load_eq, load_eq, same]⟩
  · intro line addr name plain
    refine exists_congr fun first => exists_congr fun more => and_congr_right fun words => ?_
    exact Text.numeral_optionalPlus_iff (plain first _ words)

/-- A text with a second line for an address, and with two lines that are not taken. -/
theorem load_takes_twice :
    let text := "$1900 START\r\n  &1900\tAGAIN more\r\nzz no\r\n2000\r\n"
    let s := ({} : Symbols).insert 0x2000 "KEPT"
    Takes unsigned "  &1900\tAGAIN more\r".toList 0x1900 "AGAIN" ∧
      (definitions text).length = 2 ∧ (s.load text).get? 0x1900 = some "AGAIN" ∧
      (s.load text).get? 0x2000 = some "KEPT" ∧ s.load (fileText text) = s.load text := by
  intro text s
  obtain ⟨count, last, kept, file, plain⟩ := load_takes s text
  have again : Takes optionalPlus "  &1900\tAGAIN more\r".toList 0x1900 "AGAIN" :=
    readLine?_eq_some.1 (by decide +kernel)
  have split : Text.lines '\n' text.toList = ["$1900 START\r".toList] ++
      "  &1900\tAGAIN more\r".toList :: ["zz no\r".toList, "2000\r".toList] := by decide +kernel
  refine ⟨(plain _ _ _ fun first more words => ?_).1 again, count.trans (by decide +kernel),
    last _ _ _ _ _ split again fun later member name takes => ?_,
    (kept 0x2000 fun line member name takes => ?_).trans ((get?_insert _ _ _ _).trans (if_pos rfl)),
    (file (by decide +kernel)).2⟩
  · have found : Text.wordsBy Text.isBlank "  &1900\tAGAIN more\r".toList =
        ["&1900".toList, "AGAIN".toList, "more".toList] := by decide +kernel
    rw [Text.wordsBy_eq_iff.2 words] at found
    exact (List.cons.inj found).1 ▸ by decide
  · have none : ∀ line ∈ ["zz no\r".toList, "2000\r".toList], readLine? line = none := by
      decide +kernel
    cases (none later member).symm.trans (readLine?_eq_some.2 takes)
  · have others : ∀ line ∈ Text.lines '\n' text.toList,
        (readLine? line).map Prod.fst ≠ some 0x2000 := by decide +kernel
    exact others line member (congrArg (Option.map Prod.fst) (readLine?_eq_some.2 takes))

/-- A plus sign in front of the digits is taken, and the word is no address. -/
theorem load_takes_plus :
    definitions "+1900 START" = [(0x1900, "START")] ∧
      ∀ addr name, ¬ Takes unsigned "+1900 START".toList addr name := by
  refine ⟨by decide +kernel, fun addr name takes => ?_⟩
  obtain ⟨first, more, words, numeral⟩ := takes
  have split := Text.wordsBy_eq_iff.2 words
  have found : Text.wordsBy Text.isBlank "+1900 START".toList =
      ["+1900".toList, "START".toList] := by decide +kernel
  rw [found] at split
  have same := (List.cons.inj split).1
  exact numeral.plus_notMem (same ▸ by decide)

end Cycle6502.Symbols
