import Cycle6502.Proofs.Instruction.Disassembly
import Cycle6502.Symbols

/-! Annotated disassembly. The line of an instruction has a second address exactly when the operand
is one, and the annotation is the name of that address. -/

set_option autoImplicit false

namespace Cycle6502

namespace Symbols

def IsMark (mark : List Char) (addr : UInt16) : Prop :=
  ∃ digits : List Char, mark = '$' :: digits ∧ digits.length = 4 ∧
    (∀ c ∈ digits, c ∈ Text.upperDigits) ∧ Text.digitsValue? 16 digits = some addr.toNat

def Occurs (text before after : List Char) (addr : UInt16) : Prop :=
  ∃ mark, text = before ++ mark ++ after ∧ IsMark mark addr

/-- The addresses that are found in a text, where the leftmost mark is found first and the search
goes on behind it. -/
inductive Matches : List Char → List UInt16 → Prop where
  | nowhere {text : List Char} (unmarked : ∀ before after addr, ¬ Occurs text before after addr) :
      Matches text []
  | leftmost {text before after : List Char} {addr : UInt16} {found : List UInt16}
      (occurs : Occurs text before after addr)
      (first : ∀ before' after' addr', Occurs text before' after' addr' →
        before.length ≤ before'.length)
      (later : Matches after found) : Matches text (addr :: found)

section
variable {c : Char} {value : Nat}

theorem upperDigit?_ofNat :
    ∀ n < 128, ∀ value ∈ upperDigit? (.ofNat n), Text.upperDigits[value]? = some (.ofNat n) := by
  decide +kernel

theorem upperDigit?_upper :
    ∀ value < 16, Text.upperDigits[value]?.bind upperDigit? = some value := by decide

theorem upperDigit?_eq_some :
    upperDigit? c = some value ↔ Text.upperDigits[value]? = some c := by
  constructor
  · intro read
    have digit : Text.digitValue? c = some value := (Option.ite_none_left_eq_some.1 read).2
    exact Text.forall_ascii
      (P := fun c => ∀ value ∈ upperDigit? c, Text.upperDigits[value]? = some c)
      upperDigit?_ofNat (Text.ascii_of_digitValue? digit) value read
  · intro digit
    have short := Text.IsDigit.lt (.inl digit)
    simpa [digit] using upperDigit?_upper value short

end

section
variable {a b c d : Char} {k l m n : Nat} (first : Text.upperDigits[k]? = some a)
  (second : Text.upperDigits[l]? = some b) (third : Text.upperDigits[m]? = some c)
  (fourth : Text.upperDigits[n]? = some d)
include first second third fourth

theorem fourDigits?_upper :
    fourDigits? a b c d = some (.ofNat (16 * (16 * (16 * k + l) + m) + n)) := by
  simp [fourDigits?, upperDigit?_eq_some.2 first, upperDigit?_eq_some.2 second,
    upperDigit?_eq_some.2 third, upperDigit?_eq_some.2 fourth]

theorem isMark_upper :
    IsMark ['$', a, b, c, d] (.ofNat (16 * (16 * (16 * k + l) + m) + n)) := by
  have digit {c : Char} {value : Nat} (upper : Text.upperDigits[value]? = some c) :
      c ∈ Text.upperDigits ∧ value < 16 ∧ Text.digitValue? c = some value :=
    ⟨List.mem_of_getElem? upper, Text.IsDigit.lt (.inl upper),
      Text.digitValue?_eq_some.2 (.inl upper)⟩
  obtain ⟨upper₁, short₁, value₁⟩ := digit first
  obtain ⟨upper₂, short₂, value₂⟩ := digit second
  obtain ⟨upper₃, short₃, value₃⟩ := digit third
  obtain ⟨upper₄, short₄, value₄⟩ := digit fourth
  have bound : 16 * (16 * (16 * k + l) + m) + n < 65536 := by omega
  refine ⟨[a, b, c, d], rfl, rfl, by simp [upper₁, upper₂, upper₃, upper₄], ?_⟩
  rw [UInt16.toNat_ofNat_of_lt' bound]
  simp [Text.digitsValue?, value₁, value₂, value₃, value₄, short₁, short₂, short₃, short₄]

end

theorem IsMark.unique {mark : List Char} {addr addr' : UInt16} (isMark : IsMark mark addr)
    (other : IsMark mark addr') : addr = addr' := by
  obtain ⟨digits, rfl, -, -, value⟩ := isMark
  obtain ⟨digits', same, -, -, value'⟩ := other
  cases same
  exact UInt16.toNat_inj.1 (Option.some.inj (value.symm.trans value'))

theorem IsMark.length {mark : List Char} {addr : UInt16} (isMark : IsMark mark addr) :
    mark.length = 5 := by
  obtain ⟨digits, rfl, length, -, -⟩ := isMark
  exact congrArg (· + 1) length

theorem fourDigits?_eq_some {a b c d : Char} {addr : UInt16} :
    fourDigits? a b c d = some addr ↔ IsMark ['$', a, b, c, d] addr := by
  constructor
  · intro read
    simp only [fourDigits?, Option.bind_eq_bind, Option.bind_eq_some_iff, Option.some.injEq,
      upperDigit?_eq_some] at read
    obtain ⟨k, first, l, second, m, third, n, fourth, rfl⟩ := read
    exact isMark_upper first second third fourth
  · intro isMark
    have ⟨digits, split, _, upper, _⟩ := isMark
    cases split
    simp only [List.forall_mem_cons, List.mem_iff_getElem? (l := Text.upperDigits)] at upper
    obtain ⟨⟨k, first⟩, ⟨l, second⟩, ⟨m, third⟩, ⟨n, fourth⟩, -⟩ := upper
    rw [fourDigits?_upper first second third fourth,
      (isMark_upper first second third fourth).unique isMark]

section
variable {text before after : List Char} {addr : UInt16} {found found' : List UInt16} {c : Char}

theorem Occurs.dollar (occurs : Occurs text before after addr) : '$' ∈ text := by
  obtain ⟨mark, rfl, digits, rfl, -⟩ := occurs
  simp

theorem Occurs.of_append {tail : List Char} (free : ∀ c ∈ tail, c ∉ '$' :: Text.upperDigits)
    (occurs : Occurs (text ++ tail) before after addr) :
    ∃ rest, Occurs text before rest addr := by
  obtain ⟨mark, split, isMark⟩ := occurs
  rcases List.append_eq_append_iff.1 split with ⟨excess, within, cut⟩ | ⟨rest, within, -⟩
  · rcases excess.eq_nil_or_concat with rfl | ⟨front, last, rfl⟩
    · exact ⟨[], mark, by rw [List.append_nil, within, List.append_nil], isMark⟩
    · -- Otherwise the last digit of the mark is in the tail.
      obtain ⟨digits, rfl, length, upper, -⟩ := isMark
      rcases digits.eq_nil_or_concat with rfl | ⟨_, digit, rfl⟩
      · cases length
      · have same : last = digit := by
          simpa [List.getLast?_cons] using congrArg List.getLast? within.symm
        have inside : last ∈ tail := by simp [cut]
        have isDigit : last ∈ Text.upperDigits := upper last (by simp [same])
        exact absurd (List.mem_cons_of_mem _ isDigit) (free last inside)
  · exact ⟨rest, mark, within, isMark⟩

namespace Matches

theorem plain (unmarked : '$' ∉ text) : Matches text [] :=
  .nowhere fun _ _ _ occurs => unmarked occurs.dollar

theorem cons (unmarked : ∀ after addr, ¬ Occurs (c :: text) [] after addr)
    (matched : Matches text found) : Matches (c :: text) found := by
  have inside {before after : List Char} {addr : UInt16}
      (occurs : Occurs (c :: text) before after addr) :
      ∃ rest, before = c :: rest ∧ Occurs text rest after addr := by
    obtain ⟨mark, split, isMark⟩ := occurs
    cases before with
    | nil => exact absurd ⟨mark, split, isMark⟩ (unmarked after addr)
    | cons head rest =>
      obtain ⟨rfl, behind⟩ := List.cons.inj split
      exact ⟨rest, rfl, mark, behind, isMark⟩
  cases matched with
  | nowhere nowhere =>
    refine .nowhere fun before after addr occurs => ?_
    obtain ⟨rest, -, occurs⟩ := inside occurs
    exact nowhere rest after addr occurs
  | @leftmost _ before after addr found occurs first later =>
    obtain ⟨mark, rfl, isMark⟩ := occurs
    have longer : Occurs (c :: (before ++ mark ++ after)) (c :: before) after addr :=
      ⟨mark, rfl, isMark⟩
    apply Matches.leftmost longer _ later
    intro before' after' addr' occurs'
    obtain ⟨rest, rfl, behind⟩ := inside occurs'
    exact Nat.succ_le_succ (first rest after' addr' behind)

theorem append_left (plain : '$' ∉ before) (matched : Matches text found) :
    Matches (before ++ text) found := by
  induction before with
  | nil => exact matched
  | cons head before ih =>
    refine cons ?_ (ih fun member => plain (List.mem_cons_of_mem head member))
    rintro after addr ⟨mark, split, digits, rfl, -⟩
    cases (List.cons.inj split).1
    exact plain List.mem_cons_self

theorem append_right {tail : List Char} (free : ∀ c ∈ tail, c ∉ '$' :: Text.upperDigits)
    (matched : Matches text found) : Matches (text ++ tail) found := by
  induction matched with
  | nowhere unmarked =>
    refine .nowhere fun before after addr occurs => ?_
    obtain ⟨rest, within⟩ := occurs.of_append free
    exact unmarked before rest addr within
  | leftmost occurs first later ih =>
    obtain ⟨mark, rfl, isMark⟩ := occurs
    refine .leftmost ⟨mark, List.append_assoc _ _ _, isMark⟩ ?_ ih
    intro before' after' addr' occurs'
    obtain ⟨rest, within⟩ := occurs'.of_append free
    exact first before' rest addr' within

theorem short (length : text.length < 5) : Matches text [] := by
  refine .nowhere ?_
  rintro before after addr ⟨mark, rfl, isMark⟩
  rw [List.length_append, List.length_append, isMark.length] at length
  omega

theorem mark {digits : List Char} (isMark : IsMark digits addr) (matched : Matches text found) :
    Matches (digits ++ text) (addr :: found) := by
  have begins : Occurs (digits ++ text) [] text addr := ⟨digits, rfl, isMark⟩
  exact .leftmost begins (fun _ _ _ _ => Nat.zero_le _) matched

theorem unique (matched : Matches text found) (other : Matches text found') : found = found' := by
  induction matched generalizing found' with
  | nowhere unmarked =>
    cases other with
    | nowhere => rfl
    | leftmost occurs => exact absurd occurs (unmarked _ _ _)
  | leftmost occurs first later ih =>
    cases other with
    | nowhere unmarked => exact absurd occurs (unmarked _ _ _)
    | leftmost occurs' first' later' =>
      have place := Nat.le_antisymm (first _ _ _ occurs') (first' _ _ _ occurs)
      obtain ⟨mark, rfl, isMark⟩ := occurs
      obtain ⟨mark', split, isMark'⟩ := occurs'
      rw [List.append_assoc, List.append_assoc] at split
      obtain ⟨-, behind⟩ := List.append_inj split place
      obtain ⟨rfl, rfl⟩ := List.append_inj behind (isMark.length.trans isMark'.length.symm)
      rw [isMark.unique isMark', ih later']

end Matches

theorem matches_addressesIn (text : List Char) : Matches text (addressesIn text) := by
  fun_induction addressesIn text with
  | case1 a b c d rest addr read ih => exact .mark (fourDigits?_eq_some.1 read) ih
  | case2 a b c d rest read ih =>
    refine .cons ?_ ih
    rintro after addr ⟨mark, split, isMark⟩
    have same : ['$', a, b, c, d] = mark := List.append_inj_left split isMark.length.symm
    rw [← same] at isMark
    cases read.symm.trans (fourDigits?_eq_some.2 isMark)
  | case3 head rest short ih =>
    refine .cons ?_ ih
    rintro after addr ⟨mark, split, digits, rfl, length, -⟩
    obtain ⟨a, b, c, d, rfl⟩ := List.length_eq_four.1 length
    obtain ⟨rfl, rfl⟩ := List.cons.inj split
    exact short a b c d after rfl rfl
  | case4 => exact .plain List.not_mem_nil

/-- The addresses in a text are what a search for marks finds. -/
theorem matches_iff : Matches text found ↔ addressesIn text = found := by
  constructor
  · exact (matches_addressesIn text).unique
  · rintro rfl
    exact matches_addressesIn text

example : addressesIn "$1900  A5 70     -  LDA  $70     ".toList = [0x1900] := by decide

end

end Symbols

namespace Disassembly

open Symbols (Matches)

/-- Where the operand of an instruction at `addr` leads or lies, if that is written as an address:
a word, or the target of a branch, which counts from the byte behind it. -/
def operandAddress? (addr : UInt16) (mode : Mode) (first second : UInt8) : Option Nat :=
  match mode with
  | .absolute | .absoluteX | .absoluteY | .indirect => some (first.toNat + 256 * second.toNat)
  | .relative => some ((addr.toNat + 2 + Textbook.signed first) % 65536).toNat
  | _ => none

def RefersTo (v : Variant) (peek : UInt16 → UInt8) (addr target : UInt16) : Prop :=
  ∃ i, decode v (peek addr) = some i ∧
    operandAddress? addr i.mode (peek (addr + 1)) (peek (addr + 2)) = some target.toNat

theorem toNat_branchTarget_add_two (addr : UInt16) (offset : UInt8) :
    (branchTarget (addr + 2) offset).toNat =
      ((addr.toNat + 2 + Textbook.signed offset) % 65536).toNat := by
  have next : (addr + 2).toNat = (addr.toNat + 2) % 65536 := UInt16.toNat_add addr 2
  rw [toNat_branchTarget, next]
  omega

theorem isMark_hexDigits (w : UInt16) : Symbols.IsMark ('$' :: Text.hexDigits 4 w.toNat) w := by
  refine ⟨_, rfl, Text.length_hexDigits 4 w.toNat, fun _ => Text.mem_upperDigits, ?_⟩
  rw [Text.digitsValue?_hexDigits]
  exact congrArg some (Nat.mod_eq_of_lt w.toNat_lt)

theorem matches_hexWord (w : UInt16) : Matches ('$' :: Text.hexDigits 4 w.toNat) [w] := by
  have word := Matches.mark (isMark_hexDigits w) (.plain List.not_mem_nil)
  rwa [List.append_nil] at word

theorem matches_hexByte (b : UInt8) : Matches ('$' :: Text.hexDigits 2 b.toNat) [] :=
  .short (by simp [Text.length_hexDigits])

def numeral (addr : UInt16) (mode : Mode) (first second : UInt8) : List Char :=
  match mode with
  | .implied | .accumulator => []
  | .absolute | .absoluteX | .absoluteY | .indirect =>
    '$' :: Text.hexDigits 4 (wordOf first second).toNat
  | .relative => '$' :: Text.hexDigits 4 (branchTarget (addr + 2) first).toNat
  | _ => '$' :: Text.hexDigits 2 first.toNat

def opening : Mode → List Char
  | .accumulator => ['A']
  | .immediate => ['#']
  | .indirect | .indexedIndirect | .indirectIndexed => ['(']
  | _ => []

def closing : Mode → List Char
  | .zeroPageX | .absoluteX => [',', 'X']
  | .zeroPageY | .absoluteY => [',', 'Y']
  | .indirect => [')']
  | .indexedIndirect => [',', 'X', ')']
  | .indirectIndexed => [')', ',', 'Y']
  | _ => []

theorem toList_operand (addr : UInt16) (mode : Mode) (first second : UInt8) :
    (operand addr mode first second).toList =
      opening mode ++ numeral addr mode first second ++ closing mode := by
  cases mode <;> simp [operand, opening, numeral, closing, Text.hexByte, Text.hexWord]

theorem dollar_notMem_opening (mode : Mode) : '$' ∉ opening mode := by
  cases mode <;> decide

theorem notMem_closing (mode : Mode) : ∀ c ∈ closing mode, c ∉ '$' :: Text.upperDigits := by
  cases mode <;> simp [closing, Text.upperDigits]

theorem matches_numeral (addr : UInt16) (mode : Mode) (first second : UInt8) :
    ∃ target : Option UInt16, Matches (numeral addr mode first second) target.toList ∧
      target.map UInt16.toNat = operandAddress? addr mode first second := by
  cases mode with
  | implied | accumulator => exact ⟨none, .plain List.not_mem_nil, rfl⟩
  | absolute | absoluteX | absoluteY | indirect =>
    exact ⟨some _, matches_hexWord _, congrArg some (toNat_wordOf first second)⟩
  | relative =>
    exact ⟨some _, matches_hexWord _, congrArg some (toNat_branchTarget_add_two addr first)⟩
  | _ => exact ⟨none, matches_hexByte first, rfl⟩

theorem dollar_notMem_hexByte (b : UInt8) : '$' ∉ (Text.hexByte b).toList := by
  intro member
  rw [Text.hexByte, String.toList_ofList] at member
  exact absurd (Text.mem_upperDigits member) (by decide)

theorem dollar_notMem_dump (bytes : List UInt8) :
    '$' ∉ (" ".intercalate (bytes.map Text.hexByte)).toList := by
  induction bytes with
  | nil => decide
  | cons b rest ih =>
    cases rest with
    | nil =>
      rw [List.map_singleton, String.intercalate_singleton]
      exact dollar_notMem_hexByte b
    | cons b' rest =>
      rw [List.map_cons, List.map_cons, String.intercalate_cons_cons, String.toList_append,
        String.toList_append]
      simp only [List.mem_append, dollar_notMem_hexByte, false_or, not_or]
      exact ⟨by decide, ih⟩

theorem dollar_notMem_left {text : String} (width : Nat) (plain : '$' ∉ text.toList) :
    '$' ∉ (Text.left width text).toList := by
  simp [Text.left, plain]

theorem dollar_notMem_name (mnemonic : Mnemonic) : '$' ∉ mnemonic.name.toList := by
  cases mnemonic <;> decide

theorem matches_operand (addr : UInt16) (mode : Mode) (first second : UInt8) :
    ∃ target : Option UInt16, Matches (operand addr mode first second).toList target.toList ∧
      target.map UInt16.toNat = operandAddress? addr mode first second := by
  obtain ⟨target, matched, same⟩ := matches_numeral addr mode first second
  refine ⟨target, ?_, same⟩
  rw [toList_operand]
  exact .append_right (notMem_closing mode) (.append_left (dollar_notMem_opening mode) matched)

theorem matches_columns {addr : UInt16} {bytes : List UInt8} {name operand : String}
    {found : List UInt16} (plain : '$' ∉ name.toList) (matched : Matches operand.toList found) :
    Matches (columns addr bytes name operand).toList (addr :: found) := by
  have split : (columns addr bytes name operand).toList =
      ('$' :: Text.hexDigits 4 addr.toNat) ++
      ([' ', ' '] ++ (Text.left 8 (" ".intercalate (bytes.map Text.hexByte))).toList ++
          [' ', ' ', '-', ' ', ' '] ++ (Text.left 4 name).toList ++ [' '] ++
        (operand.toList ++ List.replicate (8 - operand.length) ' ')) := by
    simp [columns, Text.hexWord, Text.left]
  have blank (n : Nat) : ∀ c ∈ List.replicate n ' ', c ∉ '$' :: Text.upperDigits := by
    intro c member
    rw [List.eq_of_mem_replicate member]
    decide
  rw [split]
  refine .mark (isMark_hexDigits addr) (.append_left ?_ (.append_right (blank _) matched))
  simp only [List.mem_append, dollar_notMem_left 8 (dollar_notMem_dump bytes),
    dollar_notMem_left 4 plain]
  decide

theorem matches_line (v : Variant) (peek : UInt16 → UInt8) (addr : UInt16) :
    ∃ target : Option UInt16, Matches (line v peek addr).toList (addr :: target.toList) ∧
      ∀ other, target = some other ↔ RefersTo v peek addr other := by
  cases decoded : decode v (peek addr) with
  | none =>
    have written : line v peek addr = columns addr [peek addr] "???" "" := by
      simp only [line, decoded]
      rfl
    rw [written]
    refine ⟨none, matches_columns (by decide) (.plain (by decide)), ?_⟩
    simp [RefersTo, decoded]
  | some i =>
    obtain ⟨target, matched, same⟩ :=
      matches_operand addr i.mode (peek (addr + 1)) (peek (addr + 2))
    obtain ⟨bytes, written⟩ : ∃ bytes, line v peek addr = columns addr bytes i.mnemonic.name
        (operand addr i.mode (peek (addr + 1)) (peek (addr + 2))) := by
      simp only [line, decoded]
      exact ⟨_, rfl⟩
    rw [written]
    refine ⟨target, matches_columns (dollar_notMem_name i.mnemonic) matched, fun other => ?_⟩
    simp [RefersTo, decoded, ← same, UInt16.toNat_inj]

end Disassembly

namespace Symbols

theorem annotation_eq {line : String} {addr : UInt16} {target : Option UInt16} (s : Symbols)
    (matched : Matches line.toList (addr :: target.toList)) :
    s.annotation line = match target.bind s.get? with
      | some name => " ; " ++ name
      | none => "" := by
  unfold annotation
  rw [matches_iff.1 matched]
  cases target with
  | none => rfl
  | some target =>
    rw [Option.toList_some, List.drop_one, List.tail_cons, List.findSome?_singleton]
    rfl

/-- A line of disassembly is annotated with the name of its operand, and not at all if the operand
is not an address or has no name. -/
theorem annotation_line (s : Symbols) (v : Variant) (peek : UInt16 → UInt8) (addr : UInt16) :
    (∀ text found, Matches text found ↔ addressesIn text = found) ∧
    (∀ name, s.annotation (Disassembly.line v peek addr) = " ; " ++ name ↔
      ∃ target, Disassembly.RefersTo v peek addr target ∧ s.get? target = some name) ∧
    (s.annotation (Disassembly.line v peek addr) = "" ↔
      ∀ target, Disassembly.RefersTo v peek addr target → s.get? target = none) := by
  obtain ⟨target, matched, refers⟩ := Disassembly.matches_line v peek addr
  simp only [annotation_eq s matched, ← refers, ← Option.bind_eq_some_iff,
    ← Option.bind_eq_none_iff]
  refine ⟨fun _ _ => matches_iff, fun name => ?_, ?_⟩
  · cases target.bind s.get? <;> simp
  · cases target.bind s.get? <;> simp

end Symbols

end Cycle6502
