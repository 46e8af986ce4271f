import Cycle6502.Proofs.Image.Reading
import Cycle6502.Proofs.Text.Hex

/-! The grammar of records. A line is a colon and pairs of digits for the count of data bytes, the
address, the type, the data and a checksum. Other lines are read only if a plus sign stands for the
first digit of a pair. A line that differs in one character from a line that is read never has
another record. -/

set_option autoImplicit false

namespace Cycle6502.HexRecord

def IsPair (first second : Char) (byte : UInt8) : Prop :=
  Text.IsDigit first (byte.toNat / 16) ∧ Text.IsDigit second (byte.toNat % 16)
  deriving Decidable

/-- The two digits of a byte, or a plus sign and the only digit. -/
def IsNumeral (first second : Char) (byte : UInt8) : Prop :=
  IsPair first second byte ∨ first = '+' ∧ Text.IsDigit second byte.toNat
  deriving Decidable

def Spells (pair : Char → Char → UInt8 → Prop) : List UInt8 → List Char → Prop
  | [], [] => True
  | byte :: bytes, first :: second :: text => pair first second byte ∧ Spells pair bytes text
  | _, _ => False

instance Spells.decidable (pair : Char → Char → UInt8 → Prop)
    [∀ first second byte, Decidable (pair first second byte)] :
    ∀ bytes text, Decidable (Spells pair bytes text)
  | [], [] => .isTrue trivial
  | byte :: bytes, first :: second :: text =>
    have := Spells.decidable pair bytes text
    inferInstanceAs (Decidable (pair first second byte ∧ Spells pair bytes text))
  | [], _ :: _ => .isFalse id
  | _ :: _, [] => .isFalse id
  | _ :: _, [_] => .isFalse id

/-- A line of a colon and the bytes of a record. The first byte is the count of data bytes, which
gives the line its length, and the sum of all bytes is a multiple of 256. -/
structure Form (pair : Char → Char → UInt8 → Prop) (line : List Char) (bytes : List UInt8) :
    Prop where
  spelled : ∃ text, line = ':' :: text ∧ Spells pair bytes text
  counted : ∃ count ∈ bytes.head?, line.length = 11 + 2 * count.toNat
  balanced : (bytes.map UInt8.toNat).sum % 256 = 0

def Decodes (bytes : List UInt8) (r : HexRecord) : Prop :=
  ∃ count high low checksum, bytes = count :: high :: low :: r.kind :: (r.data ++ [checksum]) ∧
    r.addr.toNat = 256 * high.toNat + low.toNat

theorem IsNumeral.ascii {first second : Char} {byte : UInt8}
    (numeral : IsNumeral first second byte) : first.toNat < 128 ∧ second.toNat < 128 := by
  rcases numeral with ⟨higher, lower⟩ | ⟨rfl, digit⟩
  · exact ⟨higher.ascii, lower.ascii⟩
  · exact ⟨by decide, digit.ascii⟩

theorem readNumber?_pair (first second : Char) (byte : UInt8) :
    (Text.readNumber? 16 0x100 [first, second]).map UInt8.ofNat = some byte ↔
      IsNumeral first second byte := by
  by_cases sign : first = '+'
  case pos =>
    subst sign
    have numeral : Text.readNumber? 16 0x100 ['+', second] =
        (Text.digitValue? second).filter (· < 0x100) := by
      rw [← Text.digitsValue?_single]
      rfl
    rw [numeral, Text.map_ofNat_filter, Text.digitValue?_eq_some]
    simp [IsNumeral, IsPair, Text.not_isDigit_plus]
  case neg =>
    have numeral : Text.readNumber? 16 0x100 [first, second] =
        (Text.digitsValue? 16 [first, second]).filter (· < 0x100) := by
      simp [Text.readNumber?, sign]
    rw [numeral, Text.map_ofNat_filter, Text.digitsValue?_pair]
    simp [IsNumeral, IsPair, sign]

theorem pair?_eq_some {first second byte : UInt8} :
    pair? first second = some byte ↔ IsNumeral (Char.ofUInt8 first) (Char.ofUInt8 second) byte :=
  readNumber?_pair _ _ _

theorem IsNumeral.unique {first second : Char} {byte other : UInt8}
    (one : IsNumeral first second byte) (two : IsNumeral first second other) : byte = other := by
  have read := (readNumber?_pair first second byte).2 one
  rw [(readNumber?_pair first second other).2 two] at read
  exact (Option.some.inj read).symm

section
variable {pair : Char → Char → UInt8 → Prop} {byte : UInt8} {bytes : List UInt8}
  {text : List Char}

theorem spells_nil : Spells pair [] text ↔ text = [] := by
  cases text <;> simp [Spells]

theorem spells_cons : Spells pair (byte :: bytes) text ↔
    ∃ first second rest, text = first :: second :: rest ∧ pair first second byte ∧
      Spells pair bytes rest := by
  match text with
  | [] => simp [Spells]
  | [_] => simp [Spells]
  | first :: second :: rest => simp [Spells]

theorem Spells.length (spells : Spells pair bytes text) : text.length = 2 * bytes.length := by
  induction bytes generalizing text with
  | nil => simp [spells_nil.1 spells]
  | cons byte bytes ih =>
    obtain ⟨first, second, rest, rfl, -, spells⟩ := spells_cons.1 spells
    simp only [List.length_cons, ih spells]
    omega

theorem Spells.ascii (spells : Spells IsNumeral bytes text) : Text.Ascii text := by
  induction bytes generalizing text with
  | nil =>
    rw [spells_nil.1 spells]
    exact List.forall_mem_nil _
  | cons byte bytes ih =>
    obtain ⟨first, second, rest, rfl, numeral, spells⟩ := spells_cons.1 spells
    obtain ⟨one, two⟩ := numeral.ascii
    exact List.forall_mem_cons.2 ⟨one, List.forall_mem_cons.2 ⟨two, ih spells⟩⟩

end

theorem pairs_eq_ok {column : Nat} {text bytes : List UInt8} :
    pairs column text = .ok bytes ↔ Spells IsNumeral bytes (Text.ofBytes text) := by
  fun_induction pairs column text generalizing bytes with
  | case1 column first second rest refused =>
    cases bytes with
    | nil => simp [Spells, Text.ofBytes]
    | cons byte bytes => simp [Spells, Text.ofBytes, ← pair?_eq_some, refused]
  | case2 column first second rest byte read ih =>
    have numeral := pair?_eq_some.1 read
    cases bytes with
    | nil => cases tail : pairs (column + 2) rest <;> simp [Spells, Text.ofBytes, Except.map]
    | cons other bytes =>
      have same : IsNumeral (Char.ofUInt8 first) (Char.ofUInt8 second) other ↔ byte = other :=
        ⟨numeral.unique, fun same => same ▸ numeral⟩
      simp only [Text.ofBytes, List.map_cons, Spells, same]
      rw [← Text.ofBytes, ← ih]
      cases tail : pairs (column + 2) rest <;> simp [Except.map]
  | case3 => cases bytes <;> simp [Spells, Text.ofBytes]
  | case4 => cases bytes <;> simp [Spells, Text.ofBytes]

theorem sum_eq (bytes : List UInt8) : (sum bytes).toNat = (bytes.map UInt8.toNat).sum % 256 := by
  unfold sum
  induction bytes using List.reverseRecOn with
  | nil => rfl
  | append_singleton front last ih =>
    simp only [List.foldl_append, List.foldl_cons, List.foldl_nil, List.map_append, List.map_cons,
      List.map_nil, List.sum_append, List.sum_cons, List.sum_nil, UInt8.toNat_add, ih]
    omega

theorem neg_sum_eq (bytes : List UInt8) (checksum : UInt8) :
    -sum bytes = checksum ↔ ((bytes ++ [checksum]).map UInt8.toNat).sum % 256 = 0 := by
  have total : sum (bytes ++ [checksum]) = sum bytes + checksum := by simp [sum]
  have sumBound := (sum bytes).toNat_lt
  have checksumBound := checksum.toNat_lt
  rw [← sum_eq, total, ← UInt8.toNat_inj, UInt8.toNat_neg, UInt8.toNat_add, UInt8.size]
  omega

theorem decodes_iff {count high low kind checksum : UInt8} {data : List UInt8} {r : HexRecord} :
    Decodes (count :: high :: low :: kind :: (data ++ [checksum])) r ↔
      ⟨wordOf low high, kind, data⟩ = r := by
  constructor
  · rintro ⟨_, _, _, _, same, addr⟩
    simp only [List.cons.injEq] at same
    obtain ⟨rfl, rfl, rfl, rfl, tail⟩ := same
    obtain ⟨rfl, -⟩ := List.append_inj' tail rfl
    have word : wordOf low high = r.addr := by
      apply UInt16.toNat_inj.1
      rw [toNat_wordOf, addr]
      omega
    rw [word]
  · rintro rfl
    exact ⟨count, high, low, checksum, rfl, by rw [toNat_wordOf, Nat.add_comm]⟩

theorem exists_fields {bytes : List UInt8} (long : 5 ≤ bytes.length) :
    ∃ count high low kind data checksum,
      bytes = count :: high :: low :: kind :: (data ++ [checksum]) := by
  match bytes with
  | count :: high :: low :: kind :: rest =>
    obtain rfl | ⟨data, checksum, rfl⟩ := List.eq_nil_or_concat' rest
    · exact absurd long (Nat.not_le_of_lt (Nat.lt_succ_self 4))
    · exact ⟨count, high, low, kind, data, checksum, rfl⟩

theorem ofBytes_eq_ok {bytes : List UInt8} {r : HexRecord} (long : 5 ≤ bytes.length) :
    ofBytes bytes = .ok r ↔ (bytes.map UInt8.toNat).sum % 256 = 0 ∧ Decodes bytes r := by
  obtain ⟨count, high, low, kind, data, checksum, rfl⟩ := exists_fields long
  have balanced := neg_sum_eq (count :: high :: low :: kind :: data) checksum
  simp only [List.cons_append] at balanced
  rw [decodes_iff, ← balanced, ofBytes, List.dropLast_concat, List.getLast?_concat,
    Option.getD_some]
  split
  case isTrue right => simp [right]
  case isFalse wrong => simp [wrong]

theorem Form.length {pair : Char → Char → UInt8 → Prop} {line : List Char} {bytes : List UInt8}
    (form : Form pair line bytes) : 5 ≤ bytes.length := by
  obtain ⟨text, rfl, spells⟩ := form.spelled
  obtain ⟨count, -, length⟩ := form.counted
  rw [List.length_cons, spells.length] at length
  omega

theorem ofBytes_colon {line : List UInt8} {text : List Char}
    (colon : Text.ofBytes line = ':' :: text) :
    ∃ rest, line = 0x3A :: rest ∧ Text.ofBytes rest = text := by
  cases line with
  | nil => cases colon
  | cons first rest =>
    simp only [Text.ofBytes, List.map_cons, List.cons.injEq] at colon
    obtain ⟨same, rfl⟩ := colon
    exact ⟨rest, congrArg (· :: rest) (Text.ofUInt8_injective same), rfl⟩

theorem length_ofBytes (bytes : List UInt8) : (Text.ofBytes bytes).length = bytes.length :=
  List.length_map _

theorem exists_of_parse {line : List UInt8} {r : HexRecord} (read : parse line = .ok r) :
    ∃ first second rest count bytes, line = 0x3A :: first :: second :: rest ∧
      pair? first second = some count ∧ line.length = 11 + 2 * count.toNat ∧
      pairs 2 (first :: second :: rest) = .ok bytes ∧ ofBytes bytes = .ok r := by
  unfold parse at read
  split at read
  case h_2 => cases read
  case h_1 first second rest =>
    split at read
    case isTrue => cases read
    case isFalse =>
      split at read
      case h_1 => cases read
      case h_2 count found =>
        split at read
        case isFalse => cases read
        case isTrue length =>
          split at read
          case h_1 => cases read
          case h_2 bytes paired =>
            exact ⟨first, second, rest, count, bytes, rfl, found, length, paired, read⟩

theorem form_of_parse {line : List UInt8} {r : HexRecord} (read : parse line = .ok r) :
    ∃ bytes, Form IsNumeral (Text.ofBytes line) bytes ∧ Decodes bytes r := by
  obtain ⟨first, second, rest, count, bytes, rfl, found, length, paired, made⟩ :=
    exists_of_parse read
  have spells := pairs_eq_ok.1 paired
  have double := spells.length
  rw [length_ofBytes] at double
  cases bytes with
  | nil => cases double
  | cons leading bytes =>
    -- The pair that was read for the count is the first of all.
    have same := (pair?_eq_some.1 found).unique spells.1
    subst same
    have long : 5 ≤ (count :: bytes).length := by
      rw [List.length_cons] at length
      omega
    obtain ⟨balanced, decodes⟩ := (ofBytes_eq_ok long).1 made
    rw [← length_ofBytes] at length
    exact ⟨_, ⟨⟨_, rfl, spells⟩, ⟨count, rfl, length⟩, balanced⟩, decodes⟩

theorem parse_of_form {line bytes : List UInt8} {r : HexRecord}
    (form : Form IsNumeral (Text.ofBytes line) bytes) (decodes : Decodes bytes r) :
    parse line = .ok r := by
  obtain ⟨text, colon, spells⟩ := form.spelled
  obtain ⟨count, first, length⟩ := form.counted
  obtain ⟨rest, rfl, rfl⟩ := ofBytes_colon colon
  obtain ⟨tail, rfl⟩ := List.head?_eq_some_iff.1 first
  rw [length_ofBytes] at length
  match rest with
  | [] => cases spells
  | [_] => cases spells
  | first :: second :: rest =>
    have found : pair? first second = some count := pair?_eq_some.2 spells.1
    have paired : pairs 2 (first :: second :: rest) = .ok (count :: tail) := pairs_eq_ok.2 spells
    have made := (ofBytes_eq_ok form.length).2 ⟨form.balanced, decodes⟩
    have enough : ¬ 11 + 2 * count.toNat < 11 := by omega
    simp only [parse, length, enough, found, paired, made, if_true, if_false]

theorem Form.ascii {line : List Char} {bytes : List UInt8} (form : Form IsNumeral line bytes) :
    Text.Ascii line := by
  obtain ⟨text, rfl, spells⟩ := form.spelled
  exact List.forall_mem_cons.2 ⟨by decide, spells.ascii⟩

theorem ofLine_eq_ok {line : List Char} {r : HexRecord} :
    ofLine line = .ok r ↔ ∃ bytes, Form IsNumeral line bytes ∧ Decodes bytes r := by
  have read : ofLine line = .ok r ↔
      ∃ bytes, Form IsNumeral (Text.ofBytes (Text.utf8 line)) bytes ∧ Decodes bytes r :=
    ⟨form_of_parse, fun ⟨_, form, decodes⟩ => parse_of_form form decodes⟩
  rw [read]
  refine Text.utf8_iff (P := fun line => ∃ bytes, Form IsNumeral line bytes ∧ Decodes bytes r) ?_ line
  rintro text ⟨bytes, form, -⟩
  exact form.ascii

theorem Form.decodes {line : List Char} {bytes : List UInt8} (form : Form IsNumeral line bytes) :
    ∃ r, Decodes bytes r := by
  obtain ⟨count, high, low, kind, data, checksum, rfl⟩ := exists_fields form.length
  exact ⟨⟨wordOf low high, kind, data⟩, decodes_iff.2 rfl⟩

theorem isPair_iff {first second : Char} {byte : UInt8} :
    IsPair first second byte ↔ IsNumeral first second byte ∧ first ≠ '+' ∧ second ≠ '+' := by
  constructor
  · intro digits
    refine ⟨.inl digits, ?_, ?_⟩
    · rintro rfl
      exact Text.not_isDigit_plus _ digits.1
    · rintro rfl
      exact Text.not_isDigit_plus _ digits.2
  · rintro ⟨digits | ⟨plus, -⟩, unsigned, -⟩
    · exact digits
    · exact absurd plus unsigned

theorem spells_isPair_iff {bytes : List UInt8} {text : List Char} :
    Spells IsPair bytes text ↔ Spells IsNumeral bytes text ∧ '+' ∉ text := by
  induction bytes generalizing text with
  | nil => simp +contextual [spells_nil]
  | cons byte bytes ih =>
    constructor
    · intro spells
      obtain ⟨first, second, rest, rfl, digits, spells⟩ := spells_cons.1 spells
      obtain ⟨numeral, one, two⟩ := isPair_iff.1 digits
      obtain ⟨spells, unsigned⟩ := ih.1 spells
      exact ⟨⟨numeral, spells⟩, by simp [Ne.symm one, Ne.symm two, unsigned]⟩
    · rintro ⟨spells, unsigned⟩
      obtain ⟨first, second, rest, rfl, numeral, spells⟩ := spells_cons.1 spells
      simp only [List.mem_cons, not_or] at unsigned
      obtain ⟨one, two, unsigned⟩ := unsigned
      exact ⟨isPair_iff.2 ⟨numeral, Ne.symm one, Ne.symm two⟩, ih.2 ⟨spells, unsigned⟩⟩

theorem form_isPair_iff {line : List Char} {bytes : List UInt8} :
    Form IsPair line bytes ↔ Form IsNumeral line bytes ∧ '+' ∉ line := by
  constructor
  · rintro ⟨⟨text, rfl, spells⟩, counted, balanced⟩
    obtain ⟨spells, unsigned⟩ := spells_isPair_iff.1 spells
    exact ⟨⟨⟨text, rfl, spells⟩, counted, balanced⟩, by simp [unsigned]⟩
  · rintro ⟨⟨⟨text, rfl, spells⟩, counted, balanced⟩, unsigned⟩
    have unsigned := mt (List.mem_cons_of_mem ':') unsigned
    exact ⟨⟨text, rfl, spells_isPair_iff.2 ⟨spells, unsigned⟩⟩, counted, balanced⟩

/-- Reading records, for every line. A line is read if it is a colon and pairs of digits or of a plus
sign and a digit, of the length that the count asks for, whose bytes have a sum of zero; of these, the
ones without a plus sign are the lines of digits alone. What is read are the address, the type and
the data among the bytes. -/
theorem ofLine_grammar (line : List Char) :
    ((∃ r, ofLine line = .ok r) ↔ ∃ bytes, Form IsNumeral line bytes) ∧
    ((∃ r, ofLine line = .ok r) ∧ '+' ∉ line ↔ ∃ bytes, Form IsPair line bytes) ∧
    ∀ r, ofLine line = .ok r → ∃ bytes, Form IsNumeral line bytes ∧ Decodes bytes r := by
  have accepted : (∃ r, ofLine line = .ok r) ↔ ∃ bytes, Form IsNumeral line bytes := by
    constructor
    · rintro ⟨r, read⟩
      obtain ⟨bytes, form, -⟩ := ofLine_eq_ok.1 read
      exact ⟨bytes, form⟩
    · rintro ⟨bytes, form⟩
      obtain ⟨r, decodes⟩ := form.decodes
      exact ⟨r, ofLine_eq_ok.2 ⟨bytes, form, decodes⟩⟩
  refine ⟨accepted, ?_, fun r => ofLine_eq_ok.1⟩
  simp only [accepted, form_isPair_iff, exists_and_right]

/-- A plus sign is taken for the first digit of a pair. -/
theorem ofLine_signed :
    let line := ":+3190000A90160DA".toList
    ofLine line = .ok ⟨0x1900, 0, [0xA9, 0x01, 0x60]⟩ ∧ ¬ ∃ bytes, Form IsPair line bytes := by
  intro line
  refine ⟨by decide +kernel, fun ⟨bytes, form⟩ => ?_⟩
  exact (form_isPair_iff.1 form).2 (by decide +kernel)

theorem Decodes.unique {bytes : List UInt8} {r other : HexRecord} (one : Decodes bytes r)
    (two : Decodes bytes other) : r = other := by
  obtain ⟨count, high, low, checksum, rfl, -⟩ := id one
  exact (decodes_iff.1 one).symm.trans (decodes_iff.1 two)

theorem Spells.unique {bytes others : List UInt8} {text : List Char}
    (one : Spells IsNumeral bytes text) (two : Spells IsNumeral others text) : bytes = others := by
  induction bytes generalizing others text with
  | nil =>
    rw [spells_nil.1 one] at two
    cases others with
    | nil => rfl
    | cons => exact two.elim
  | cons byte bytes ih =>
    obtain ⟨first, second, rest, rfl, numeral, one⟩ := spells_cons.1 one
    cases others with
    | nil => exact two.elim
    | cons other others =>
      obtain ⟨same, two⟩ := two
      rw [numeral.unique same, ih one two]

theorem Spells.replaced {bytes others : List UInt8} {before after : List Char} {old new : Char}
    (one : Spells IsNumeral bytes (before ++ old :: after))
    (two : Spells IsNumeral others (before ++ new :: after)) :
    ∃ front byte other back, bytes = front ++ byte :: back ∧ others = front ++ other :: back := by
  induction bytes generalizing others before with
  | nil => simpa using spells_nil.1 one
  | cons byte bytes ih =>
    cases others with
    | nil => simpa using spells_nil.1 two
    | cons other others =>
      match before with
      | [] =>
        -- The first pair has the character for its first digit, and the rest is the same.
        cases after with
        | nil => exact one.elim
        | cons => exact ⟨[], byte, other, bytes, rfl, by rw [one.2.unique two.2]; rfl⟩
      | [_] => exact ⟨[], byte, other, bytes, rfl, by rw [one.2.unique two.2]; rfl⟩
      | first :: second :: before =>
        obtain ⟨numeral, one⟩ := one
        obtain ⟨same, two⟩ := two
        obtain ⟨front, byte', other', back, rfl, rfl⟩ := ih one two
        exact ⟨byte :: front, byte', other', back, rfl, by rw [numeral.unique same]; rfl⟩

/-- One byte of several cannot be changed without changing the sum. -/
theorem eq_of_balanced {front back : List UInt8} {byte other : UInt8}
    (one : ((front ++ byte :: back).map UInt8.toNat).sum % 256 = 0)
    (two : ((front ++ other :: back).map UInt8.toNat).sum % 256 = 0) : byte = other := by
  have byteBound := byte.toNat_lt
  have otherBound := other.toNat_lt
  simp only [List.map_append, List.map_cons, List.sum_append, List.sum_cons] at one two
  apply UInt8.toNat_inj.1
  omega

/-- A line that differs in one character from a line that was read is refused, or means the same. -/
theorem ofLine_replaced {before after : List Char} {old new : Char} {r : HexRecord}
    (read : ofLine (before ++ old :: after) = .ok r) :
    ofLine (before ++ new :: after) = .ok r ∨ ∃ e, ofLine (before ++ new :: after) = .error e := by
  cases changed : ofLine (before ++ new :: after) with
  | error e => exact .inr ⟨e, rfl⟩
  | ok other =>
    left
    obtain ⟨bytes, form, decodes⟩ := ofLine_eq_ok.1 read
    obtain ⟨others, otherForm, otherDecodes⟩ := ofLine_eq_ok.1 changed
    obtain ⟨text, line, spells⟩ := form.spelled
    obtain ⟨text', line', spells'⟩ := otherForm.spelled
    cases before with
    | nil =>
      -- Both lines begin with a colon, so that it is the same line.
      cases line
      cases line'
      exact changed.symm.trans read
    | cons first before =>
      cases line
      cases line'
      obtain ⟨front, byte, other', back, rfl, rfl⟩ := spells.replaced spells'
      have same := eq_of_balanced form.balanced otherForm.balanced
      rw [same] at decodes
      rw [otherDecodes.unique decodes]

/-- A plus sign in place of the first digit of the count. -/
theorem ofLine_replaced_sign :
    let r : HexRecord := ⟨0x1900, 0, [0xA9, 0x01, 0x60]⟩
    let rest := "3190000A90160DA".toList
    ofLine ([':'] ++ '0' :: rest) = .ok r ∧
      (ofLine ([':'] ++ '+' :: rest) = .ok r ∨
        ∃ e, ofLine ([':'] ++ '+' :: rest) = .error e) := by
  intro r rest
  have read : ofLine ([':'] ++ '0' :: rest) = .ok r := by decide +kernel
  exact ⟨read, ofLine_replaced read⟩

end Cycle6502.HexRecord
