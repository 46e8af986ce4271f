import Cycle6502.Files
import Cycle6502.Proofs.Image.Blocks
import Cycle6502.Proofs.Word
import Mathlib.Data.List.Infix

/-! Reading Intel HEX. A text is what its records say in their order, up to the first that ends the
file: data goes where the segment that was set last puts it, over what is there. Records are kept
latest first, so that behind a record stands what had been read before it. -/

set_option autoImplicit false

namespace Cycle6502

namespace HexRecord

def ofLine (line : List Char) : Except Error HexRecord :=
  parse (String.ofList line).toUTF8.data.toList

def endsFile (line : List Char) : Bool :=
  match ofLine line with
  | .ok r => r.kind = 1
  | .error _ => false

def segment? (r : HexRecord) : Option Nat :=
  if r.kind = 2 then
    match r.data with
    | [high, low] => some (low.toNat + 256 * high.toNat)
    | _ => none
  else none

end HexRecord

namespace Image

/-- The lines of a text that are read, without blanks around them. -/
def body (lines : List (List Char)) : List (List Char) :=
  ((lines.map Text.trim).filter (!·.isEmpty)).takeWhile (!HexRecord.endsFile ·)

def records (lines : List (List Char)) : List HexRecord :=
  (lines.filterMap fun line => (HexRecord.ofLine line).toOption).reverse

def segmentBase (read : List HexRecord) : Nat := 16 * (read.findSome? HexRecord.segment?).getD 0

def start (earlier : List HexRecord) (r : HexRecord) : Nat := segmentBase earlier + r.addr.toNat

/-- Whether a record can be taken up: a segment is a word, and data ends within memory. -/
def Fits (earlier : List HexRecord) (r : HexRecord) : Prop :=
  (r.kind = 2 → r.data.length = 2) ∧
    (r.kind = 0 → start earlier r + r.data.length ≤ 0x10000)

def latestByte (addr : Nat) : List HexRecord → Option UInt8
  | r :: earlier => if r.kind = 0 then byteIn (start earlier r, r.data) addr else none
  | [] => none

/-- The byte of the last record that covers an address. -/
def byteAt (read : List HexRecord) (addr : Nat) : Option UInt8 :=
  read.tails.findSome? (latestByte addr)

theorem byteAt_cons (r : HexRecord) (read : List HexRecord) (addr : Nat) :
    byteAt (r :: read) addr = (latestByte addr (r :: read)).or (byteAt read addr) := by
  rw [byteAt, List.tails_cons, List.findSome?_cons]
  cases latestByte addr (r :: read) <;> rfl

theorem isSome_byteAt {read : List HexRecord} {addr : Nat} :
    (byteAt read addr).isSome ↔ ∃ r earlier, r :: earlier <:+ read ∧
      (latestByte addr (r :: earlier)).isSome := by
  rw [byteAt, List.findSome?_isSome_iff]
  constructor
  · rintro ⟨part, member, covered⟩
    cases part with
    | nil => cases covered
    | cons r earlier => exact ⟨r, earlier, (List.mem_tails _ _).1 member, covered⟩
  · rintro ⟨r, earlier, suffix, covered⟩
    exact ⟨_, (List.mem_tails _ _).2 suffix, covered⟩

theorem exists_byteAt {read : List HexRecord} :
    (∃ addr, (byteAt read addr).isSome) ↔ ∃ r ∈ read, r.kind = 0 ∧ r.data ≠ [] := by
  constructor
  · rintro ⟨addr, covered⟩
    obtain ⟨r, earlier, suffix, covered⟩ := isSome_byteAt.1 covered
    simp only [latestByte] at covered
    split at covered
    case isTrue data =>
      refine ⟨r, suffix.subset List.mem_cons_self, data, fun empty => ?_⟩
      have inside := (isSome_byteIn _ _).1 covered
      simp only [empty, List.length_nil] at inside
      omega
    case isFalse => cases covered
  · rintro ⟨r, member, data, filled⟩
    obtain ⟨later, earlier, rfl⟩ := List.append_of_mem member
    refine ⟨start earlier r, isSome_byteAt.2 ⟨r, earlier, List.suffix_append _ _, ?_⟩⟩
    have length := List.length_pos_iff.2 filled
    simp only [latestByte, data, if_true, isSome_byteIn]
    omega

theorem segmentBase_of_unset {r : HexRecord} {read : List HexRecord} (unset : r.segment? = none) :
    segmentBase (r :: read) = segmentBase read := by
  rw [segmentBase, List.findSome?_cons, unset]
  rfl

structure Reads (read : List HexRecord) (a : Assembly) : Prop where
  segment : a.segment = segmentBase read
  bytes : ∀ addr, blockByte a.blocks addr = byteAt read addr
  inRange : InRange a.blocks
  fits : ∀ r earlier, r :: earlier <:+ read → Fits earlier r

namespace Reads

variable {read : List HexRecord} {a a' : Assembly} {line : Nat} {r : HexRecord}

theorem nil : Reads [] {} where
  segment := rfl
  bytes _ := rfl
  inRange := List.forall_mem_nil _
  fits _ _ suffix := absurd (List.suffix_nil.1 suffix) (List.cons_ne_nil _ _)

theorem cons (reads : Reads read a) (fits : Fits read r) (segment : a'.segment = segmentBase (r :: read))
    (bytes : ∀ addr, blockByte a'.blocks addr =
      (latestByte addr (r :: read)).or (blockByte a.blocks addr))
    (inRange : InRange a'.blocks) : Reads (r :: read) a' where
  segment := segment
  bytes addr := by rw [bytes, reads.bytes, byteAt_cons]
  inRange := inRange
  fits other earlier suffix := by
    rcases List.suffix_cons_iff.1 suffix with same | inside
    · cases same
      exact fits
    · exact reads.fits other earlier inside

theorem idle (reads : Reads read a) (fits : Fits read r) (unset : r.segment? = none)
    (bare : ∀ addr, latestByte addr (r :: read) = none) : Reads (r :: read) a := by
  refine reads.cons fits ?_ (fun addr => ?_) reads.inRange
  · rw [reads.segment, segmentBase_of_unset unset]
  · rw [bare, Option.none_or]

def Takes (read : List HexRecord) (a : Assembly) (line : Nat) (r : HexRecord) : Prop :=
  ((∃ a', a.add line r = .ok a') ↔ Fits read r) ∧
    ∀ a', a.add line r = .ok a' → Reads (r :: read) a'

theorem takes_data (reads : Reads read a) (line : Nat) (data : r.kind = 0) :
    Takes read a line r := by
  have unset : r.segment? = none := by simp [HexRecord.segment?, data]
  have fits : Fits read r ↔ start read r + r.data.length ≤ 0x10000 := by simp [Fits, data]
  have place : a.segment + r.addr.toNat = start read r := by rw [reads.segment, start]
  simp only [Takes, Assembly.add, if_pos data, place, fits]
  split
  case isTrue past => exact ⟨iff_of_false nofun (Nat.not_le_of_lt past), nofun⟩
  case isFalse inside =>
    have inside := Nat.le_of_not_lt inside
    split
    case isTrue empty =>
      refine ⟨iff_of_true ⟨_, rfl⟩ inside, fun a' added => ?_⟩
      cases added
      rw [List.isEmpty_iff] at empty
      exact reads.idle (fits.2 inside) unset fun addr => by simp [latestByte, byteIn, empty]
    case isFalse filled =>
      refine ⟨iff_of_true ⟨_, rfl⟩ inside, fun a' added => ?_⟩
      cases added
      rw [List.isEmpty_iff] at filled
      refine reads.cons (fits.2 inside) ?_ (fun addr => ?_) ?_
      · rw [segmentBase_of_unset unset, reads.segment]
      · rw [blockByte_cons, latestByte, if_pos data]
      · exact List.forall_mem_cons.2 ⟨⟨filled, inside⟩, reads.inRange⟩

theorem takes_segment (reads : Reads read a) (line : Nat) (segment : r.kind = 2) :
    Takes read a line r := by
  have bare (addr : Nat) : latestByte addr (r :: read) = none := by simp [latestByte, segment]
  have fits : Fits read r ↔ r.data.length = 2 := by simp [Fits, segment]
  have unlike : r.kind ≠ 0 := by simp [segment]
  simp only [Takes, Assembly.add, if_neg unlike, if_pos segment, fits]
  split
  case h_1 high low bytes =>
    have two : r.data.length = 2 := congrArg List.length bytes
    refine ⟨iff_of_true ⟨_, rfl⟩ two, fun a' added => ?_⟩
    cases added
    refine reads.cons (fits.2 two) ?_ (fun addr => ?_) reads.inRange
    · simp [segmentBase, HexRecord.segment?, segment, bytes, toNat_wordOf]
    · rw [bare, Option.none_or]
  case h_2 other =>
    refine ⟨iff_of_false nofun fun two => ?_, nofun⟩
    obtain ⟨high, low, bytes⟩ := List.length_eq_two.1 two
    exact other high low bytes

theorem takes (reads : Reads read a) (line : Nat) (r : HexRecord) : Takes read a line r := by
  by_cases data : r.kind = 0
  · exact reads.takes_data line data
  by_cases segment : r.kind = 2
  · exact reads.takes_segment line segment
  have fits : Fits read r := ⟨fun same => absurd same segment, fun same => absurd same data⟩
  simp only [Takes, Assembly.add, if_neg data, if_neg segment]
  refine ⟨iff_of_true ⟨_, rfl⟩ fits, fun a' added => ?_⟩
  cases added
  exact reads.idle fits (if_neg segment) fun addr => if_neg data

end Reads

section
variable {text : List Char} {rest : List (List Char)}

theorem body_blank (blank : (Text.trim text).isEmpty) : body (text :: rest) = body rest := by
  simp [body, blank]

theorem body_end (inked : (Text.trim text).isEmpty = false)
    (ends : HexRecord.endsFile (Text.trim text)) : body (text :: rest) = [] := by
  simp [body, inked, ends]

theorem body_line (inked : (Text.trim text).isEmpty = false)
    (goesOn : HexRecord.endsFile (Text.trim text) = false) :
    body (text :: rest) = Text.trim text :: body rest := by
  simp [body, inked, goesOn]

end

theorem records_cons {line : List Char} {r : HexRecord} (accepted : HexRecord.ofLine line = .ok r)
    (lines : List (List Char)) : records (line :: lines) = records lines ++ [r] := by
  simp [records, accepted, Except.toOption]

structure Readable (read : List HexRecord) (lines : List (List Char)) : Prop where
  accepted : ∀ line ∈ lines, ∃ r, HexRecord.ofLine line = .ok r
  fits : ∀ r earlier, r :: earlier <:+ records lines ++ read → Fits earlier r

theorem readable_cons {read : List HexRecord} {line : List Char} {lines : List (List Char)}
    {r : HexRecord} (accepted : HexRecord.ofLine line = .ok r) :
    Readable read (line :: lines) ↔ Readable (r :: read) lines := by
  have same : records (line :: lines) ++ read = records lines ++ r :: read := by
    rw [records_cons accepted, List.append_assoc, List.singleton_append]
  constructor
  · rintro ⟨all, fits⟩
    exact ⟨fun other member => all other (List.mem_cons_of_mem _ member), same ▸ fits⟩
  · rintro ⟨others, fits⟩
    exact ⟨List.forall_mem_cons.2 ⟨⟨r, accepted⟩, others⟩, same ▸ fits⟩

/-- Lines are read if their records can be taken up, and then the assembly follows them. -/
theorem Reads.addLines {read : List HexRecord} {a : Assembly} (reads : Reads read a) (number : Nat)
    (lines : List (List Char)) :
    ((∃ a', a.addLines number lines = .ok a') ↔ Readable read (body lines)) ∧
      ∀ a', a.addLines number lines = .ok a' → Reads (records (body lines) ++ read) a' := by
  induction lines generalizing read a number with
  | nil =>
    refine ⟨iff_of_true ⟨a, rfl⟩ ⟨List.forall_mem_nil _, reads.fits⟩, fun a' added => ?_⟩
    cases added
    exact reads
  | cons text rest ih =>
    rw [Assembly.addLines]
    split
    case isTrue blank =>
      rw [body_blank blank]
      exact ih reads (number + 1)
    case isFalse inked =>
      rw [Bool.not_eq_true] at inked
      split
      case h_1 e refused =>
        have refused : HexRecord.ofLine (Text.trim text) = .error e := refused
        -- A line that is no record is among those that are read.
        rw [body_line inked (by rw [HexRecord.endsFile, refused])]
        refine ⟨iff_of_false nofun fun readable => ?_, nofun⟩
        obtain ⟨r, accepted⟩ := readable.accepted _ List.mem_cons_self
        cases accepted.symm.trans refused
      case h_2 r accepted =>
        have accepted : HexRecord.ofLine (Text.trim text) = .ok r := accepted
        split
        case isTrue ends =>
          rw [body_end inked (by simp [HexRecord.endsFile, accepted, ends])]
          refine ⟨iff_of_true ⟨a, rfl⟩ ⟨List.forall_mem_nil _, reads.fits⟩, fun a' added => ?_⟩
          cases added
          exact reads
        case isFalse goesOn =>
          obtain ⟨fits, follows⟩ := reads.takes number r
          rw [body_line inked (by simp [HexRecord.endsFile, accepted, goesOn]),
            readable_cons accepted, records_cons accepted, List.append_assoc,
            List.singleton_append]
          split
          case h_1 e refused =>
            refine ⟨iff_of_false nofun fun readable => ?_, nofun⟩
            obtain ⟨a', added⟩ := fits.2 (readable.fits r read (List.suffix_append _ _))
            cases added.symm.trans refused
          -- The rest is read behind a record more.
          case h_2 next added => exact ih (follows next added) (number + 1)

theorem addLines_ends (a : Assembly) (number : Nat) (before after after' : List (List Char))
    {last : List Char} (ends : HexRecord.endsFile (Text.trim last)) :
    a.addLines number (before ++ last :: after) = a.addLines number (before ++ last :: after') := by
  induction before generalizing a number with
  | nil =>
    rw [List.nil_append, List.nil_append, Assembly.addLines, Assembly.addLines]
    split
    -- A blank line is no record at all.
    case isTrue blank =>
      rw [List.isEmpty_iff.1 blank] at ends
      exact absurd ends (by decide +kernel)
    case isFalse =>
      cases accepted : HexRecord.ofLine (Text.trim last) with
      | error e => simp [HexRecord.endsFile, accepted] at ends
      | ok r =>
        have kind : r.kind = 1 := by simpa [HexRecord.endsFile, accepted] using ends
        have parsed : HexRecord.parse (String.ofList (Text.trim last)).toUTF8.data.toList = .ok r :=
          accepted
        simp only [parsed, kind, if_true]
  | cons text before ih =>
    simp only [List.cons_append, Assembly.addLines]
    split
    · exact ih a (number + 1)
    · split
      · rfl
      · split
        · rfl
        · split
          · rfl
          · exact ih _ (number + 1)

theorem ofHexText_eq_ok {text : String} {i : Image} :
    ofHexText text = .ok i ↔
      ∃ a, Assembly.addLines 1 {} (Text.lines '\n' text.toList) = .ok a ∧ a.image = .ok i := by
  unfold ofHexText
  cases added : Assembly.addLines 1 {} (Text.lines '\n' text.toList) with
  | error e => exact iff_of_false nofun (fun ⟨a, same, _⟩ => nomatch same)
  | ok a => exact ⟨fun made => ⟨a, rfl, made⟩, fun ⟨_, same, made⟩ => Except.ok.inj same ▸ made⟩

section
variable {text : String}

theorem reads_of_ofHexText {i : Image} (made : ofHexText text = .ok i) :
    ∃ a, Readable [] (body (Text.lines '\n' text.toList)) ∧
      Reads (records (body (Text.lines '\n' text.toList))) a ∧ a.image = .ok i := by
  obtain ⟨a, added, made⟩ := ofHexText_eq_ok.1 made
  obtain ⟨readable, reads⟩ := Reads.nil.addLines 1 (Text.lines '\n' text.toList)
  rw [List.append_nil] at reads
  exact ⟨a, readable.1 ⟨a, added⟩, reads a added, made⟩

theorem ofHexText_isOk :
    (∃ i, ofHexText text = .ok i) ↔ Readable [] (body (Text.lines '\n' text.toList)) ∧
      ∃ r ∈ records (body (Text.lines '\n' text.toList)), r.kind = 0 ∧ r.data ≠ [] := by
  constructor
  · rintro ⟨i, made⟩
    obtain ⟨a, readable, reads, made⟩ := reads_of_ofHexText made
    obtain ⟨addr, covered⟩ := (Assembly.image_isOk reads.inRange).1 ⟨i, made⟩
    rw [reads.bytes] at covered
    exact ⟨readable, exists_byteAt.1 ⟨addr, covered⟩⟩
  · rintro ⟨readable, data⟩
    obtain ⟨added, follows⟩ := Reads.nil.addLines 1 (Text.lines '\n' text.toList)
    obtain ⟨a, added⟩ := added.2 readable
    have reads := follows a added
    rw [List.append_nil] at reads
    obtain ⟨addr, covered⟩ := exists_byteAt.2 data
    rw [← reads.bytes] at covered
    obtain ⟨i, made⟩ := (Assembly.image_isOk reads.inRange).2 ⟨addr, covered⟩
    exact ⟨i, ofHexText_eq_ok.2 ⟨a, added, made⟩⟩

theorem ofHexText_holds {i : Image} (made : ofHexText text = .ok i) :
    i.Holds (byteAt (records (body (Text.lines '\n' text.toList)))) := by
  obtain ⟨a, -, reads, made⟩ := reads_of_ofHexText made
  have holds := Assembly.image_holds reads.inRange made
  rwa [funext reads.bytes] at holds

theorem Assembly.kind_add {a : Assembly} {line : Nat} {r : HexRecord} {e : Error}
    (refused : a.add line r = .error e) : e.kind = .invalidData := by
  unfold Assembly.add at refused
  split at refused
  case isTrue data =>
    simp only at refused
    split at refused
    · cases refused
      rfl
    · split at refused <;> cases refused
  case isFalse =>
    split at refused
    case isTrue segment =>
      split at refused
      · cases refused
      · cases refused
        rfl
    case isFalse => cases refused

theorem Assembly.kind_addLines {lines : List (List Char)} {a : Assembly} {line : Nat} {e : Error}
    (refused : a.addLines line lines = .error e) : e.kind = .invalidData := by
  induction lines generalizing a line with
  | nil => cases refused
  | cons first rest ih =>
    rw [addLines] at refused
    split at refused
    case isTrue blank => exact ih refused
    case isFalse inked =>
      split at refused
      case h_1 malformed _ =>
        cases refused
        rfl
      case h_2 r _ =>
        split at refused
        case isTrue ends => cases refused
        case isFalse goesOn =>
          split at refused
          case h_1 e' rejected =>
            cases refused
            exact kind_add rejected
          case h_2 next _ => exact ih refused

theorem Assembly.kind_image {a : Assembly} {e : Error} (refused : a.image = .error e) :
    e.kind = .invalidData := by
  unfold Assembly.image at refused
  split at refused <;> cases refused
  rfl

theorem kind_of_ofHexText {e : Error} (refused : ofHexText text = .error e) :
    e.kind = .invalidData := by
  unfold ofHexText at refused
  cases added : Assembly.addLines 1 {} (Text.lines '\n' text.toList) with
  | error e' =>
    rw [added] at refused
    cases refused
    exact Assembly.kind_addLines added
  | ok a =>
    rw [added] at refused
    exact Assembly.kind_image refused

theorem malformed_of_hexImage {files : Files} {name : String} {e : LoadError}
    (found : files.text name = .ok text) (refused : files.hexImage name = .error e) :
    e.kind = .invalidData ∧ ∃ cause, e = .malformed cause := by
  rw [Files.hexImage, found] at refused
  have refused : (ofHexText text).mapError .malformed = .error e := refused
  cases made : ofHexText text with
  | error cause =>
    rw [made] at refused
    cases refused
    exact ⟨kind_of_ofHexText made, cause, rfl⟩
  | ok i =>
    rw [made] at refused
    cases refused

end

/-- Reading Intel HEX, for every text. It succeeds if the lines up to an end-of-file record are
records that fit and some of them has data. The image then reaches from the lowest to the highest
address with data, and has the byte of the last record for each, or all ones. What stands behind the
end of the file has no influence, nothing is ever put or taken outside memory, and every refusal is
one of invalid data. -/
theorem ofHexText_image (text : String) :
    let lines := Text.lines '\n' text.toList
    let read := records (body lines)
    ((∃ i, ofHexText text = .ok i) ↔
      (∀ line ∈ body lines, ∃ r, HexRecord.ofLine line = .ok r) ∧
      (∀ r earlier, r :: earlier <:+ read → Fits earlier r) ∧
      ∃ r ∈ read, r.kind = 0 ∧ r.data ≠ []) ∧
    (∀ i, ofHexText text = .ok i → i.Holds (byteAt read)) ∧
    (∀ before last after after' (other : String), lines = before ++ last :: after →
      Text.lines '\n' other.toList = before ++ last :: after' →
      HexRecord.endsFile (Text.trim last) → ofHexText text = ofHexText other) ∧
    (∀ count a, Assembly.addLines 1 {} (lines.take count) = .ok a →
      InRange a.blocks ∧ ∀ low high, a.extent? = some (low, high) → low < high ∧ high ≤ 0x10000) ∧
    (∀ e, ofHexText text = .error e → e.kind = .invalidData) ∧
    ∀ (files : Files) name e, files.text name = .ok text → files.hexImage name = .error e →
      e.kind = .invalidData ∧ ∃ cause, e = .malformed cause := by
  intro lines read
  refine ⟨ofHexText_isOk.trans ⟨?_, ?_⟩, fun i => ofHexText_holds,
    fun before last after after' other split split' ends => ?_, fun count a added => ?_,
    fun e => kind_of_ofHexText, fun files name e => malformed_of_hexImage⟩
  · rintro ⟨⟨accepted, fits⟩, data⟩
    rw [List.append_nil] at fits
    exact ⟨accepted, fits, data⟩
  · rintro ⟨accepted, fits, data⟩
    exact ⟨⟨accepted, (List.append_nil read).symm ▸ fits⟩, data⟩
  · unfold ofHexText
    rw [split', ← addLines_ends {} 1 before after after' ends, ← split]
  · have inRange := ((Reads.nil.addLines 1 (lines.take count)).2 a added).inRange
    exact ⟨inRange, fun low high => Assembly.extent_inRange inRange⟩

/-- Two records with a gap between them; what stands behind the end of the file is no record. -/
theorem ofHexText_image_gap :
    let text := ":03190000A90160DA\n:0219100060EA8B\n:00000001FF\nend\n"
    ∃ i, ofHexText text = .ok i ∧ i.Holds (byteAt (records (body (Text.lines '\n' text.toList)))) ∧
      i.base = 0x1900 := by
  intro text
  let a : Assembly := ⟨0, [(0x1910, [0x60, 0xEA]), (0x1900, [0xA9, 0x01, 0x60])]⟩
  have added : Assembly.addLines 1 {} (Text.lines '\n' text.toList) = .ok a := by decide +kernel
  have extent : a.extent? = some (0x1900, 0x1912) := by decide
  have made : a.image = .ok ⟨0x1900, (a.memory.toArray.extract 0x1900 0x1912).toList⟩ := by
    rw [Assembly.image, extent]
    rfl
  have read := ofHexText_eq_ok.2 ⟨a, added, made⟩
  exact ⟨_, read, (ofHexText_image text).2.1 _ read, rfl⟩

end Image

end Cycle6502
