import Cycle6502.Proofs.Image.Grammar
import Cycle6502.Proofs.Text.Lines
import Mathlib.Data.List.Perm.Basic

/-! Writing Intel HEX. The bytes of an image are cut into parts, each part is written as a record of
data at an offset in some segment, and the records stand on lines in any order, with blanks and
blank lines between them. What was written so is read back, whatever was chosen. -/

set_option autoImplicit false

namespace Cycle6502

namespace HexRecord

def bytes (r : HexRecord) : List UInt8 :=
  .ofNat r.data.length :: highByte r.addr :: lowByte r.addr :: r.kind :: r.data

/-- A line that a record is written on: digits of either case for its bytes and their checksum. -/
def IsLine (r : HexRecord) (line : List Char) : Prop :=
  ∃ text, line = ':' :: text ∧ Spells IsPair (r.bytes ++ [-sum r.bytes]) text

theorem IsLine.form {r : HexRecord} {line : List Char} (written : r.IsLine line)
    (short : r.data.length < 256) : Form IsNumeral line (r.bytes ++ [-sum r.bytes]) := by
  obtain ⟨text, rfl, spells⟩ := written
  obtain ⟨spells, -⟩ := spells_isPair_iff.1 spells
  refine ⟨⟨text, rfl, spells⟩, ⟨_, rfl, ?_⟩, (neg_sum_eq _ _).1 rfl⟩
  rw [List.length_cons, spells.length, UInt8.toNat_ofNat_of_lt' short]
  simp [bytes]
  omega

theorem IsLine.read {r : HexRecord} {line : List Char} (written : r.IsLine line)
    (short : r.data.length < 256) : ofLine line = .ok r := by
  refine ofLine_eq_ok.2 ⟨_, written.form short, decodes_iff.2 ?_⟩
  rw [wordOf_bytes]

theorem Spells.unbroken {bytes : List UInt8} {text : List Char} (spells : Spells IsPair bytes text) :
    Text.Unbroken text := by
  induction bytes generalizing text with
  | nil =>
    rw [spells_nil.1 spells]
    exact List.forall_mem_nil _
  | cons byte bytes ih =>
    obtain ⟨first, second, rest, rfl, ⟨higher, lower⟩, spells⟩ := spells_cons.1 spells
    exact List.forall_mem_cons.2 ⟨higher.isBlank,
      List.forall_mem_cons.2 ⟨lower.isBlank, ih spells⟩⟩

theorem IsLine.unbroken {r : HexRecord} {line : List Char} (written : r.IsLine line) :
    Text.Unbroken line := by
  obtain ⟨text, rfl, spells⟩ := written
  exact List.forall_mem_cons.2 ⟨by decide, spells.unbroken⟩

theorem IsLine.filled {r : HexRecord} {line : List Char} (written : r.IsLine line) : line ≠ [] := by
  obtain ⟨text, rfl, -⟩ := written
  exact List.cons_ne_nil _ _

theorem endsFile_of_read {line : List Char} {r : HexRecord} (read : ofLine line = .ok r) :
    endsFile line = decide (r.kind = 1) := by
  rw [endsFile, read]

end HexRecord

namespace Image

def Padding (text : List Char) : Prop := Text.AllBlank text ∧ '\n' ∉ text
  deriving Decidable

def IsEnd (text : List Char) : Prop := text = ['\n'] ∨ text = ['\r', '\n']
  deriving Decidable

/-- A text of lines, each blank or one of some records in their order, with blanks around it. -/
inductive Lists : List HexRecord → List Char → Prop where
  | nil : Lists [] []
  | blank {rs : List HexRecord} {padding ending text : List Char} :
      Padding padding → IsEnd ending → Lists rs text → Lists rs (padding ++ ending ++ text)
  | record {r : HexRecord} {rs : List HexRecord} {before line after ending text : List Char} :
      Padding before → r.IsLine line → Padding after → IsEnd ending → Lists rs text →
      Lists (r :: rs) (before ++ line ++ after ++ ending ++ text)

def EndsFile (text : List Char) : Prop :=
  ∃ before line after rest, Padding before ∧ HexRecord.IsLine ⟨0, 1, []⟩ line ∧ Padding after ∧
    (rest = [] ∨ ∃ ending more, IsEnd ending ∧ rest = ending ++ more) ∧
    text = before ++ line ++ after ++ rest

theorem Padding.append {one two : List Char} (first : Padding one) (second : Padding two) :
    Padding (one ++ two) :=
  ⟨List.forall_mem_append.2 ⟨first.1, second.1⟩, List.not_mem_append first.2 second.2⟩

theorem lines_end {content ending : List Char} (unended : '\n' ∉ content) (ends : IsEnd ending)
    (rest : List Char) :
    ∃ blank, Padding blank ∧
      Text.lines '\n' (content ++ ending ++ rest) = (content ++ blank) :: Text.lines '\n' rest := by
  rcases ends with rfl | rfl
  · refine ⟨[], by simp [Padding, Text.AllBlank], ?_⟩
    rw [List.append_assoc, List.append_nil]
    exact Text.lines_append_line unended rest
  · have carriage : '\n' ∉ content ++ ['\r'] := List.not_mem_append unended (by decide)
    refine ⟨['\r'], by simp [Padding, Text.AllBlank]; decide, ?_⟩
    have line := Text.lines_append_line carriage rest
    simpa using line

section
variable {r : HexRecord} {before line after : List Char} (padBefore : Padding before)
  (written : r.IsLine line) (padAfter : Padding after)
include padBefore written padAfter

theorem trim_record : Text.trim (before ++ line ++ after) = line :=
  Text.trim_padded padBefore.1 written.unbroken padAfter.1 written.filled

theorem newline_notMem_record : '\n' ∉ before ++ line ++ after := by
  have inked : '\n' ∉ line := fun member => nomatch written.unbroken '\n' member
  exact List.not_mem_append (List.not_mem_append padBefore.2 inked) padAfter.2

end

/-- What is read of a listing are its records, and then what comes behind it. -/
theorem Lists.body {rs : List HexRecord} {listing : List Char} (listed : Lists rs listing)
    (short : ∀ r ∈ rs, r.data.length < 256) (goesOn : ∀ r ∈ rs, r.kind ≠ 1) (rest : List Char) :
    ∃ lines, Image.body (Text.lines '\n' (listing ++ rest)) =
        lines ++ Image.body (Text.lines '\n' rest) ∧
      lines.map HexRecord.ofLine = rs.map .ok := by
  induction listed with
  | nil => exact ⟨[], rfl, rfl⟩
  | @blank rs padding ending text padded ends listed ih =>
    obtain ⟨lines, read, same⟩ := ih short goesOn
    obtain ⟨blank, more, split⟩ := lines_end padded.2 ends (text ++ rest)
    have nothing : Text.trim (padding ++ blank) = [] := Text.trim_blank (padded.append more).1
    refine ⟨lines, ?_, same⟩
    rw [List.append_assoc, split, body_blank (List.isEmpty_iff.2 nothing), read]
  | @record r rs before line after ending text padBefore written padAfter ends listed ih =>
    obtain ⟨shortFirst, shortRest⟩ := List.forall_mem_cons.1 short
    obtain ⟨goesOnFirst, goesOnRest⟩ := List.forall_mem_cons.1 goesOn
    obtain ⟨lines, read, same⟩ := ih shortRest goesOnRest
    have unended := newline_notMem_record padBefore written padAfter
    obtain ⟨blank, more, split⟩ := lines_end unended ends (text ++ rest)
    have trimmed := trim_record padBefore written (padAfter.append more)
    rw [← List.append_assoc] at trimmed
    have accepted := written.read shortFirst
    have inked := List.isEmpty_eq_false_iff.2 written.filled
    have continues := (HexRecord.endsFile_of_read accepted).trans (decide_eq_false goesOnFirst)
    rw [← trimmed] at inked continues
    refine ⟨line :: lines, ?_, by simp [accepted, same]⟩
    rw [List.append_assoc, split, body_line inked continues, trimmed, read, List.cons_append]

theorem EndsFile.body {text : List Char} (ends : EndsFile text) :
    Image.body (Text.lines '\n' text) = [] := by
  obtain ⟨before, line, after, rest, padBefore, written, padAfter, tail, rfl⟩ := ends
  have accepted := written.read (by decide)
  have last := (HexRecord.endsFile_of_read accepted).trans (decide_eq_true rfl)
  have inked := List.isEmpty_eq_false_iff.2 written.filled
  have unended := newline_notMem_record padBefore written padAfter
  rcases tail with rfl | ⟨ending, more, ends, rfl⟩
  · have filled : before ++ line ++ after ≠ [] := by simp [written.filled]
    have trimmed := trim_record padBefore written padAfter
    rw [← trimmed] at inked last
    rw [List.append_nil, Text.lines_last unended filled, body_end inked last]
  · obtain ⟨blank, padded, split⟩ := lines_end unended ends more
    have trimmed := trim_record padBefore written (padAfter.append padded)
    rw [← List.append_assoc] at trimmed
    rw [← trimmed] at inked last
    rw [← List.append_assoc, split, body_end inked last]

structure Part where
  segment : UInt16
  offset : UInt16
  data : List UInt8
  deriving DecidableEq, Repr

namespace Part

def block (part : Part) : Nat × List UInt8 :=
  (16 * part.segment.toNat + part.offset.toNat, part.data)

def switch (current next : UInt16) : List HexRecord :=
  if next = current then [] else [⟨0, 2, [highByte next, lowByte next]⟩]

def records (current : UInt16) : List Part → List HexRecord
  | [] => []
  | part :: rest =>
    switch current part.segment ++ ⟨part.offset, 0, part.data⟩ :: records part.segment rest

theorem mem_records {current : UInt16} {parts : List Part} {r : HexRecord}
    (member : r ∈ records current parts) :
    (r.kind = 2 ∧ r.data.length = 2) ∨ ∃ part ∈ parts, r = ⟨part.offset, 0, part.data⟩ := by
  induction parts generalizing current with
  | nil => cases member
  | cons part rest ih =>
    rw [records, List.mem_append, List.mem_cons] at member
    rcases member with switched | rfl | member
    · left
      unfold switch at switched
      split at switched
      · cases switched
      · rw [List.mem_singleton.1 switched]
        exact ⟨rfl, rfl⟩
    · exact .inr ⟨part, List.mem_cons_self, rfl⟩
    · rcases ih member with switched | ⟨other, within, same⟩
      · exact .inl switched
      · exact .inr ⟨other, List.mem_cons_of_mem _ within, same⟩

end Part

def consecutive (start : Nat) : List (List UInt8) → List (Nat × List UInt8)
  | [] => []
  | chunk :: rest => (start, chunk) :: consecutive (start + chunk.length) rest

structure Fills (read : List HexRecord) (segment : UInt16) (blocks : List (Nat × List UInt8)) :
    Prop where
  segment : segmentBase read = 16 * segment.toNat
  bytes : ∀ addr, byteAt read addr = blockByte blocks addr
  fits : ∀ r earlier, r :: earlier <:+ read → Fits earlier r

namespace Fills

variable {read : List HexRecord} {current : UInt16} {blocks : List (Nat × List UInt8)}

theorem nil : Fills [] 0 [] where
  segment := rfl
  bytes _ := rfl
  fits _ _ suffix := absurd (List.suffix_nil.1 suffix) (List.cons_ne_nil _ _)

theorem cons_fits (fills : Fills read current blocks) {r : HexRecord} (fits : Fits read r) :
    ∀ other earlier, other :: earlier <:+ r :: read → Fits earlier other := by
  intro other earlier suffix
  rcases List.suffix_cons_iff.1 suffix with same | inside
  · cases same
    exact fits
  · exact fills.fits other earlier inside

theorem switch (fills : Fills read current blocks) (next : UInt16) :
    Fills (Part.switch current next ++ read) next blocks := by
  unfold Part.switch
  split
  case isTrue same =>
    subst same
    exact fills
  case isFalse =>
    have fits : Fits read ⟨0, 2, [highByte next, lowByte next]⟩ := ⟨fun _ => rfl, nofun⟩
    refine ⟨?_, fun addr => ?_, fills.cons_fits fits⟩
    · have word := toNat_wordOf (lowByte next) (highByte next)
      rw [wordOf_bytes] at word
      simp [segmentBase, HexRecord.segment?, word]
    · rw [List.singleton_append, byteAt_cons, fills.bytes]
      rfl

theorem part {part : Part} (fills : Fills read part.segment blocks)
    (inside : part.block.1 + part.data.length ≤ 0x10000) :
    Fills (⟨part.offset, 0, part.data⟩ :: read) part.segment (part.block :: blocks) := by
  have place : start read ⟨part.offset, 0, part.data⟩ = part.block.1 := by
    rw [start, fills.segment]
    rfl
  have unswitched : (0 : UInt8) ≠ 2 := by decide
  have fits : Fits read ⟨part.offset, 0, part.data⟩ :=
    ⟨fun switch => absurd switch unswitched, fun _ => place ▸ inside⟩
  refine ⟨?_, fun addr => ?_, fills.cons_fits fits⟩
  · rw [segmentBase_of_unset rfl, fills.segment]
  · rw [byteAt_cons, blockByte_cons, fills.bytes, latestByte, if_pos rfl, place]
    rfl

/-- The records of parts fill the blocks of the parts. -/
theorem parts (fills : Fills read current blocks) (parts : List Part)
    (inside : ∀ part ∈ parts, part.block.1 + part.data.length ≤ 0x10000) :
    ∃ last, Fills ((Part.records current parts).reverse ++ read) last
      ((parts.map Part.block).reverse ++ blocks) := by
  induction parts generalizing read current blocks with
  | nil => exact ⟨current, fills⟩
  | cons part rest ih =>
    obtain ⟨insideFirst, insideRest⟩ := List.forall_mem_cons.1 inside
    have switched : (Part.switch current part.segment).reverse = Part.switch current part.segment := by
      unfold Part.switch
      split <;> rfl
    obtain ⟨last, filled⟩ := ih ((fills.switch part.segment).part insideFirst) insideRest
    refine ⟨last, ?_⟩
    simpa [Part.records, switched] using filled

end Fills

theorem byteIn_append (start : Nat) (front back : List UInt8) (addr : Nat) :
    byteIn (start, front ++ back) addr =
      (byteIn (start, front) addr).or (byteIn (start + front.length, back) addr) := by
  induction front generalizing start with
  | nil => simp [byteIn]
  | cons value front ih =>
    have next : start + (value :: front).length = start + 1 + front.length := by
      rw [List.length_cons]
      omega
    rw [List.cons_append, byteIn_cons, byteIn_cons, ih, next]
    split <;> rfl

theorem inside_of_consecutive {start : Nat} {chunks : List (List UInt8)} {block : Nat × List UInt8}
    (member : block ∈ consecutive start chunks) :
    block.2 ∈ chunks ∧ block.1 + block.2.length ≤ start + chunks.flatten.length := by
  induction chunks generalizing start with
  | nil => cases member
  | cons chunk rest ih =>
    rw [List.flatten_cons, List.length_append]
    rcases List.mem_cons.1 member with rfl | member
    · exact ⟨List.mem_cons_self, Nat.add_le_add_left (Nat.le_add_right _ _) start⟩
    · obtain ⟨within, last⟩ := ih member
      exact ⟨List.mem_cons_of_mem _ within, by omega⟩

theorem exists_consecutive {start : Nat} {chunks : List (List UInt8)} {addr : Nat} {value : UInt8} :
    (∃ block ∈ consecutive start chunks, byteIn block addr = some value) ↔
      byteIn (start, chunks.flatten) addr = some value := by
  induction chunks generalizing start with
  | nil => simp [consecutive, byteIn]
  | cons chunk rest ih =>
    have disjoint : byteIn (start + chunk.length, rest.flatten) addr = some value →
        byteIn (start, chunk) addr = none := by
      intro later
      have behind : start + chunk.length ≤ addr := ((isSome_byteIn _ _).1 (by rw [later]; rfl)).1
      rw [← Option.not_isSome_iff_eq_none, isSome_byteIn]
      exact fun inside => absurd inside.2 (Nat.not_lt.2 behind)
    rw [consecutive, List.exists_mem_cons_iff, ih, List.flatten_cons, byteIn_append,
      Option.or_eq_some_iff]
    exact or_congr_right ⟨fun later => ⟨disjoint later, later⟩, And.right⟩

theorem blockByte_cut {blocks : List (Nat × List UInt8)} {start : Nat} {chunks : List (List UInt8)}
    (cut : blocks.Perm (consecutive start chunks)) (addr : Nat) :
    blockByte blocks addr = byteIn (start, chunks.flatten) addr := by
  have has_iff (value : UInt8) : (∃ block ∈ blocks, byteIn block addr = some value) ↔
      byteIn (start, chunks.flatten) addr = some value := by
    simp only [cut.mem_iff, exists_consecutive]
  cases found : blockByte blocks addr with
  | some value => exact ((has_iff value).1 (List.exists_of_findSome?_eq_some found)).symm
  | none =>
    have nothing := List.findSome?_eq_none_iff.1 found
    cases covered : byteIn (start, chunks.flatten) addr with
    | none => rfl
    | some value =>
      obtain ⟨block, member, byte⟩ := (has_iff value).2 covered
      cases (nothing block member).symm.trans byte

theorem ofBytes_eq_ok {data : List UInt8} {base : UInt16} (filled : data ≠ [])
    (fits : base.toNat + data.length ≤ 0x10000) : ofBytes data base = .ok ⟨base, data⟩ := by
  have nonempty : ¬ data.isEmpty := mt List.isEmpty_iff.1 filled
  rw [ofBytes, if_neg nonempty, if_neg (Nat.not_lt.2 fits)]

theorem records_of_map {lines : List (List Char)} {rs : List HexRecord}
    (read : lines.map HexRecord.ofLine = rs.map .ok) : records lines = rs.reverse := by
  have taken : (fun line => (HexRecord.ofLine line).toOption) = Except.toOption ∘ HexRecord.ofLine :=
    rfl
  rw [records, taken, ← List.filterMap_map, read, List.filterMap_map]
  exact congrArg List.reverse List.filterMap_some

theorem ofHexText_listed {rs : List HexRecord} {listing ending : List Char} {text : String}
    (listed : Lists rs listing) (ends : EndsFile ending) (written : text.toList = listing ++ ending)
    (short : ∀ r ∈ rs, r.data.length < 256) (goesOn : ∀ r ∈ rs, r.kind ≠ 1)
    (fits : ∀ r earlier, r :: earlier <:+ rs.reverse → Fits earlier r)
    (covered : ∃ addr, (byteAt rs.reverse addr).isSome) :
    ∃ i, ofHexText text = .ok i ∧ i.Holds (byteAt rs.reverse) := by
  obtain ⟨lines, body, read⟩ := listed.body short goesOn ending
  rw [ends.body, List.append_nil, ← written] at body
  have recorded := records_of_map read
  have accepted (line : List Char) (member : line ∈ lines) : ∃ r, HexRecord.ofLine line = .ok r := by
    have listed := List.mem_map_of_mem (f := HexRecord.ofLine) member
    rw [read] at listed
    obtain ⟨r, -, same⟩ := List.mem_map.1 listed
    exact ⟨r, same.symm⟩
  have readable : Readable [] lines := ⟨accepted, by rwa [recorded, List.append_nil]⟩
  obtain ⟨i, made⟩ : ∃ i, ofHexText text = .ok i := by
    rw [ofHexText_isOk, body, recorded]
    exact ⟨readable, exists_byteAt.1 covered⟩
  have holds := ofHexText_holds made
  rw [body, recorded] at holds
  exact ⟨i, made, holds⟩

/-- What is written is read back. The bytes of an image are cut into chunks of at most 255, which are
written in any order, each as a record of data at any offset and segment that give its address, with
a record in front whenever the segment changes. The digits are of either case, the lines end in either
way, there are any blanks and blank lines, and any text stands behind the line of the end-of-file
record. The image that is read has the same bytes at the same address, and so has the image of the
bytes themselves. -/
theorem ofHexText_written {base : UInt16} {data : List UInt8} {chunks : List (List UInt8)}
    {parts : List Part} {listing ending : List Char} {text : String} (filled : data ≠ [])
    (fits : base.toNat + data.length ≤ 0x10000) (cut : chunks.flatten = data)
    (short : ∀ chunk ∈ chunks, chunk.length ≤ 255)
    (placed : (parts.map Part.block).Perm (consecutive base.toNat chunks))
    (listed : Lists (Part.records 0 parts) listing) (ends : EndsFile ending)
    (written : text.toList = listing ++ ending) :
    ofHexText text = .ok ⟨base, data⟩ ∧ ofBytes data base = .ok ⟨base, data⟩ := by
  subst cut
  have inside (part : Part) (member : part ∈ parts) : part.data ∈ chunks ∧
      part.block.1 + part.data.length ≤ base.toNat + chunks.flatten.length :=
    inside_of_consecutive (placed.subset (List.mem_map_of_mem member))
  have shortRecord : ∀ r ∈ Part.records 0 parts, r.data.length < 256 := by
    intro r member
    rcases Part.mem_records member with ⟨-, two⟩ | ⟨part, within, rfl⟩
    · omega
    · exact Nat.lt_succ_of_le (short _ (inside part within).1)
  have goesOn : ∀ r ∈ Part.records 0 parts, r.kind ≠ 1 := by
    intro r member
    rcases Part.mem_records member with ⟨switch, -⟩ | ⟨part, -, rfl⟩
    · rw [switch]
      decide
    · exact nofun
  obtain ⟨last, fills⟩ := Fills.nil.parts parts fun part member => (inside part member).2.trans fits
  rw [List.append_nil, List.append_nil] at fills
  have bytes : byteAt (Part.records 0 parts).reverse = byteIn (base.toNat, chunks.flatten) := by
    funext addr
    rw [fills.bytes, blockByte_cut ((List.reverse_perm _).trans placed)]
  have covered : ∃ addr, (byteAt (Part.records 0 parts).reverse addr).isSome := by
    rw [bytes]
    exact ⟨_, (isLeast_byteIn filled).1⟩
  obtain ⟨i, made, holds⟩ :=
    ofHexText_listed listed ends written shortRecord goesOn fills.fits covered
  rw [bytes] at holds
  constructor
  · rw [made, holds.eq_of_byteIn filled]
  · exact ofBytes_eq_ok filled fits

/-- Two chunks in the other order and in two segments; blanks, both line ends, a line without a
record, digits of both cases, and text behind the end of the file. -/
theorem ofHexText_written_segments :
    let chunks : List (List UInt8) := [[0xA9, 0x01], [0x60]]
    let parts : List Part := [⟨0x0100, 0x0002, [0x60]⟩, ⟨0x0000, 0x1000, [0xA9, 0x01]⟩]
    let listing := " ".toList ++ ":020000020100FB".toList ++ [] ++ ['\r', '\n'] ++
      ("\t".toList ++ ['\n'] ++
      ([] ++ ":01000200609d".toList ++ "  ".toList ++ ['\n'] ++
      ([] ++ ":020000020000FC".toList ++ [] ++ ['\n'] ++
      ([] ++ ":02100000a90144".toList ++ [] ++ ['\r', '\n'] ++ []))))
    let ending := [] ++ ":00000001fF".toList ++ [] ++ (['\n'] ++ "end".toList)
    Lists (Part.records 0 parts) listing ∧ EndsFile ending ∧
      (parts.map Part.block).Perm (consecutive 0x1000 chunks) ∧
      ofHexText (String.ofList (listing ++ ending)) = .ok ⟨0x1000, [0xA9, 0x01, 0x60]⟩ ∧
      ofBytes [0xA9, 0x01, 0x60] 0x1000 = .ok ⟨0x1000, [0xA9, 0x01, 0x60]⟩ := by
  intro chunks parts listing ending
  have listed : Lists (Part.records 0 parts) listing :=
    .record (by decide) ⟨_, rfl, by decide +kernel⟩ (by decide) (by decide)
      (.blank (by decide) (by decide)
        (.record (by decide) ⟨_, rfl, by decide +kernel⟩ (by decide) (by decide)
          (.record (by decide) ⟨_, rfl, by decide +kernel⟩ (by decide) (by decide)
            (.record (by decide) ⟨_, rfl, by decide +kernel⟩ (by decide) (by decide) .nil))))
  have ends : EndsFile ending :=
    ⟨[], _, [], _, by decide, ⟨_, rfl, by decide +kernel⟩, by decide,
      .inr ⟨_, "end".toList, by decide, rfl⟩, rfl⟩
  have placed : (parts.map Part.block).Perm (consecutive 0x1000 chunks) := by decide
  exact ⟨listed, ends, placed, ofHexText_written (by decide) (by decide) rfl (by decide) placed
    listed ends String.toList_ofList⟩

end Image

end Cycle6502
