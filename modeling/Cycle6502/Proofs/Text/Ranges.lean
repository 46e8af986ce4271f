import Cycle6502.Memory
import Cycle6502.Proofs.Text.Dump

/-! Dumps of a range of addresses. The bytes of the bank in the range are dumped, each at its own
address. An empty bank has no last byte, and a range from its first address on cannot be dumped. -/

set_option autoImplicit false

namespace Cycle6502.Memory

variable {size : Nat}

/-- The bytes of a bank whose addresses lie in a range, each with its address. -/
def within (m : Memory size) (first last : UInt16) : List (UInt8 × Nat) :=
  m.bytes.toList.zipIdx.filter fun entry => first.toNat ≤ entry.2 ∧ entry.2 ≤ last.toNat

theorem filter_zipIdx {α : Type} (values : List α) (first last start : Nat) :
    (values.zipIdx start).filter (fun entry => first ≤ entry.2 ∧ entry.2 ≤ last) =
      ((values.drop (first - start)).take (last + 1 - max first start)).zipIdx
        (max first start) := by
  induction values generalizing start with
  | nil => simp
  | cons value rest ih =>
    rw [List.zipIdx_cons, List.filter_cons, ih]
    rcases Nat.lt_or_ge start first with before | reached
    case inl =>
      have skipped : first - start = first - (start + 1) + 1 := by omega
      rw [if_neg (by simpa using fun late => absurd before (Nat.not_lt.2 late)), skipped,
        List.drop_succ_cons, Nat.max_eq_left before, Nat.max_eq_left (Nat.le_of_lt before)]
    case inr =>
      have next : first ≤ start + 1 := Nat.le_succ_of_le reached
      rw [Nat.max_eq_right reached, Nat.max_eq_right next, Nat.sub_eq_zero_of_le reached,
        Nat.sub_eq_zero_of_le next, List.drop_zero, List.drop_zero]
      by_cases inside : start ≤ last
      case pos =>
        have one : last + 1 - start = last + 1 - (start + 1) + 1 := by omega
        rw [if_pos (by simpa using ⟨reached, inside⟩), one, List.take_succ_cons, List.zipIdx_cons]
      case neg =>
        have none : last + 1 - start = 0 := by omega
        have behind : last + 1 - (start + 1) = 0 := by omega
        rw [if_neg (by simp [inside]), none, behind]
        rfl

theorem within_eq (m : Memory size) (first last : UInt16) :
    m.within first last =
      (m.bytes.toArray.extract first.toNat (last.toNat + 1)).toList.zipIdx first.toNat := by
  rw [within, filter_zipIdx, Nat.max_zero, Nat.sub_zero, Array.toList_extract,
    List.extract_eq_take_drop]
  rfl

theorem map_within (m : Memory size) (first last : UInt16) :
    (m.within first last).map Prod.fst =
      (m.bytes.toArray.extract first.toNat (last.toNat + 1)).toList := by
  rw [within_eq, List.zipIdx_map_fst]

theorem zipIdx_within (m : Memory size) (first last : UInt16) :
    ((m.within first last).map Prod.fst).zipIdx first.toNat = m.within first last := by
  rw [map_within, within_eq]

theorem dump?_of_lt (m : Memory size) {first last : UInt16}
    (outside : min last.toNat (size - 1) < first.toNat) :
    m.dump? first last =
      some (Text.dump ((m.within first last).map Prod.fst) first.toNat none) := by
  have count : m.bytes.toArray.size = size := m.bytes.size_toArray
  have nothing : m.bytes.toArray.extract first.toNat (last.toNat + 1) = #[] :=
    Array.extract_eq_empty_of_le (by omega)
  rw [map_within, nothing]
  exact if_pos outside

/-- Cut off at the end of the bank, a range has the same bytes, unless there is no last byte. -/
theorem dump?_of_le (m : Memory size) {first last : UInt16}
    (reached : first.toNat ≤ min last.toNat (size - 1)) :
    m.dump? first last = if size = 0 then none
      else some (Text.dump ((m.within first last).map Prod.fst) first.toNat none) := by
  have count : m.bytes.toArray.size = size := m.bytes.size_toArray
  refine (if_neg (Nat.not_lt.2 reached)).trans ?_
  split
  case isTrue empty =>
    have none : m.slice? first.toNat (min last.toNat (size - 1)) = none := if_neg (by omega)
    rw [none, Option.map_none]
  case isFalse filled =>
    have cut : m.bytes.toArray.extract first.toNat (min last.toNat (size - 1) + 1) =
        m.bytes.toArray.extract first.toNat (last.toNat + 1) :=
      Array.extract_eq_extract_right.2 (by omega)
    rw [slice?, if_pos (by omega), cut, Option.map_some, map_within]

theorem dump?_eq (m : Memory size) (first last : UInt16) :
    m.dump? first last = if size = 0 ∧ first = 0 then none
      else some (Text.dump ((m.within first last).map Prod.fst) first.toNat none) := by
  rcases Nat.lt_or_ge (min last.toNat (size - 1)) first.toNat with outside | reached
  case inl =>
    have started : ¬ (size = 0 ∧ first = 0) := by
      rintro ⟨-, rfl⟩
      exact Nat.not_lt_zero _ outside
    rw [m.dump?_of_lt outside, if_neg started]
  case inr =>
    have start (empty : size = 0) : first = 0 :=
      UInt16.toNat_inj.1 (Nat.eq_zero_of_le_zero (by omega))
    simp only [m.dump?_of_le reached, and_iff_left_of_imp start]

theorem dump_eq (m : Memory size) (filled : 0 < size) (first last : UInt16) :
    m.dump filled first last =
      Text.dump ((m.within first last).map Prod.fst) first.toNat none := by
  have taken := (m.dump?_eq first last).trans (if_neg fun empty => by omega)
  exact Option.get_of_eq_some _ taken

/-- The dump of a range has the bytes of the bank whose addresses lie in it, each at its own
address; without such a byte it is the empty text. No index is outside the bank, unless the bank is
empty and the range begins with the first address. -/
theorem dump_within (m : Memory size) (first last : UInt16) :
    let entries := m.within first last
    let text := Text.dump (entries.map Prod.fst) first.toNat none
    m.dump? first last = (if size = 0 ∧ first = 0 then none else some text) ∧
    Text.dumpByIndex? (entries.map Prod.fst) first.toNat none = some text ∧
    (Text.lines '\n' text.toList).flatMap Text.rowEntries = entries ∧
    (text = "" ↔ entries = []) := by
  intro entries text
  have read : (Text.lines '\n' text.toList).flatMap Text.rowEntries = entries := by
    have shown := Text.entries_dump (entries.map Prod.fst) first.toNat none
    rw [Text.dumpCount, Option.getD_none, Nat.min_self, List.take_length] at shown
    exact shown.trans (m.zipIdx_within first last)
  refine ⟨m.dump?_eq first last, Text.dumpByIndex?_eq _ _ _, read, fun empty => ?_,
    fun empty => ?_⟩
  · rw [← read, empty]
    rfl
  · change Text.dump (entries.map Prod.fst) first.toNat _ = ""
    rw [empty]
    rfl

/-- An empty bank has no byte at its first address, and no dump of that is taken, not even an empty
one. -/
theorem dump_emptyBank :
    let m := new 0 "M"
    m.within 0 0 = [] ∧ Text.dump ((m.within 0 0).map Prod.fst) 0 none = "" ∧
      m.dump? 0 0 = none := by
  decide

end Cycle6502.Memory
