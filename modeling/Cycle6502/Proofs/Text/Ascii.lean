import Mathlib.Data.List.Basic

/-! Texts as bytes. A character below 128 is one byte of its own value, and every byte of another
character is not below 128, so that what is said of ASCII characters can be said of bytes. -/

set_option autoImplicit false

namespace Cycle6502.Text

def utf8 (text : List Char) : List UInt8 := (String.ofList text).toUTF8.data.toList

def ofBytes (bytes : List UInt8) : List Char := bytes.map Char.ofUInt8

def Ascii (text : List Char) : Prop := ∀ c ∈ text, c.toNat < 128

theorem toNat_ofUInt8 (b : UInt8) : (Char.ofUInt8 b).toNat = b.toNat := rfl

theorem ofUInt8_injective : Function.Injective Char.ofUInt8 := by
  intro a b same
  apply UInt8.toNat_inj.1
  rw [← toNat_ofUInt8, same, toNat_ofUInt8]

theorem forall_ascii {P : Char → Prop} (every : ∀ n < 128, P (Char.ofNat n)) {c : Char}
    (ascii : c.toNat < 128) : P c := by
  have holds := every c.toNat ascii
  rwa [Char.ofNat_toNat] at holds

theorem utf8_injective : Function.Injective utf8 := by
  intro text other same
  apply String.ofList_injective
  apply String.toByteArray_inj.1
  apply ByteArray.ext
  exact Array.toList_inj.1 same

theorem utf8_cons (c : Char) (text : List Char) :
    utf8 (c :: text) = String.utf8EncodeChar c ++ utf8 text := by
  simp [utf8, List.utf8Encode]

theorem ofBytes_utf8 {text : List Char} (ascii : Ascii text) : ofBytes (utf8 text) = text := by
  induction text with
  | nil => rfl
  | cons c text ih =>
    have first := ascii c List.mem_cons_self
    have narrow : c.utf8Size = 1 :=
      Char.utf8Size_eq_one_iff.2 (UInt32.le_iff_toNat_le.2 (Nat.le_of_lt_succ first))
    have same : Char.ofUInt8 c.toUInt8 = c := by
      apply Char.ext
      apply UInt32.toNat_inj.1
      exact Nat.mod_eq_of_lt (Nat.lt_trans first (by decide))
    have rest := ih fun d member => ascii d (List.mem_cons_of_mem c member)
    rw [utf8_cons, String.utf8EncodeChar_eq_singleton narrow, List.singleton_append]
    exact congrArg₂ List.cons same rest

/-- A property of ASCII texts alone can be read off the bytes of a text. -/
theorem utf8_iff {P : List Char → Prop} (narrow : ∀ text, P text → Ascii text) (text : List Char) :
    P (ofBytes (utf8 text)) ↔ P text := by
  constructor
  · intro holds
    have again := ofBytes_utf8 (narrow _ holds)
    have same : utf8 (ofBytes (utf8 text)) = utf8 text := ofUInt8_injective.list_map again
    rwa [utf8_injective same] at holds
  · intro holds
    rwa [ofBytes_utf8 (narrow text holds)]

end Cycle6502.Text
