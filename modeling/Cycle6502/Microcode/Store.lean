import Cycle6502.Microcode.Program

/-! Microcode stores: compiled microprograms, kept in one table of all opcodes or in two halves.
Either way a store answers as the compiler does. -/

set_option autoImplicit false

namespace Cycle6502

namespace Microprogram

/-- No table entry is refused by the layout. -/
theorem compile_isOk (v : Variant) (n : Nat) (h : n < 256) :
    (compile v (UInt8.ofNat n)).isOk = true := by
  have nmos : ∀ n < 256, (compile .nmos (UInt8.ofNat n)).isOk = true := by decide +kernel
  have cmos : ∀ n < 256, (compile .cmos (UInt8.ofNat n)).isOk = true := by decide +kernel
  cases v
  · exact nmos n h
  · exact cmos n h

theorem compile_eq_ok (v : Variant) (opcode : UInt8) :
    compile v opcode = .ok (of? v opcode) := by
  have isOk := compile_isOk v opcode.toNat opcode.toNat_lt
  rw [UInt8.ofNat_toNat] at isOk
  unfold of?
  cases compiled : compile v opcode with
  | ok program => rfl
  | error e => rw [compiled] at isOk; exact absurd isOk Bool.false_ne_true

end Microprogram

/-- The microprograms of the opcodes from `first` to `last`; none when `last` is smaller. -/
structure Bank (v : Variant) (first last : UInt8) where
  programs : Array (Option Microprogram)
  complete : programs = Array.ofFn fun i : Fin (last.toNat + 1 - first.toNat) =>
    Microprogram.of? v (UInt8.ofNat (first.toNat + i))

namespace Bank

variable {v : Variant} {first last : UInt8}

def build (v : Variant) (first last : UInt8) : Bank v first last := ⟨_, rfl⟩

def covers (_ : Bank v first last) (opcode : UInt8) : Bool := first ≤ opcode && opcode ≤ last

def lookup (b : Bank v first last) (opcode : UInt8) : Option Microprogram :=
  if b.covers opcode then (b.programs[opcode.toNat - first.toNat]?).join else none

def count (b : Bank v first last) : Nat := b.programs.countP Option.isSome

theorem lookup_eq (b : Bank v first last) (opcode : UInt8) :
    b.lookup opcode =
      if first ≤ opcode ∧ opcode ≤ last then Microprogram.of? v opcode else none := by
  unfold lookup covers
  by_cases covered : first ≤ opcode ∧ opcode ≤ last
  · have low := UInt8.le_iff_toNat_le.1 covered.1
    have high := UInt8.le_iff_toNat_le.1 covered.2
    have inside : opcode.toNat - first.toNat < last.toNat + 1 - first.toNat := by omega
    have position : first.toNat + (opcode.toNat - first.toNat) = opcode.toNat := by omega
    have entry : b.programs[opcode.toNat - first.toNat]? = some (Microprogram.of? v opcode) := by
      rw [b.complete, Array.getElem?_ofFn, dif_pos inside]
      simp only [position, UInt8.ofNat_toNat]
    simp [covered, entry]
  · simp only [Bool.and_eq_true, decide_eq_true_eq, covered, if_false]

end Bank

inductive Arrangement where
  | table
  | split
  deriving DecidableEq, Repr, Inhabited

inductive Microcode where
  | table (v : Variant) (bank : Bank v 0x00 0xFF)
  | split (v : Variant) (lower : Bank v 0x00 0x7F) (upper : Bank v 0x80 0xFF)

namespace Microcode

def build (v : Variant) : Arrangement → Microcode
  | .table => .table v (.build v 0x00 0xFF)
  | .split => .split v (.build v 0x00 0x7F) (.build v 0x80 0xFF)

instance : Inhabited Microcode := ⟨build .nmos .table⟩

def variant : Microcode → Variant
  | .table v _ | .split v _ _ => v

def arrangement : Microcode → Arrangement
  | .table _ _ => .table
  | .split _ _ _ => .split

def lookup (m : Microcode) (opcode : UInt8) : Option Microprogram :=
  match m with
  | .table _ bank => bank.lookup opcode
  | .split _ lower upper => if opcode < 0x80 then lower.lookup opcode else upper.lookup opcode

def compiled (m : Microcode) : List UInt8 :=
  (List.range 256).map UInt8.ofNat |>.filter fun opcode => (m.lookup opcode).isSome

def report : Microcode → String
  | .table v bank =>
    "dispatch table built for " ++ v.name ++ ": " ++ toString bank.count
      ++ " of 256 opcodes compiled"
  | .split v lower upper =>
    "split dispatcher built for " ++ v.name ++ ": " ++ toString lower.count ++ " + "
      ++ toString upper.count ++ " opcodes compiled"

/-- A store finds what the compiler makes, whatever its arrangement. -/
theorem lookup_eq (m : Microcode) (opcode : UInt8) :
    m.lookup opcode = Microprogram.of? m.variant opcode := by
  cases m with
  | table v bank =>
    have high : opcode ≤ 0xFF := UInt8.le_iff_toNat_le.2 (Nat.le_of_lt_succ opcode.toNat_lt)
    simp [lookup, variant, Bank.lookup_eq, high]
  | split v lower upper =>
    have high : opcode ≤ 0xFF := UInt8.le_iff_toNat_le.2 (Nat.le_of_lt_succ opcode.toNat_lt)
    simp only [lookup, variant, Bank.lookup_eq]
    split
    case isTrue less =>
      have low : opcode ≤ 0x7F := by
        have := UInt8.lt_iff_toNat_lt.1 less
        exact UInt8.le_iff_toNat_le.2 (Nat.le_of_lt_succ this)
      simp [low]
    case isFalse notLess => simp [UInt8.not_lt.1 notLess, high]

end Microcode

structure InvalidOpcode where
  opcode : UInt8
  pc : UInt16
  /-- Its mnemonic, when the table has the opcode but nothing models it. -/
  mnemonic : Option Mnemonic
  deriving DecidableEq, Repr, Inhabited

def InvalidOpcode.message (e : InvalidOpcode) : String :=
  "invalid opcode 0x" ++ Text.hexByte e.opcode ++ " ("
    ++ (match e.mnemonic with
      | some m => m.name
      | none => "unmapped")
    ++ ") at 0x" ++ Text.hexWord e.pc

end Cycle6502
