import Cycle6502.Journal
import Cycle6502.Text.Column
import Cycle6502.Text.Dump

/-! Addresses and their bytes, and memory banks of a fixed size. Addresses beyond the end of a bank
read as zero and keep nothing. -/

set_option autoImplicit false

namespace Cycle6502

def wordOf (low high : UInt8) : UInt16 := high.toUInt16 <<< 8 ||| low.toUInt16

def highByte (addr : UInt16) : UInt8 := (addr >>> 8).toUInt8

def lowByte (addr : UInt16) : UInt8 := addr.toUInt8

/-- Where a branch leads, from the address behind it; the offset is a signed byte. -/
def branchTarget (next : UInt16) (offset : UInt8) : UInt16 :=
  next + (if offset < 0x80 then offset.toUInt16 else 0xFF00 ||| offset.toUInt16)

def samePage (a b : UInt16) : Bool := a &&& 0xFF00 == b &&& 0xFF00

def stackAddress (sp : UInt8) : UInt16 := 0x0100 ||| sp.toUInt16

structure Memory (size : Nat) where
  label : String
  bytes : Vector UInt8 size

namespace Memory

variable {size : Nat}

def new (size : Nat) (label : String) : Memory size := ⟨label, Vector.replicate size 0⟩

def report (m : Memory size) : Record :=
  ⟨.debug, "memory " ++ Text.right 8 m.label ++ " online, " ++ toString (size / 1024) ++ " KB"⟩

def read (m : Memory size) (addr : UInt16) : UInt8 :=
  if inside : addr.toNat < size then m.bytes[addr.toNat] else 0

def write (m : Memory size) (addr : UInt16) (value : UInt8) : Memory size :=
  { m with bytes := m.bytes.setIfInBounds addr.toNat value }

def put (bytes : Vector UInt8 size) (index : Nat) : List UInt8 → Vector UInt8 size
  | [] => bytes
  | value :: rest => put (bytes.setIfInBounds index value) (index + 1) rest

def room (_ : Memory size) (offset : UInt16) (count : Nat) : Nat :=
  min count (size - offset.toNat)

/-- Copies bytes in at an offset, as many as fit. -/
def load (m : Memory size) (offset : UInt16) (data : List UInt8) : Memory size :=
  { m with bytes := put m.bytes offset.toNat data }

def loadReport (m : Memory size) (offset : UInt16) (count : Nat) : List Record :=
  let place := "memory[" ++ m.label ++ "] load at 0x" ++ Text.hexWord offset
  if size ≤ offset.toNat then [⟨.warn, place ++ " is past the end of the bank"⟩]
  else if m.room offset count < count then
    [⟨.warn, place ++ " truncated: " ++ toString (m.room offset count) ++ " of "
      ++ toString count ++ " bytes fit"⟩]
  else []

/-- The bytes between two indexes, both included, if the bank has all of them. -/
def slice? (m : Memory size) (first last : Nat) : Option (List UInt8) :=
  if first ≤ last + 1 ∧ last < size then
    some (m.bytes.toArray.extract first (last + 1)).toList
  else none

/-- The dump of a range that is first cut off at the end of the bank, if the bank has all bytes of
what remains. -/
def dump? (m : Memory size) (first last : UInt16) : Option String :=
  let last := min last.toNat (size - 1)
  if last < first.toNat then some ""
  else (m.slice? first.toNat last).map fun bytes => Text.dump bytes first.toNat none

theorem isSome_dump? (m : Memory size) (filled : 0 < size) (first last : UInt16) :
    (m.dump? first last).isSome := by
  simp only [dump?]
  split
  · rfl
  · rw [slice?, if_pos (by omega)]
    rfl

def dump (m : Memory size) (filled : 0 < size) (first last : UInt16) : String :=
  (m.dump? first last).get (m.isSome_dump? filled first last)

theorem read_write (m : Memory size) (a b : UInt16) (value : UInt8) (inside : a.toNat < size) :
    (m.write a value).read b = if a = b then value else m.read b := by
  unfold read write
  by_cases same : a = b
  · subst same; simp [inside]
  · have different : a.toNat ≠ b.toNat := fun equal => same (UInt16.toNat_inj.1 equal)
    simp only [same, if_false]
    split
    · rw [Vector.getElem_setIfInBounds_ne _ different]
    · rfl

end Memory

end Cycle6502
