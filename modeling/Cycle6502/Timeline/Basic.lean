import Cycle6502.Micro.Op

/-! Timelines: an instruction's micro-operations by cycle, and the operations that lay them out.
Each operation keeps the slots in ascending order, one for a cycle. -/

set_option autoImplicit false

namespace Cycle6502

structure Slot where
  ops : List MicroOp := []
  /-- The clock must stand at this cycle when the operations run. -/
  pinned : Bool := false
  /-- Where the cycle accesses the bus, if it does so in a way that the slow bus can delay. -/
  site : Option Site := none
  deriving DecidableEq, Repr, Inhabited

inductive Activity where
  | read
  | write
  | internal
  deriving DecidableEq, Repr, Inhabited

def Activity.name : Activity → String
  | .read => "Read"
  | .write => "Write"
  | .internal => "Internal"

/-- A slot with a write is a writing one, whatever it reads. -/
def Slot.activity (s : Slot) : Activity :=
  if s.ops.any fun | .write _ | .zeroPageWrite _ => true | _ => false then .write
  else if s.ops.any fun | .read _ _ | .zeroPageRead _ _ => true | _ => false then .read
  else .internal

abbrev Slots := List (UInt32 × Slot)

namespace Slots

def Ascending (slots : Slots) : Prop := slots.Pairwise fun a b => a.1 < b.1

def alter (cycle : UInt32) (f : Slot → Slot) : Slots → Slots
  | [] => [(cycle, f {})]
  | (c, s) :: rest =>
    if cycle < c then (cycle, f {}) :: (c, s) :: rest
    else if cycle = c then (c, f s) :: rest
    else (c, s) :: alter cycle f rest

def find? (cycle : UInt32) (slots : Slots) : Option Slot := slots.lookup cycle

theorem fst_of_mem_alter {cycle : UInt32} {f : Slot → Slot} {slots : Slots} {entry : UInt32 × Slot}
    (member : entry ∈ alter cycle f slots) :
    entry.1 = cycle ∨ ∃ old ∈ slots, old.1 = entry.1 := by
  induction slots with
  | nil => simp only [alter, List.mem_singleton] at member; simp [member]
  | cons head rest ih =>
    obtain ⟨c, s⟩ := head
    rw [alter] at member
    split at member
    · rcases List.mem_cons.1 member with same | member
      · exact .inl (by rw [same])
      · exact .inr ⟨entry, member, rfl⟩
    · split at member
      · rcases List.mem_cons.1 member with same | member
        · exact .inr ⟨(c, s), List.mem_cons_self, by rw [same]⟩
        · exact .inr ⟨entry, List.mem_cons_of_mem _ member, rfl⟩
      · rcases List.mem_cons.1 member with same | member
        · exact .inr ⟨(c, s), List.mem_cons_self, by rw [same]⟩
        · rcases ih member with same | ⟨old, old_mem, same⟩
          · exact .inl same
          · exact .inr ⟨old, List.mem_cons_of_mem _ old_mem, same⟩

theorem ascending_alter {slots : Slots} (cycle : UInt32) (f : Slot → Slot)
    (ascending : slots.Ascending) : (alter cycle f slots).Ascending := by
  induction slots with
  | nil => exact List.pairwise_singleton _ _
  | cons head rest ih =>
    obtain ⟨c, s⟩ := head
    obtain ⟨below, ascending_rest⟩ := List.pairwise_cons.1 ascending
    rw [alter]
    split
    case isTrue less =>
      refine List.pairwise_cons.2 ⟨fun entry member => ?_, ascending⟩
      rcases List.mem_cons.1 member with same | member
      · rw [same]; exact less
      · exact UInt32.lt_trans less (below entry member)
    case isFalse notLess =>
      split
      case isTrue same => exact List.pairwise_cons.2 ⟨below, ascending_rest⟩
      case isFalse different =>
        refine List.pairwise_cons.2 ⟨fun entry member => ?_, ih ascending_rest⟩
        rcases fst_of_mem_alter member with same | ⟨old, old_mem, same⟩
        · rw [same]
          exact UInt32.lt_of_le_of_ne (UInt32.not_lt.1 notLess) fun equal => different equal.symm
        · rw [← same]; exact below old old_mem

end Slots

structure Timeline where
  slots : Slots
  cycle : UInt32
  ascending : slots.Ascending
  deriving DecidableEq

namespace Timeline

def empty : Timeline where
  slots := []
  cycle := 0
  ascending := List.Pairwise.nil

instance : Inhabited Timeline := ⟨empty⟩

def slot? (t : Timeline) (cycle : UInt32) : Option Slot := t.slots.find? cycle

def alter (t : Timeline) (cycle : UInt32) (f : Slot → Slot) : Timeline where
  slots := t.slots.alter cycle f
  cycle := t.cycle
  ascending := Slots.ascending_alter cycle f t.ascending

/-- Adds operations behind those of a cycle. The first site that a slot is given stays. -/
def appendAt (t : Timeline) (cycle : UInt32) (ops : List MicroOp) (pinned : Bool)
    (site : Option Site) : Timeline :=
  t.alter cycle fun s => ⟨s.ops ++ ops, s.pinned || pinned, s.site <|> site⟩

def prependAt (t : Timeline) (cycle : UInt32) (ops : List MicroOp) (pinned : Bool)
    (site : Option Site) : Timeline :=
  t.alter cycle fun s => ⟨ops ++ s.ops, s.pinned || pinned, s.site <|> site⟩

def append (t : Timeline) (ops : List MicroOp) : Timeline := t.appendAt t.cycle ops false none

def pin (t : Timeline) : Timeline := t.appendAt t.cycle [] true none

def tick (t : Timeline) (cycles : UInt32) : Timeline := { t with cycle := t.cycle + cycles }

def busRead (t : Timeline) (site : Site) (into : Option Latch) : Timeline :=
  let t := t.tick 1
  t.appendAt t.cycle [.read site into] true (some site)

def busWrite (t : Timeline) (site : Site) : Timeline :=
  let t := t.tick 1
  t.appendAt t.cycle [.write site] true (some site)

/-- A cycle that reads zero page, which nothing else can observe. -/
def zeroPageRead (t : Timeline) (site : Site) (into : Latch) : Timeline :=
  let t := t.tick 1
  t.appendAt t.cycle [.zeroPageRead site into] false none

def zeroPageWrite (t : Timeline) (site : Site) : Timeline :=
  let t := t.tick 1
  t.appendAt t.cycle [.zeroPageWrite site] true none

/-- Ends an instruction: it takes two cycles at least, and samples the interrupt lines before
anything else in the last cycle but one. -/
def finish (t : Timeline) : Timeline :=
  let t := if t.cycle < 2 then { t with cycle := 2 } else t
  t.prependAt (t.cycle - 1) [.checkInterrupt] true none

end Timeline

end Cycle6502
