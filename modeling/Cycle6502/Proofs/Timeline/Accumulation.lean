import Cycle6502.Proofs.Timeline.WellFormed

/-! What calls add up to. Behind any calls on an empty timeline the cycle is the sum of what they
take, and a slot is made of the batches that they put into it: those in front, the latest first,
then those behind, in their order. -/

set_option autoImplicit false

namespace Cycle6502

namespace Timeline

inductive Call where
  | appendAt (cycle : UInt32) (ops : List MicroOp) (pinned : Bool) (site : Option Site)
  | prependAt (cycle : UInt32) (ops : List MicroOp) (pinned : Bool) (site : Option Site)
  | append (ops : List MicroOp)
  | pin
  | tick (cycles : UInt32)
  | busRead (site : Site) (into : Option Latch)
  | busWrite (site : Site)
  | zeroPageRead (site : Site) (into : Latch)
  | zeroPageWrite (site : Site)
  deriving DecidableEq, Repr

def call (t : Timeline) : Call → Timeline
  | .appendAt cycle ops pinned site => t.appendAt cycle ops pinned site
  | .prependAt cycle ops pinned site => t.prependAt cycle ops pinned site
  | .append ops => t.append ops
  | .pin => t.pin
  | .tick cycles => t.tick cycles
  | .busRead site into => t.busRead site into
  | .busWrite site => t.busWrite site
  | .zeroPageRead site into => t.zeroPageRead site into
  | .zeroPageWrite site => t.zeroPageWrite site

def after (calls : List Call) : Timeline := calls.foldl call empty

structure Batch where
  cycle : Nat
  ops : List MicroOp
  pinned : Bool := false
  site : Option Site := none
  /-- The operations come in front of those that the slot has, instead of behind them. -/
  front : Bool := false
  deriving DecidableEq, Repr

def Call.cycles : Call → Nat
  | .tick cycles => cycles.toNat
  | .busRead _ _ | .busWrite _ | .zeroPageRead _ _ | .zeroPageWrite _ => 1
  | .appendAt _ _ _ _ | .prependAt _ _ _ _ | .append _ | .pin => 0

/-- What a call that is made in the cycle `now` puts into a slot. An access has the next cycle. -/
def Call.batch? (now : Nat) : Call → Option Batch
  | .appendAt cycle ops pinned site => some ⟨cycle.toNat, ops, pinned, site, false⟩
  | .prependAt cycle ops pinned site => some ⟨cycle.toNat, ops, pinned, site, true⟩
  | .append ops => some { cycle := now, ops }
  | .pin => some { cycle := now, ops := [], pinned := true }
  | .tick _ => none
  | .busRead site into =>
    some { cycle := now + 1, ops := [.read site into], pinned := true, site := some site }
  | .busWrite site =>
    some { cycle := now + 1, ops := [.write site], pinned := true, site := some site }
  | .zeroPageRead site into => some { cycle := now + 1, ops := [.zeroPageRead site into] }
  | .zeroPageWrite site => some { cycle := now + 1, ops := [.zeroPageWrite site], pinned := true }

def totalCycles (calls : List Call) : Nat := (calls.map Call.cycles).sum

def batches (now : Nat) : List Call → List Batch
  | [] => []
  | c :: rest => (c.batch? now).toList ++ batches (now + c.cycles) rest

def Batch.into (b : Batch) (s : Slot) : Slot where
  ops := if b.front then b.ops ++ s.ops else s.ops ++ b.ops
  pinned := s.pinned || b.pinned
  site := s.site <|> b.site

theorem Batch.cycle_ne (b : Batch) {cycle other : UInt32} (place : b.cycle = cycle.toNat)
    (different : other ≠ cycle) : b.cycle ≠ other.toNat := fun same =>
  different (UInt32.toNat_inj.1 (same.symm.trans place))

end Timeline

/-- What a slot is made of: the operations of the batches in front, the latest first, and then of
those behind, in their order. It is pinned if one of the batches is, and has the first site of
any. -/
structure Slot.MadeOf (s : Slot) (batches : List Timeline.Batch) : Prop where
  ops : s.ops = (batches.filter (·.front)).reverse.flatMap (·.ops) ++
    (batches.filter (!·.front)).flatMap (·.ops)
  pinned : s.pinned = true ↔ ∃ b ∈ batches, b.pinned = true
  site : s.site = batches.findSome? (·.site)

namespace Slot.MadeOf

theorem empty : ({} : Slot).MadeOf [] where
  ops := rfl
  pinned := by simp
  site := rfl

/-- What is put into a slot comes last among what it is made of. -/
theorem into {s : Slot} {sent : List Timeline.Batch} (made : s.MadeOf sent) (b : Timeline.Batch) :
    (b.into s).MadeOf (sent ++ [b]) where
  ops := by
    unfold Timeline.Batch.into
    cases front : b.front with
    | false => simp [front, made.ops]
    | true => simp [front, made.ops]
  pinned := by simp [Timeline.Batch.into, made.pinned, or_and_right, exists_or]
  site := by simp [Timeline.Batch.into, made.site, List.findSome?_append]

end Slot.MadeOf

namespace Timeline

structure Accumulates (t : Timeline) (now : Nat) (sent : List Batch) : Prop where
  cycle : t.cycle.toNat = now
  addressed : ∀ cycle, (t.slot? cycle).isSome ↔ ∃ b ∈ sent, b.cycle = cycle.toNat
  made : ∀ cycle, (t.slotAt cycle).MadeOf (sent.filter (·.cycle = cycle.toNat))

namespace Accumulates

variable {t : Timeline} {now : Nat} {sent : List Batch}

theorem empty : Timeline.empty.Accumulates 0 [] where
  cycle := rfl
  addressed cycle := by simp [slot?, Timeline.empty, Slots.find?]
  made _ := .empty

theorem put (built : t.Accumulates now sent) (b : Batch) {cycle : UInt32}
    (place : b.cycle = cycle.toNat) : (t.alter cycle b.into).Accumulates now (sent ++ [b]) where
  cycle := built.cycle
  addressed other := by
    rw [slot?_alter]
    split
    case isTrue same => simp [same, place]
    case isFalse different =>
      have elsewhere := b.cycle_ne place different
      simp [built.addressed, or_and_right, exists_or, elsewhere]
  made other := by
    rw [slotAt_alter, List.filter_append]
    split
    case isTrue same =>
      subst same
      simpa [place] using (built.made other).into b
    case isFalse different =>
      have elsewhere := b.cycle_ne place different
      simpa [elsewhere] using built.made other

theorem tick (built : t.Accumulates now sent) (cycles : UInt32)
    (short : now + cycles.toNat < 2 ^ 32) :
    (t.tick cycles).Accumulates (now + cycles.toNat) sent where
  cycle := by
    change (t.cycle + cycles).toNat = _
    rw [UInt32.toNat_add, built.cycle, Nat.mod_eq_of_lt short]
  addressed := built.addressed
  made := built.made

theorem access (built : t.Accumulates now sent) (b : Batch) (short : now + 1 < 2 ^ 32)
    (place : b.cycle = now + 1) :
    ((t.tick 1).alter (t.tick 1).cycle b.into).Accumulates (now + 1) (sent ++ [b]) :=
  have ticked := built.tick 1 short
  ticked.put b (place.trans ticked.cycle.symm)

theorem call (built : t.Accumulates now sent) (c : Call) (short : now + c.cycles < 2 ^ 32) :
    (t.call c).Accumulates (now + c.cycles) (sent ++ (c.batch? now).toList) := by
  have current := built.cycle.symm
  cases c with
  | appendAt cycle ops pinned site => exact built.put ⟨cycle.toNat, ops, pinned, site, false⟩ rfl
  | prependAt cycle ops pinned site => exact built.put ⟨cycle.toNat, ops, pinned, site, true⟩ rfl
  | append ops => exact built.put { cycle := now, ops } current
  | pin => exact built.put { cycle := now, ops := [], pinned := true } current
  | tick cycles =>
    rw [Call.batch?, Option.toList_none, List.append_nil]
    exact built.tick cycles short
  | busRead site into =>
    exact built.access ⟨now + 1, [.read site into], true, some site, false⟩ short rfl
  | busWrite site =>
    exact built.access ⟨now + 1, [.write site], true, some site, false⟩ short rfl
  | zeroPageRead site into =>
    exact built.access { cycle := now + 1, ops := [.zeroPageRead site into] } short rfl
  | zeroPageWrite site =>
    exact built.access { cycle := now + 1, ops := [.zeroPageWrite site], pinned := true } short rfl

theorem calls (built : t.Accumulates now sent) (calls : List Call)
    (short : now + totalCycles calls < 2 ^ 32) :
    (calls.foldl Timeline.call t).Accumulates (now + totalCycles calls)
      (sent ++ batches now calls) := by
  induction calls generalizing t now sent with
  | nil => simpa [batches, totalCycles] using built
  | cons c rest ih =>
    have total : totalCycles (c :: rest) = c.cycles + totalCycles rest := List.sum_cons
    rw [total, ← Nat.add_assoc] at short ⊢
    rw [batches, ← List.append_assoc]
    exact ih (built.call c (by omega)) short

theorem after {calls : List Call} (short : totalCycles calls < 2 ^ 32) :
    (Timeline.after calls).Accumulates (totalCycles calls) (batches 0 calls) := by
  have built := empty.calls calls (by rwa [Nat.zero_add])
  rwa [Nat.zero_add, List.nil_append] at built

end Accumulates

theorem cycle_finish (t : Timeline) : t.finish.cycle.toNat = max t.cycle.toNat 2 := by
  change t.padded.cycle.toNat = _
  unfold padded
  split
  case isTrue short =>
    have below : t.cycle.toNat < 2 := short
    exact (Nat.max_eq_right (Nat.le_of_lt below)).symm
  case isFalse long =>
    have above : 2 ≤ t.cycle.toNat := UInt32.le_iff_toNat_le.1 (UInt32.not_lt.1 long)
    exact (Nat.max_eq_left above).symm

theorem slot?_finish (t : Timeline) (cycle : UInt32) :
    t.finish.slot? cycle =
      if cycle = t.finish.cycle - 1 then
        some ⟨.checkInterrupt :: (t.slotAt cycle).ops, true, (t.slotAt cycle).site⟩
      else t.slot? cycle := by
  have last : t.finish.cycle - 1 = t.padded.cycle - 1 := rfl
  rw [last, finish_eq, prependAt, slot?_alter, slot?_padded, slotAt_padded]
  split
  case isTrue same => simp [same]
  case isFalse => rfl

/-- Behind any calls on an empty timeline, as long as the cycles do not overflow, the cycle is what
the calls take together. A cycle has a slot if something was put there, and the slot is made of just
that. Finishing takes two cycles at least, and puts the check in front of the last cycle but one,
which it pins; it leaves the other slots and all sites alone. -/
theorem after_accumulates {calls : List Call} (short : totalCycles calls < 2 ^ 32) :
    let t := after calls
    let sent := batches 0 calls
    t.cycle.toNat = totalCycles calls ∧
    (∀ cycle, (t.slot? cycle).isSome ↔ ∃ b ∈ sent, b.cycle = cycle.toNat) ∧
    (∀ cycle, ∀ slot ∈ t.slot? cycle, slot.MadeOf (sent.filter (·.cycle = cycle.toNat))) ∧
    t.finish.cycle.toNat = max (totalCycles calls) 2 ∧
    ∀ cycle, t.finish.slot? cycle =
      if cycle = t.finish.cycle - 1 then
        some ⟨.checkInterrupt :: (t.slotAt cycle).ops, true, (t.slotAt cycle).site⟩
      else t.slot? cycle := by
  intro t sent
  have built : t.Accumulates (totalCycles calls) sent := .after short
  refine ⟨built.cycle, built.addressed, fun cycle slot found => ?_, ?_, t.slot?_finish⟩
  · have made := built.made cycle
    rwa [slotAt, Option.mem_def.1 found] at made
  · rw [cycle_finish, built.cycle]

/-- Two reads of one cycle, with an operation in front of both: the slot keeps the site of the
first. -/
theorem after_accumulates_merged :
    let calls : List Call := [.tick 2, .busRead .nonCarried none, .append [.joinPointer],
      .prependAt 3 [.pageCrossProbe] false none,
      .appendAt 3 [.read .carried (some .operand)] true (some .carried)]
    let slot : Slot := ⟨[.pageCrossProbe, .read .nonCarried none, .joinPointer,
      .read .carried (some .operand)], true, some .nonCarried⟩
    totalCycles calls < 2 ^ 32 ∧ (after calls).slot? 3 = some slot ∧
      (after calls).cycle.toNat = 3 ∧ slot.MadeOf (batches 0 calls) ∧
      (after calls).finish.slot? 2 = some ⟨[.checkInterrupt], true, none⟩ := by
  intro calls slot
  have short : totalCycles calls < 2 ^ 32 := by decide
  have found : (after calls).slot? 3 = some slot := by decide
  obtain ⟨cycle, -, made, -, finished⟩ := after_accumulates short
  have all : (batches 0 calls).filter (·.cycle = (3 : UInt32).toNat) = batches 0 calls := by decide
  refine ⟨short, found, cycle, all ▸ made 3 slot found, ?_⟩
  rw [finished 2]
  decide

end Timeline

end Cycle6502
