import Cycle6502.Proofs.Timing.Folding
import Cycle6502.Timeline.Layout

/-! What the layouts hold: for each addressing mode, the operations of its timeline in the order of
their cycles, and how many cycles it takes. -/

set_option autoImplicit false

namespace Cycle6502

namespace Slots

def operations (slots : Slots) : List MicroOp := slots.flatMap (·.2.ops)

theorem operations_alter_last {slots : Slots} {cycle : UInt32} {f : Slot → Slot}
    {more : List MicroOp} (adds : ∀ s, (f s).ops = s.ops ++ more)
    (ascending : slots.Ascending) (within : ∀ entry ∈ slots, entry.1 ≤ cycle) :
    operations (alter cycle f slots) = operations slots ++ more := by
  induction slots with
  | nil => simp [operations, alter, adds]
  | cons head rest ih =>
    obtain ⟨c, s⟩ := head
    have bound := within _ List.mem_cons_self
    obtain ⟨below, ascending_rest⟩ := List.pairwise_cons.1 ascending
    rw [alter, if_neg (UInt32.not_lt.2 bound)]
    split
    case isTrue same =>
      -- Slots ascend, and none is behind this one.
      have last : rest = [] := by
        refine List.eq_nil_iff_forall_not_mem.2 fun entry member => ?_
        have above := below entry member
        rw [← same] at above
        exact UInt32.not_lt.2 (within entry (List.mem_cons_of_mem _ member)) above
      simp [operations, last, adds]
    case isFalse different =>
      have inner := ih ascending_rest fun entry member => within entry (List.mem_cons_of_mem _ member)
      simp only [operations, List.flatMap_cons] at inner ⊢
      rw [inner, List.append_assoc]

/-- Operations put in front of a slot come somewhere between the others. -/
theorem operations_alter_prepend (slots : Slots) (cycle : UInt32) {f : Slot → Slot}
    {more : List MicroOp} (adds : ∀ s, (f s).ops = more ++ s.ops) :
    ∃ front back, operations (alter cycle f slots) = front ++ more ++ back ∧
      operations slots = front ++ back := by
  induction slots with
  | nil => exact ⟨[], [], by simp [operations, alter, adds], rfl⟩
  | cons head rest ih =>
    obtain ⟨c, s⟩ := head
    rw [alter]
    split
    · exact ⟨[], operations ((c, s) :: rest), by simp [operations, adds], rfl⟩
    · split
      · exact ⟨[], operations ((c, s) :: rest), by simp [operations, adds], rfl⟩
      · obtain ⟨front, back, altered, plain⟩ := ih
        refine ⟨s.ops ++ front, back, ?_, ?_⟩
        · simp only [operations, List.flatMap_cons, List.append_assoc] at altered ⊢
          rw [altered]
        · simp only [operations, List.flatMap_cons, List.append_assoc] at plain ⊢
          rw [plain]

end Slots

structure Timeline.Lays (t : Timeline) (cycles : Nat) (ops : List MicroOp) : Prop where
  cycle : t.cycle.toNat = cycles
  within : ∀ entry ∈ t.slots, entry.1 ≤ t.cycle
  operations : t.slots.operations = ops

namespace Timeline.Lays

variable {t : Timeline} {cycles : Nat} {ops : List MicroOp}

theorem empty : Timeline.empty.Lays 0 [] := ⟨rfl, fun _ none => (nomatch none), rfl⟩

theorem tick (lays : t.Lays cycles ops) (more : UInt32) (short : cycles + more.toNat < 2 ^ 32) :
    (t.tick more).Lays (cycles + more.toNat) ops := by
  have total : (t.cycle + more).toNat = cycles + more.toNat := by
    rw [UInt32.toNat_add, lays.cycle, Nat.mod_eq_of_lt short]
  refine ⟨total, fun entry member => ?_, lays.operations⟩
  have bound := UInt32.le_iff_toNat_le.1 (lays.within entry member)
  rw [lays.cycle] at bound
  exact UInt32.le_iff_toNat_le.2 (by rw [Timeline.tick, total]; omega)

theorem appendAt (lays : t.Lays cycles ops) (more : List MicroOp) (pinned : Bool)
    (site : Option Site) : (t.appendAt t.cycle more pinned site).Lays cycles (ops ++ more) where
  cycle := lays.cycle
  within entry member := by
    rcases Slots.fst_of_mem_alter member with same | ⟨old, member, same⟩
    · exact same ▸ UInt32.le_refl _
    · exact same ▸ lays.within old member
  operations := by
    have last := Slots.operations_alter_last
      (f := fun s => ⟨s.ops ++ more, s.pinned || pinned, s.site <|> site⟩)
      (fun _ => rfl) t.ascending lays.within
    exact last.trans (congrArg (· ++ more) lays.operations)

theorem append (lays : t.Lays cycles ops) (more : List MicroOp) :
    (t.append more).Lays cycles (ops ++ more) :=
  lays.appendAt more false none

theorem pin (lays : t.Lays cycles ops) : t.pin.Lays cycles ops :=
  List.append_nil ops ▸ lays.appendAt [] true none

theorem busRead (lays : t.Lays cycles ops) (short : cycles + 1 < 2 ^ 32) (site : Site)
    (into : Option Latch) : (t.busRead site into).Lays (cycles + 1) (ops ++ [.read site into]) :=
  (lays.tick 1 short).appendAt _ _ _

theorem busWrite (lays : t.Lays cycles ops) (short : cycles + 1 < 2 ^ 32) (site : Site) :
    (t.busWrite site).Lays (cycles + 1) (ops ++ [.write site]) :=
  (lays.tick 1 short).appendAt _ _ _

theorem zeroPageRead (lays : t.Lays cycles ops) (short : cycles + 1 < 2 ^ 32) (site : Site)
    (into : Latch) :
    (t.zeroPageRead site into).Lays (cycles + 1) (ops ++ [.zeroPageRead site into]) :=
  (lays.tick 1 short).appendAt _ _ _

theorem zeroPageWrite (lays : t.Lays cycles ops) (short : cycles + 1 < 2 ^ 32) (site : Site) :
    (t.zeroPageWrite site).Lays (cycles + 1) (ops ++ [.zeroPageWrite site]) :=
  (lays.tick 1 short).appendAt _ _ _

end Timeline.Lays

namespace Behaviour

def effectOps (b : Behaviour) : List MicroOp := b.effects.map .effect

def indexedOps (b : Behaviour) : List MicroOp :=
  match b.reads, b.writes with
  | true, false => [.pageCrossProbe, .read .carried (some .operand)]
  | true, true => [.read .nonCarried none, .read .carried (some .operand), .write .carried]
  | false, true => [.read .nonCarried none]
  | false, false => []

def indexedCycles (b : Behaviour) : Nat :=
  match b.reads, b.writes with
  | true, false => 1
  | true, true => 4
  | false, true => 2
  | false, false => 0

/-- What an instruction does in an addressing mode, in order. -/
def operations (b : Behaviour) (v : Variant) : Mode → List MicroOp
  | .implied => b.opening.map .effect ++ b.effectOps
  | .accumulator => [.loadAccumulator] ++ b.effectOps ++ [.storeAccumulator]
  | .immediate => [.fetchImmediate] ++ b.effectOps
  | .zeroPage => zeroPage none
  | .zeroPageX => zeroPage (some .x)
  | .zeroPageY => zeroPage (some .y)
  | .absolute =>
    [.fetchAbsolute] ++ (if b.reads then [.read .effective (some .operand)] else []) ++
      (if b.readsAndWrites then [.write .effective] else []) ++ b.effectOps ++
      (if b.writes then [.write .effective] else [])
  | .absoluteX => absoluteIndexed .x
  | .absoluteY => absoluteIndexed .y
  | .indirect =>
    [.fetchAbsolute, .read .effective (some .low),
      .read (match v with
        | .nmos => .effectiveNextInPage
        | .cmos => .effectiveNext) (some .high), .joinPointer] ++ b.effectOps
  | .indexedIndirect =>
    pointed (some .x) ++ [.joinPointer] ++
      (if b.reads then [.read .effective (some .operand)] else []) ++ b.effectOps ++
      (if b.writes then [.write .effective] else [])
  | .indirectIndexed =>
    pointed none ++ [.joinPointer, .indexAbsolute .y] ++ b.indexedOps ++ b.effectOps ++
      (if b.writes then [.write .carried] else [])
  | .relative => b.effectOps
where
  zeroPage (index : Option Index) : List MicroOp :=
    [.fetchZeroPage index] ++ (if b.reads then [.zeroPageRead .effective .operand] else []) ++
      b.effectOps ++ (if b.writes then [.zeroPageWrite .effective] else [])
  absoluteIndexed (index : Index) : List MicroOp :=
    [.fetchAbsolute, .indexAbsolute index] ++ b.indexedOps ++ b.effectOps ++
      (if b.writes then [.write .carried] else [])
  pointed (index : Option Index) : List MicroOp :=
    [.fetchPointer index, .zeroPageRead .pointer .low, .zeroPageRead .pointerNext .high]

/-- The cycles that the layout gives an instruction, before it is finished. -/
def cycles (b : Behaviour) (v : Variant) : Mode → Nat
  | .implied => max 2 (1 + b.extra.toNat)
  | .accumulator | .immediate => 2
  | .zeroPage => 2 + accesses + b.readsAndWrites.toNat
  | .zeroPageX | .zeroPageY => 3 + accesses + b.readsAndWrites.toNat
  | .absolute => 3 + b.extra.toNat + accesses + b.readsAndWrites.toNat
  | .absoluteX | .absoluteY => 3 + b.indexedCycles
  | .indirect => match v with
    | .nmos => 5
    | .cmos => 6
  | .indexedIndirect => 5 + accesses
  | .indirectIndexed => 4 + b.indexedCycles
  | .relative => 0
where
  accesses : Nat := b.reads.toNat + b.writes.toNat

end Behaviour

namespace Timeline

theorem lays_immediate (b : Behaviour) (v : Variant) :
    (immediate b).Lays (b.cycles v .immediate) (b.operations v .immediate) :=
  ((Lays.empty.tick 2 (by decide)).append _).append _

theorem lays_accumulator (b : Behaviour) (v : Variant) :
    (accumulator b).Lays (b.cycles v .accumulator) (b.operations v .accumulator) :=
  (((Lays.empty.tick 2 (by decide)).append _).append _).append _

theorem lays_implied (b : Behaviour) (v : Variant) (short : b.extra.toNat < 2 ^ 31) :
    (implied b).Lays (b.cycles v .implied) (b.operations v .implied) := by
  -- The cycles are compared as words, which is safe as long as their sum does not wrap.
  have more : (1 + b.extra).toNat = 1 + b.extra.toNat := by
    rw [UInt32.toNat_add, UInt32.toNat_one]
    omega
  have cycles : (if 1 + b.extra < 2 then 2 else 1 + b.extra : UInt32).toNat =
      max 2 (1 + b.extra.toNat) := by
    have two : (2 : UInt32).toNat = 2 := rfl
    split
    case isTrue less =>
      have bound := UInt32.lt_iff_toNat_lt.1 less
      rw [more, two] at bound
      rw [two]
      omega
    case isFalse notLess =>
      have bound := UInt32.le_iff_toNat_le.1 (UInt32.not_lt.1 notLess)
      rw [more, two] at bound
      rw [more]
      omega
  have opened := Lays.empty.append (b.opening.map .effect)
  have ticked := opened.tick (if 1 + b.extra < 2 then 2 else 1 + b.extra)
    (by rw [cycles]; omega)
  rw [cycles, Nat.zero_add] at ticked
  exact ticked.pin.append b.effectOps

theorem lays_zeroPage (b : Behaviour) (index : Option Index) :
    (zeroPage b index).Lays
      ((if index.isSome then 3 else 2) + Behaviour.cycles.accesses b + b.readsAndWrites.toNat)
      (Behaviour.operations.zeroPage b index) := by
  have fetched : (append (empty.tick (if index.isSome then 3 else 2)) [.fetchZeroPage index]).Lays
      (if index.isSome then 3 else 2) [.fetchZeroPage index] := by
    cases index
    · exact (Lays.empty.tick 2 (by decide)).append _
    · exact (Lays.empty.tick 3 (by decide)).append _
  -- The index costs a cycle; from here on only the bound of the start matters.
  have small : (if index.isSome then 3 else 2) ≤ 3 := by split <;> decide
  unfold zeroPage Behaviour.operations.zeroPage Behaviour.readsAndWrites
  generalize (if index.isSome then 3 else 2 : Nat) = start at fetched small ⊢
  have read := fetched.zeroPageRead (by omega) .effective .operand
  cases reads : b.reads <;> cases writes : b.writes
  · simpa [appendEffects, Behaviour.effectOps, Behaviour.cycles.accesses, reads, writes]
      using fetched.append b.effectOps
  · simpa [appendEffects, Behaviour.effectOps, Behaviour.cycles.accesses, reads, writes]
      using (fetched.append b.effectOps).zeroPageWrite (by omega) .effective
  · simpa [appendEffects, Behaviour.effectOps, Behaviour.cycles.accesses, reads, writes]
      using read.append b.effectOps
  · simpa [appendEffects, Behaviour.effectOps, Behaviour.cycles.accesses, reads, writes]
      using ((read.pin.tick 1 (by rw [UInt32.toNat_one]; omega)).append b.effectOps).zeroPageWrite
        (by rw [UInt32.toNat_one]; omega) .effective

theorem lays_absolute (b : Behaviour) (v : Variant) (short : b.extra.toNat < 2 ^ 31) :
    (absolute b).Lays (b.cycles v .absolute) (b.operations v .absolute) := by
  have total : (3 + b.extra).toNat = 3 + b.extra.toNat := by
    have three : (3 : UInt32).toNat = 3 := rfl
    rw [UInt32.toNat_add, three]
    omega
  have fetched := (Lays.empty.tick (3 + b.extra) (by rw [total]; omega)).append [.fetchAbsolute]
  rw [total, Nat.zero_add, List.nil_append] at fetched
  unfold absolute Behaviour.operations Behaviour.cycles Behaviour.cycles.accesses
    Behaviour.readsAndWrites
  have read := fetched.busRead (by omega) .effective (some .operand)
  cases reads : b.reads <;> cases writes : b.writes
  · simpa [appendEffects, Behaviour.effectOps, reads, writes] using fetched.append b.effectOps
  · simpa [appendEffects, Behaviour.effectOps, reads, writes]
      using (fetched.append b.effectOps).busWrite (by omega) .effective
  · simpa [appendEffects, Behaviour.effectOps, reads, writes] using read.append b.effectOps
  · simpa [appendEffects, Behaviour.effectOps, reads, writes]
      using ((read.busWrite (by omega) .effective).append b.effectOps).busWrite (by omega) .effective

theorem Lays.indexedEffects {t : Timeline} {cycles : Nat} {ops : List MicroOp}
    (lays : t.Lays cycles ops) (b : Behaviour) (short : cycles + 4 < 2 ^ 32) :
    (t.indexedEffects b).Lays (cycles + b.indexedCycles)
      (ops ++ b.indexedOps ++ b.effectOps ++ if b.writes then [.write .carried] else []) := by
  unfold Timeline.indexedEffects indexed Behaviour.indexedCycles Behaviour.indexedOps
  have base := lays.busRead (by omega) .nonCarried none
  cases reads : b.reads <;> cases writes : b.writes
  · simpa [appendEffects, Behaviour.effectOps] using lays.append b.effectOps
  · simpa [appendEffects, Behaviour.effectOps]
      using (base.append b.effectOps).busWrite (by omega) .carried
  · simpa [appendEffects, Behaviour.effectOps] using
      ((lays.append [.pageCrossProbe]).pin.busRead (by omega) .carried (some .operand)).append
        b.effectOps
  · simpa [appendEffects, Behaviour.effectOps] using
      (((base.busRead (by omega) .carried (some .operand)).busWrite (by omega) .carried).append
        b.effectOps).busWrite (by omega) .carried

theorem lays_absoluteIndexed (b : Behaviour) (index : Index) :
    (absoluteIndexed b index).Lays (3 + b.indexedCycles)
      (Behaviour.operations.absoluteIndexed b index) :=
  ((Lays.empty.tick 3 (by decide)).append [.fetchAbsolute, .indexAbsolute index]).indexedEffects b
    (by decide)

theorem lays_indirectIndexed (b : Behaviour) (v : Variant) :
    (indirectIndexed b).Lays (b.cycles v .indirectIndexed) (b.operations v .indirectIndexed) :=
  (((((Lays.empty.tick 2 (by decide)).append [.fetchPointer none]).zeroPageRead (by decide)
    .pointer .low).zeroPageRead (by decide) .pointerNext .high).append
      [.joinPointer, .indexAbsolute .y]).indexedEffects b (by decide)

theorem lays_indexedIndirect (b : Behaviour) (v : Variant) :
    (indexedIndirect b).Lays (b.cycles v .indexedIndirect) (b.operations v .indexedIndirect) := by
  have joined := ((((Lays.empty.tick 3 (by decide)).append [.fetchPointer (some .x)]).zeroPageRead
    (by decide) .pointer .low).zeroPageRead (by decide) .pointerNext .high).append [.joinPointer]
  have read := joined.busRead (by decide) .effective (some .operand)
  unfold indexedIndirect Behaviour.operations Behaviour.operations.pointed Behaviour.cycles
    Behaviour.cycles.accesses
  cases reads : b.reads <;> cases writes : b.writes
  · simpa [appendEffects, Behaviour.effectOps] using joined.append b.effectOps
  · simpa [appendEffects, Behaviour.effectOps]
      using (joined.append b.effectOps).busWrite (by decide) .effective
  · simpa [appendEffects, Behaviour.effectOps] using read.append b.effectOps
  · simpa [appendEffects, Behaviour.effectOps]
      using (read.append b.effectOps).busWrite (by decide) .effective

theorem lays_indirect (b : Behaviour) (v : Variant) :
    (indirect b v).Lays (b.cycles v .indirect) (b.operations v .indirect) := by
  cases v
  · exact (((((Lays.empty.tick 3 (by decide)).append [.fetchAbsolute]).busRead (by decide)
      .effective (some .low)).busRead (by decide) .effectiveNextInPage (some .high)).append
        [.joinPointer]).append b.effectOps
  · exact (((((Lays.empty.tick 4 (by decide)).append [.fetchAbsolute]).busRead (by decide)
      .effective (some .low)).busRead (by decide) .effectiveNext (some .high)).append
        [.joinPointer]).append b.effectOps

end Timeline

/-- A timed layout takes the cycles of its mode and holds the operations of its mode. -/
theorem Schedule.lays {opcode : UInt8} {i : Instruction} {b : Behaviour} {v : Variant}
    {t : Timeline} (short : b.extra.toNat < 2 ^ 31) (timed : layOut opcode i b v = .ok (.timed t)) :
    t.Lays (b.cycles v i.mode) (b.operations v i.mode) := by
  obtain ⟨mnemonic, mode⟩ := i
  -- Implied, immediate and indirect operands are checked against the behaviour first.
  cases mode
  case implied =>
    simp only [layOut] at timed
    split at timed
    · cases timed
    · cases timed
      exact Timeline.lays_implied b v short
  case relative =>
    simp only [layOut] at timed
    split at timed <;> cases timed
  case immediate =>
    simp only [layOut] at timed
    split at timed
    · cases timed
    · cases timed
      exact Timeline.lays_immediate b v
  case indirect =>
    simp only [layOut] at timed
    split at timed
    · cases timed
      exact Timeline.lays_indirect b v
    · cases timed
  all_goals cases timed
  case accumulator => exact Timeline.lays_accumulator b v
  case zeroPage => exact Timeline.lays_zeroPage b none
  case zeroPageX => exact Timeline.lays_zeroPage b (some .x)
  case zeroPageY => exact Timeline.lays_zeroPage b (some .y)
  case absolute => exact Timeline.lays_absolute b v short
  case absoluteX => exact Timeline.lays_absoluteIndexed b .x
  case absoluteY => exact Timeline.lays_absoluteIndexed b .y
  case indexedIndirect => exact Timeline.lays_indexedIndirect b v
  case indirectIndexed => exact Timeline.lays_indirectIndexed b v

end Cycle6502
