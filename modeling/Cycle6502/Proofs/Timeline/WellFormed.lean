import Cycle6502.Proofs.Timeline.Sound

/-! Layouts are well formed, whatever a behaviour asks for: their slots are sound, the effects are
laid out once and in one piece, the last write comes behind them, and the interrupt lines are
sampled in front of the last cycle but one. -/

set_option autoImplicit false

namespace Cycle6502

namespace Timeline

structure Acts (t : Timeline) (b : Behaviour) (mode : Mode) (place : UInt32) : Prop where
  block : ∃ before after, (t.slotAt place).ops = before ++ b.effectOps ++ after ∧
    ∀ op ∈ before ++ after, op.isEffect = false
  opening : mode = .implied → place ≠ 0 ∧ (t.slotAt 0).ops = b.opening.map .effect
  others : ∀ cycle e, t.Holds cycle (.effect e) → cycle = place ∨ mode = .implied ∧ cycle = 0

/-- What a finished timeline keeps to, whatever it is made of. It samples the interrupt lines once,
before anything else in a pinned cycle that is the last but one. If it writes, then the last time
behind the effects. -/
structure WellFormed (t : Timeline) (b : Behaviour) (mode : Mode) : Prop extends t.Sound where
  long : 2 ≤ t.cycle
  sampled : ∃ rest, (t.slotAt (t.cycle - 1)).ops = .checkInterrupt :: rest ∧
    .checkInterrupt ∉ rest
  once : ∀ cycle, t.Holds cycle .checkInterrupt → cycle = t.cycle - 1
  pinned : (t.slotAt (t.cycle - 1)).pinned = true
  acts : ∃ place, t.Acts b mode place ∧
    ∀ last, t.Writes last → (∀ later, t.Writes later → later ≤ last) → place < last

structure Opens (t : Timeline) (b : Behaviour) (mode : Mode) : Prop where
  opening : mode = .implied → (t.slotAt 0).ops = b.opening.map .effect
  quiet : ∀ cycle e, t.Holds cycle (.effect e) → mode = .implied ∧ cycle = 0

section
variable {t : Timeline} {b : Behaviour} {mode : Mode} {cycle place : UInt32} {ops : List MicroOp}
  {pinned : Bool} {site : Option Site}

theorem Opens.appendAt (opens : t.Opens b mode) (later : cycle ≠ 0)
    (plain : ∀ op ∈ ops, op.isEffect = false) :
    (t.appendAt cycle ops pinned site).Opens b mode where
  opening implied := by
    rw [slotAt_appendAt_of_ne later.symm]
    exact opens.opening implied
  quiet other e held := by
    rcases holds_appendAt.1 held with held | ⟨-, member⟩
    · exact opens.quiet other e held
    · cases plain _ member

theorem Opens.act (opens : t.Opens b mode) (later : t.cycle ≠ 0) :
    (t.appendEffects b.effects).Acts b mode t.cycle where
  block := by
    refine ⟨(t.slotAt t.cycle).ops, [], ?_, fun op member => MicroOp.isEffect_eq_false ?_⟩
    · rw [List.append_nil]
      exact ops_slotAt_appendAt
    · rintro e rfl
      rw [List.append_nil] at member
      exact later (opens.quiet t.cycle e member).2
  opening implied := by
    refine ⟨later, ?_⟩
    rw [appendEffects, append, slotAt_appendAt_of_ne later.symm]
    exact opens.opening implied
  others cycle e held := by
    rcases holds_appendAt.1 held with held | ⟨same, -⟩
    · exact .inr (opens.quiet cycle e held)
    · exact .inl same

theorem Acts.appendAt (acts : t.Acts b mode place) (later : cycle ≠ 0)
    (plain : ∀ op ∈ ops, op.isEffect = false) :
    (t.appendAt cycle ops pinned site).Acts b mode place where
  block := by
    obtain ⟨before, after, split, quiet⟩ := acts.block
    by_cases same : place = cycle
    · subst same
      refine ⟨before, after ++ ops, ?_, fun op member => ?_⟩
      · rw [ops_slotAt_appendAt, split, List.append_assoc _ after]
      · rw [← List.append_assoc] at member
        rcases List.mem_append.1 member with member | member
        · exact quiet op member
        · exact plain op member
    · exact ⟨before, after, by rw [slotAt_appendAt_of_ne same, split], quiet⟩
  opening implied := by
    rw [slotAt_appendAt_of_ne later.symm]
    exact acts.opening implied
  others other e held := by
    rcases holds_appendAt.1 held with held | ⟨-, member⟩
    · exact acts.others other e held
    · cases plain _ member

end

structure Gathers (t : Timeline) (b : Behaviour) (mode : Mode) (writes : Bool) (cycles : Nat)
    (sites : List Site) : Prop where
  built : t.Building writes cycles sites
  opens : t.Opens b mode

structure Acted (t : Timeline) (b : Behaviour) (mode : Mode) (writes : Bool) (cycles : Nat)
    (sites : List Site) : Prop where
  built : t.Building writes cycles sites
  acts : t.Acts b mode t.cycle

structure Done (t : Timeline) (b : Behaviour) (mode : Mode) : Prop extends t.Sound where
  unsampled : ∀ cycle, ¬t.Holds cycle .checkInterrupt
  acts : ∃ place, t.Acts b mode place ∧
    ∀ cycle, t.Writes cycle → ∃ later, t.Writes later ∧ place < later

namespace Gathers

variable {t : Timeline} {b : Behaviour} {mode : Mode} {writes : Bool} {cycles : Nat}
  {sites : List Site}

theorem empty (plain : mode ≠ .implied) : Timeline.empty.Gathers b mode writes 0 [] :=
  ⟨.empty, fun implied => absurd implied plain, fun _ _ held => absurd held (not_holds_empty _ _)⟩

theorem tick (gathers : t.Gathers b mode writes cycles sites) (more : UInt32)
    (short : cycles + more.toNat < 2 ^ 32) :
    (t.tick more).Gathers b mode writes (cycles + more.toNat) sites :=
  ⟨gathers.built.tick more short, gathers.opens.opening, gathers.opens.quiet⟩

theorem append (gathers : t.Gathers b mode writes cycles sites) (ops : List MicroOp)
    (started : 0 < cycles) (plain : ∀ op ∈ ops, op.plain) :
    (t.append ops).Gathers b mode writes cycles (sites ++ ops.flatMap MicroOp.defines) where
  built := gathers.built.addFree ops false (fun op member => (MicroOp.of_plain (plain op member)).1)
    (fun op member demands =>
      absurd demands (ne_true_of_eq_false (MicroOp.of_plain (plain op member)).2.1))
    fun member => nomatch plain .checkInterrupt member
  opens := gathers.opens.appendAt (gathers.built.cycle_ne_zero started)
    fun op member => (MicroOp.of_plain (plain op member)).2.2

theorem pin (gathers : t.Gathers b mode writes cycles sites) (started : 0 < cycles) :
    t.pin.Gathers b mode writes cycles sites where
  built := List.append_nil sites ▸ gathers.built.addFree [] true (by simp) (by simp) (by simp)
  opens := gathers.opens.appendAt (gathers.built.cycle_ne_zero started) (by simp)

theorem probe (gathers : t.Gathers b mode writes cycles sites) (started : 0 < cycles) :
    (t.append [.pageCrossProbe]).pin.Gathers b mode writes cycles sites := by
  -- The slot is sound only once it is pinned, so both steps are taken as one.
  rw [pin_append]
  exact {
    built := List.append_nil sites ▸ gathers.built.addFree [.pageCrossProbe] true
      (by simp [MicroOp.accessSite]) (by simp) (by simp)
    opens := gathers.opens.appendAt (gathers.built.cycle_ne_zero started)
      (by simp [MicroOp.isEffect]) }

theorem access (gathers : t.Gathers b mode writes cycles sites) (op : MicroOp) (pinned : Bool)
    {site : Site} (short : cycles + 1 < 2 ^ 32) (accesses : op.accessSite = some site)
    (known : site ∈ sites)
    (exact : op.busSite.isSome → pinned = true) (demands : op.demandsPin → pinned = true)
    (asked : op.writes → writes = true) :
    ((t.tick 1).appendAt (t.tick 1).cycle [op] pinned op.busSite).Gathers b mode writes (cycles + 1)
      sites where
  built := gathers.built.access op pinned short accesses known exact demands asked
  opens := by
    have ticked := gathers.tick 1 short
    have later := ticked.built.cycle_ne_zero (Nat.succ_pos cycles)
    refine ticked.opens.appendAt later fun other member => ?_
    obtain rfl := List.mem_singleton.1 member
    exact MicroOp.isEffect_of_accessSite accesses

theorem busRead (gathers : t.Gathers b mode writes cycles sites) (site : Site)
    (into : Option Latch) (short : cycles + 1 < 2 ^ 32) (known : site ∈ sites) :
    (t.busRead site into).Gathers b mode writes (cycles + 1) sites :=
  gathers.access (.read site into) true short rfl known (fun _ => rfl) (fun _ => rfl)
    fun none => nomatch none

theorem busWrite (gathers : t.Gathers b mode writes cycles sites) (site : Site)
    (short : cycles + 1 < 2 ^ 32) (known : site ∈ sites) (asked : writes = true) :
    (t.busWrite site).Gathers b mode writes (cycles + 1) sites :=
  gathers.access (.write site) true short rfl known (fun _ => rfl) (fun _ => rfl) fun _ => asked

theorem zeroPageRead (gathers : t.Gathers b mode writes cycles sites) (site : Site) (into : Latch)
    (short : cycles + 1 < 2 ^ 32) (known : site ∈ sites) :
    (t.zeroPageRead site into).Gathers b mode writes (cycles + 1) sites :=
  gathers.access (.zeroPageRead site into) false short rfl known (fun none => nomatch none)
    (fun none => nomatch none) fun none => nomatch none

theorem act (gathers : t.Gathers b mode writes cycles sites) (started : 0 < cycles) :
    (t.appendEffects b.effects).Acted b mode writes cycles sites :=
  ⟨gathers.built.addEffects b.effects, gathers.opens.act (gathers.built.cycle_ne_zero started)⟩

theorem opened (b : Behaviour) :
    (Timeline.empty.appendEffects b.opening).Gathers b .implied writes 0 [] where
  built := Building.empty.addEffects b.opening
  opens := ⟨fun _ => rfl, fun cycle e held => by
    rcases holds_appendAt.1 held with held | ⟨same, -⟩
    · exact absurd held (not_holds_empty _ _)
    · exact ⟨rfl, same⟩⟩

end Gathers

namespace Acted

variable {t : Timeline} {b : Behaviour} {mode : Mode} {writes : Bool} {cycles : Nat}
  {sites : List Site}

theorem storeAccumulator (acted : t.Acted b mode writes cycles sites) (started : 0 < cycles) :
    (t.append [.storeAccumulator]).Acted b mode writes cycles sites where
  built := List.append_nil sites ▸ acted.built.addFree [.storeAccumulator] false
    (by simp [MicroOp.accessSite]) (by simp [MicroOp.demandsPin]) (by simp)
  acts := acted.acts.appendAt (acted.built.cycle_ne_zero started) (by simp [MicroOp.isEffect])

theorem done (acted : t.Acted b mode false cycles sites) : t.Done b mode :=
  { acted.built.toSound with
    unsampled := acted.built.unsampled
    acts := ⟨t.cycle, acted.acts, fun cycle written => nomatch acted.built.asked cycle written⟩ }

theorem access (acted : t.Acted b mode true cycles sites) (op : MicroOp) {site : Site}
    (short : cycles + 1 < 2 ^ 32) (accesses : op.accessSite = some site) (known : site ∈ sites)
    (wrote : op.writes) :
    ((t.tick 1).appendAt (t.tick 1).cycle [op] true op.busSite).Done b mode := by
  have ticked := acted.built.tick 1 short
  have written := acted.built.access op true short accesses known (fun _ => rfl) (fun _ => rfl)
    fun _ => rfl
  have later := acted.built.lt_tick_one short
  have moved : (t.tick 1).Acts b mode t.cycle :=
    ⟨acted.acts.block, acted.acts.opening, acted.acts.others⟩
  have acts : Acts ((t.tick 1).appendAt (t.tick 1).cycle [op] true op.busSite) b mode t.cycle := by
    refine moved.appendAt (ticked.cycle_ne_zero (Nat.succ_pos cycles)) fun other member => ?_
    obtain rfl := List.mem_singleton.1 member
    exact MicroOp.isEffect_of_accessSite accesses
  have last : Writes ((t.tick 1).appendAt (t.tick 1).cycle [op] true op.busSite) (t.tick 1).cycle :=
    ⟨op, holds_appendAt.2 (.inr ⟨rfl, List.mem_singleton_self op⟩), wrote⟩
  exact { written.toSound with
    unsampled := written.unsampled
    acts := ⟨t.cycle, acts, fun _ _ => ⟨_, last, later⟩⟩ }

theorem busWrite (acted : t.Acted b mode true cycles sites) (site : Site)
    (short : cycles + 1 < 2 ^ 32) (known : site ∈ sites) : (t.busWrite site).Done b mode :=
  acted.access (.write site) short rfl known rfl

theorem zeroPageWrite (acted : t.Acted b mode true cycles sites) (site : Site)
    (short : cycles + 1 < 2 ^ 32) (known : site ∈ sites) : (t.zeroPageWrite site).Done b mode :=
  acted.access (.zeroPageWrite site) short rfl known rfl

end Acted

section
variable {t : Timeline} {b : Behaviour} {mode : Mode}

theorem slot?_padded (t : Timeline) (cycle : UInt32) : t.padded.slot? cycle = t.slot? cycle := by
  rw [slot?, slots_padded, slot?]

theorem slotAt_padded (t : Timeline) (cycle : UInt32) : t.padded.slotAt cycle = t.slotAt cycle := by
  rw [slotAt, slot?_padded, slotAt]

theorem Done.padded (done : t.Done b mode) : t.padded.Done b mode := by
  have slots : t.padded.slotAt = t.slotAt := funext t.slotAt_padded
  have holds : t.padded.Holds = t.Holds := by
    funext cycle op
    rw [Holds, slots, Holds]
  have writes : t.padded.Writes = t.Writes := by
    funext cycle
    rw [Writes, holds, Writes]
  obtain ⟨⟨within, sound, defined⟩, unsampled, place, ⟨block, opening, others⟩, written⟩ := done
  refine ⟨⟨fun cycle beyond => ?_, ?_, ?_⟩, ?_, place, ⟨?_, ?_, ?_⟩, ?_⟩
  · rw [slot?_padded]
    exact within cycle (UInt32.lt_of_le_of_lt t.le_cycle_padded beyond)
  all_goals
    simp only [slots, holds, writes]
    assumption

theorem Acts.prependCheck {cycle place : UInt32} (acts : t.Acts b mode place) (later : cycle ≠ 0) :
    (t.prependAt cycle [.checkInterrupt] true none).Acts b mode place where
  block := by
    obtain ⟨before, after, split, quiet⟩ := acts.block
    rw [prependAt, slotAt_alter]
    split
    case isTrue same =>
      subst same
      refine ⟨.checkInterrupt :: before, after, ?_, fun op member => ?_⟩
      · simp [split]
      · rcases List.mem_cons.1 member with rfl | member
        · rfl
        · exact quiet op member
    case isFalse => exact ⟨before, after, split, quiet⟩
  opening implied := by
    rw [prependAt, slotAt_alter, if_neg later.symm]
    exact acts.opening implied
  others other e held := by
    rcases holds_prependAt.1 held with ⟨-, member⟩ | held
    · cases List.mem_singleton.1 member
    · exact acts.others other e held

theorem writes_prependCheck {cycle other : UInt32} :
    (t.prependAt cycle [.checkInterrupt] true none).Writes other ↔ t.Writes other := by
  constructor
  · rintro ⟨op, held, wrote⟩
    rcases holds_prependAt.1 held with ⟨-, member⟩ | held
    · cases List.mem_singleton.1 member
      cases wrote
    · exact ⟨op, held, wrote⟩
  · rintro ⟨op, held, wrote⟩
    exact ⟨op, holds_prependAt.2 (.inr held), wrote⟩

theorem Sound.prependCheck {cycle : UInt32} (sound : t.Sound) (inside : cycle ≤ t.cycle) :
    (t.prependAt cycle [.checkInterrupt] true none).Sound where
  within other beyond := by
    have after : t.cycle < other := beyond
    have different : other ≠ cycle := (UInt32.ne_of_lt (UInt32.lt_of_le_of_lt inside after)).symm
    rw [prependAt, slot?_alter, if_neg different]
    exact sound.within other after
  slots other := by
    rw [prependAt, slotAt_alter]
    split
    · exact (sound.slots _).prependCheck
    · exact sound.slots other
  defined other op site held accesses := by
    rcases holds_prependAt.1 held with ⟨-, member⟩ | held
    · cases List.mem_singleton.1 member
      cases accesses
    · obtain ⟨earlier, before, finds, held, mentions⟩ := sound.defined other op site held accesses
      exact ⟨earlier, before, finds, holds_prependAt.2 (.inr held), mentions⟩

/-- Finishing puts the sample in front of a slot that is never the first. -/
theorem Done.finish (done : t.Done b mode) : t.finish.WellFormed b mode := by
  have long := t.two_le_cycle_padded
  obtain ⟨sound, unsampled, place, acts, written⟩ := done.padded
  rw [finish_eq]
  generalize t.padded = p at *
  have two : 2 ≤ p.cycle.toNat := UInt32.le_iff_toNat_le.1 long
  have probe : (p.cycle - 1).toNat = p.cycle.toNat - 1 :=
    UInt32.toNat_sub_of_le _ _ (UInt32.le_iff_toNat_le.2 (Nat.le_of_succ_le two))
  have inside : p.cycle - 1 ≤ p.cycle := UInt32.le_iff_toNat_le.2 (by omega)
  have later : p.cycle - 1 ≠ 0 := by
    intro zero
    rw [zero, UInt32.toNat_zero] at probe
    omega
  have slot : (p.prependAt (p.cycle - 1) [.checkInterrupt] true none).slotAt (p.cycle - 1) =
      ⟨[.checkInterrupt] ++ (p.slotAt (p.cycle - 1)).ops, (p.slotAt (p.cycle - 1)).pinned || true,
        (p.slotAt (p.cycle - 1)).site <|> none⟩ := by
    rw [prependAt, slotAt_alter, if_pos rfl]
  exact { sound.prependCheck inside with
    long
    sampled := ⟨_, congrArg Slot.ops slot, unsampled _⟩
    once := fun cycle held => by
      rcases holds_prependAt.1 held with ⟨same, -⟩ | held
      · exact same
      · exact absurd held (unsampled cycle)
    pinned := (congrArg Slot.pinned slot).trans (Bool.or_true _)
    acts := ⟨place, acts.prependCheck later, fun last wrote greatest => by
      obtain ⟨behind, wrote', less⟩ := written last (writes_prependCheck.1 wrote)
      exact UInt32.lt_of_lt_of_le less (greatest behind (writes_prependCheck.2 wrote'))⟩ }

end

section
variable (b : Behaviour) {mode : Mode}

theorem done_implied : (implied b).Done b .implied := by
  unfold implied
  generalize cycles : (if 1 + b.extra < 2 then 2 else 1 + b.extra : UInt32) = more
  have started : 0 < 0 + more.toNat := by
    rw [← cycles, Nat.zero_add]
    split
    case isTrue => decide
    case isFalse notLess =>
      have two := UInt32.le_iff_toNat_le.1 (UInt32.not_lt.1 notLess)
      exact Nat.lt_of_lt_of_le (by decide) two
  have opened : (empty.appendEffects b.opening).Gathers b .implied false 0 [] := .opened b
  exact opened.tick more (by rw [Nat.zero_add]; exact more.toNat_lt)
    |>.pin started |>.act started |>.done

theorem done_immediate : (immediate b).Done b .immediate :=
  Gathers.empty (by decide) |>.tick 2 (by decide)
    |>.append [.fetchImmediate] (by decide) (by decide)
    |>.act (by decide) |>.done

theorem done_accumulator : (accumulator b).Done b .accumulator :=
  Gathers.empty (by decide) |>.tick 2 (by decide)
    |>.append [.loadAccumulator] (by decide) (by decide)
    |>.act (by decide) |>.storeAccumulator (by decide) |>.done

theorem done_indirect (v : Variant) : (indirect b v).Done b .indirect := by
  cases v with
  | nmos =>
    exact Gathers.empty (by decide) |>.tick 3 (by decide)
      |>.append [.fetchAbsolute] (by decide) (by decide)
      |>.busRead .effective (some .low) (by decide) (by decide)
      |>.busRead .effectiveNextInPage (some .high) (by decide) (by decide)
      |>.append [.joinPointer] (by decide) (by decide) |>.act (by decide) |>.done
  | cmos =>
    exact Gathers.empty (by decide) |>.tick 4 (by decide)
      |>.append [.fetchAbsolute] (by decide) (by decide)
      |>.busRead .effective (some .low) (by decide) (by decide)
      |>.busRead .effectiveNext (some .high) (by decide) (by decide)
      |>.append [.joinPointer] (by decide) (by decide) |>.act (by decide) |>.done

theorem done_zeroPage (plain : mode ≠ .implied) (index : Option Index) :
    (zeroPage b index).Done b mode := by
  have fetched :
      (append (empty.tick (if index.isSome then 3 else 2)) [.fetchZeroPage index]).Gathers b mode
        b.writes (if index.isSome then 3 else 2)
        [.effective, .effectiveNextInPage, .effectiveNext] := by
    cases index
    · exact Gathers.empty plain |>.tick 2 (by decide)
        |>.append _ (by decide) (by simp [MicroOp.plain])
    · exact Gathers.empty plain |>.tick 3 (by decide)
        |>.append _ (by decide) (by simp [MicroOp.plain])
  have small : (if index.isSome then 3 else 2) ≤ 3 := by split <;> decide
  have started : 0 < (if index.isSome then 3 else 2) := by split <;> decide
  unfold zeroPage
  generalize (if index.isSome then 3 else 2 : Nat) = start at fetched small started
  have read := fetched.zeroPageRead .effective .operand (by omega) (by decide)
  cases reads : b.reads <;> cases writes : b.writes <;> rw [writes] at fetched read
  · exact fetched.act started |>.done
  · exact fetched.act started |>.zeroPageWrite .effective (by omega) (by decide)
  · exact read.act (by omega) |>.done
  -- The cycle of the write that does not reach the bus has the effects.
  · have idled := read.pin (by omega) |>.tick 1 (by rw [UInt32.toNat_one]; omega)
    rw [UInt32.toNat_one] at idled
    exact idled.act (by omega) |>.zeroPageWrite .effective (by omega) (by decide)

theorem done_absolute (short : b.extra.toNat < 2 ^ 31) : (absolute b).Done b .absolute := by
  have total : (3 + b.extra).toNat = 3 + b.extra.toNat := by
    have three : (3 : UInt32).toNat = 3 := rfl
    rw [UInt32.toNat_add, three]
    omega
  have fetched : (append (empty.tick (3 + b.extra)) [.fetchAbsolute]).Gathers b .absolute b.writes
      (0 + (3 + b.extra).toNat) [.effective, .effectiveNextInPage, .effectiveNext] :=
    Gathers.empty (by decide) |>.tick _ (by rw [total]; omega)
      |>.append [.fetchAbsolute] (by rw [total]; omega) (by decide)
  rw [total, Nat.zero_add] at fetched
  have read := fetched.busRead .effective (some .operand) (by omega) (by decide)
  unfold absolute
  cases reads : b.reads <;> cases writes : b.writes <;> rw [writes] at fetched read
  · exact fetched.act (by omega) |>.done
  · exact fetched.act (by omega) |>.busWrite .effective (by omega) (by decide)
  · exact read.act (by omega) |>.done
  · exact read.busWrite .effective (by omega) (by decide) rfl |>.act (by omega)
      |>.busWrite .effective (by omega) (by decide)

theorem done_indexedIndirect : (indexedIndirect b).Done b .indexedIndirect := by
  have started : empty.Gathers b .indexedIndirect b.writes 0 [] := .empty (by decide)
  have joined := started.tick 3 (by decide)
    |>.append [.fetchPointer (some .x)] (by decide) (by decide)
    |>.zeroPageRead .pointer .low (by decide) (by decide)
    |>.zeroPageRead .pointerNext .high (by decide) (by decide)
    |>.append [.joinPointer] (by decide) (by decide)
  have read := joined.busRead .effective (some .operand) (by decide) (by decide)
  unfold indexedIndirect
  cases reads : b.reads <;> cases writes : b.writes <;> rw [writes] at joined read
  · exact joined.act (by decide) |>.done
  · exact joined.act (by decide) |>.busWrite .effective (by decide) (by decide)
  · exact read.act (by decide) |>.done
  · exact read.act (by decide) |>.busWrite .effective (by decide) (by decide)

variable {b} in
theorem Gathers.indexedEffects {t : Timeline} {cycles : Nat} {sites : List Site}
    (found : t.Gathers b mode b.writes cycles sites) (started : 0 < cycles)
    (short : cycles + 4 < 2 ^ 32) (carried : .carried ∈ sites) (nonCarried : .nonCarried ∈ sites) :
    (t.indexedEffects b).Done b mode := by
  have early := found.busRead .nonCarried none (by omega) nonCarried
  have late := early.busRead .carried (some .operand) (by omega) carried
  have probed := found.probe started |>.busRead .carried (some .operand) (by omega) carried
  unfold Timeline.indexedEffects Timeline.indexed
  cases reads : b.reads <;> cases writes : b.writes <;> rw [writes] at found early late probed
  · exact found.act started |>.done
  · exact early.act (by omega) |>.busWrite .carried (by omega) carried
  · exact probed.act (by omega) |>.done
  · exact late.busWrite .carried (by omega) carried rfl |>.act (by omega)
      |>.busWrite .carried (by omega) carried

theorem done_absoluteIndexed (plain : mode ≠ .implied) (index : Index) :
    (absoluteIndexed b index).Done b mode :=
  Gathers.empty plain |>.tick 3 (by decide)
    |>.append [.fetchAbsolute, .indexAbsolute index] (by decide) (by simp [MicroOp.plain])
    |>.indexedEffects (by decide) (by decide) (by simp [MicroOp.defines])
      (by simp [MicroOp.defines])

theorem done_indirectIndexed : (indirectIndexed b).Done b .indirectIndexed :=
  Gathers.empty (by decide) |>.tick 2 (by decide)
    |>.append [.fetchPointer none] (by decide) (by decide)
    |>.zeroPageRead .pointer .low (by decide) (by decide)
    |>.zeroPageRead .pointerNext .high (by decide) (by decide)
    |>.append [.joinPointer, .indexAbsolute .y] (by decide) (by decide)
    |>.indexedEffects (by decide) (by decide) (by decide) (by decide)

end

end Timeline

/-- Every timeline that comes out of a layout is well formed when it is finished, whatever the
behaviour asks for. -/
theorem Schedule.finish_wellFormed {opcode : UInt8} {i : Instruction} {b : Behaviour} {v : Variant}
    {t : Timeline} (short : b.extra.toNat < 2 ^ 31) (timed : layOut opcode i b v = .ok (.timed t)) :
    t.finish.WellFormed b i.mode := by
  refine Timeline.Done.finish ?_
  obtain ⟨mnemonic, mode⟩ := i
  change t.Done b mode
  -- Four modes are checked against the behaviour first, and one of them has no timeline.
  cases mode
  case implied =>
    simp only [layOut] at timed
    split at timed <;> cases timed
    exact Timeline.done_implied b
  case relative =>
    simp only [layOut] at timed
    split at timed <;> cases timed
  case immediate =>
    simp only [layOut] at timed
    split at timed <;> cases timed
    exact Timeline.done_immediate b
  case indirect =>
    simp only [layOut] at timed
    split at timed <;> cases timed
    exact Timeline.done_indirect b v
  all_goals cases timed
  case accumulator => exact Timeline.done_accumulator b
  case zeroPage => exact Timeline.done_zeroPage b (by decide) none
  case zeroPageX => exact Timeline.done_zeroPage b (by decide) (some .x)
  case zeroPageY => exact Timeline.done_zeroPage b (by decide) (some .y)
  case absolute => exact Timeline.done_absolute b short
  case absoluteX => exact Timeline.done_absoluteIndexed b (by decide) .x
  case absoluteY => exact Timeline.done_absoluteIndexed b (by decide) .y
  case indexedIndirect => exact Timeline.done_indexedIndirect b
  case indirectIndexed => exact Timeline.done_indirectIndexed b

/-- A modification at an indexed address samples the lines in the cycle of its first write, in front
of the effects. -/
theorem Schedule.finish_wellFormed_modifying :
    let b := Behaviour.modifying [.rotate true false, .writeBackToBase, .orIntoAccumulator]
    let t := Timeline.absoluteIndexed b .x
    b.extra.toNat < 2 ^ 31 ∧ layOut 0x1F ⟨.slo, .absoluteX⟩ b .nmos = .ok (.timed t) ∧
      t.finish.WellFormed b .absoluteX ∧
      t.finish.slotAt 6 =
        ⟨[.checkInterrupt, .write .carried] ++ b.effectOps, true, some .carried⟩ := by
  intro b t
  have short : b.extra.toNat < 2 ^ 31 := by decide
  have timed : layOut 0x1F ⟨.slo, .absoluteX⟩ b .nmos = .ok (.timed t) := rfl
  exact ⟨short, timed, finish_wellFormed short timed, by decide⟩

end Cycle6502
