import Cycle6502.Proofs.Timeline.Lookup
import Cycle6502.Proofs.Timing.Programs

/-! Sound timelines. Each step of a layout keeps the slots sound: an access has a slot of its own,
whose site is the access's and gets its address in an earlier cycle. -/

set_option autoImplicit false

namespace Cycle6502

namespace MicroOp

def accessSite : MicroOp → Option Site
  | .read site _ | .write site | .zeroPageRead site _ | .zeroPageWrite site => some site
  | _ => none

def writes : MicroOp → Bool
  | .write _ | .zeroPageWrite _ => true
  | _ => false

def defines : MicroOp → List Site
  | .fetchZeroPage _ | .fetchAbsolute | .joinPointer =>
    [.effective, .effectiveNextInPage, .effectiveNext]
  | .indexAbsolute _ => [.carried, .nonCarried]
  | .fetchPointer _ => [.pointer, .pointerNext]
  | _ => []

def isEffect : MicroOp → Bool
  | .effect _ => true
  | _ => false

/-- Whether the clock must stand at the operation's cycle although no site says so. -/
def demandsPin : MicroOp → Bool
  | .zeroPageWrite _ | .pageCrossProbe => true
  | _ => false

/-- Whether an operation acts on the latches and the accumulator alone, or reads the code. -/
def plain : MicroOp → Bool
  | .read _ _ | .write _ | .zeroPageRead _ _ | .zeroPageWrite _ | .pageCrossProbe | .checkInterrupt
  | .effect _ => false
  | _ => true

theorem of_plain {op : MicroOp} (plain : op.plain) :
    op.accessSite = none ∧ op.demandsPin = false ∧ op.isEffect = false := by
  cases op <;> first | exact ⟨rfl, rfl, rfl⟩ | cases plain

theorem busSite_of_accessSite {op : MicroOp} (free : op.accessSite = none) : op.busSite = none := by
  cases op with
  | read | write => cases free
  | _ => rfl

theorem isEffect_eq_false {op : MicroOp} (other : ∀ e, op ≠ .effect e) : op.isEffect = false := by
  cases op with
  | effect e => exact absurd rfl (other e)
  | _ => rfl

theorem isEffect_of_accessSite {op : MicroOp} {site : Site} (accesses : op.accessSite = some site) :
    op.isEffect = false := by
  cases op with
  | effect => cases accesses
  | _ => rfl

end MicroOp

/-- The slot has one access at most, and its site is that of a bus access. Where it has a site or
demands it, the slot is pinned. -/
structure Slot.Sound (s : Slot) : Prop where
  single : s.ops.countP (·.accessSite.isSome) ≤ 1
  site : ∀ site, s.site = some site ↔ ∃ op ∈ s.ops, op.busSite = some site
  exact : s.site.isSome → s.pinned = true
  pinned : ∀ op ∈ s.ops, op.demandsPin → s.pinned = true

namespace Slot.Sound

theorem empty : Slot.Sound {} := by
  refine ⟨Nat.zero_le 1, fun site => ?_, fun none => ?_, fun op none => ?_⟩
  · simp
  · cases none
  · cases none

theorem access {op : MicroOp} {pinned : Bool} (exact : op.busSite.isSome → pinned = true)
    (demands : op.demandsPin → pinned = true) : Slot.Sound ⟨[op], pinned, op.busSite⟩ where
  single := List.countP_le_length
  site := by simp
  exact := exact
  pinned := by simpa using demands

theorem append {s : Slot} (sound : s.Sound) {ops : List MicroOp} {pinned : Bool}
    (free : ∀ op ∈ ops, op.accessSite = none)
    (demands : ∀ op ∈ ops, op.demandsPin → pinned = true) :
    Slot.Sound ⟨s.ops ++ ops, s.pinned || pinned, s.site <|> none⟩ where
  single := by
    have none : ops.countP (·.accessSite.isSome) = 0 :=
      List.countP_eq_zero.2 fun op member => by simp [free op member]
    rw [List.countP_append, none]
    exact sound.single
  site site := by
    have none : ¬∃ op ∈ ops, op.busSite = some site := by
      rintro ⟨op, member, accesses⟩
      rw [MicroOp.busSite_of_accessSite (free op member)] at accesses
      cases accesses
    have only := sound.site site
    simp only [List.mem_append, or_and_right, exists_or]
    simpa [none] using only
  exact some := by
    have pinned := sound.exact (by simpa using some)
    simp [pinned]
  pinned op member demanded := by
    rcases List.mem_append.1 member with member | member
    · simp [sound.pinned op member demanded]
    · simp [demands op member demanded]

theorem prependCheck {s : Slot} (sound : s.Sound) :
    Slot.Sound ⟨[.checkInterrupt] ++ s.ops, s.pinned || true, s.site <|> none⟩ where
  single := by simpa [MicroOp.accessSite] using sound.single
  site site := by simpa [MicroOp.busSite] using sound.site site
  exact _ := Bool.or_true _
  pinned _ _ _ := Bool.or_true _

end Slot.Sound

namespace Timeline

def Writes (t : Timeline) (cycle : UInt32) : Prop := ∃ op, t.Holds cycle op ∧ op.writes

structure Sound (t : Timeline) : Prop where
  within : ∀ cycle, t.cycle < cycle → t.slot? cycle = none
  slots : ∀ cycle, (t.slotAt cycle).Sound
  defined : ∀ cycle op site, t.Holds cycle op → op.accessSite = some site →
    ∃ earlier < cycle, ∃ finds, t.Holds earlier finds ∧ site ∈ finds.defines

/-- A layout that is being made. It takes some cycles so far, has found the addresses of some sites,
and writes only if it may. -/
structure Building (t : Timeline) (writes : Bool) (cycles : Nat) (sites : List Site) : Prop
    extends t.Sound where
  cycle : t.cycle.toNat = cycles
  finds : ∀ site ∈ sites, ∃ cycle op, t.Holds cycle op ∧ site ∈ op.defines
  unsampled : ∀ cycle, ¬t.Holds cycle .checkInterrupt
  asked : ∀ cycle, t.Writes cycle → writes = true

theorem not_holds_empty (cycle : UInt32) (op : MicroOp) : ¬empty.Holds cycle op := List.not_mem_nil

namespace Building

variable {t : Timeline} {writes : Bool} {cycles : Nat} {sites : List Site}

theorem empty : Timeline.empty.Building writes 0 [] where
  within _ _ := rfl
  slots _ := .empty
  defined _ _ _ held := absurd held (not_holds_empty _ _)
  cycle := rfl
  finds _ none := nomatch none
  unsampled _ := not_holds_empty _ _
  asked _ written := absurd written.choose_spec.1 (not_holds_empty _ _)

theorem le_of_holds (built : t.Building writes cycles sites) {cycle : UInt32} {op : MicroOp}
    (held : t.Holds cycle op) : cycle ≤ t.cycle := by
  refine UInt32.not_lt.1 fun beyond => ?_
  rw [Holds, t.slotAt_of_missing (built.within cycle beyond)] at held
  cases held

theorem cycle_ne_zero (built : t.Building writes cycles sites) (started : 0 < cycles) :
    t.cycle ≠ 0 := by
  intro zero
  have none := built.cycle
  rw [zero] at none
  exact Nat.ne_of_lt started none

theorem tick (built : t.Building writes cycles sites) (more : UInt32)
    (short : cycles + more.toNat < 2 ^ 32) :
    (t.tick more).Building writes (cycles + more.toNat) sites := by
  have total : (t.cycle + more).toNat = cycles + more.toNat := by
    rw [UInt32.toNat_add, built.cycle, Nat.mod_eq_of_lt short]
  have later : t.cycle ≤ (t.tick more).cycle := by
    refine UInt32.le_iff_toNat_le.2 ?_
    rw [built.cycle, Timeline.tick, total]
    exact Nat.le_add_right _ _
  exact { built with
    within := fun cycle beyond => built.within cycle (UInt32.lt_of_le_of_lt later beyond)
    cycle := total }

theorem lt_tick_one (built : t.Building writes cycles sites) (short : cycles + 1 < 2 ^ 32) :
    t.cycle < (t.tick 1).cycle := by
  refine UInt32.lt_iff_toNat_lt.2 ?_
  rw [(built.tick 1 short).cycle, built.cycle, UInt32.toNat_one]
  exact Nat.lt_succ_self cycles

theorem add (built : t.Building writes cycles sites) (ops : List MicroOp) (pinned : Bool)
    (site : Option Site)
    (sound : Slot.Sound ⟨(t.slotAt t.cycle).ops ++ ops, (t.slotAt t.cycle).pinned || pinned,
      (t.slotAt t.cycle).site <|> site⟩)
    (defined : ∀ op ∈ ops, ∀ site, op.accessSite = some site →
      ∃ earlier < t.cycle, ∃ finds, t.Holds earlier finds ∧ site ∈ finds.defines)
    (unsampled : .checkInterrupt ∉ ops) (asked : ∀ op ∈ ops, op.writes → writes = true) :
    (t.appendAt t.cycle ops pinned site).Building writes cycles
      (sites ++ ops.flatMap MicroOp.defines) where
  within cycle beyond := by
    have later : t.cycle < cycle := beyond
    rw [appendAt, slot?_alter, if_neg (UInt32.ne_of_lt later).symm]
    exact built.within cycle later
  slots cycle := by
    rw [appendAt, slotAt_alter]
    split
    · exact sound
    · exact built.slots cycle
  defined cycle op site held accesses := by
    have found : ∃ earlier < cycle, ∃ finds, t.Holds earlier finds ∧ site ∈ finds.defines := by
      rcases holds_appendAt.1 held with held | ⟨rfl, member⟩
      · exact built.defined cycle op site held accesses
      · exact defined op member site accesses
    obtain ⟨earlier, before, finds, held, mentions⟩ := found
    exact ⟨earlier, before, finds, holds_appendAt.2 (.inl held), mentions⟩
  cycle := built.cycle
  finds site member := by
    rcases List.mem_append.1 member with member | member
    · obtain ⟨cycle, op, held, mentions⟩ := built.finds site member
      exact ⟨cycle, op, holds_appendAt.2 (.inl held), mentions⟩
    · obtain ⟨op, member, mentions⟩ := List.mem_flatMap.1 member
      exact ⟨t.cycle, op, holds_appendAt.2 (.inr ⟨rfl, member⟩), mentions⟩
  unsampled cycle held := by
    rcases holds_appendAt.1 held with held | ⟨-, member⟩
    · exact built.unsampled cycle held
    · exact unsampled member
  asked cycle written := by
    obtain ⟨op, held, wrote⟩ := written
    rcases holds_appendAt.1 held with held | ⟨-, member⟩
    · exact built.asked cycle ⟨op, held, wrote⟩
    · exact asked op member wrote

theorem addFree (built : t.Building writes cycles sites) (ops : List MicroOp) (pinned : Bool)
    (free : ∀ op ∈ ops, op.accessSite = none) (demands : ∀ op ∈ ops, op.demandsPin → pinned = true)
    (unsampled : .checkInterrupt ∉ ops) :
    (t.appendAt t.cycle ops pinned none).Building writes cycles
      (sites ++ ops.flatMap MicroOp.defines) := by
  refine built.add ops pinned none ((built.slots _).append free demands)
    (fun op member site accesses => ?_) unsampled fun op member wrote => ?_
  · rw [free op member] at accesses
    cases accesses
  · have accesses := free op member
    cases op with
    | write | zeroPageWrite => cases accesses
    | _ => cases wrote

theorem addEffects (built : t.Building writes cycles sites) (effects : List Effect) :
    (t.appendEffects effects).Building writes cycles sites := by
  have added := built.addFree (effects.map .effect) false (by simp [MicroOp.accessSite])
    (by simp [MicroOp.demandsPin]) (by simp)
  have none : (effects.map .effect).flatMap MicroOp.defines = [] := by simp [MicroOp.defines]
  rwa [none, List.append_nil] at added

/-- An access takes a cycle of its own, behind those that found its address. -/
theorem access (built : t.Building writes cycles sites) (op : MicroOp) (pinned : Bool) {site : Site}
    (short : cycles + 1 < 2 ^ 32) (accesses : op.accessSite = some site) (known : site ∈ sites)
    (exact : op.busSite.isSome → pinned = true) (demands : op.demandsPin → pinned = true)
    (asked : op.writes → writes = true) :
    ((t.tick 1).appendAt (t.tick 1).cycle [op] pinned op.busSite).Building writes (cycles + 1)
      sites := by
  have ticked := built.tick 1 short
  have later := built.lt_tick_one short
  have fresh : (t.tick 1).slotAt (t.tick 1).cycle = {} :=
    t.slotAt_of_missing (built.within _ later)
  have added := ticked.add [op] pinned op.busSite
    (by rw [fresh]; exact .access exact demands)
    (by
      intro other member site' accesses'
      cases List.mem_singleton.1 member
      cases accesses.symm.trans accesses'
      obtain ⟨earlier, finds, held, mentions⟩ := built.finds site known
      exact ⟨earlier, UInt32.lt_of_le_of_lt (built.le_of_holds held) later, finds, held, mentions⟩)
    (by
      intro member
      cases List.mem_singleton.1 member
      cases accesses)
    (by
      intro other member
      cases List.mem_singleton.1 member
      exact asked)
  have none : [op].flatMap MicroOp.defines = [] := by
    cases op <;> first | rfl | cases accesses
  rwa [none, List.append_nil] at added

end Building

end Timeline

end Cycle6502
