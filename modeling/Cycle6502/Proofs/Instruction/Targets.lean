import Cycle6502.Proofs.Instruction.Reading
import Cycle6502.Proofs.Timing.Clock

/-! Where the accesses of an instruction go that the slow bus can put off. The operations that find
the operand leave the manual's addresses in the latches, and those behind them keep them there. -/

set_option autoImplicit false

namespace Cycle6502

namespace Machine

variable (m : Machine)

def pointerPlace (mode : Mode) : Nat :=
  match mode with
  | .indexedIndirect => (m.base mode + m.offset mode) % 256
  | _ => m.operandByte

/-- Where an access goes. The one mode without an effective address that makes any is a jump's, which
reads the word at the operand word. -/
def siteAddress (mode : Mode) : Site → UInt16
  | .effective | .carried => (m.effectiveAddress mode).getD (.ofNat m.operandWord)
  | .nonCarried => m.nonCarried mode
  | .pointer => .ofNat (m.pointerPlace mode)
  | .pointerNext => .ofNat ((m.pointerPlace mode + 1) % 256)
  | .effectiveNext => .ofNat ((m.operandWord + 1) % 65536)
  | .effectiveNextInPage =>
    .ofNat (m.operandWord / 256 * 256 + (m.operandWord + 1) % 256)

def crossing (b : Behaviour) (mode : Mode) : Nat :=
  if b.reads ∧ b.writes = false ∧ mode ∈ [.absoluteX, .absoluteY, .indirectIndexed] ∧
    m.carries mode then 1 else 0

end Machine

namespace MicroOp

def keepsAddress : MicroOp → Bool
  | .fetchZeroPage _ | .fetchAbsolute | .indexAbsolute _ | .fetchPointer _ | .joinPointer => false
  | _ => true

def steady (op : MicroOp) : Bool := op.busSite.isNone && op ≠ .pageCrossProbe

/-- Whether an operation, behind those that find the operand, accesses it or the early address and
probes for a carry only in a pure read. -/
def serves (b : Behaviour) (mode : Mode) (op : MicroOp) : Bool :=
  op.keepsAddress &&
    op.busSite.all (fun site => site = mode.site || mode.site = .carried && site = .nonCarried) &&
    (op ≠ .pageCrossProbe || mode.site = .carried && b.reads && !b.writes)

end MicroOp

theorem Effect.perform_resolve (e : Effect) (m : Machine) (l : Latches) (site : Site) :
    (e.perform m l).2.resolve site = l.resolve site := by
  cases e <;> rfl

namespace MicroOp

variable {target : Site → UInt16} {cross : Nat}

theorem perform_resolve {op : MicroOp} (keeps : op.keepsAddress) (m : Machine) (l : Latches)
    (site : Site) : (op.perform m l).2.resolve site = l.resolve site := by
  cases op with
  | fetchZeroPage | fetchAbsolute | indexAbsolute | fetchPointer | joinPointer => cases keeps
  | read at' into => cases into with
    | none => rfl
    | some latch => cases latch <;> cases site <;> rfl
  | zeroPageRead at' into => cases into <;> cases site <;> rfl
  | fetchImmediate | loadAccumulator => exact l.resolve_operand site _
  | pageCrossProbe =>
    simp only [perform]
    split
    · rfl
    · exact l.resolve_operand site _
  | effect e => exact e.perform_resolve m l site
  | _ => rfl

theorem Finds.of_steady {op : MicroOp} (steady : op.steady) (l : Latches) :
    op.Finds target cross l := by
  simp only [MicroOp.steady, Bool.and_eq_true, Option.isNone_iff_eq_none, decide_eq_true_eq] at steady
  constructor
  · intro site accesses
    simp [steady.1] at accesses
  · intro probe
    exact absurd probe steady.2

theorem Finds.of_resolve {op : MicroOp} {l l' : Latches} (finds : op.Finds target cross l)
    (same : ∀ site, l'.resolve site = l.resolve site) : op.Finds target cross l' := by
  constructor
  · intro site accesses
    rw [same]
    exact finds.1 site accesses
  · intro probe
    have carried : l'.carried = l.carried := same .carried
    have nonCarried : l'.nonCarried = l.nonCarried := same .nonCarried
    rw [carried, nonCarried]
    exact finds.2 probe

namespace Addressed

theorem append (first : List MicroOp) {rest : List MicroOp} {m : Machine} {l : Latches}
    (one : Addressed target cross first m l)
    (other : Addressed target cross rest (performAll first m l).1 (performAll first m l).2) :
    Addressed target cross (first ++ rest) m l := by
  induction first generalizing m l with
  | nil => exact other
  | cons op first ih => exact ⟨one.1, ih one.2 other⟩

theorem of_steady {ops : List MicroOp} (steady : ∀ op ∈ ops, op.steady) (m : Machine)
    (l : Latches) : Addressed target cross ops m l := by
  induction ops generalizing m l with
  | nil => trivial
  | cons op ops ih =>
    exact ⟨.of_steady (steady op List.mem_cons_self) l,
      ih (fun op member => steady op (List.mem_cons_of_mem _ member)) _ _⟩

theorem of_finds {ops : List MicroOp} (keep : ∀ op ∈ ops, op.keepsAddress) (m : Machine)
    {l : Latches} (finds : ∀ op ∈ ops, op.Finds target cross l) :
    Addressed target cross ops m l := by
  induction ops generalizing m l with
  | nil => trivial
  | cons op ops ih =>
    refine ⟨finds op List.mem_cons_self,
      ih (fun op member => keep op (List.mem_cons_of_mem _ member)) _ fun op' member => ?_⟩
    exact (finds op' (List.mem_cons_of_mem _ member)).of_resolve
      (perform_resolve (keep op List.mem_cons_self) m l)

end Addressed

end MicroOp

theorem Behaviour.operations_serve (b : Behaviour) (v : Variant) {mode : Mode}
    (memory : mode.inMemory) :
    ∃ rest, b.operations v mode = mode.locating ++ rest ∧ rest.all (·.serves b mode) := by
  obtain ⟨opening, effects, reads, writes, extra⟩ := b
  cases mode <;> cases memory
  all_goals
    simp only [operations, operations.zeroPage, operations.absoluteIndexed, Mode.locating,
      List.append_assoc]
    refine ⟨_, rfl, ?_⟩
    cases reads <;> cases writes <;>
      simp [effectOps, indexedOps, readsAndWrites, MicroOp.serves, MicroOp.keepsAddress,
        MicroOp.busSite, Mode.site]

namespace Machine

variable {m : Machine}

theorem finds_of_located {b : Behaviour} {mode : Mode} {addr : UInt16} {d : Machine} {l : Latches}
    {op : MicroOp} (found : m.effectiveAddress mode = some addr)
    (located : m.Located mode addr d l) (serves : op.serves b mode) :
    op.Finds (m.siteAddress mode) (m.crossing b mode) l := by
  simp only [MicroOp.serves, Bool.and_eq_true, Bool.or_eq_true, decide_eq_true_eq,
    Option.all_eq_true, Bool.not_eq_true'] at serves
  obtain ⟨⟨-, sites⟩, probes⟩ := serves
  have operand : m.siteAddress mode mode.site = addr := by
    cases mode <;> simp [siteAddress, Mode.site, found]
  constructor
  · intro site accesses
    rcases sites site accesses with rfl | ⟨indexed, rfl⟩
    · rw [located.address, operand]
    · exact located.early indexed
  · intro probe
    rcases probes with different | ⟨⟨indexed, reads⟩, pure⟩
    · exact absurd probe different
    have modes : mode ∈ [.absoluteX, .absoluteY, .indirectIndexed] := by
      revert indexed
      cases mode <;> decide
    have carried : l.carried = addr := by
      have address := located.address
      rwa [indexed] at address
    have same := m.eq_nonCarried_iff indexed found
    rw [carried, located.early indexed, crossing]
    by_cases carries : m.carries mode
    · rw [if_pos ⟨reads, pure, modes, carries⟩, if_neg fun equal => same.1 equal carries]
    · rw [if_neg fun all => carries all.2.2.2, if_pos (same.2 carries)]

theorem finds_pointer {op : MicroOp} {cross : Nat} {l : Latches}
    (address : l.addr.toNat = m.operandWord)
    (reads : ∃ site into, op = .read site into ∧
      site ∈ [.effective, .effectiveNext, .effectiveNextInPage]) :
    op.Finds (m.siteAddress .indirect) cross l := by
  obtain ⟨site, into, rfl, one⟩ := reads
  have next : (l.addr + 1).toNat = (m.operandWord + 1) % 65536 := by
    rw [UInt16.toNat_add, address]
    rfl
  refine ⟨fun site' accesses => ?_, nofun⟩
  cases accesses
  simp only [List.mem_cons, List.not_mem_nil, or_false] at one
  rcases one with rfl | rfl | rfl
  · change l.addr = .ofNat m.operandWord
    rw [← address, UInt16.ofNat_toNat]
  · change l.addr + 1 = .ofNat ((m.operandWord + 1) % 65536)
    rw [← next, UInt16.ofNat_toNat]
  · refine (page_or_place l.addr (l.addr + 1)).trans (congrArg UInt16.ofNat ?_)
    rw [address, next]
    omega

/-- Whatever the mode, the latches have the addresses that the manual gives. -/
theorem addressed (m : Machine) (b : Behaviour) {mode : Mode} (direct : mode ≠ .relative) :
    MicroOp.Addressed (m.siteAddress mode) (m.crossing b mode) (b.operations m.variant mode)
      m.fetchByte.2 {} := by
  have locating : ∀ op ∈ mode.locating, op.steady := by cases mode <;> decide
  have effects : ∀ op ∈ b.effectOps, op.steady := by simp [Behaviour.effectOps, MicroOp.steady,
    MicroOp.busSite]
  by_cases memory : mode.inMemory
  · obtain ⟨addr, found⟩ := m.effectiveAddress_isSome memory
    obtain ⟨rest, split, serves⟩ := b.operations_serve m.variant memory
    rw [List.all_eq_true] at serves
    rw [split]
    refine .append _ (.of_steady locating _ _) (.of_finds (fun op member => ?_) _ fun op member =>
      finds_of_located found (m.located found) (serves op member))
    have kept := serves op member
    simp only [MicroOp.serves, Bool.and_eq_true] at kept
    exact kept.1.1
  cases mode
  case implied =>
    refine .of_steady (fun op member => ?_) _ _
    rcases List.mem_append.1 member with opening | member
    · obtain ⟨e, -, rfl⟩ := List.mem_map.1 opening
      rfl
    · exact effects op member
  case accumulator =>
    exact .append _ (.append _ (.of_steady (by decide) _ _) (.of_steady effects _ _))
      (.of_steady (by decide) _ _)
  case immediate => exact .append _ (.of_steady (by decide) _ _) (.of_steady effects _ _)
  case indirect =>
    -- A jump reads the two bytes of its pointer and joins them, which nothing depends on.
    obtain ⟨-, address⟩ := m.fetchAbsolute
    refine .append [.fetchAbsolute, _, _, _] ?_ (.of_steady effects _ _)
    refine .append [.fetchAbsolute] (.of_steady (by decide) _ _)
      (.append [_, _] (.of_finds (by simp [MicroOp.keepsAddress]) _ ?_)
        (.of_steady (by decide) _ _))
    intro op member
    refine finds_pointer address ?_
    simp only [List.mem_cons, List.not_mem_nil, or_false] at member
    rcases member with rfl | rfl
    · exact ⟨_, _, rfl, by decide⟩
    · refine ⟨_, _, rfl, ?_⟩
      cases m.variant <;> decide
  case relative => exact absurd rfl direct
  all_goals exact absurd rfl memory

end Machine

end Cycle6502
