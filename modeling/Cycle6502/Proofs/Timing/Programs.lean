import Cycle6502.Proofs.Timing.Operations
import Cycle6502.Proofs.Word
import Mathlib.Algebra.Order.BigOperators.Group.List
import Mathlib.Algebra.Order.Group.Nat

/-! The programs that the compiler makes of the opcode tables. Each access to the bus stands behind
a wait of its own, the accesses take the last cycles of the instruction, and the interrupt lines are
sampled once, before the instruction has changed anything. -/

set_option autoImplicit false

namespace Cycle6502

namespace MicroOp

/-- Where a read or a write goes, if it is one that the slow bus can delay. -/
def busSite : MicroOp → Option Site
  | .read site _ | .write site => some site
  | _ => none

/-- Whether the interrupt lines are sampled. A branch samples them itself, and once
(`Cpu.branch_samples_once`). -/
def samples : MicroOp → Bool
  | .checkInterrupt | .effect (.branch _ _) | .effect .branchAlways => true
  | _ => false

def gathers : MicroOp → Bool
  | .write _ | .zeroPageWrite _ | .storeAccumulator | .checkInterrupt | .effect _ => false
  | _ => true

end MicroOp

namespace Step

def deeds (steps : List Step) : List MicroOp := (operations steps).filter (· ≠ .checkInterrupt)

theorem deeds_op {op : MicroOp} (acts : op ≠ .checkInterrupt) (rest : List Step) :
    deeds (.op op :: rest) = op :: deeds rest :=
  List.filter_cons_of_pos (decide_eq_true acts)

theorem deeds_append (first rest : List Step) :
    deeds (first ++ rest) = deeds first ++ deeds rest := by
  rw [deeds, operations_append, List.filter_append]
  rfl

theorem mem_deeds {op : MicroOp} (acts : op ≠ .checkInterrupt) {steps : List Step} :
    op ∈ deeds steps ↔ .op op ∈ steps := by
  simp only [deeds, operations, List.mem_filter, List.mem_filterMap, acts, ne_eq, not_false_eq_true,
    decide_true, and_true]
  constructor
  · rintro ⟨s, member, same⟩
    cases s <;> cases same
    exact member
  · exact fun member => ⟨_, member, rfl⟩

/-- The only deed of a program stands between waits and samples. -/
theorem split_deed {op : MicroOp} {steps : List Step} (single : deeds steps = [op]) :
    ∃ before after, steps = before ++ .op op :: after ∧ deeds before = [] ∧ deeds after = [] := by
  have acts : op ≠ .checkInterrupt := by
    have member : op ∈ deeds steps := single ▸ List.mem_singleton_self op
    simpa using (List.mem_filter.1 member).2
  obtain ⟨before, after, rfl⟩ := List.append_of_mem ((mem_deeds acts).1
    (single ▸ List.mem_singleton_self op))
  rw [deeds_append, deeds_op acts] at single
  refine ⟨before, after, rfl, ?_⟩
  rcases List.append_eq_singleton_iff.1 single with ⟨first, rest⟩ | ⟨-, nothing⟩
  · exact ⟨first, (List.cons.inj rest).2⟩
  · cases nothing

theorem performAll_keeps {β : Type} [Bus β] {P : Cpu β → Prop} {steps : List Step}
    (wait : ∀ c cycles, P c → P (c.wait cycles)) (sample : ∀ c, P c → P c.sampleInterrupts)
    (deed : ∀ op ∈ deeds steps, ∀ c l, P c → P (op.perform c l).1) {c : Cpu β} (l : Latches)
    (start : P c) : P (performAll steps c l).1 := by
  induction steps generalizing c l with
  | nil => exact start
  | cons s rest ih =>
    rw [← List.singleton_append, deeds_append] at deed
    obtain ⟨first, later⟩ := List.forall_mem_append.1 deed
    refine ih later _ ?_
    cases s with
    | wait cycles => exact wait c cycles start
    | stretchedWait cycles site => exact wait c _ start
    | op op =>
      by_cases samples : op = .checkInterrupt
      · rw [samples]
        exact sample c start
      · exact first op (by simp [deeds_op samples]) c l start

def busSite : Step → Option Site
  | .op m => m.busSite
  | _ => none

def samples : Step → Bool
  | .op m => m.samples
  | _ => false

def gathers : Step → Bool
  | .op m => m.gathers
  | _ => true

/-- Whether every stretched wait leads to an access at its site, with nothing but a sample between
them, and every access has such a wait. The site is that of a wait whose access is still to come. -/
def guarded : (awaited : Option Site) → List Step → Bool
  | awaited, [] => awaited.isNone
  | awaited, .op m :: rest =>
    if m = .checkInterrupt then guarded awaited rest
    else m.busSite == awaited && guarded none rest
  | none, .wait _ :: rest => guarded none rest
  | none, .stretchedWait _ site :: rest => guarded (some site) rest
  | some _, _ :: _ => false

/-- Whether one step samples the interrupt lines, and those before it only gather. -/
def samplesOnce : List Step → Bool
  | [] => false
  | s :: rest => if s.samples then rest.all (!·.samples) else s.gathers && samplesOnce rest

/-- The cycles of a step when no access is slow and a page-cross probe takes `cross`. -/
def span (cross : Nat) : Step → Nat
  | .wait cycles | .stretchedWait cycles _ => cycles.toNat
  | .op .pageCrossProbe => cross
  | .op _ => 0

/-- The cycles in which stretched waits end, from cycle `reached` on, and their sites. -/
def dues (cross : Nat) : (reached : Nat) → List Step → List (Nat × Site)
  | _, [] => []
  | reached, .stretchedWait cycles site :: rest =>
    (reached + cycles.toNat, site) :: dues cross (reached + cycles.toNat) rest
  | reached, s :: rest => dues cross (reached + s.span cross) rest

def paced (cross total : Nat) (sites : List Site) (steps : List Step) : Bool :=
  (steps.map (·.span cross)).sum == total &&
    dues cross 0 steps == (List.range' (total + 1 - sites.length) sites.length).zip sites

end Step

def Behaviour.sites (b : Behaviour) (v : Variant) (mode : Mode) : List Site :=
  (b.operations v mode).filterMap MicroOp.busSite

/-- How the compiler lays out an instruction, whatever its addressing mode. -/
structure Microprogram.Regular (p : Microprogram) (v : Variant) (i : Instruction) (b : Behaviour) :
    Prop where
  guarded : Step.guarded none p.steps = true
  -- Only the opening of an instruction stands in front of the sample with an effect.
  opens : (b.opening.map fun e => Step.op (.effect e)) <+: p.steps
  samples : Step.samplesOnce (p.steps.drop b.opening.length) = true
  deeds : Step.deeds p.steps = b.operations v i.mode
  branches : i.mode = .relative → b.isBranch ∧ p.steps = b.effectOps.map .op
  direct : i.mode ≠ .relative → ∀ op ∈ b.operations v i.mode, op.samples = false
  -- Far below what would make a stretched wait wrap.
  short : b.cycles v i.mode < 16
  paced : Step.paced 0 (b.cycles v i.mode) (b.sites v i.mode) p.steps = true
  crossing : .pageCrossProbe ∈ b.operations v i.mode →
    Step.paced 1 (b.cycles v i.mode + 1) (b.sites v i.mode) p.steps = true

namespace Microprogram

instance (p : Microprogram) (v : Variant) (i : Instruction) (b : Behaviour) :
    Decidable (p.Regular v i b) :=
  decidable_of_iff (_ ∧ _ ∧ _ ∧ _ ∧ _ ∧ _ ∧ _ ∧ _ ∧ _)
    ⟨fun ⟨guarded, opens, samples, deeds, branches, direct, short, paced, crossing⟩ =>
      ⟨guarded, opens, samples, deeds, branches, direct, short, paced, crossing⟩,
     fun ⟨guarded, opens, samples, deeds, branches, direct, short, paced, crossing⟩ =>
      ⟨guarded, opens, samples, deeds, branches, direct, short, paced, crossing⟩⟩

def regularAt (v : Variant) (opcode : UInt8) : Bool :=
  (of? v opcode).all fun p => (decode v opcode).any fun i =>
    (Behaviour.of? i).any fun b => decide (p.Regular v i b)

theorem regular_of? {v : Variant} {opcode : UInt8} {p : Microprogram}
    (compiled : of? v opcode = some p) :
    ∃ i b, decode v opcode = some i ∧ Behaviour.of? i = some b ∧ p.Regular v i b := by
  have every : regularAt v opcode = true := by
    cases v
    · exact forall_byte (P := fun opcode => regularAt .nmos opcode = true) (by decide +kernel) opcode
    · exact forall_byte (P := fun opcode => regularAt .cmos opcode = true) (by decide +kernel) opcode
  rw [regularAt, compiled, Option.all_some, Option.any_eq_true] at every
  obtain ⟨i, decoded, every⟩ := every
  obtain ⟨b, modelled, regular⟩ := (Option.any_eq_true _ _).1 every
  exact ⟨i, b, decoded, modelled, of_decide_eq_true regular⟩

end Microprogram

theorem Microcode.regular_of_lookup {store : Microcode} {opcode : UInt8} {p : Microprogram}
    (found : store.lookup opcode = some p) :
    ∃ i b, decode store.variant opcode = some i ∧ Behaviour.of? i = some b ∧
      p.Regular store.variant i b :=
  Microprogram.regular_of? ((lookup_eq store opcode).symm.trans found)

theorem Microprogram.Regular.span_lt {p : Microprogram} {v : Variant} {i : Instruction}
    {b : Behaviour} (regular : p.Regular v i b) {s : Step} (member : s ∈ p.steps) : s.span 0 < 16 := by
  have total := regular.paced
  simp only [Step.paced, Bool.and_eq_true, beq_iff_eq] at total
  have part := List.le_sum_of_mem (List.mem_map_of_mem (f := (·.span 0)) member)
  have short := regular.short
  omega

end Cycle6502
