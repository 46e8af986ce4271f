import Cycle6502.Proofs.Instruction.Modes
import Cycle6502.Proofs.Instruction.Step

/-! The effects of a layout. A layout is refused for one of four reasons; otherwise it holds the
effects of the instruction once and in their order, with the opening before them where the mode is
implied. -/

set_option autoImplicit false

namespace Cycle6502

namespace MicroOp

def effects (ops : List MicroOp) : List Effect :=
  ops.filterMap fun
    | .effect e => some e
    | _ => none

@[simp] theorem effects_nil : effects [] = [] := rfl

@[simp] theorem effects_append (first rest : List MicroOp) :
    effects (first ++ rest) = effects first ++ effects rest :=
  List.filterMap_append

@[simp] theorem effects_map_effect (list : List Effect) : effects (list.map .effect) = list := by
  rw [effects, List.filterMap_map]
  exact List.filterMap_some

end MicroOp

open MicroOp (effects)

namespace Slots

@[simp] theorem operations_cons (cycle : UInt32) (s : Slot) (rest : Slots) :
    operations ((cycle, s) :: rest) = s.ops ++ operations rest := rfl

theorem effects_alter (slots : Slots) (cycle : UInt32) {f : Slot → Slot} {more : List Effect}
    (adds : ∀ s, effects (f s).ops = effects s.ops ++ more) :
    ∃ front back, effects (operations (alter cycle f slots)) = front ++ more ++ back ∧
      effects (operations slots) = front ++ back := by
  induction slots with
  | nil =>
    refine ⟨[], [], ?_, rfl⟩
    rw [alter, operations_cons, MicroOp.effects_append, adds]
    rfl
  | cons head rest ih =>
    obtain ⟨c, s⟩ := head
    rw [alter]
    split
    · exact ⟨[], effects (operations ((c, s) :: rest)), by simp [adds], rfl⟩
    · split
      · exact ⟨effects s.ops, effects (operations rest), by simp [adds], by simp⟩
      · obtain ⟨front, back, altered, plain⟩ := ih
        exact ⟨effects s.ops ++ front, back, by simp [altered], by simp [plain]⟩

end Slots

namespace Timeline

def effects (t : Timeline) : List Effect := MicroOp.effects t.slots.operations

variable {t : Timeline}

theorem effects_alter_of_quiet (cycle : UInt32) {f : Slot → Slot}
    (quiet : ∀ s, MicroOp.effects (f s).ops = MicroOp.effects s.ops) :
    (t.alter cycle f).effects = t.effects := by
  have adds (s : Slot) : MicroOp.effects (f s).ops = MicroOp.effects s.ops ++ [] :=
    (quiet s).trans (List.append_nil _).symm
  obtain ⟨front, back, altered, plain⟩ := Slots.effects_alter t.slots cycle adds
  rw [List.append_nil, ← plain] at altered
  exact altered

theorem effects_appendAt {ops : List MicroOp} (quiet : MicroOp.effects ops = []) (cycle : UInt32)
    (pinned : Bool) (site : Option Site) : (t.appendAt cycle ops pinned site).effects = t.effects :=
  effects_alter_of_quiet cycle fun s => by simp [quiet]

@[simp] theorem effects_append {ops : List MicroOp} (quiet : MicroOp.effects ops = []) :
    (t.append ops).effects = t.effects :=
  effects_appendAt quiet _ _ _

@[simp] theorem effects_tick (cycles : UInt32) : (t.tick cycles).effects = t.effects := rfl

@[simp] theorem effects_pin : t.pin.effects = t.effects := effects_appendAt rfl _ _ _

@[simp] theorem effects_busRead (site : Site) (into : Option Latch) :
    (t.busRead site into).effects = t.effects := effects_appendAt rfl _ _ _

@[simp] theorem effects_busWrite (site : Site) : (t.busWrite site).effects = t.effects :=
  effects_appendAt rfl _ _ _

@[simp] theorem effects_zeroPageRead (site : Site) (into : Latch) :
    (t.zeroPageRead site into).effects = t.effects := effects_appendAt rfl _ _ _

@[simp] theorem effects_zeroPageWrite (site : Site) : (t.zeroPageWrite site).effects = t.effects :=
  effects_appendAt rfl _ _ _

theorem effects_finish : t.finish.effects = t.effects := by
  have sampled : (t.padded.prependAt (t.padded.cycle - 1) [.checkInterrupt] true none).effects =
      t.padded.effects := effects_alter_of_quiet _ fun _ => rfl
  rw [finish_eq, sampled, effects, slots_padded, effects]

theorem effects_appendEffects_of_nil (before : t.effects = []) (list : List Effect) :
    (t.appendEffects list).effects = list := by
  have adds (s : Slot) : MicroOp.effects (s.ops ++ list.map .effect) = MicroOp.effects s.ops ++ list := by
    rw [MicroOp.effects_append, MicroOp.effects_map_effect]
  obtain ⟨front, back, altered, plain⟩ := Slots.effects_alter t.slots t.cycle
    (f := fun s => ⟨s.ops ++ list.map .effect, s.pinned || false, s.site <|> none⟩) adds
  obtain ⟨rfl, rfl⟩ := List.append_eq_nil_iff.1 (plain.symm.trans before)
  rw [List.nil_append, List.append_nil] at altered
  exact altered

theorem effects_appendEffects_last (within : ∀ entry ∈ t.slots, entry.1 ≤ t.cycle)
    (list : List Effect) : (t.appendEffects list).effects = t.effects ++ list := by
  have last := Slots.operations_alter_last
    (f := fun s => ⟨s.ops ++ list.map .effect, s.pinned || false, s.site <|> none⟩)
    (fun _ => rfl) t.ascending within
  rw [effects, appendEffects, append, appendAt, alter, last, MicroOp.effects_append,
    MicroOp.effects_map_effect, effects]

theorem effects_implied (b : Behaviour) : (implied b).effects = b.opening ++ b.effects := by
  unfold implied
  generalize (if 1 + b.extra < 2 then 2 else 1 + b.extra) = cycles
  have opened : (empty.appendEffects b.opening).effects = b.opening :=
    effects_appendEffects_of_nil rfl _
  rw [effects_appendEffects_last, effects_pin, effects_tick, opened]
  intro entry member
  have last : (((empty.appendEffects b.opening).tick cycles).pin).cycle = cycles := by
    change 0 + cycles = cycles
    rw [UInt32.zero_add]
  rw [last]
  rcases Slots.fst_of_mem_alter member with same | ⟨old, member, same⟩
  · rw [same]
    exact UInt32.le_of_eq last
  · have first : old.1 = 0 := by
      rcases Slots.fst_of_mem_alter member with first | ⟨_, none, _⟩
      · exact first
      · nomatch none
    rw [← same, first]
    exact UInt32.zero_le

theorem effects_immediate (b : Behaviour) : (immediate b).effects = b.effects :=
  effects_appendEffects_of_nil (effects_append rfl) _

theorem effects_accumulator (b : Behaviour) : (accumulator b).effects = b.effects :=
  (effects_append rfl).trans
    (effects_appendEffects_of_nil (effects_append rfl) _)

theorem effects_zeroPage (b : Behaviour) (index : Option Index) :
    (zeroPage b index).effects = b.effects := by
  unfold zeroPage
  have fetched (cycles : UInt32) : ((empty.tick cycles).append [.fetchZeroPage index]).effects = [] :=
    effects_append rfl
  cases b.reads <;> cases b.writes <;> simp [fetched, effects_appendEffects_of_nil]

theorem effects_absolute (b : Behaviour) : (absolute b).effects = b.effects := by
  unfold absolute
  have fetched : ((empty.tick (3 + b.extra)).append [.fetchAbsolute]).effects = [] :=
    effects_append rfl
  cases b.reads <;> cases b.writes <;> simp [fetched, effects_appendEffects_of_nil]

theorem effects_indexedEffects (before : t.effects = []) (b : Behaviour) :
    (t.indexedEffects b).effects = b.effects := by
  have probed : (t.append [.pageCrossProbe]).effects = [] := (effects_append rfl).trans before
  unfold indexedEffects indexed
  cases b.reads <;> cases b.writes <;> simp [before, probed, effects_appendEffects_of_nil]

theorem effects_absoluteIndexed (b : Behaviour) (index : Index) :
    (absoluteIndexed b index).effects = b.effects :=
  effects_indexedEffects (effects_append rfl) b

theorem effects_indexedIndirect (b : Behaviour) : (indexedIndirect b).effects = b.effects := by
  unfold indexedIndirect
  have fetched : ((empty.tick 3).append [.fetchPointer (some .x)]).effects = [] := effects_append rfl
  have joined : (append (zeroPageRead (zeroPageRead ((empty.tick 3).append [.fetchPointer (some .x)])
      .pointer .low) .pointerNext .high) [.joinPointer]).effects = [] := by
    rw [effects_append rfl, effects_zeroPageRead, effects_zeroPageRead, fetched]
  cases b.reads <;> cases b.writes <;> simp [joined, effects_appendEffects_of_nil]

theorem effects_indirectIndexed (b : Behaviour) : (indirectIndexed b).effects = b.effects := by
  refine effects_indexedEffects ?_ b
  rw [effects_append rfl, effects_zeroPageRead, effects_zeroPageRead]
  exact effects_append rfl

theorem effects_indirect (b : Behaviour) (v : Variant) : (indirect b v).effects = b.effects := by
  refine effects_appendEffects_of_nil ?_ _
  rw [effects_append rfl]
  have fetched (cycles : UInt32) : ((empty.tick cycles).append [.fetchAbsolute]).effects = [] :=
    effects_append rfl
  cases v <;> simp [fetched]

end Timeline

namespace Schedule

def effects : Schedule → List Effect
  | .timed t => t.effects
  | .delegated ops => MicroOp.effects ops

def steps : Schedule → List Step
  | .timed t => Step.ofTimeline t.finish
  | .delegated ops => ops.map .op

inductive Refused (opcode : UInt8) (i : Instruction) (b : Behaviour) : LayoutError → Prop
  | operandInImplied : i.mode = .implied → b.reads || b.writes →
      Refused opcode i b (.memoryOperandInImplied opcode i.mnemonic)
  | writeInImmediate : i.mode = .immediate → b.writes →
      Refused opcode i b (.writeInImmediate opcode i.mnemonic)
  | noBranch : i.mode = .relative → b.isBranch = false →
      Refused opcode i b (.unsupportedMode opcode i)
  | noJump : i.mode = .indirect → b.isJump = false →
      Refused opcode i b (.unsupportedMode opcode i)

theorem layOut_error_iff {opcode : UInt8} {i : Instruction} {b : Behaviour} {v : Variant}
    {e : LayoutError} : layOut opcode i b v = .error e ↔ Refused opcode i b e := by
  obtain ⟨mnemonic, mode⟩ := i
  constructor
  case mp =>
    intro refused
    cases mode
    case implied =>
      simp only [layOut] at refused
      split at refused
      case isTrue accesses =>
        cases refused
        exact .operandInImplied rfl accesses
      case isFalse => cases refused
    case relative =>
      simp only [layOut] at refused
      split at refused
      case isTrue => cases refused
      case isFalse other =>
        cases refused
        exact .noBranch rfl (Bool.eq_false_iff.2 other)
    case immediate =>
      simp only [layOut] at refused
      split at refused
      case isTrue writes =>
        cases refused
        exact .writeInImmediate rfl writes
      case isFalse => cases refused
    case indirect =>
      simp only [layOut] at refused
      split at refused
      case isTrue => cases refused
      case isFalse other =>
        cases refused
        exact .noJump rfl (Bool.eq_false_iff.2 other)
    all_goals cases refused
  case mpr =>
    rintro (⟨implied, accesses⟩ | ⟨immediate, writes⟩ | ⟨relative, other⟩ | ⟨indirect, other⟩)
    · cases implied
      exact if_pos accesses
    · cases immediate
      exact if_pos writes
    · cases relative
      exact if_neg (Bool.eq_false_iff.1 other)
    · cases indirect
      exact if_neg (Bool.eq_false_iff.1 other)

theorem effects_of_layOut {opcode : UInt8} {i : Instruction} {b : Behaviour} {v : Variant}
    {s : Schedule} (built : layOut opcode i b v = .ok s) :
    s.effects = (if i.mode = .implied then b.opening else []) ++ b.effects := by
  obtain ⟨mnemonic, mode⟩ := i
  cases mode
  case implied =>
    simp only [layOut] at built
    split at built <;> cases built
    exact Timeline.effects_implied b
  case relative =>
    simp only [layOut] at built
    split at built <;> cases built
    exact MicroOp.effects_map_effect b.effects
  case immediate =>
    simp only [layOut] at built
    split at built <;> cases built
    exact Timeline.effects_immediate b
  case indirect =>
    simp only [layOut] at built
    split at built <;> cases built
    exact Timeline.effects_indirect b v
  all_goals cases built
  case accumulator => exact Timeline.effects_accumulator b
  case zeroPage => exact Timeline.effects_zeroPage b none
  case zeroPageX => exact Timeline.effects_zeroPage b (some .x)
  case zeroPageY => exact Timeline.effects_zeroPage b (some .y)
  case absolute => exact Timeline.effects_absolute b
  case absoluteX => exact Timeline.effects_absoluteIndexed b .x
  case absoluteY => exact Timeline.effects_absoluteIndexed b .y
  case indexedIndirect => exact Timeline.effects_indexedIndirect b
  case indirectIndexed => exact Timeline.effects_indirectIndexed b

theorem effects_of_layOut_iff {opcode : UInt8} {i : Instruction} {b : Behaviour} {v : Variant}
    {s : Schedule} (built : layOut opcode i b v = .ok s) :
    s.effects = b.opening ++ b.effects ↔ i.mode = .implied ∨ b.opening = [] := by
  rw [effects_of_layOut built, List.append_cancel_right_eq]
  by_cases implied : i.mode = .implied
  · simp [implied]
  · simp [implied, eq_comm]

/-- The program of a layout performs its effects, in this order. -/
theorem effects_steps {opcode : UInt8} {i : Instruction} {b : Behaviour} {v : Variant}
    {s : Schedule} (short : b.extra.toNat < 2 ^ 31) (built : layOut opcode i b v = .ok s) :
    MicroOp.effects (Step.operations s.steps) = s.effects := by
  cases s with
  | timed t =>
    have within := Timeline.within_finish (lays short built).within
    rw [steps, Step.ofTimeline, Step.operations_ofSlots _ _ t.finish.ascending within]
    exact t.effects_finish
  | delegated ops => rw [steps, Step.operations_ops, effects]

end Schedule

namespace Microprogram

theorem implied_or_opening {v : Variant} {opcode : UInt8} {i : Instruction} {b : Behaviour}
    (decoded : decode v opcode = some i) (modelled : Behaviour.of? i = some b) :
    i.mode = .implied ∨ b.opening = [] := by
  have every := decode_forall (P := fun i => (Behaviour.of? i).all fun b =>
    i.mode = .implied || b.opening = []) (by decide +kernel) (by decide +kernel) decoded
  simpa [modelled] using every

theorem layOut_of_of? {v : Variant} {opcode : UInt8} {p : Microprogram}
    (compiled : of? v opcode = some p) :
    ∃ i b s, decode v opcode = some i ∧ Behaviour.of? i = some b ∧
      Schedule.layOut opcode i b v = .ok s ∧ p.steps = s.steps := by
  have done := compile_eq_ok v opcode
  rw [compiled] at done
  unfold compile at done
  split at done
  case isTrue => cases done
  case isFalse =>
    cases decoded : decode v opcode with
    | none => simp [decoded] at done
    | some i =>
      cases modelled : Behaviour.of? i with
      | none => simp [decoded, modelled] at done
      | some b =>
        cases built : Schedule.layOut opcode i b v with
        | error e => simp [decoded, modelled, built] at done
        | ok s =>
          refine ⟨i, b, s, rfl, modelled, built, ?_⟩
          simp only [decoded, modelled, built] at done
          cases s <;> cases done <;> rfl

end Microprogram

/-- An instruction is refused for the reasons given; otherwise all its effects are laid out, each once
and in order, and so performed, but the opening is left out in every mode except the implied one. No
instruction of the opcode tables has an opening in another mode, so that their programs perform
all. -/
theorem Schedule.layOut_effects (opcode : UInt8) (i : Instruction) (b : Behaviour) (v : Variant) :
    (∀ e, layOut opcode i b v = .error e ↔ Refused opcode i b e) ∧
    (∀ s, layOut opcode i b v = .ok s →
      s.effects = (if i.mode = .implied then b.opening else []) ++ b.effects ∧
      (s.effects = b.opening ++ b.effects ↔ i.mode = .implied ∨ b.opening = []) ∧
      (b.extra.toNat < 2 ^ 31 → MicroOp.effects (Step.operations s.steps) = s.effects)) ∧
    ∀ p, Microprogram.of? v opcode = some p →
      ∃ i b, decode v opcode = some i ∧ Behaviour.of? i = some b ∧
        MicroOp.effects (Step.operations p.steps) = b.opening ++ b.effects := by
  refine ⟨fun e => layOut_error_iff, fun s built => ?_, fun p compiled => ?_⟩
  · exact ⟨effects_of_layOut built, effects_of_layOut_iff built,
      fun short => effects_steps short built⟩
  · obtain ⟨i, b, s, decoded, modelled, built, same⟩ := Microprogram.layOut_of_of? compiled
    refine ⟨i, b, decoded, modelled, ?_⟩
    rw [same, effects_steps (Behaviour.extra_lt modelled) built]
    exact (effects_of_layOut_iff built).2 (Microprogram.implied_or_opening decoded modelled)

/-- The return from an interrupt, which is all opening. -/
theorem Schedule.layOut_effects_rti :
    let b : Behaviour := { opening := [.returnFromInterrupt], extra := 5 }
    ∃ s p, layOut 0x40 ⟨.rti, .implied⟩ b .nmos = .ok s ∧
      s.effects = [.returnFromInterrupt] ∧ b.extra.toNat < 2 ^ 31 ∧
      MicroOp.effects (Step.operations s.steps) = [.returnFromInterrupt] ∧
      Microprogram.of? .nmos 0x40 = some p ∧
      MicroOp.effects (Step.operations p.steps) = [.returnFromInterrupt] := by
  intro b
  have short : b.extra.toNat < 2 ^ 31 := by decide
  obtain ⟨-, built, compiled⟩ := layOut_effects 0x40 ⟨.rti, .implied⟩ b .nmos
  obtain ⟨s, laid⟩ : ∃ s, layOut 0x40 ⟨.rti, .implied⟩ b .nmos = .ok s := ⟨_, rfl⟩
  obtain ⟨p, found⟩ : ∃ p, Microprogram.of? .nmos 0x40 = some p :=
    Option.isSome_iff_exists.1 (by decide +kernel)
  obtain ⟨effects, -, performed⟩ := built s laid
  obtain ⟨i, other, decoded, modelled, all⟩ := compiled p found
  cases decoded
  cases modelled
  exact ⟨s, p, laid, effects, short, (performed short).trans effects, found, all⟩

/-- With an immediate operand the return from an interrupt is not refused, and nothing of it is left. -/
theorem Schedule.layOut_opening_immediate :
    ∃ b s, Behaviour.of? ⟨.rti, .immediate⟩ = some b ∧
      layOut 0x40 ⟨.rti, .immediate⟩ b .nmos = .ok s ∧
      b.opening ++ b.effects = [.returnFromInterrupt] ∧ s.effects = [] :=
  ⟨_, _, rfl, rfl, rfl, rfl⟩

end Cycle6502
