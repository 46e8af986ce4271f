import Cycle6502.Proofs.Run.Lockstep

/-! Where the accesses to zero page and the stack go. A pointer and the stack pointer are bytes, and
so is the operand that an instruction takes the address of its zero-page accesses from; none of them
leads out of the first two pages, whatever the processor holds. -/

set_option autoImplicit false

namespace Cycle6502

def FirstPages (addr : UInt16) : Prop := addr < 0x0200

instance : DecidablePred FirstPages := fun addr => inferInstanceAs (Decidable (addr < 0x0200))

namespace FirstPages

theorem zeroPage (place : UInt8) : FirstPages place.toUInt16 := by
  revert place
  exact forall_byte (by decide +kernel)

theorem stack (sp : UInt8) : FirstPages (stackAddress sp) := by
  revert sp
  exact forall_byte (by decide +kernel)

theorem ne_feedbackRegister {addr : UInt16} (inside : FirstPages addr) :
    addr ≠ feedbackRegister := by
  intro same
  rw [same] at inside
  exact absurd inside (by decide)

end FirstPages

namespace MicroOp

/-- Whether the effective address is known to be in zero page behind an operation, from whether it
was before. -/
def knowsNear (near : Bool) : MicroOp → Bool
  | .fetchZeroPage _ => true
  | .fetchAbsolute | .joinPointer => false
  | _ => near

def keepsNear (near : Bool) : MicroOp → Bool
  | .zeroPageRead site _ | .zeroPageWrite site =>
    match site with
    | .pointer | .pointerNext => true
    | .effective => near
    | _ => false
  | _ => true

def allNear : (near : Bool) → List MicroOp → Bool
  | _, [] => true
  | near, op :: rest => op.keepsNear near && allNear (op.knowsNear near) rest

theorem allNear_effects (near : Bool) (effects : List Effect) (rest : List MicroOp) :
    allNear near (effects.map .effect ++ rest) = allNear near rest := by
  induction effects with
  | nil => rfl
  | cons e effects ih => exact ih

variable {β : Type} [Bus β] {near : Bool} {l : Latches}

omit [Bus β] in
theorem fastWithin_of_keepsNear {op : MicroOp} (keeps : op.keepsNear near = true)
    (known : near = true → FirstPages l.addr) : op.FastWithin FirstPages l := by
  have access {site : Site} (keeps : keepsNear near (.zeroPageWrite site) = true) :
      FirstPages (l.resolve site) := by
    cases site with
    | effective => exact known keeps
    | pointer => exact .zeroPage l.pointer
    | pointerNext => exact .zeroPage (l.pointer + 1)
    | _ => cases keeps
  cases op with
  | zeroPageRead site into => exact access keeps
  | zeroPageWrite site => exact access keeps
  | _ => trivial

theorem addr_store (l : Latches) (latch : Latch) (value : UInt8) :
    (l.store latch value).addr = l.addr := by
  cases latch <;> rfl

theorem addr_effect (e : Effect) (c : Cpu β) (l : Latches) : (e.perform c l).2.addr = l.addr := by
  cases e <;> rfl

theorem near_perform (op : MicroOp) (c : Cpu β) (known : near = true → FirstPages l.addr)
    (knows : op.knowsNear near = true) : FirstPages (op.perform c l).2.addr := by
  cases op with
  | fetchZeroPage index => exact .zeroPage _
  | fetchAbsolute => cases knows
  | joinPointer => cases knows
  | read site into =>
    cases into with
    | none => exact known knows
    | some latch => exact addr_store l latch _ ▸ known knows
  | zeroPageRead site into => exact addr_store l into _ ▸ known knows
  | pageCrossProbe =>
    simp only [perform]
    split <;> exact known knows
  | effect e => exact addr_effect e c l ▸ known knows
  | _ => exact known knows

end MicroOp

open MicroOp (allNear)

theorem Behaviour.allNear_operations (b : Behaviour) (v : Variant) (mode : Mode) :
    allNear false (b.operations v mode) = true := by
  have between (near : Bool) (rest : List MicroOp) :
      allNear near (b.effectOps ++ rest) = allNear near rest :=
    MicroOp.allNear_effects near b.effects rest
  have last (near : Bool) : allNear near b.effectOps = true := by
    rw [← List.append_nil b.effectOps, between, allNear]
  cases mode with
  | implied => rw [operations, MicroOp.allNear_effects, last]
  | _ =>
    cases reads : b.reads <;> cases writes : b.writes <;>
      simp [operations, operations.zeroPage, operations.pointed, operations.absoluteIndexed,
        indexedOps, readsAndWrites, allNear, MicroOp.keepsNear, MicroOp.knowsNear, between, last,
        reads, writes]

namespace Step

variable {β : Type} [Bus β]

theorem fastWithin_of_allNear {steps : List Step} {near : Bool}
    (inside : allNear near (deeds steps) = true) (c : Cpu β) {l : Latches}
    (known : near = true → FirstPages l.addr) : FastWithin FirstPages steps c l := by
  induction steps generalizing near c l with
  | nil => trivial
  | cons s rest ih =>
    cases s with
    | wait cycles => exact ⟨fun _ same => (nomatch same), ih inside _ known⟩
    | stretchedWait cycles site => exact ⟨fun _ same => (nomatch same), ih inside _ known⟩
    | op op =>
      by_cases sample : op = .checkInterrupt
      · subst sample
        exact ⟨fun _ same => by cases same; trivial, ih inside _ known⟩
      · rw [deeds_op sample, allNear, Bool.and_eq_true] at inside
        refine ⟨fun _ same => ?_, ih inside.2 _ (op.near_perform c known)⟩
        cases same
        exact MicroOp.fastWithin_of_keepsNear inside.1 known

end Step

/-- No instruction has a zero-page access outside the first two pages. -/
theorem Cpu.fastNext {β : Type} [Bus β] (c : Cpu β) : c.FastNext FirstPages := by
  intro program found
  obtain ⟨i, b, -, -, regular⟩ := Microcode.regular_of_lookup found
  have inside := b.allNear_operations c.microcode.variant i.mode
  rw [← regular.deeds] at inside
  exact Step.fastWithin_of_allNear inside _ nofun

end Cycle6502
