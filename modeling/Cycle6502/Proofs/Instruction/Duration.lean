import Cycle6502.Proofs.Instruction.Branching
import Cycle6502.Proofs.Instruction.Targets
import Cycle6502.Proofs.Interrupt.Entry

/-! How long an instruction takes: the cycles of its mode, one for a carry that a read has to wait
for, what the slow bus adds, and seven for an interrupt. -/

set_option autoImplicit false

namespace Cycle6502.Machine

/-- The cycles of an instruction by the manual's tables, page crossings of reads apart. -/
def baseCycles (m : Machine) (i : Instruction) (b : Behaviour) : Nat :=
  match i.mode with
  | .relative => m.branchCycles i.mnemonic
  | mode => b.cycles m.variant mode

/-- The reads and writes that the slow bus can put off: an instruction makes them in its last
cycles. -/
def accesses (m : Machine) (b : Behaviour) (mode : Mode) : List (Nat × UInt16) :=
  let addresses := (b.sites m.variant mode).map (m.siteAddress mode)
  (List.range' (b.cycles m.variant mode + m.crossing b mode + 1 - addresses.length)
    addresses.length).zip addresses

theorem paced_crossing (m : Machine) {p : Microprogram} {i : Instruction} {b : Behaviour}
    (regular : p.Regular m.variant i b) :
    Step.paced (m.crossing b i.mode) (b.cycles m.variant i.mode + m.crossing b i.mode)
      (b.sites m.variant i.mode) p.steps := by
  unfold crossing
  split
  case isTrue crosses =>
    obtain ⟨reads, pure, indexed, -⟩ := crosses
    refine regular.crossing ?_
    simp only [List.mem_cons, List.not_mem_nil, or_false] at indexed
    rcases indexed with mode | mode | mode <;>
      simp [mode, Behaviour.operations, Behaviour.operations.absoluteIndexed,
        Behaviour.indexedOps, reads, pure]
  case isFalse => exact regular.paced

theorem clock_run (m : Machine) {p : Microprogram} {i : Instruction} {b : Behaviour}
    (regular : p.Regular m.variant i b) (direct : i.mode ≠ .relative) :
    (p.run m.fetchByte.2).bus.clock = m.bus.clock +
      .ofNat (b.cycles m.variant i.mode + m.crossing b i.mode +
        Textbook.stretch m.bus.clock.toNat (m.accesses b i.mode)) := by
  have paced := m.paced_crossing regular
  simp only [Step.paced, Bool.and_eq_true, beq_iff_eq] at paced
  obtain ⟨total, dues⟩ := paced
  have addressed := m.addressed b direct
  rw [← regular.deeds] at addressed
  have start : m.fetchByte.2.bus.clock = .ofNat (m.bus.clock.toNat + 0) :=
    (UInt64.ofNat_toNat).symm
  have clock := Step.clock_performAll regular.guarded
    (fun op member => regular.direct direct op (regular.deeds ▸ member))
    (fun s => regular.span_lt) (Cpu.Similar.refl Board.SameButTime.refl False _) addressed start
  have accesses : (m.accesses b i.mode) =
      (Step.dues (m.crossing b i.mode) 0 p.steps).map fun due =>
        (due.1, m.siteAddress i.mode due.2) := by
    rw [dues, Machine.accesses, List.length_map, List.zip_map_right]
    rfl
  rw [total, ← accesses, Nat.zero_add, UInt64.ofNat_add, UInt64.ofNat_toNat] at clock
  exact clock

theorem clock_run_branch (m : Machine) {p : Microprogram} {i : Instruction} {b : Behaviour}
    (modelled : Behaviour.of? i = some b) (regular : p.Regular m.variant i b)
    (relative : i.mode = .relative) :
    (p.run m.fetchByte.2).bus.clock = m.bus.clock + .ofNat (m.branchCycles i.mnemonic) := by
  rw [m.run_branch modelled regular relative, m.clock_branch]

theorem accesses_relative (m : Machine) (b : Behaviour) : m.accesses b .relative = [] := by
  have sites : b.sites m.variant .relative = [] := by
    simp [Behaviour.sites, Behaviour.operations, Behaviour.effectOps, MicroOp.busSite]
  simp [accesses, sites]

theorem crossing_relative (m : Machine) (b : Behaviour) : m.crossing b .relative = 0 := by
  simp [crossing]

theorem clock_settle (m : Machine) :
    m.settle.bus.clock = m.bus.clock + .ofNat (7 * m.interruptPending.toNat) := by
  unfold Cpu.settle
  cases m.interruptPending with
  | false => exact (UInt64.add_zero _).symm
  | true => exact (served_serviceInterrupt { m with interruptPending := false }).1.clock

/-- The clock behind a step. -/
theorem step_clock {m : Machine} {p : Microprogram} (running : m.halted = false)
    (found : m.microcode.lookup (m.peek m.pc) = some p) :
    ∃ i b, decode m.variant (m.peek m.pc) = some i ∧ Behaviour.of? i = some b ∧ m.step.2 = none ∧
      m.step.1.bus.clock = m.bus.clock +
        .ofNat (m.baseCycles i b + m.crossing b i.mode +
          Textbook.stretch m.bus.clock.toNat (m.accesses b i.mode) +
          7 * m.takesInterrupt.toNat) := by
  obtain ⟨i, b, decoded, modelled, regular⟩ := Microcode.regular_of_lookup found
  obtain ⟨journal, stepped⟩ := Cpu.step_settle running found
  have ran : (p.run m.fetchByte.2).bus.clock = m.bus.clock +
      .ofNat (m.baseCycles i b + m.crossing b i.mode +
        Textbook.stretch m.bus.clock.toNat (m.accesses b i.mode)) := by
    by_cases relative : i.mode = .relative
    · have base : m.baseCycles i b = m.branchCycles i.mnemonic := by
        rw [baseCycles, relative]
      rw [m.clock_run_branch modelled regular relative, relative, crossing_relative,
        accesses_relative, base]
      rfl
    · have base : m.baseCycles i b = b.cycles m.variant i.mode := by
        unfold baseCycles
        split
        case h_1 branch => exact absurd branch relative
        case h_2 => rfl
      rw [base]
      exact m.clock_run regular relative
  refine ⟨i, b, decoded, modelled, by rw [stepped], ?_⟩
  rw [stepped]
  calc
    _ = (p.run m.fetchByte.2).bus.clock + .ofNat (7 * m.takesInterrupt.toNat) := by
      rw [clock_settle, Cpu.takesInterrupt_eq found]
    _ = _ := by rw [ran, UInt64.add_assoc, ← UInt64.ofNat_add]

/-- A load through a pointer that carries into the slow bus: five cycles, one for the carry and one
for the slow bus. -/
theorem step_clock_port :
    let m := loaded [0xB1, 0x03, 0x00, 0xF0, 0xFB]
    m.halted = false ∧ (∃ p, m.microcode.lookup (m.peek m.pc) = some p) ∧
      m.step.1.bus.clock = m.bus.clock + .ofNat (5 + 1 + 1 + 7 * 0) := by
  intro m
  have decoded : decode m.variant (m.peek m.pc) = some ⟨.lda, .indirectIndexed⟩ := by
    decide +kernel
  have compiled : (m.microcode.lookup (m.peek m.pc)).isSome := by decide +kernel
  obtain ⟨p, found⟩ := Option.isSome_iff_exists.1 compiled
  obtain ⟨i, b, decoded', modelled, -, clock⟩ := step_clock (m := m) rfl found
  cases decoded'.symm.trans decoded
  cases modelled
  have carry : m.crossing (.reading [.load .a]) .indirectIndexed = 1 := by decide +kernel
  have slow : Textbook.stretch m.bus.clock.toNat
      (m.accesses (.reading [.load .a]) .indirectIndexed) = 1 := by
    decide +kernel
  have undisturbed : m.takesInterrupt = false := by decide +kernel
  rw [carry, slow, undisturbed] at clock
  exact ⟨rfl, ⟨p, found⟩, clock⟩

end Cycle6502.Machine
