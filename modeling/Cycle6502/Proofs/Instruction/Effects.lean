import Cycle6502.Proofs.Instruction.Textbook
import Cycle6502.Proofs.Word

/-! The effects of the instructions that use a memory operand: what they make of registers, flags
and operand is what the manual says. -/

set_option autoImplicit false

namespace Cycle6502

theorem Flags.ofValue_eq (p : Flags) (value : UInt8) : p.ofValue value = Textbook.judge p value := by
  have zero : (value == 0) = decide (value = 0) := rfl
  have negative := and_sign value
  simp only [ofValue, Textbook.judge, zero, negative]

theorem Textbook.overflows_iff (n : Int) : overflows n = true ↔ n < -128 ∨ 127 < n :=
  decide_eq_true_iff

namespace Alu

theorem signBit_eq (b : UInt8) : signBit b = decide (128 ≤ b.toNat) := and_sign b

theorem ofNat_mod (n : Nat) : UInt8.ofNat (n % 256) = .ofNat n := by
  apply UInt8.toNat_inj.1
  simp only [UInt8.toNat_ofNat']
  omega

theorem add_overflow (a b : UInt8) (carry : Bool) :
    (add a b carry false).overflow =
      Textbook.overflows (Textbook.signed a + Textbook.signed b + carry.toNat) := by
  have aBound := a.toNat_lt
  have bBound := b.toNat_lt
  have carryBound := carry.toNat_le
  rw [Bool.eq_iff_iff]
  -- With signs read as thresholds, arithmetic decides each combination of them.
  simp only [add, addBinary, signBit_eq, UInt8.toNat_ofNat', Textbook.overflows_iff,
    Textbook.signed, Bool.and_eq_true, beq_iff_eq, bne_iff_ne, ne_eq, decide_eq_decide,
    Bool.false_eq_true, if_false]
  split <;> split <;> omega

theorem subtract_overflow (a b : UInt8) (carry : Bool) :
    (subtract a b carry false).overflow =
      Textbook.overflows (Textbook.signed a - Textbook.signed b - (1 - carry.toNat)) := by
  have aBound := a.toNat_lt
  have bBound := b.toNat_lt
  have carryBound := carry.toNat_le
  rw [Bool.eq_iff_iff]
  simp only [subtract, subtractBinary, signBit_eq, UInt8.toNat_ofNat',
    Textbook.overflows_iff, Textbook.signed, Bool.and_eq_true, bne_iff_ne, ne_eq, decide_eq_decide,
    Bool.false_eq_true, if_false]
  split <;> split <;> omega

/-- The sum that stands for a difference is the difference and 256. -/
theorem subtractBinary_eq (a b : UInt8) (carry : Bool) :
    let difference : Int := a.toNat - b.toNat - (1 - carry.toNat)
    subtractBinary a b carry = (.ofNat (difference % 256).toNat, decide (0 ≤ difference)) := by
  have bBound := b.toNat_lt
  have carryBound := carry.toNat_le
  intro difference
  -- The complement takes the place of the operand, which makes the sum 256 too large.
  have sum : (a.toNat + (255 - b.toNat) + carry.toNat : Nat) = difference + 256 := by
    simp only [difference]
    omega
  simp only [subtractBinary, Prod.mk.injEq, decide_eq_decide]
  constructor
  · apply UInt8.toNat_inj.1
    simp only [UInt8.toNat_ofNat']
    omega
  · omega

theorem rotate_left (value : UInt8) (carry logical : Bool) :
    rotate value carry true logical =
      (UInt8.ofNat ((2 * value.toNat + (carry && !logical).toNat) % 256),
        decide (128 ≤ value.toNat)) := by
  revert value
  cases carry <;> cases logical <;> exact forall_byte (by decide +kernel)

theorem rotate_right (value : UInt8) (carry logical : Bool) :
    rotate value carry false logical =
      (UInt8.ofNat (value.toNat / 2 + 128 * (carry && !logical).toNat),
        decide (value.toNat % 2 = 1)) := by
  revert value
  cases carry <;> cases logical <;> exact forall_byte (by decide +kernel)

end Alu

section
variable {β : Type} {i : Instruction}

theorem Cpu.add_eq (c : Cpu β) (value : UInt8) (binary : c.flags.decimal = false)
    (adc : i.mnemonic = .adc) :
    c.add value =
      { c with
        registers := (Textbook.afterRead i c.registers c.flags value).1
        flags := (Textbook.afterRead i c.registers c.flags value).2 } := by
  have overflow := Alu.add_overflow c.registers.a value c.flags.carry
  simp only [Textbook.afterRead, adc, add, accumulate, binary, overflow, Flags.ofValue_eq,
    Alu.ofNat_mod]
  rfl

theorem Cpu.subtract_eq (c : Cpu β) (value : UInt8) (binary : c.flags.decimal = false)
    (sbc : i.mnemonic = .sbc) :
    c.subtract value =
      { c with
        registers := (Textbook.afterRead i c.registers c.flags value).1
        flags := (Textbook.afterRead i c.registers c.flags value).2 } := by
  have overflow := Alu.subtract_overflow c.registers.a value c.flags.carry
  have difference := Alu.subtractBinary_eq c.registers.a value c.flags.carry
  simp only [Textbook.afterRead, sbc, subtract, accumulate, binary, overflow, Flags.ofValue_eq]
  simp only [Alu.subtract, difference, Bool.false_eq_true, if_false]

theorem Flags.compare_eq (p : Flags) (register value : UInt8) :
    { p.ofValue (register - value) with carry := decide (value ≤ register) } =
      Textbook.compare p register value := by
  have registerBound := register.toNat_lt
  have valueBound := value.toNat_lt
  have difference : ((register - value).toNat : Int) = (register.toNat - value.toNat) % 256 := by
    rw [UInt8.toNat_sub]
    omega
  -- Bytes are equal when their difference wraps to zero.
  have zero : (register - value == 0) = decide (register = value) := by
    rw [Bool.eq_iff_iff, beq_iff_eq, decide_eq_true_iff, ← UInt8.toNat_inj, ← UInt8.toNat_inj,
      UInt8.toNat_zero]
    omega
  have carry : decide (value ≤ register) = decide (value.toNat ≤ register.toNat) := by
    simp only [UInt8.le_iff_toNat_le]
  have negative : (register - value &&& 0x80 != 0) =
      decide (128 ≤ ((register.toNat : Int) - value.toNat) % 256) := by
    rw [and_sign, decide_eq_decide]
    omega
  simp only [ofValue, Textbook.compare, zero, carry, negative]

end

theorem Alu.add_one (value : UInt8) : value + 1 = .ofNat ((value.toNat + 1) % 256) := by
  revert value
  exact forall_byte (by decide +kernel)

theorem Alu.sub_one (value : UInt8) : value - 1 = .ofNat ((value.toNat + 255) % 256) := by
  revert value
  exact forall_byte (by decide +kernel)

theorem Alu.and_overflow (value : UInt8) :
    (value &&& 0x40 != 0) = decide (value.toNat / 64 % 2 = 1) := by
  revert value
  exact forall_byte (by decide +kernel)

section
variable {β : Type} [Bus β] {i : Instruction}

theorem Effect.perform_reader (reader : i.mnemonic ∈ Textbook.readers) :
    ∃ e, Behaviour.of? i = some (.reading [e]) ∧ ∀ (c : Cpu β) (l : Latches),
      ∃ registers flags, e.perform c l = ({ c with registers, flags }, l) ∧
        ((i.mnemonic ∈ [.adc, .sbc] → c.flags.decimal = false) →
          (registers, flags) = Textbook.afterRead i c.registers c.flags l.operand) ∧
        (i.mnemonic ∈ [.adc, .sbc] →
          Textbook.KeepsOthers c.registers registers c.flags flags) := by
  obtain ⟨mnemonic, mode⟩ := i
  -- The bit test of an immediate operand has an effect of its own.
  by_cases immediate : (⟨mnemonic, mode⟩ : Instruction) = ⟨.bit, .immediate⟩
  · cases immediate
    exact ⟨_, rfl, fun c l => ⟨_, _, rfl, fun _ => rfl, fun sum => absurd sum (by decide)⟩⟩
  have modelled : Behaviour.of? ⟨mnemonic, mode⟩ = _ := if_neg immediate
  simp only [Textbook.readers, List.mem_cons, List.not_mem_nil, or_false] at reader
  rcases reader with rfl | rfl | rfl | rfl | rfl | rfl | rfl | rfl | rfl | rfl | rfl | rfl <;>
    refine ⟨_, modelled, fun c l => ⟨_, _, rfl, fun binary => ?_, fun sum => ?_⟩⟩
  -- Loads and logic judge their result.
  iterate 6
    · exact Prod.ext rfl (Flags.ofValue_eq _ _)
    · simp at sum
  -- Comparisons leave the registers alone.
  iterate 3
    · exact Prod.ext rfl (Flags.compare_eq _ _ _)
    · simp at sum
  -- Sums and differences are those of the manual outside decimal mode; they never touch more
  -- than the accumulator and four flags.
  · have sum := c.add_eq (i := ⟨.adc, mode⟩) l.operand (binary (by simp)) rfl
    exact Prod.ext (congrArg (·.registers) sum) (congrArg (·.flags) sum)
  · exact ⟨rfl, rfl⟩
  · have difference := c.subtract_eq (i := ⟨.sbc, mode⟩) l.operand (binary (by simp)) rfl
    exact Prod.ext (congrArg (·.registers) difference) (congrArg (·.flags) difference)
  · exact ⟨rfl, rfl⟩
  -- The bit test of memory, which takes two flags from the operand.
  · have memory : mode ≠ .immediate := fun same => immediate (by rw [same])
    simp only [Textbook.afterRead, and_sign, Alu.and_overflow, if_neg memory]
    rfl
  · simp at sum

theorem Effect.perform_modifier (modifier : i.mnemonic ∈ Textbook.modifiers) :
    ∃ e, Behaviour.of? i = some (.modifying [e]) ∧ ∀ (c : Cpu β) (l : Latches),
      let result := Textbook.modified i.mnemonic c.registers.a c.flags l.operand
      e.perform c l = ({ c with flags := result.2 }, { l with operand := result.1 }) := by
  obtain ⟨mnemonic, mode⟩ := i
  simp only [Textbook.modifiers, List.mem_cons, List.not_mem_nil, or_false] at modifier
  rcases modifier with rfl | rfl | rfl | rfl | rfl | rfl | rfl | rfl <;>
    refine ⟨_, rfl, fun c l => ?_⟩ <;>
    simp [perform, Textbook.modified, Alu.rotate_left, Alu.rotate_right, Alu.add_one, Alu.sub_one,
      Flags.ofValue_eq]
  all_goals rfl

theorem Effect.perform_store (store : i.mnemonic ∈ Textbook.stores) :
    ∃ e, Behaviour.of? i = some (.writing [e]) ∧ ∀ (c : Cpu β) (l : Latches),
      e.perform c l = (c, { l with operand := Textbook.stored i.mnemonic c.registers }) := by
  obtain ⟨mnemonic, mode⟩ := i
  simp only [Textbook.stores, List.mem_cons, List.not_mem_nil, or_false] at store
  rcases store with rfl | rfl | rfl | rfl <;> exact ⟨_, rfl, fun _ _ => rfl⟩

end

end Cycle6502
