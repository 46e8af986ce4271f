import Cycle6502.Isa.Decode
import Cycle6502.Proofs.Instruction.Textbook
import Cycle6502.Proofs.Word

/-! The addressing modes that the opcode tables give to the instructions with a memory operand. -/

set_option autoImplicit false

namespace Cycle6502

variable {v : Variant} {opcode : UInt8} {i : Instruction}

/-- What holds of every entry of both tables holds of what an opcode decodes to. -/
theorem decode_forall {P : Instruction → Bool}
    (nmos : ∀ n < 256, (decode .nmos (.ofNat n)).all P)
    (cmos : ∀ n < 256, (decode .cmos (.ofNat n)).all P) (decoded : decode v opcode = some i) :
    P i := by
  have every : (decode v opcode).all P := by
    cases v
    · exact forall_byte (P := fun opcode => (decode .nmos opcode).all P) nmos opcode
    · exact forall_byte (P := fun opcode => (decode .cmos opcode).all P) cmos opcode
  rwa [decoded] at every

def Mode.inMemory : Mode → Bool
  | .zeroPage | .zeroPageX | .zeroPageY | .absolute | .absoluteX | .absoluteY | .indexedIndirect
  | .indirectIndexed => true
  | _ => false

def Mode.modifiable : List Mode := [.zeroPage, .zeroPageX, .absolute, .absoluteX]

theorem Mode.ne_relative {mode : Mode} (memory : mode.inMemory) : mode ≠ .relative := by
  rintro rfl
  cases memory

theorem Mode.inMemory_of_modifiable {mode : Mode} (modifiable : mode ∈ Mode.modifiable) :
    mode.inMemory := by
  revert modifiable
  cases mode <;> decide

theorem Machine.effectiveAddress_isSome (m : Machine) {mode : Mode} (memory : mode.inMemory) :
    ∃ addr, m.effectiveAddress mode = some addr := by
  cases mode <;> first | exact ⟨_, rfl⟩ | cases memory

def Instruction.Regular (i : Instruction) : Prop :=
  (i.mnemonic ∈ Textbook.readers → i.mode = .immediate ∨ i.mode.inMemory) ∧
    (i.mnemonic ∈ Textbook.modifiers → i.mode = .accumulator ∨ i.mode ∈ Mode.modifiable) ∧
    (i.mnemonic ∈ Textbook.stores → i.mode.inMemory)

instance (i : Instruction) : Decidable i.Regular := inferInstanceAs (Decidable (_ ∧ _))

theorem regular_of_decode (decoded : decode v opcode = some i) : i.Regular :=
  of_decide_eq_true (decode_forall (P := fun i => decide i.Regular) (by decide +kernel)
    (by decide +kernel) decoded)

end Cycle6502
