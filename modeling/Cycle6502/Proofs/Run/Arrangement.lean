import Cycle6502.Proofs.Run.Lockstep

/-! The arrangement of a microcode store does not show: a bank holds what the compiler makes of its
opcodes, so processors that differ in the arrangement only run alike on any bus. -/

set_option autoImplicit false

namespace Cycle6502

theorem Bank.ok_lookup {v : Variant} {first last : UInt8} (b : Bank v first last) (opcode : UInt8) :
    .ok (b.lookup opcode) =
      if first ≤ opcode ∧ opcode ≤ last then Microprogram.compile v opcode else .ok none := by
  rw [Bank.lookup_eq, Microprogram.compile_eq_ok]
  split <;> rfl

namespace Cpu

variable {β : Type}

def arranged (c : Cpu β) (a : Arrangement) : Cpu β := { c with microcode := .build c.variant a }

theorem arranged_similar (c : Cpu β) : Similar Eq True (c.arranged .table) (c.arranged .split) :=
  ⟨rfl, rfl, rfl, rfl, rfl, rfl, fun _ => rfl⟩

/-- Every bank of every range holds what the compiler makes, and a table and its two halves give the
same run, failures included: registers, bus and pending interrupt are equal behind any steps and
signals. -/
theorem arranged_alike [Bus β] [Signalled β] (c : Cpu β) :
    (∀ first last opcode, .ok ((Bank.build c.variant first last).lookup opcode) =
      if first ≤ opcode ∧ opcode ≤ last then Microprogram.compile c.variant opcode
      else .ok none) ∧
    ∀ happenings,
      (c.arranged .table).results happenings = (c.arranged .split).results happenings ∧
        Similar Eq True ((c.arranged .table).after happenings)
          ((c.arranged .split).after happenings) :=
  ⟨fun first last => Bank.ok_lookup (.build c.variant first last),
    fun _ => c.arranged_similar.after .eq fun e _ => e.fastNext_true⟩

end Cpu

end Cycle6502
