import Cycle6502.Proofs.Bus.Recorded
import Cycle6502.Proofs.Instruction.Branching
import Cycle6502.Proofs.Instruction.Modes
import Cycle6502.Proofs.Interrupt.Sampling
import Cycle6502.Proofs.Text.Hex

/-! Disassembly against execution. An instruction reads the bytes that its line shows before it does
anything else, and then goes on behind them, or at the address that the line has for an operand. -/

set_option autoImplicit false

namespace Cycle6502

namespace Textbook

def branches : List Mnemonic := [.bpl, .bmi, .bvc, .bvs, .bcc, .bcs, .bne, .beq, .bra]

def steering : List Mnemonic := [.jmp, .jsr, .rts, .rti, .brk] ++ branches

theorem mem_branches_of_taken {mnemonic : Mnemonic} {p : Flags} (taken : taken mnemonic p) :
    mnemonic ∈ branches := by
  cases mnemonic <;> first | decide | cases taken

def leads (i : Instruction) (p : Flags) : Bool :=
  i = ⟨.jmp, .absolute⟩ || i = ⟨.jsr, .absolute⟩ || taken i.mnemonic p

def strays (i : Instruction) : Bool :=
  i = ⟨.jmp, .indirect⟩ || i.mnemonic ∈ [.rts, .rti, .brk]

end Textbook

def Instruction.Steered (i : Instruction) : Prop :=
  (i.mnemonic ∈ Textbook.branches ↔ i.mode = .relative) ∧
    (i.mnemonic = .jmp → i.mode = .absolute ∨ i.mode = .indirect) ∧
    (i.mnemonic = .jsr → i.mode = .absolute)

instance (i : Instruction) : Decidable i.Steered := inferInstanceAs (Decidable (_ ∧ _))

theorem steered_of_decode {v : Variant} {opcode : UInt8} {i : Instruction}
    (decoded : decode v opcode = some i) : i.Steered :=
  of_decide_eq_true (decode_forall (P := fun i => decide i.Steered) (by decide +kernel)
    (by decide +kernel) decoded)

theorem Instruction.Steered.straight {i : Instruction} {p : Flags} (steered : i.Steered)
    (direct : i.mode ≠ .relative) (leads : Textbook.leads i p = false)
    (strays : Textbook.strays i = false) : i.mnemonic ∉ Textbook.steering := by
  obtain ⟨mnemonic, mode⟩ := i
  obtain ⟨branches, jumps, calls⟩ := steered
  intro steers
  rcases List.mem_append.1 steers with named | branch
  · simp only [List.mem_cons, List.not_mem_nil, or_false] at named
    rcases named with rfl | rfl | rfl | rfl | rfl
    · rcases jumps rfl with rfl | rfl
      · cases leads
      · cases strays
    · cases calls rfl
      cases leads
    all_goals simp [Textbook.strays] at strays
  · exact direct (branches.1 branch)

def Effect.keepsPc : Effect → Bool
  | .branch _ _ | .branchAlways | .returnFromSubroutine | .returnFromInterrupt | .jumpToSubroutine
  | .jump | .enterBreak => false
  | _ => true

theorem Effect.pc_perform {e : Effect} (keeps : e.keepsPc) (m : Machine) (l : Latches) :
    (e.perform m l).1.pc = m.pc := by
  cases e with
  | branch | branchAlways | returnFromSubroutine | returnFromInterrupt | jumpToSubroutine | jump
  | enterBreak => cases keeps
  | transfer source target => cases target <;> rfl
  | _ => rfl

theorem Behaviour.keepsPc_of_steering {i : Instruction} {b : Behaviour}
    (modelled : of? i = some b) (straight : i.mnemonic ∉ Textbook.steering) :
    ∀ e ∈ b.opening ++ b.effects, e.keepsPc := by
  have every : ∀ m ∈ Mnemonic.all, m ∉ Textbook.steering →
      (ofMnemonic? m).all fun b => (b.opening ++ b.effects).all Effect.keepsPc := by
    decide
  unfold of? at modelled
  split at modelled
  · cases modelled
    decide
  · have keep := every i.mnemonic i.mnemonic.mem_all straight
    rw [modelled] at keep
    exact List.all_eq_true.1 keep

namespace MicroOp

def keepsPc : MicroOp → Bool
  | .fetchZeroPage _ | .fetchAbsolute | .fetchPointer _ | .fetchImmediate => false
  | .effect e => e.keepsPc
  | _ => true

theorem pc_perform {op : MicroOp} (keeps : op.keepsPc) (m : Machine) (l : Latches) :
    (op.perform m l).1.pc = m.pc := by
  cases op with
  | fetchZeroPage | fetchAbsolute | fetchPointer | fetchImmediate => cases keeps
  | effect e => exact e.pc_perform keeps m l
  | pageCrossProbe =>
    simp only [perform]
    split <;> rfl
  | _ => rfl

theorem pc_performAll {ops : List MicroOp} (keep : ∀ op ∈ ops, op.keepsPc) (m : Machine)
    (l : Latches) : (performAll ops m l).1.pc = m.pc := by
  induction ops generalizing m l with
  | nil => rfl
  | cons op rest ih =>
    have later := ih (fun op' member => keep op' (List.mem_cons_of_mem _ member))
      (op.perform m l).1 (op.perform m l).2
    exact later.trans (pc_perform (keep op List.mem_cons_self) m l)

end MicroOp

/-- The operations that fetch the bytes behind an opcode. A branch fetches its own. -/
def Mode.fetches : Mode → List MicroOp
  | .implied | .accumulator | .relative => []
  | .immediate => [.fetchImmediate]
  | .zeroPage => [.fetchZeroPage none]
  | .zeroPageX => [.fetchZeroPage (some .x)]
  | .zeroPageY => [.fetchZeroPage (some .y)]
  | .absolute | .absoluteX | .absoluteY | .indirect => [.fetchAbsolute]
  | .indexedIndirect => [.fetchPointer (some .x)]
  | .indirectIndexed => [.fetchPointer none]

/-- An instruction fetches its bytes first, and nothing but an effect moves the program counter
then. -/
theorem Behaviour.operations_fetch (b : Behaviour) (v : Variant) {mode : Mode}
    (direct : mode ≠ .relative) :
    ∃ rest, b.operations v mode = mode.fetches ++ rest ∧
      ((∀ e ∈ b.opening ++ b.effects, e.keepsPc) → ∀ op ∈ rest, op.keepsPc) := by
  obtain ⟨opening, effects, reads, writes, extra⟩ := b
  cases mode
  case relative => exact absurd rfl direct
  all_goals
    simp only [operations, operations.zeroPage, operations.absoluteIndexed, operations.pointed,
      Mode.fetches, List.append_assoc, List.cons_append, List.nil_append]
    refine ⟨_, rfl, fun keep => ?_⟩
    cases reads <;> cases writes <;>
      simp_all [effectOps, indexedOps, readsAndWrites, MicroOp.keepsPc, or_imp, forall_and]

namespace Machine

variable (m : Machine)

theorem reads_fetches {mode : Mode} (direct : mode ≠ .relative) :
    m.Reads (MicroOp.performAll mode.fetches m.fetchByte.2 {}).1 (1 + mode.operandBytes)
      (m.codeReads (1 + mode.operandBytes)) := by
  cases mode
  case relative => exact absurd rfl direct
  case implied | accumulator => exact m.reads_opcode
  case absolute | absoluteX | absoluteY | indirect => exact m.fetchAbsolute.1
  all_goals exact m.reads_operandByte.2

theorem branch_fetched (taken : Bool) :
    (m.fetchByte.2.branch taken).bus.events.accesses =
        m.bus.events.accesses.map (· ++ m.codeReads 2) ∧
      (m.fetchByte.2.branch taken).pc =
        if taken then branchTarget (m.pc + 2) (m.peek (m.pc + 1)) else m.pc + 2 := by
  obtain ⟨offset, reads⟩ := m.reads_operandByte
  have pc : m.fetchByte.2.fetchByte.2.pc = m.pc + 2 := reads.pc
  rw [← offset, ← pc]
  cases taken with
  | false => exact ⟨((reads.wait _).wait _).accesses, rfl⟩
  | true => exact ⟨((reads.wait _).wait _).accesses, rfl⟩

end Machine

theorem Microcode.timed_of_lookup {store : Microcode} {opcode : UInt8} {p : Microprogram}
    (found : store.lookup opcode = some p) : opcode ∉ untimedOpcodes := by
  intro untimed
  rw [lookup_eq, Microprogram.of?, Microprogram.compile, if_pos untimed] at found
  cases found

def Disassembly.columns (addr : UInt16) (bytes : List UInt8) (name operand : String) : String :=
  "$" ++ Text.hexWord addr ++ "  " ++ Text.left 8 (" ".intercalate (bytes.map Text.hexByte))
    ++ "  -  " ++ Text.left 4 name ++ " " ++ Text.left 8 operand

namespace Machine

def printedOperand (m : Machine) (mode : Mode) : String :=
  Disassembly.operand m.pc mode (m.peek (m.pc + 1)) (m.peek (m.pc + 2))

section
variable {m : Machine} {p : Microprogram} {i : Instruction} {b : Behaviour}

theorem run_similar (found : m.microcode.lookup (m.peek m.pc) = some p)
    (decoded : decode m.variant (m.peek m.pc) = some i) (modelled : Behaviour.of? i = some b)
    (direct : i.mode ≠ .relative) :
    Cpu.Similar Board.SameButTime False (p.run m.fetchByte.2)
      (MicroOp.performAll (b.operations m.variant i.mode) m.fetchByte.2 {}).1 := by
  obtain ⟨program, found', similar⟩ := program_similar (m := m.fetchByte.2) decoded modelled
    (Microcode.timed_of_lookup found) direct
  cases found.symm.trans found'
  exact similar

theorem accesses_run (found : m.microcode.lookup (m.peek m.pc) = some p)
    (decoded : decode m.variant (m.peek m.pc) = some i) (modelled : Behaviour.of? i = some b)
    (regular : p.Regular m.variant i b) :
    ∃ data, (p.run m.fetchByte.2).bus.events.accesses = m.bus.events.accesses.map
      (· ++ (m.codeReads (1 + i.mode.operandBytes) ++ data)) := by
  by_cases relative : i.mode = .relative
  · rw [m.run_branch modelled regular relative, relative]
    exact ⟨[], (m.branch_fetched _).1.trans (by rw [List.append_nil]; rfl)⟩
  · obtain ⟨rest, split, -⟩ := b.operations_fetch m.variant relative
    have similar := run_similar found decoded modelled relative
    rw [split, MicroOp.performAll_append] at similar
    obtain ⟨data, gained⟩ := MicroOp.performAll_gains rest
      (MicroOp.performAll i.mode.fetches m.fetchByte.2 {}).1
      (MicroOp.performAll i.mode.fetches m.fetchByte.2 {}).2
    refine ⟨data, similar.bus.accesses.trans ?_⟩
    rw [gained, (m.reads_fetches relative).accesses]
    simp [Function.comp_def]

theorem pc_run_straight (found : m.microcode.lookup (m.peek m.pc) = some p)
    (decoded : decode m.variant (m.peek m.pc) = some i) (modelled : Behaviour.of? i = some b)
    (straight : i.mnemonic ∉ Textbook.steering) :
    (p.run m.fetchByte.2).pc = m.pc + .ofNat (1 + i.mode.operandBytes) := by
  have direct : i.mode ≠ .relative := fun relative =>
    straight (List.mem_append_right _ ((steered_of_decode decoded).1.2 relative))
  obtain ⟨rest, split, keep⟩ := b.operations_fetch m.variant direct
  have similar := run_similar found decoded modelled direct
  rw [split, MicroOp.performAll_append] at similar
  rw [similar.pc, MicroOp.pc_performAll (keep (Behaviour.keepsPc_of_steering modelled straight)),
    (m.reads_fetches direct).pc]

theorem pc_run_jump (found : m.microcode.lookup (m.peek m.pc) = some p)
    (decoded : decode m.variant (m.peek m.pc) = some i) (modelled : Behaviour.of? i = some b)
    (jumps : i = ⟨.jmp, .absolute⟩ ∨ i = ⟨.jsr, .absolute⟩) :
    (p.run m.fetchByte.2).pc = wordOf (m.peek (m.pc + 1)) (m.peek (m.pc + 2)) := by
  have address : (MicroOp.performAll [.fetchAbsolute] m.fetchByte.2 {}).2.addr =
      wordOf (m.peek (m.pc + 1)) (m.peek (m.pc + 2)) := by
    apply UInt16.toNat_inj.1
    rw [m.fetchAbsolute.2, toNat_wordOf]
    rfl
  rw [← address]
  rcases jumps with rfl | rfl
  all_goals
    have similar := run_similar found decoded modelled (by decide)
    cases modelled
    exact similar.pc

theorem operand_run (found : m.microcode.lookup (m.peek m.pc) = some p)
    (decoded : decode m.variant (m.peek m.pc) = some i) (modelled : Behaviour.of? i = some b)
    (regular : p.Regular m.variant i b) (leads : Textbook.leads i m.flags) :
    m.printedOperand i.mode = "$" ++ Text.hexWord (p.run m.fetchByte.2).pc := by
  simp only [Textbook.leads, Bool.or_eq_true, decide_eq_true_eq] at leads
  rcases leads with jumps | taken
  · rw [pc_run_jump found decoded modelled jumps]
    rcases jumps with rfl | rfl <;> rfl
  · have relative := (steered_of_decode decoded).1.1 (Textbook.mem_branches_of_taken taken)
    rw [m.run_branch modelled regular relative, relative, taken, (m.branch_fetched true).2]
    rfl

theorem pc_run (found : m.microcode.lookup (m.peek m.pc) = some p)
    (decoded : decode m.variant (m.peek m.pc) = some i) (modelled : Behaviour.of? i = some b)
    (regular : p.Regular m.variant i b) (leads : Textbook.leads i m.flags = false)
    (strays : Textbook.strays i = false) :
    (p.run m.fetchByte.2).pc = m.pc + Disassembly.length m.variant m.peek m.pc := by
  have length : Disassembly.length m.variant m.peek m.pc = .ofNat (1 + i.mode.operandBytes) := by
    simp only [Disassembly.length, decoded, UInt16.ofNat_add]
    rfl
  rw [length]
  by_cases relative : i.mode = .relative
  · simp only [Textbook.leads, Bool.or_eq_false_iff] at leads
    rw [m.run_branch modelled regular relative, leads.2, (m.branch_fetched false).2, relative]
    rfl
  · exact pc_run_straight found decoded modelled
      ((steered_of_decode decoded).straight relative leads strays)

end

/-- Where execution goes on behind the next instruction. An interrupt that is taken has stacked that
address. -/
def resumption (m : Machine) : UInt16 :=
  if m.takesInterrupt then
    let sp := m.step.1.registers.sp
    wordOf (m.step.1.bus.ram.read (stackAddress (sp + 2)))
      (m.step.1.bus.ram.read (stackAddress (sp + 3)))
  else m.step.1.pc

theorem resumption_eq {m : Machine} {p : Microprogram} (running : m.halted = false)
    (found : m.microcode.lookup (m.peek m.pc) = some p) :
    m.resumption = (p.run m.fetchByte.2).pc := by
  obtain ⟨-, passes, serves⟩ := step_ran running found
  rw [resumption, Cpu.takesInterrupt_eq found]
  cases pending : (p.run m.fetchByte.2).interruptPending with
  | false =>
    obtain ⟨journal, stepped⟩ := passes pending
    rw [stepped]
    rfl
  | true => exact (serves pending).entered.stacked_returnTo

theorem accesses_step {m : Machine} {p : Microprogram} (running : m.halted = false)
    (found : m.microcode.lookup (m.peek m.pc) = some p) :
    ∃ entry, m.step.1.bus.events.accesses =
      (p.run m.fetchByte.2).bus.events.accesses.map (· ++ entry) := by
  obtain ⟨-, passes, serves⟩ := step_ran running found
  cases pending : (p.run m.fetchByte.2).interruptPending with
  | false =>
    obtain ⟨journal, stepped⟩ := passes pending
    exact ⟨[], by simp [stepped]⟩
  | true => exact ⟨_, (serves pending).accesses⟩

def codeBytes (m : Machine) (count : Nat) : List UInt8 :=
  (List.range count).map fun k => m.peek (m.pc + .ofNat k)

theorem disassembly_eq {m : Machine} {i : Instruction}
    (decoded : decode m.variant (m.peek m.pc) = some i) :
    m.disassembly m.pc = Disassembly.columns m.pc (m.codeBytes (1 + i.mode.operandBytes))
      i.mnemonic.name (m.printedOperand i.mode) := by
  have bytes : m.codeBytes (1 + i.mode.operandBytes) =
      [m.peek m.pc, m.peek (m.pc + 1), m.peek (m.pc + 2)].take (1 + i.mode.operandBytes) := by
    cases i.mode <;> simp [codeBytes, Mode.operandBytes, List.range_succ]
  rw [bytes]
  simp only [Cpu.disassembly, Disassembly.line, decoded]
  rfl

theorem codeReads_eq (m : Machine) (count : Nat) :
    m.codeReads count =
      (m.codeBytes count).mapIdx fun k byte => .read (m.pc + .ofNat k) byte := by
  apply List.ext_getElem
  · simp [codeReads, codeBytes]
  · intro k _ _
    simp [codeReads, codeBytes]

structure Disassembled (m : Machine) (i : Instruction) : Prop where
  code : ∃ (bytes : List UInt8) (data : List BusEvent), bytes.length = 1 + i.mode.operandBytes ∧
    m.disassembly m.pc =
      Disassembly.columns m.pc bytes i.mnemonic.name (m.printedOperand i.mode) ∧
    m.step.1.bus.events.accesses = m.bus.events.accesses.map
      (· ++ (bytes.mapIdx (fun k byte => .read (m.pc + .ofNat k) byte) ++ data))
  target : Textbook.leads i m.flags →
    m.printedOperand i.mode = "$" ++ Text.hexWord m.resumption ∧
      Text.readAddress? (m.printedOperand i.mode) = some m.resumption
  behind : Textbook.leads i m.flags = false → Textbook.strays i = false →
    m.resumption = m.pc + Disassembly.length m.variant m.peek m.pc

/-- A step begins with reads of the bytes that are disassembled, and execution goes on behind them,
but that a jump, a call and a taken branch lead to the address that is printed for them. -/
theorem step_disassembled {m : Machine} {p : Microprogram} (running : m.halted = false)
    (found : m.microcode.lookup (m.peek m.pc) = some p) :
    ∃ i, decode m.variant (m.peek m.pc) = some i ∧ m.step.2 = none ∧ Disassembled m i := by
  obtain ⟨i, b, decoded, modelled, regular⟩ := Microcode.regular_of_lookup found
  obtain ⟨data, gained⟩ := accesses_run found decoded modelled regular
  obtain ⟨entry, taken⟩ := accesses_step running found
  refine ⟨i, decoded, (step_ran running found).1, ?_, fun leads => ?_, fun leads strays => ?_⟩
  · refine ⟨m.codeBytes (1 + i.mode.operandBytes), data ++ entry, by simp [codeBytes],
      disassembly_eq decoded, ?_⟩
    rw [← codeReads_eq, taken, gained]
    simp [Function.comp_def]
  · rw [resumption_eq running found]
    have printed := operand_run found decoded modelled regular leads
    exact ⟨printed, printed ▸ Text.readAddress?_hexWord _⟩
  · rw [resumption_eq running found]
    exact pc_run found decoded modelled regular leads strays

/-- A branch back over the beginning of memory. -/
theorem step_disassembled_back :
    let m : Machine := { loaded [0xD0, 0x80] with flags := {} }
    m.halted = false ∧ (∃ p, m.microcode.lookup (m.peek m.pc) = some p) ∧
      Disassembled m ⟨.bne, .relative⟩ ∧ Textbook.leads ⟨.bne, .relative⟩ m.flags ∧
      resumption m = 0xFF82 := by
  intro m
  have decoded : decode m.variant (m.peek m.pc) = some ⟨.bne, .relative⟩ := by decide +kernel
  have compiled : (m.microcode.lookup (m.peek m.pc)).isSome := by decide +kernel
  obtain ⟨p, found⟩ := Option.isSome_iff_exists.1 compiled
  obtain ⟨i, decoded', -, disassembled⟩ := step_disassembled (m := m) rfl found
  cases decoded'.symm.trans decoded
  have printed : Text.readAddress? (printedOperand m .relative) = some 0xFF82 := by decide +kernel
  have leads : Textbook.leads ⟨.bne, .relative⟩ m.flags := by decide
  exact ⟨rfl, ⟨p, found⟩, disassembled, leads,
    Option.some.inj ((disassembled.target leads).2.symm.trans printed)⟩

end Machine

end Cycle6502
