import Cycle6502.Proofs.Instruction.Modes
import Cycle6502.Proofs.Interrupt.Sampling
import Cycle6502.Proofs.Run.Replay

/-! Ownership of state. A step changes a flag, a register or memory only if its instruction owns it,
or an entry to a handler does. What an operation can change is read off its name; the opcode tables
give no instruction an operation that reaches beyond what the instruction owns, dummy accesses
included. -/

set_option autoImplicit false

namespace Cycle6502

inductive Part where
  | irqDisable
  | decimal
  | overflow
  | stackPointer
  | indexX
  | indexY
  | ram
  | feedback
  deriving DecidableEq, Repr

def Part.Same (m d : Machine) : Part → Prop
  | .irqDisable => d.flags.irqDisable = m.flags.irqDisable
  | .decimal => d.flags.decimal = m.flags.decimal
  | .overflow => d.flags.overflow = m.flags.overflow
  | .stackPointer => d.registers.sp = m.registers.sp
  | .indexX => d.registers.x = m.registers.x
  | .indexY => d.registers.y = m.registers.y
  | .ram => d.bus.ram = m.bus.ram
  | .feedback => d.bus.feedback = m.bus.feedback

theorem Part.Same.refl (m : Machine) (part : Part) : part.Same m m := by
  cases part <;> rfl

theorem Part.Same.trans {m d e : Machine} {part : Part} (first : part.Same m d)
    (next : part.Same d e) : part.Same m e := by
  cases part <;> exact Eq.trans next first

namespace Instruction

def pushes : List Mnemonic := [.pha, .php, .phx, .phy]

def pulls : List Mnemonic := [.pla, .plp, .plx, .ply]

def stores (i : Instruction) : Bool :=
  i.mnemonic ∈ Textbook.stores ++ [.sax] ||
    (i.mnemonic ∈ Textbook.modifiers ++ [.slo] && i.mode ≠ .accumulator)

/-- Whether an instruction may change a part of the machine. -/
def owns (v : Variant) (i : Instruction) : Part → Bool
  | .irqDisable => i.mnemonic ∈ [.cli, .sei, .plp, .rti, .brk]
  | .decimal => i.mnemonic ∈ [.cld, .sed, .plp, .rti] || (i.mnemonic = .brk && v = .cmos)
  | .overflow =>
    i.mnemonic ∈ [.clv, .adc, .sbc, .plp, .rti] || (i.mnemonic = .bit && i.mode ≠ .immediate)
  | .stackPointer => i.mnemonic ∈ pushes ++ pulls ++ [.jsr, .rts, .rti, .brk, .txs]
  | .indexX => i.mnemonic ∈ [.ldx, .tax, .tsx, .inx, .dex, .plx]
  | .indexY => i.mnemonic ∈ [.ldy, .tay, .iny, .dey, .ply]
  | .ram => i.stores || i.mnemonic ∈ pushes ++ [.jsr, .brk]
  | .feedback => i.stores

end Instruction

def Interrupt.changes (v : Variant) : List Part :=
  [.irqDisable, .stackPointer, .ram] ++ if v = .cmos then [.decimal] else []

def Flags.parts (mask : Flags) : List Part :=
  (if mask.irqDisable then [.irqDisable] else []) ++ (if mask.decimal then [.decimal] else [])
    ++ if mask.overflow then [.overflow] else []

def Register.parts : Register → List Part
  | .a => []
  | .x => [.indexX]
  | .y => [.indexY]
  | .s => [.stackPointer]

def Effect.changes (v : Variant) : Effect → List Part
  | .setFlag mask _ => mask.parts
  | .load r | .increment r | .decrement r | .transfer _ r => r.parts
  | .addWithCarry | .subtractWithCarry | .bitTest => [.overflow]
  | .push _ | .pushFlags | .jumpToSubroutine => [.stackPointer, .ram]
  | .pull r => .stackPointer :: r.parts
  | .pullFlags | .returnFromInterrupt => [.stackPointer, .irqDisable, .decimal, .overflow]
  | .returnFromSubroutine => [.stackPointer]
  | .enterBreak => Interrupt.changes v
  | .writeBackToBase => [.ram, .feedback]
  | _ => []

def MicroOp.changes (v : Variant) : MicroOp → List Part
  | .write _ => [.ram, .feedback]
  | .zeroPageWrite _ => [.ram]
  | .effect e => e.changes v
  | _ => []

/-- No program reaches beyond what its instruction owns. -/
theorem owns_of_changes {v : Variant} {opcode : UInt8} {i : Instruction} {b : Behaviour}
    (decoded : decode v opcode = some i) (modelled : Behaviour.of? i = some b) {op : MicroOp}
    (member : op ∈ b.operations v i.mode) {part : Part} (changed : part ∈ op.changes v) :
    i.owns v part := by
  have every := decode_forall (P := fun i => (Behaviour.of? i).all fun b =>
      [.nmos, .cmos].all fun v => (b.operations v i.mode).all fun op =>
        (op.changes v).all (i.owns v))
    (by decide +kernel) (by decide +kernel) decoded
  simp only [modelled, Option.all_some, List.all_eq_true] at every
  exact every v (by cases v <;> decide) op member part changed

namespace Machine

variable {m d : Machine} {part : Part}

theorem Entered.same {kind : Interrupt} {returnTo : UInt16} {status : UInt8}
    (entered : m.Entered d kind returnTo status) (unchanged : part ∉ Interrupt.changes m.variant) :
    part.Same m d := by
  cases part with
  | irqDisable | stackPointer | ram => exact absurd (by simp [Interrupt.changes]) unchanged
  | decimal =>
    have nmos : m.variant = .nmos := by
      cases variant : m.variant with
      | nmos => rfl
      | cmos => exact absurd (by simp [Interrupt.changes, variant]) unchanged
    simp [Part.Same, entered.flags, nmos]
  | overflow => simp only [Part.Same, entered.flags]
  | indexX | indexY => simp only [Part.Same, entered.registers]
  | feedback => exact entered.feedback

end Machine

section
variable {m : Machine} {part : Part} (l : Latches)

theorem Flags.put_same {mask : Flags} (on : Bool) (unchanged : part ∉ mask.parts) :
    part.Same m { m with flags := m.flags.put mask on } := by
  cases part <;> first | rfl | simp_all [Part.Same, put, parts]

theorem Effect.perform_same {e : Effect} (unchanged : part ∉ e.changes m.variant) :
    part.Same m (e.perform m l).1 := by
  cases e with
  | setFlag mask on => exact Flags.put_same on unchanged
  | enterBreak => exact (Machine.entered_enterHandler m .brk _ _).1.same unchanged
  | load r | increment r | decrement r | transfer _ r | pull r =>
    cases r <;> cases part <;> first | rfl | simp [changes, Register.parts] at unchanged
  | branch mask expected =>
    simp only [perform, Cpu.branch]
    split <;> cases part <;> rfl
  | _ => cases part <;> first | rfl | simp [changes] at unchanged

theorem MicroOp.perform_same {op : MicroOp} (unchanged : part ∉ op.changes m.variant) :
    part.Same m (op.perform m l).1 := by
  cases op with
  | effect e => exact e.perform_same l unchanged
  | pageCrossProbe =>
    simp only [perform]
    split <;> cases part <;> rfl
  | _ => cases part <;> first | rfl | simp [changes] at unchanged

end

theorem MicroOp.perform_microcode {β : Type} [Bus β] (op : MicroOp) (c : Cpu β) (l : Latches) :
    (op.perform c l).1.microcode = c.microcode := by
  cases op with
  | effect e =>
    cases e with
    | branch mask expected =>
      simp only [perform, Effect.perform, Cpu.branch]
      split <;> rfl
    | transfer _ r => cases r <;> rfl
    | _ => rfl
  | pageCrossProbe =>
    simp only [perform]
    split <;> rfl
  | _ => rfl

namespace Contents

/-- What only some events change, a replay changes by such an event. -/
theorem exists_of_replay {α : Type} {f : Contents → α} {touches : BusEvent → Prop}
    (touched : ∀ {s e s'}, accept? s e = some s' → f s' ≠ f s → touches e)
    {s s' : Contents} {events : List BusEvent} (replayed : s.replay? events = some s')
    (changed : f s' ≠ f s) : ∃ e ∈ events, touches e := by
  induction events generalizing s with
  | nil =>
    cases replayed
    exact absurd rfl changed
  | cons e rest ih =>
    obtain ⟨next, accepted, remaining⟩ := Option.bind_eq_some_iff.1 replayed
    by_cases same : f next = f s
    · obtain ⟨later, member, touches⟩ := ih remaining (same ▸ changed)
      exact ⟨later, List.mem_cons_of_mem _ member, touches⟩
    · exact ⟨e, List.mem_cons_self, touched accepted same⟩

variable {s s' : Contents} {e : BusEvent}

theorem write_of_ram {addr : UInt16} (accepted : s.accept? e = some s')
    (changed : s'.ram.read addr ≠ s.ram.read addr) :
    ∃ value, e = .write addr value ∨ e = .zeroPageWrite addr value := by
  have elsewhere {other : UInt16} {value : UInt8}
      (same : s'.ram = s.ram.write other value) : other = addr := by
    by_contra different
    rw [same, Memory.read_write _ _ _ _ other.toNat_lt, if_neg different] at changed
    exact changed rfl
  cases e <;> simp only [accept?, Option.ite_none_right_eq_some] at accepted
  case write other value =>
    split at accepted <;> cases accepted
    · exact absurd rfl changed
    · exact ⟨value, .inl (by rw [elsewhere rfl])⟩
  case zeroPageWrite other value =>
    cases accepted
    exact ⟨value, .inr (by rw [elsewhere rfl])⟩
  case wait =>
    cases accepted
    exact absurd rfl changed
  all_goals
    cases accepted.2
    exact absurd rfl changed

theorem write_of_feedback (accepted : s.accept? e = some s')
    (changed : s'.feedback ≠ s.feedback) : ∃ value, e = .write feedbackRegister value := by
  cases e <;> simp only [accept?, Option.ite_none_right_eq_some] at accepted
  case write addr value =>
    split at accepted
    case isTrue register => exact ⟨value, by rw [register]⟩
    case isFalse =>
      cases accepted
      exact absurd rfl changed
  case zeroPageWrite | wait =>
    cases accepted
    exact absurd rfl changed
  all_goals
    cases accepted.2
    exact absurd rfl changed

end Contents

namespace Machine

def stepEvents (m : Machine) : List BusEvent := (m.recording.step.1.bus.events.getD #[]).toList

theorem replay_stepEvents (m : Machine) :
    m.bus.contents.replay? m.stepEvents = some m.step.1.bus.contents := by
  have records := m.recording.bus.records_after (m.recording.calls [.step])
  rw [← m.recording.bus_after [.step]] at records
  have events : m.stepEvents = m.recording.bus.log (m.recording.calls [.step]) := by
    have recorded : m.recording.step.1.bus.events = _ := records.recorded
    rw [stepEvents, recorded]
    simp [recording, Board.record]
  -- A step does to the contents what it does when it is not recorded.
  have start : Cpu.Similar (Board.Continues m.bus.events) True m m.recording :=
    ⟨.record m.bus, rfl, rfl, rfl, rfl, rfl, fun _ => rfl⟩
  obtain ⟨-, stepped⟩ := start.step Board.Continues.lockstep m.fastNext_true
  have contents : m.step.1.bus.contents = m.recording.step.1.bus.contents := by
    simp only [Board.contents, stepped.bus.ram, stepped.bus.feedback, stepped.bus.clock]
  rw [contents, events]
  exact records.replays

theorem run_same {m : Machine} {p : Microprogram} {opcode : UInt8} {i : Instruction} {b : Behaviour}
    (decoded : decode m.variant opcode = some i) (modelled : Behaviour.of? i = some b)
    (regular : p.Regular m.variant i b) {part : Part} (foreign : ¬ i.owns m.variant part) :
    part.Same m (p.run m) ∧ (p.run m).variant = m.variant := by
  have kept : part.Same m (p.run m) ∧ (p.run m).microcode = m.microcode := by
    refine Step.performAll_keeps (P := fun d => part.Same m d ∧ d.microcode = m.microcode)
      (fun d _ same => ⟨same.1.trans ?_, same.2⟩) (fun d same => ⟨same.1.trans ?_, same.2⟩)
      (fun op member d l same => ⟨same.1.trans (op.perform_same l fun changed => foreign ?_),
        (op.perform_microcode d l).trans same.2⟩) _ ⟨.refl m part, rfl⟩
    -- Neither a wait nor a sample has a part that anybody owns.
    · cases part <;> rfl
    · cases part <;> rfl
    · rw [regular.deeds] at member
      rw [Cpu.variant, same.2] at changed
      exact owns_of_changes decoded modelled member changed
  exact ⟨kept.1, congrArg Microcode.variant kept.2⟩

/-- A step of an opcode with a program, whatever the state. What the step changes is owned by the
instruction, or an interrupt is taken behind it and changes it; and memory changes only where the
step records a write. -/
theorem step_owned {m : Machine} {p : Microprogram}
    (found : m.microcode.lookup (m.peek m.pc) = some p) :
    ∃ i, decode m.variant (m.peek m.pc) = some i ∧
      (∀ part : Part, ¬ part.Same m m.step.1 →
        i.owns m.variant part ∨ m.takesInterrupt ∧ part ∈ Interrupt.changes m.variant) ∧
      (∀ addr, m.step.1.bus.ram.read addr ≠ m.bus.ram.read addr →
        ∃ e ∈ m.stepEvents, ∃ value, e = .write addr value ∨ e = .zeroPageWrite addr value) ∧
      (m.step.1.bus.feedback ≠ m.bus.feedback →
        ∃ e ∈ m.stepEvents, ∃ value, e = .write feedbackRegister value) := by
  obtain ⟨i, b, decoded, modelled, regular⟩ := Microcode.regular_of_lookup found
  refine ⟨i, decoded, fun part changed => ?_,
    fun addr => Contents.exists_of_replay (f := (·.ram.read addr)) Contents.write_of_ram
      m.replay_stepEvents,
    Contents.exists_of_replay (f := (·.feedback)) Contents.write_of_feedback
      m.replay_stepEvents⟩
  by_contra neither
  obtain ⟨foreign, undisturbed⟩ := not_or.1 neither
  refine changed ?_
  cases running : m.halted with
  | true =>
    rw [Cpu.step_halted running]
    exact .refl m part
  | false =>
    obtain ⟨-, passed, accepted⟩ := step_ran running found
    have takes := Cpu.takesInterrupt_eq (c := m) found
    -- The fetch of the opcode shows in the program counter and the recording only.
    have fetched : part.Same m m.fetchByte.2 := by cases part <;> rfl
    obtain ⟨same, variant⟩ := run_same (m := m.fetchByte.2) decoded modelled regular foreign
    have ran := fetched.trans same
    cases pending : (p.run m.fetchByte.2).interruptPending with
    | false =>
      obtain ⟨journal, stepped⟩ := passed pending
      rw [stepped]
      exact ran.trans (by cases part <;> rfl)
    | true =>
      refine ran.trans ((accepted pending).entered.same fun entry => undisturbed ⟨?_, ?_⟩)
      · rw [takes, pending]
      · rwa [variant] at entry

/-- A store into the feedback register behind which an interrupt is taken. -/
theorem step_owned_register :
    let m := requestIrq { loaded [0x8D, 0xFC, 0xBF] with flags := {} } { systemVia := true }
    (∃ p, m.microcode.lookup (m.peek m.pc) = some p) ∧ ¬ Part.feedback.Same m m.step.1 ∧
      ¬ Part.irqDisable.Same m m.step.1 ∧ m.takesInterrupt ∧
      ∃ e ∈ m.stepEvents, ∃ value, e = .write feedbackRegister value := by
  intro m
  have compiled : (m.microcode.lookup (m.peek m.pc)).isSome := by decide +kernel
  obtain ⟨p, found⟩ := Option.isSome_iff_exists.1 compiled
  obtain ⟨i, decoded, owned, -, register⟩ := step_owned (m := m) found
  have sta : decode m.variant (m.peek m.pc) = some ⟨.sta, .absolute⟩ := by decide +kernel
  cases decoded.symm.trans sta
  have written : m.step.1.bus.feedback ≠ m.bus.feedback := by decide +kernel
  have masked : m.step.1.flags.irqDisable ≠ m.flags.irqDisable := by decide +kernel
  exact ⟨⟨p, found⟩, written, masked, ((owned .irqDisable masked).resolve_left (by decide)).1,
    register written⟩

end Machine

end Cycle6502
