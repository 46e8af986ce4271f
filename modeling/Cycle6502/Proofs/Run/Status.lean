import Cycle6502.Proofs.Instruction.Modes
import Cycle6502.Proofs.Interrupt.Return
import Cycle6502.Proofs.Run.Calls

/-! The status register over a run, and the bytes that stand for it on the stack. The register never
has the two flags that exist only in a stacked byte: every effect leaves them clear, and a byte that
is pulled loses them. A byte that is pushed is composed of the live flags on one of three paths. -/

set_option autoImplicit false

namespace Cycle6502

namespace Flags

/-- The flags lack the two that exist only in a stacked byte. -/
def Live (p : Flags) : Prop := p.unused = false ∧ p.brk = false

/-- The byte that stands for live flags on the stack, from an instruction or from an interrupt. -/
structure Stacked (p : Flags) (brk : Bool) (status : UInt8) : Prop where
  unused : status.toNat.testBit 5 = true
  brk : status.toNat.testBit 4 = brk
  others : (ofByte status).live = p

variable {p : Flags}

theorem Live.live_eq (live : p.Live) : p.live = p := by
  obtain ⟨negative, overflow, unused, brk, decimal, irqDisable, zero, carry⟩ := p
  obtain ⟨rfl, rfl⟩ := live
  rfl

theorem Live.stacked (live : p.Live) (brk : Bool) :
    p.Stacked brk { p with brk, unused := true }.toByte := by
  obtain ⟨others, unused, marked⟩ := p.stacked_toByte brk
  exact ⟨unused, marked, others.trans live.live_eq⟩

theorem Live.put (live : p.Live) {mask : Flags} (tame : mask.Live) (on : Bool) :
    (p.put mask on).Live := by
  simpa [Live, Flags.put, tame.1, tame.2] using live

end Flags

def MicroOp.tame : MicroOp → Bool
  | .effect (.setFlag mask _) => !mask.unused && !mask.brk
  | _ => true

section
variable {β : Type} [Bus β] {c : Cpu β}

theorem Effect.perform_live {e : Effect} (tame : (MicroOp.effect e).tame) (l : Latches)
    (live : c.flags.Live) : (e.perform c l).1.flags.Live := by
  cases e with
  | setFlag mask on =>
    simp only [MicroOp.tame, Bool.and_eq_true, Bool.not_eq_true'] at tame
    exact live.put tame on
  | pullFlags | returnFromInterrupt => exact ⟨rfl, rfl⟩
  | branch mask expected =>
    simp only [perform, Cpu.branch]
    split <;> exact live
  | transfer _ r => cases r <;> exact live
  | _ => exact live

theorem MicroOp.perform_live {op : MicroOp} (tame : op.tame) (l : Latches) (live : c.flags.Live) :
    (op.perform c l).1.flags.Live := by
  cases op with
  | effect e => exact e.perform_live tame l live
  | pageCrossProbe =>
    simp only [perform]
    split <;> exact live
  | _ => exact live

theorem Cpu.serviceInterrupt_live (live : c.flags.Live) : c.serviceInterrupt.flags.Live := by
  unfold serviceInterrupt
  cases Bus.nmiAsserted c.bus <;> exact live

end

structure Behaviour.Tidy (b : Behaviour) (v : Variant) (i : Instruction) : Prop where
  tame : ∀ op ∈ b.operations v i.mode, op.tame
  php : i.mnemonic = .php → b.operations v i.mode = [.effect .pushFlags]
  brk : i.mnemonic = .brk → b.operations v i.mode = [.effect .enterBreak]
  others : i.mnemonic ∉ [.php, .brk] → .effect .pushFlags ∉ b.operations v i.mode ∧
    .effect .enterBreak ∉ b.operations v i.mode

namespace Behaviour

instance (b : Behaviour) (v : Variant) (i : Instruction) : Decidable (b.Tidy v i) :=
  decidable_of_iff (_ ∧ _ ∧ _ ∧ _)
    ⟨fun ⟨tame, php, brk, others⟩ => ⟨tame, php, brk, others⟩,
     fun ⟨tame, php, brk, others⟩ => ⟨tame, php, brk, others⟩⟩

theorem tidy_of_decode {v : Variant} {opcode : UInt8} {i : Instruction} {b : Behaviour}
    (decoded : decode v opcode = some i) (modelled : of? i = some b) : b.Tidy v i := by
  have every := decode_forall (P := fun i => (of? i).all fun b => b.Tidy .nmos i ∧ b.Tidy .cmos i)
    (by decide +kernel) (by decide +kernel) decoded
  rw [modelled, Option.all_some, decide_eq_true_iff] at every
  cases v
  · exact every.1
  · exact every.2

end Behaviour

namespace Cpu

variable {β : Type} [Bus β] {c : Cpu β}

theorem live_prefix {p : Microprogram} {i : Instruction} {b : Behaviour}
    (tidy : b.Tidy c.variant i) (regular : p.Regular c.variant i b) (live : c.flags.Live)
    {before : List Step} (part : before <+: p.steps) :
    (Step.performAll before c.fetchByte.2 {}).1.flags.Live := by
  obtain ⟨rest, steps⟩ := part
  refine Step.performAll_keeps (P := fun d => d.flags.Live) (fun d _ live => live)
    (fun d live => live) (fun op member d l live => op.perform_live (tidy.tame op ?_) l live) {} live
  rw [← regular.deeds, ← steps, Step.deeds_append]
  exact List.mem_append_left _ member

theorem live_step (live : c.flags.Live) : c.step.1.flags.Live := by
  cases running : c.halted with
  | true => rwa [step_halted running]
  | false =>
    cases found : c.microcode.lookup c.fetchByte.1 with
    | none =>
      obtain ⟨journal, stepped⟩ := step_invalid running found
      rw [stepped]
      exact live
    | some p =>
      obtain ⟨journal, stepped⟩ := step_settle running found
      obtain ⟨i, b, decoded, modelled, regular⟩ := Microcode.regular_of_lookup found
      have ran : (p.run c.fetchByte.2).flags.Live :=
        live_prefix (Behaviour.tidy_of_decode decoded modelled) regular live List.prefix_rfl
      rw [stepped, settle]
      split
      · exact serviceInterrupt_live ran
      · exact ran

inductive Begins : Cpu β → Prop
  | new (bus : β) (microcode : Microcode) : Begins { bus, microcode }
  | reset (c : Cpu β) : Begins c.reset
  | live {c : Cpu β} : c.flags.Live → Begins c

theorem Begins.flags_live (begins : c.Begins) : c.flags.Live := by
  cases begins with
  | new bus microcode => exact ⟨rfl, rfl⟩
  | reset c => exact ⟨rfl, rfl⟩
  | live live => exact live

end Cpu

/-- The bytes that some calls write to zero page and the stack, with their addresses. -/
def Bus.stackWrites (calls : List Bus.Call) : List (UInt16 × UInt8) :=
  calls.filterMap fun
    | .zeroPageWrite addr value => some (addr, value)
    | _ => none

open Bus (stackWrites)

def stackFrame (sp : UInt8) (returnTo : UInt16) (status : UInt8) : List (UInt16 × UInt8) :=
  [(stackAddress sp, highByte returnTo), (stackAddress (sp - 1), lowByte returnTo),
    (stackAddress (sp - 2), status)]

section
variable {β : Type}

def Overheard.Stacks (w w' : Overheard β) (writes : List (UInt16 × UInt8)) : Prop :=
  ∃ more, w'.calls = w.calls ++ more ∧ stackWrites more = writes

namespace Overheard.Stacks

variable {w w' w'' : Overheard β} {writes more : List (UInt16 × UInt8)}

theorem refl (w : Overheard β) : Stacks w w [] := ⟨[], (List.append_nil _).symm, rfl⟩

theorem trans (first : Stacks w w' writes) (next : Stacks w' w'' more) :
    Stacks w w'' (writes ++ more) := by
  obtain ⟨calls, made, rfl⟩ := first
  obtain ⟨later, made', rfl⟩ := next
  refine ⟨calls ++ later, ?_, List.filterMap_append⟩
  rw [made', made, List.append_assoc]

theorem quiet (first : Stacks w w' writes) (next : Stacks w' w'' []) : Stacks w w'' writes :=
  List.append_nil writes ▸ first.trans next

theorem make [Bus β] [Signalled β] (w : Overheard β) (c : Bus.Call) :
    Stacks w (w.make c) (stackWrites [c]) := ⟨[c], rfl, rfl⟩

end Overheard.Stacks

namespace Cpu

open Overheard (Stacks)

structure Quiet (w w' : Cpu (Overheard β)) : Prop where
  writes : Stacks w.bus w'.bus []
  registers : w'.registers = w.registers
  flags : w'.flags = w.flags
  pc : w'.pc = w.pc

variable [Bus β] [Signalled β]

theorem quiet_of_deeds {steps : List Step} (idle : Step.deeds steps = []) (w : Cpu (Overheard β))
    (l : Latches) : Quiet w (Step.performAll steps w l).1 :=
  Step.performAll_keeps (P := Quiet w)
    (fun d cycles quiet => { quiet with writes := quiet.writes.quiet (.make d.bus (.advance cycles)) })
    (fun d quiet => { quiet with }) (by simp [idle]) l ⟨.refl w.bus, rfl, rfl, rfl⟩

theorem quiet_of_deed {op : MicroOp} {steps : List Step} (single : Step.deeds steps = [op])
    (w : Cpu (Overheard β)) (l : Latches) :
    ∃ d latches, Quiet w d ∧ Quiet (op.perform d latches).1 (Step.performAll steps w l).1 := by
  obtain ⟨before, after, rfl, first, last⟩ := Step.split_deed single
  refine ⟨_, (Step.performAll before w l).2, quiet_of_deeds first w l, ?_⟩
  rw [Step.performAll_append]
  exact quiet_of_deeds last _ _

theorem stacks_push (w : Cpu (Overheard β)) (value : UInt8) :
    Stacks w.bus (w.push value).bus [(stackAddress w.registers.sp, value)] :=
  .make w.bus (.zeroPageWrite _ value)

theorem stacks_enterHandler (w : Cpu (Overheard β)) (kind : Interrupt) (returnTo : UInt16)
    (status : UInt8) :
    Stacks w.bus (w.enterHandler kind returnTo status).bus
      (stackFrame w.registers.sp returnTo status) := by
  have two : w.registers.sp - 1 - 1 = w.registers.sp - 2 := by grind
  -- Three pushes, each one place below the one before, and two reads that stack nothing.
  have high := w.stacks_push (highByte returnTo)
  have low := (w.push (highByte returnTo)).stacks_push (lowByte returnTo)
  have stacked := high.trans (low.trans ((w.pushWord returnTo).stacks_push status))
  have vector := (Stacks.make ((w.pushWord returnTo).push status).bus (.read kind.vector)).quiet
    (.make _ (.read (kind.vector + 1)))
  rw [stackFrame, ← two]
  exact stacked.quiet vector

theorem stacks_serviceInterrupt (w : Cpu (Overheard β)) :
    Stacks w.bus w.serviceInterrupt.bus
      (stackFrame w.registers.sp w.pc w.interruptStatusByte) := by
  unfold serviceInterrupt
  cases Bus.nmiAsserted w.bus with
  | false =>
    exact (w.stacks_enterHandler .irq w.pc w.interruptStatusByte).quiet (.make _ (.advance 7))
  | true =>
    have acknowledged : Stacks w.bus (Bus.acknowledgeNmi w.bus) [] := .make w.bus .acknowledgeNmi
    exact acknowledged.trans ((stacks_enterHandler { w with bus := Bus.acknowledgeNmi w.bus } .nmi
      w.pc w.interruptStatusByte).quiet (.make _ (.advance 7)))

theorem overheard_run (c : Cpu β) {p : Microprogram} (short : ∀ s ∈ p.steps, s.span 0 < 16) :
    Similar (Overheard.Accounts c.bus) True (p.run c.fetchByte.2)
      (p.run c.overheard.fetchByte.2) := by
  obtain ⟨-, fetched⟩ := c.similar_overheard.fetchByte Overheard.Accounts.lockstep.toSimulation
  exact Step.performAll_similar Overheard.Accounts.lockstep (Step.fastWithin_true _ _ _) short
    fetched

def instructionCalls (c : Cpu β) (p : Microprogram) : List Bus.Call :=
  (p.run c.overheard.fetchByte.2).bus.calls

structure Handles (c : Cpu β) (p : Microprogram) (i : Instruction) : Prop where
  -- The flags are live within the instruction, too.
  live : ∀ before, before <+: p.steps → (Step.performAll before c.fetchByte.2 {}).1.flags.Live
  php : i.mnemonic = .php → (p.run c.fetchByte.2).flags = c.flags ∧
    ∃ status, c.flags.Stacked true status ∧
      stackWrites (c.instructionCalls p) = [(stackAddress c.registers.sp, status)]
  brk : i.mnemonic = .brk → ∃ status, c.flags.Stacked true status ∧
    stackWrites (c.instructionCalls p) = stackFrame c.registers.sp (c.pc + 2) status
  -- What the others stack is a register or a return address.
  others : i.mnemonic ∉ [.php, .brk] →
    .op (.effect .pushFlags) ∉ p.steps ∧ .op (.effect .enterBreak) ∉ p.steps
  entry : ∃ entry, c.calls [.step] = c.instructionCalls p ++ entry ∧
    let ran := p.run c.fetchByte.2
    if c.takesInterrupt then ∃ status, ran.flags.Stacked false status ∧
      stackWrites entry = stackFrame ran.registers.sp ran.pc status
    else entry = []

/-- A step begins with live flags, and every status byte that it pushes stands for those of the
moment. -/
structure KeepsStatus (c : Cpu β) : Prop where
  live : c.flags.Live
  idle : c.halted = true ∨ c.microcode.lookup c.fetchByte.1 = none →
    stackWrites (c.calls [.step]) = []
  next : c.halted = false → ∀ p, c.microcode.lookup c.fetchByte.1 = some p →
    ∃ i, decode c.variant c.fetchByte.1 = some i ∧ c.Handles p i

section
variable {c : Cpu β} {p : Microprogram}

/-- An instruction with one deed stacks what the deed does, which finds registers and flags as they
were. -/
theorem stackWrites_instruction {op : MicroOp} {writes : List (UInt16 × UInt8)}
    (single : Step.deeds p.steps = [op])
    (deed : ∀ (d : Cpu (Overheard β)) l, d.registers = c.registers → d.flags = c.flags →
      d.pc = c.pc + 1 → Stacks d.bus (op.perform d l).1.bus writes) :
    stackWrites (c.instructionCalls p) = writes := by
  obtain ⟨d, l, before, after⟩ := quiet_of_deed single c.overheard.fetchByte.2 {}
  have fetched : Stacks c.overheard.bus c.overheard.fetchByte.2.bus [] := .make _ (.read c.pc)
  have acted := deed d l before.registers before.flags before.pc
  obtain ⟨calls, made, written⟩ := (fetched.trans before.writes).trans (acted.quiet after.writes)
  rw [instructionCalls, Microprogram.run, made]
  exact written

theorem status_php (live : c.flags.Live) (single : Step.deeds p.steps = [.effect .pushFlags]) :
    (p.run c.fetchByte.2).flags = c.flags ∧ ∃ status, c.flags.Stacked true status ∧
      stackWrites (c.instructionCalls p) = [(stackAddress c.registers.sp, status)] := by
  constructor
  · refine Step.performAll_keeps (P := fun d => d.flags = c.flags) (fun d _ same => same)
      (fun d same => same) (fun op member d l same => ?_) {} rfl
    rw [single, List.mem_singleton] at member
    rw [member]
    exact same
  · refine ⟨c.statusByte, live.stacked true,
      stackWrites_instruction single fun d l registers flags _ => ?_⟩
    have status : d.statusByte = c.statusByte := by simp only [statusByte, flags]
    rw [← registers, ← status]
    exact d.stacks_push d.statusByte

theorem status_brk (live : c.flags.Live) (single : Step.deeds p.steps = [.effect .enterBreak]) :
    ∃ status, c.flags.Stacked true status ∧
      stackWrites (c.instructionCalls p) = stackFrame c.registers.sp (c.pc + 2) status := by
  refine ⟨c.statusByte, live.stacked true,
    stackWrites_instruction single fun d l registers flags pc => ?_⟩
  have status : d.statusByte = c.statusByte := by simp only [statusByte, flags]
  have behind : d.pc + 1 = c.pc + 2 := by grind
  rw [← registers, ← status, ← behind]
  exact d.stacks_enterHandler .brk (d.pc + 1) d.statusByte

theorem calls_settle (running : c.halted = false)
    (found : c.microcode.lookup c.fetchByte.1 = some p) (live : (p.run c.fetchByte.2).flags.Live)
    (short : ∀ s ∈ p.steps, s.span 0 < 16) :
    ∃ entry, c.calls [.step] = c.instructionCalls p ++ entry ∧
      let ran := p.run c.fetchByte.2
      if c.takesInterrupt then ∃ status, ran.flags.Stacked false status ∧
        stackWrites entry = stackFrame ran.registers.sp ran.pc status
      else entry = [] := by
  obtain ⟨journal, stepped⟩ := step_settle (c := c.overheard) running found
  have alike := c.overheard_run short
  rw [calls_step, stepped, takesInterrupt_eq found, alike.pending trivial, settle]
  cases pending : (p.run c.overheard.fetchByte.2).interruptPending with
  | false => exact ⟨[], (List.append_nil _).symm, rfl⟩
  | true =>
    obtain ⟨entry, made, written⟩ := stacks_serviceInterrupt
      { p.run c.overheard.fetchByte.2 with journal, interruptPending := false }
    refine ⟨entry, made, _, live.stacked false, written.trans ?_⟩
    simp only [interruptStatusByte, alike.registers, alike.pc, alike.flags]

theorem handles_next (live : c.flags.Live) (running : c.halted = false)
    (found : c.microcode.lookup c.fetchByte.1 = some p) :
    ∃ i, decode c.variant c.fetchByte.1 = some i ∧ c.Handles p i := by
  obtain ⟨i, b, decoded, modelled, regular⟩ := Microcode.regular_of_lookup found
  have tidy : b.Tidy c.variant i := Behaviour.tidy_of_decode decoded modelled
  have within {before : List Step} (part : before <+: p.steps) :=
    live_prefix tidy regular live part
  have deeds : Step.deeds p.steps = b.operations c.variant i.mode := regular.deeds
  refine ⟨i, decoded, fun before => within, fun php => ?_, fun brk => ?_, fun others => ?_,
    calls_settle running found (within List.prefix_rfl) fun _ => regular.span_lt⟩
  · exact status_php live (deeds.trans (tidy.php php))
  · exact status_brk live (deeds.trans (tidy.brk brk))
  · obtain ⟨flags, entry⟩ := tidy.others others
    rw [← deeds, Step.mem_deeds (by decide)] at flags entry
    exact ⟨flags, entry⟩

theorem keepsStatus (live : c.flags.Live) : c.KeepsStatus where
  live := live
  idle still := by
    rw [calls_step]
    cases running : c.halted with
    | true =>
      rw [step_halted (c := c.overheard) running]
      rfl
    | false =>
      obtain ⟨journal, stepped⟩ := step_invalid (c := c.overheard) running
        (still.resolve_left (ne_true_of_eq_false running))
      rw [stepped]
      rfl
  next running _ found := handles_next live running found

end

/-- A run keeps the two flags of stacked bytes out of the status register, and they tell in each
status byte that is pushed where it is from. -/
theorem run_status {c : Cpu β} (begins : c.Begins) (happenings : List Happening) :
    (c.after happenings).flags.Live ∧ ∀ d ∈ c.starts happenings, d.KeepsStatus := by
  have live := begins.flags_live
  clear begins
  induction happenings generalizing c with
  | nil => exact ⟨live, List.forall_mem_nil _⟩
  | cons happening rest ih =>
    cases happening with
    | signal s => exact ih (c := c.receive s) live
    | step =>
      obtain ⟨after, starts⟩ := ih (live_step live)
      exact ⟨after, List.forall_mem_cons.2 ⟨keepsStatus live, starts⟩⟩

end Cpu

/-- A pushed status, and behind it an interrupt. -/
theorem Machine.run_status_php :
    let m := requestIrq { loaded [0x08] with flags := { carry := true } } { systemVia := true }
    m.Begins ∧ (m.after [.step]).flags.Live ∧ m.takesInterrupt ∧
      ∃ p status, m.microcode.lookup m.fetchByte.1 = some p ∧ m.flags.Stacked true status ∧
        stackWrites (m.instructionCalls p) = [(0x0100, status)] := by
  intro m
  have begins : m.Begins := .live ⟨rfl, rfl⟩
  obtain ⟨after, starts⟩ := Cpu.run_status begins [.step]
  have compiled : (m.microcode.lookup m.fetchByte.1).isSome := by decide +kernel
  obtain ⟨p, found⟩ := Option.isSome_iff_exists.1 compiled
  obtain ⟨i, decoded, handles⟩ := (starts m List.mem_cons_self).next rfl p found
  have php : decode m.variant m.fetchByte.1 = some ⟨.php, .implied⟩ := by decide +kernel
  cases decoded.symm.trans php
  obtain ⟨-, status, stacked, pushed⟩ := handles.php rfl
  have top : stackAddress m.registers.sp = 0x0100 := by decide +kernel
  rw [top] at pushed
  exact ⟨begins, after, by decide +kernel, p, status, found, stacked, pushed⟩

end

end Cycle6502
