import Cycle6502.Proofs.Instruction.Effects
import Cycle6502.Proofs.Instruction.Ownership
import Cycle6502.Proofs.Interrupt.Return

/-! The stack as a discipline. Its page is a circle of 256 bytes, so pushes that nest no deeper than
that leave what waits to be pulled alone, wherever the stack pointer starts. -/

set_option autoImplicit false

namespace Cycle6502

open Board (SameButTime)

inductive StackCall where
  | push (value : UInt8)
  | pull
  deriving DecidableEq, Repr

namespace StackCall

/-- Calls that nest no deeper than `depth`, and what the pulls among them owe: each of them the byte
of the push that it matches. -/
inductive Balanced : (depth : Nat) → List StackCall → (owed : List UInt8) → Prop
  | nil {depth : Nat} : Balanced depth [] []
  | pair {depth : Nat} {value : UInt8} {inner rest : List StackCall} {within behind : List UInt8} :
    Balanced depth inner within → Balanced (depth + 1) rest behind →
    Balanced (depth + 1) (push value :: inner ++ pull :: rest) (within ++ value :: behind)

def runAll : List StackCall → Machine → List UInt8 × Machine
  | [], m => ([], m)
  | push value :: rest, m => runAll rest (m.push value)
  | pull :: rest, m =>
    let (value, m) := m.pull
    let (values, m) := runAll rest m
    (value :: values, m)

theorem runAll_append (first rest : List StackCall) (m : Machine) :
    runAll (first ++ rest) m =
      ((runAll first m).1 ++ (runAll rest (runAll first m).2).1,
        (runAll rest (runAll first m).2).2) := by
  induction first generalizing m with
  | nil => rfl
  | cons call first ih =>
    cases call with
    | push value => exact ih (m.push value)
    | pull => simp only [List.cons_append, runAll, ih]

end StackCall

namespace Machine

structure Pushed (m d : Machine) (value : UInt8) : Prop where
  sp : d.registers.sp = m.registers.sp - 1
  ram : ∀ addr, d.bus.ram.read addr =
    if stackAddress m.registers.sp = addr then value else m.bus.ram.read addr

structure Pulled (m d : Machine) : Prop where
  sp : d.registers.sp = m.registers.sp + 1
  ram : d.bus.ram = m.bus.ram

def top (m : Machine) : UInt8 := m.bus.ram.read (stackAddress (m.registers.sp + 1))

/-- The stack pointer is where it was, and of the bytes in its page only the first `depth` at the
stack pointer and below may have changed. -/
structure Keeps (depth : Nat) (m d : Machine) : Prop where
  sp : d.registers.sp = m.registers.sp
  page : ∀ sp, (∀ k < depth, sp ≠ m.registers.sp - .ofNat k) →
    d.bus.ram.read (stackAddress sp) = m.bus.ram.read (stackAddress sp)

namespace Keeps

variable {depth : Nat} {m d e : Machine}

theorem refl (depth : Nat) (m : Machine) : Keeps depth m m := ⟨rfl, fun _ _ => rfl⟩

theorem trans (first : Keeps depth m d) (next : Keeps depth d e) : Keeps depth m e where
  sp := next.sp.trans first.sp
  page sp outside := by
    rw [next.page sp (first.sp ▸ outside), first.page sp outside]

end Keeps

section
variable {depth : Nat} {value : UInt8} {m d e r : Machine}

theorem Pushed.below (pushed : m.Pushed d value) (k : Nat) :
    d.registers.sp - .ofNat k = m.registers.sp - .ofNat (k + 1) := by
  rw [pushed.sp, UInt8.ofNat_add]
  grind

theorem Pushed.peek (pushed : m.Pushed d value) {addr : UInt16}
    (apart : stackAddress m.registers.sp ≠ addr) (plain : addr ≠ feedbackRegister) :
    d.peek addr = m.bus.ram.read addr := by
  have found : d.peek addr = d.bus.ram.read addr := if_neg plain
  rw [found, pushed.ram, if_neg apart]

/-- What has been pushed is at the top again once the stack pointer is back, as long as there has
been no way round the page. -/
theorem top_of_pushed (pushed : m.Pushed d value) (kept : Keeps depth d e) (shallow : depth < 256) :
    e.top = value := by
  have back : e.registers.sp + 1 = m.registers.sp := by
    rw [kept.sp, pushed.sp]
    grind
  have waits : ∀ k < depth, m.registers.sp ≠ d.registers.sp - .ofNat k := by
    intro k less same
    rw [pushed.below] at same
    have number := congrArg UInt8.toNat same
    have bound := m.registers.sp.toNat_lt
    rw [UInt8.toNat_sub, UInt8.toNat_ofNat'] at number
    omega
  rw [top, back, kept.page _ waits, pushed.ram, if_pos rfl]

theorem keeps_of_pair (pushed : m.Pushed d value) (kept : Keeps depth d e) (pulled : e.Pulled r) :
    Keeps (depth + 1) m r where
  sp := by
    rw [pulled.sp, kept.sp, pushed.sp]
    grind
  page sp outside := by
    have elsewhere : stackAddress m.registers.sp ≠ stackAddress sp := by
      intro same
      refine outside 0 (Nat.succ_pos _) ?_
      rw [← stackAddress_inj.1 same]
      exact (UInt8.sub_zero _).symm
    have inner : ∀ k < depth, sp ≠ d.registers.sp - .ofNat k := by
      intro k less
      rw [pushed.below]
      exact outside (k + 1) (Nat.succ_lt_succ less)
    rw [pulled.ram, kept.page sp inner, pushed.ram, if_neg elsewhere]

theorem pushed_push (m : Machine) (value : UInt8) : m.Pushed (m.push value) value :=
  ⟨rfl, m.ram_push value⟩

theorem pulled_pull (m : Machine) : m.pull.1 = m.top ∧ m.Pulled m.pull.2 :=
  ⟨rfl, rfl, rfl⟩

theorem runAll_balanced {calls : List StackCall} {owed : List UInt8}
    (balanced : StackCall.Balanced depth calls owed) (shallow : depth ≤ 256) (m : Machine) :
    (StackCall.runAll calls m).1 = owed ∧ Keeps depth m (StackCall.runAll calls m).2 := by
  induction balanced generalizing m with
  | nil => exact ⟨rfl, .refl _ m⟩
  | @pair depth value inner rest within behind _ _ ihInner ihRest =>
    have pushed := m.pushed_push value
    obtain ⟨values, kept⟩ := ihInner (Nat.le_of_succ_le shallow) (m.push value)
    let e := (StackCall.runAll inner (m.push value)).2
    obtain ⟨pulledTop, pulled⟩ := pulled_pull e
    have top : e.pull.1 = value := pulledTop.trans (top_of_pushed pushed kept shallow)
    obtain ⟨others, keptRest⟩ := ihRest shallow e.pull.2
    have split : StackCall.runAll (.push value :: inner ++ .pull :: rest) m =
        ((StackCall.runAll inner (m.push value)).1 ++
          e.pull.1 :: (StackCall.runAll rest e.pull.2).1, (StackCall.runAll rest e.pull.2).2) :=
      StackCall.runAll_append inner (.pull :: rest) (m.push value)
    rw [split, values, top, others]
    exact ⟨rfl, (keeps_of_pair pushed kept pulled).trans keptRest⟩

theorem runAll_outside (calls : List StackCall) (m : Machine) {addr : UInt16}
    (outside : ∀ sp, stackAddress sp ≠ addr) :
    (StackCall.runAll calls m).2.bus.ram.read addr = m.bus.ram.read addr := by
  induction calls generalizing m with
  | nil => rfl
  | cons call rest ih =>
    cases call with
    | push value =>
      refine (ih (m.push value)).trans ?_
      rw [ram_push, if_neg (outside _)]
    | pull => exact ih m.pull.2

end

structure Executes (m : Machine) (mnemonic : Mnemonic) : Prop where
  running : m.halted = false
  decoded : decode m.variant (m.peek m.pc) = some ⟨mnemonic, .implied⟩
  undisturbed : m.takesInterrupt = false

theorem executes_of_calm {m : Machine} {mnemonic : Mnemonic} {b : Behaviour}
    (running : m.halted = false)
    (decoded : decode m.variant (m.peek m.pc) = some ⟨mnemonic, .implied⟩)
    (modelled : Behaviour.of? ⟨mnemonic, .implied⟩ = some b) (acts : b.effects ≠ [])
    (calm : m.bus.lines = {}) : m.Executes mnemonic := by
  obtain ⟨program, found, -⟩ := program_similar (m := m.fetchByte.2) decoded modelled
    (timed_of_effects decoded modelled acts) nofun
  obtain ⟨i, b', decoded', modelled', regular⟩ := Microcode.regular_of_lookup found
  cases decoded.symm.trans decoded'
  refine ⟨running, decoded, (Cpu.takesInterrupt_eq (c := m) found).trans ?_⟩
  rw [(samples_once (m := m) modelled' regular).2, decides, calm]
  rfl

inductive Saves : (push pull : Mnemonic) → Register → Prop
  | a : Saves .pha .pla .a
  | x : Saves .phx .plx .x
  | y : Saves .phy .ply .y

def stackedBy (m : Machine) : Mnemonic → UInt8
  | .pha => m.registers.a
  | .phx => m.registers.x
  | .phy => m.registers.y
  | _ => m.statusByte

theorem Pushed.of_similar {m d d' : Machine} {value : UInt8} {decided : Prop}
    (pushed : m.Pushed d' value) (similar : Cpu.Similar SameButTime decided d d') :
    m.Pushed d value where
  sp := (congrArg (·.sp) similar.registers).trans pushed.sp
  ram addr := by
    rw [similar.bus.ram]
    exact pushed.ram addr

theorem Executes.pushed {m : Machine} {mnemonic : Mnemonic} (executes : m.Executes mnemonic)
    (pushes : mnemonic ∈ Instruction.pushes) : m.Pushed m.step.1 (m.stackedBy mnemonic) := by
  obtain ⟨running, decoded, undisturbed⟩ := executes
  have fetched (value : UInt8) : m.Pushed (m.fetchByte.2.push value) value :=
    { pushed_push m.fetchByte.2 value with }
  simp only [Instruction.pushes, List.mem_cons, List.not_mem_nil, or_false] at pushes
  rcases pushes with rfl | rfl | rfl | rfl <;>
    exact (fetched _).of_similar
      (step_similar running decoded rfl (by decide) (by decide) undisturbed).2

theorem Executes.restored {e : Machine} {push pull : Mnemonic} {r : Register}
    (saves : Saves push pull r) (executes : e.Executes pull) :
    e.Pulled e.step.1 ∧
      e.step.1.registers = { e.registers with sp := e.registers.sp + 1 }.set r e.top ∧
      e.step.1.flags = Textbook.judge e.flags e.top := by
  obtain ⟨running, decoded, undisturbed⟩ := executes
  cases saves <;>
    have performed := (step_similar running decoded rfl (by decide) (by decide) undisturbed).2 <;>
    exact ⟨⟨congrArg (·.sp) performed.registers, performed.bus.ram⟩, performed.registers,
      performed.flags.trans (Flags.ofValue_eq _ _)⟩

theorem Executes.restoredFlags {e : Machine} (executes : e.Executes .plp) :
    e.Pulled e.step.1 ∧
      e.step.1.registers = { e.registers with sp := e.registers.sp + 1 } ∧
      e.step.1.flags = (Flags.ofByte e.top).live := by
  obtain ⟨running, decoded, undisturbed⟩ := executes
  obtain ⟨-, performed⟩ := step_similar running decoded rfl (by decide) (by decide) undisturbed
  exact ⟨⟨congrArg (·.sp) performed.registers, performed.bus.ram⟩, performed.registers,
    performed.flags⟩

theorem Executes.pulled {e : Machine} {mnemonic : Mnemonic} (executes : e.Executes mnemonic)
    (pulls : mnemonic ∈ Instruction.pulls) : e.Pulled e.step.1 := by
  simp only [Instruction.pulls, List.mem_cons, List.not_mem_nil, or_false] at pulls
  rcases pulls with rfl | rfl | rfl | rfl
  · exact (executes.restored .a).1
  · exact executes.restoredFlags.1
  · exact (executes.restored .x).1
  · exact (executes.restored .y).1

structure Quiet (m : Machine) : Prop where
  sp : m.step.1.registers.sp = m.registers.sp
  page : ∀ sp, m.step.1.bus.ram.read (stackAddress sp) = m.bus.ram.read (stackAddress sp)

/-- Steps from one machine to another. Pushes and pulls among them nest no deeper than `depth`, and
the others leave the stack as it is. -/
inductive Nested : (depth : Nat) → Machine → Machine → Prop
  | done {depth : Nat} {m : Machine} : Nested depth m m
  | quiet {depth : Nat} {m d : Machine} : m.Quiet → Nested depth m.step.1 d → Nested depth m d
  | pair {depth : Nat} {push pull : Mnemonic} {m e d : Machine} :
    push ∈ Instruction.pushes → m.Executes push → Nested depth m.step.1 e →
    pull ∈ Instruction.pulls → e.Executes pull → Nested (depth + 1) e.step.1 d →
    Nested (depth + 1) m d

theorem Nested.keeps {depth : Nat} {m d : Machine} (nested : Nested depth m d) :
    Keeps depth m d := by
  induction nested with
  | done => exact .refl _ _
  | quiet quiet _ ih => exact Keeps.trans ⟨quiet.sp, fun sp _ => quiet.page sp⟩ ih
  | pair pushes pushing _ pulls pulling _ ihInner ihRest =>
    exact (keeps_of_pair (pushing.pushed pushes) ihInner (pulling.pulled pulls)).trans ihRest

theorem Nested.top {depth : Nat} {m e : Machine} {mnemonic : Mnemonic}
    (nested : Nested depth m.step.1 e) (shallow : depth < 256)
    (pushes : mnemonic ∈ Instruction.pushes) (pushing : m.Executes mnemonic) :
    e.top = m.stackedBy mnemonic ∧ e.registers.sp + 1 = m.registers.sp := by
  have pushed := pushing.pushed pushes
  refine ⟨top_of_pushed pushed nested.keeps shallow, ?_⟩
  rw [nested.keeps.sp, pushed.sp]
  grind

/-- Calls that nest no deeper than the page of the stack has room for pull what has been pushed,
and leave the stack pointer and the memory outside of the page as they were. So do instructions:
a register that is pushed and pulled again is back and judged, and so are the flags. -/
theorem stack_discipline (m : Machine) :
    (∀ {calls : List StackCall} {owed : List UInt8}, StackCall.Balanced 256 calls owed →
      let ran := StackCall.runAll calls m
      ran.1 = owed ∧ ran.2.registers.sp = m.registers.sp ∧
        ∀ addr : UInt16, addr.toNat < 0x100 ∨ 0x1FF < addr.toNat →
          ran.2.bus.ram.read addr = m.bus.ram.read addr) ∧
    (∀ {d : Machine}, Nested 256 m d → d.registers.sp = m.registers.sp) ∧
    ∀ {depth : Nat} {e : Machine}, depth < 256 → Nested depth m.step.1 e →
      (∀ {push pull : Mnemonic} {r : Register}, Saves push pull r → m.Executes push →
        e.Executes pull →
        e.step.1.registers = { e.registers with sp := m.registers.sp }.set r (m.registers.get r) ∧
          e.step.1.flags = Textbook.judge e.flags (m.registers.get r)) ∧
      (m.Executes .php → e.Executes .plp →
        e.step.1.registers = { e.registers with sp := m.registers.sp } ∧
          e.step.1.flags = m.flags.live) := by
  refine ⟨fun {calls owed} balanced => ?_, fun nested => nested.keeps.sp,
    fun {depth e} shallow nested => ⟨?_, ?_⟩⟩
  · obtain ⟨values, kept⟩ := runAll_balanced balanced (Nat.le_refl _) m
    refine ⟨values, kept.sp, fun addr outside => runAll_outside calls m fun sp same => ?_⟩
    have bound := sp.toNat_lt
    have place := toNat_stackAddress sp
    rw [same] at place
    omega
  · intro push pull r saves pushing pulling
    obtain ⟨-, registers, flags⟩ := pulling.restored saves
    have pushes : push ∈ Instruction.pushes := by cases saves <;> decide
    have pushed : m.stackedBy push = m.registers.get r := by cases saves <;> rfl
    obtain ⟨top, back⟩ := nested.top shallow pushes pushing
    rw [top, pushed] at registers flags
    rw [back] at registers
    exact ⟨registers, flags⟩
  · intro pushing pulling
    obtain ⟨-, registers, flags⟩ := pulling.restoredFlags
    obtain ⟨top, back⟩ := nested.top shallow (by decide) pushing
    rw [top] at flags
    rw [back] at registers
    exact ⟨registers, flags.trans (m.flags.stacked_toByte true).1⟩

/-- Calls and instructions whose bytes are on both sides of the end of the page. -/
theorem stack_discipline_wrapped :
    let m := loaded [0x48, 0x68]
    let calls : List StackCall := [.push 1, .push 2, .pull, .pull]
    m.registers.sp = 0x00 ∧
      StackCall.Balanced 256 calls [2, 1] ∧ (StackCall.runAll calls m).1 = [2, 1] ∧
      m.Executes .pha ∧ Nested 255 m.step.1 m.step.1 ∧ Executes m.step.1 .pla ∧
      m.step.1.step.1.registers.a = 0x7F ∧ m.step.1.step.1.registers.sp = 0x00 := by
  intro m calls
  have balanced : StackCall.Balanced 256 calls [2, 1] :=
    @StackCall.Balanced.pair 255 1 [.push 2, .pull] [] [2] []
      (@StackCall.Balanced.pair 254 2 [] [] [] [] .nil .nil) .nil
  have decoded : decode m.variant (m.peek m.pc) = some ⟨.pha, .implied⟩ := by decide +kernel
  have pushing : m.Executes .pha := executes_of_calm rfl decoded rfl (by decide) rfl
  have pulling : Executes m.step.1 .pla := by
    obtain ⟨-, performed⟩ :=
      step_similar rfl decoded rfl (by decide) (by decide) pushing.undisturbed
    have pushed := pushing.pushed (by decide)
    generalize m.step.1 = d at performed pushed ⊢
    have behind : d.pc = 1 := performed.pc
    have variant : d.variant = .nmos := performed.variant
    have opcode : d.peek d.pc = 0x68 := by
      rw [behind, pushed.peek (by decide) (by decide)]
      decide +kernel
    have running : d.halted = false := performed.halted
    have calm : d.bus.lines = {} := performed.bus.lines
    have decoded : decode d.variant (d.peek d.pc) = some ⟨.pla, .implied⟩ := by
      rw [opcode, variant]
      decide
    exact executes_of_calm running decoded rfl (by decide) calm
  obtain ⟨raw, -, pair⟩ := stack_discipline m
  obtain ⟨registers, -⟩ := (pair (show 255 < 256 by decide) .done).1 .a pushing pulling
  have values := (raw balanced).1
  have a : m.step.1.step.1.registers.a = 0x7F := by
    rw [registers]
    rfl
  have sp : m.step.1.step.1.registers.sp = 0x00 := by
    rw [registers]
    rfl
  have nested : Nested 255 m.step.1 m.step.1 := .done
  exact ⟨rfl, balanced, values, pushing, nested, pulling, a, sp⟩

end Machine

end Cycle6502
