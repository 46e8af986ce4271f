import Cycle6502.Proofs.Bus.Stored
import Cycle6502.Proofs.Interrupt.Sampling
import Cycle6502.Proofs.Run.Failure
import Cycle6502.Proofs.Timing.Alignment

/-! The NMI latch in whole runs. A request sets it, and so does a write that raises bit 1 of the
feedback register; a step that takes the NMI clears it, and nothing else does. A step that finds it
set takes the NMI, so none is lost and none is taken twice. -/

set_option autoImplicit false

namespace Cycle6502

namespace Board

def rises (b b' : Board) : Bool := b'.feedback.toNat.testBit 1 && !b.feedback.toNat.testBit 1

/-- The second board has latched an NMI if the bit has risen, besides one that was latched. -/
def CatchesNmi (b b' : Board) : Prop := b'.lines.nmi = (b.lines.nmi || b.rises b')

theorem CatchesNmi.of_same {b b' : Board} (lines : b'.lines = b.lines)
    (feedback : b'.feedback = b.feedback) : b.CatchesNmi b' := by
  simp [CatchesNmi, rises, lines, feedback]

theorem catchesNmi_write (b : Board) (addr : UInt16) (value : UInt8) :
    b.CatchesNmi (b.write addr value) := by
  have stored := b.stored_write addr value
  by_cases register : addr = feedbackRegister
  · obtain ⟨-, feedback, -, nmi⟩ := stored.register register
    rw [CatchesNmi, rises, nmi, feedback]
  · obtain ⟨feedback, lines⟩ := stored.elsewhere register
    exact .of_same lines feedback

end Board

open Board (CatchesNmi)

theorem Effect.catchesNmi (e : Effect) (m : Machine) (l : Latches) :
    m.bus.CatchesNmi (e.perform m l).1.bus := by
  have branch (taken : Bool) : m.bus.CatchesNmi (m.branch taken).bus := by
    cases taken <;> exact .of_same rfl rfl
  cases e with
  | writeBackToBase => exact m.bus.catchesNmi_write l.addr l.operand
  | branch mask expected => exact branch _
  | branchAlways => exact branch true
  | transfer source target => cases target <;> exact .of_same rfl rfl
  -- Pushes go to RAM at all addresses, as the stack has no register.
  | _ => exact .of_same rfl rfl

theorem MicroOp.catchesNmi (op : MicroOp) (m : Machine) (l : Latches) :
    m.bus.CatchesNmi (op.perform m l).1.bus := by
  cases op with
  | write site => exact m.bus.catchesNmi_write (l.resolve site) l.operand
  | pageCrossProbe =>
    simp only [perform]
    split <;> exact .of_same rfl rfl
  | effect e => exact e.catchesNmi m l
  | _ => exact .of_same rfl rfl

def Moment.raisesNmi (a : Moment) : Bool :=
  a.machine.bus.rises (a.step.perform a.machine a.latches).1.bus

namespace Step

theorem catchesNmi (s : Step) (m : Machine) (l : Latches) :
    m.bus.CatchesNmi (s.perform m l).1.bus := by
  cases s with
  | op op => exact op.catchesNmi m l
  | _ => exact .of_same rfl rfl

theorem nmi_performAll (steps : List Step) (m : Machine) (l : Latches) :
    (performAll steps m l).1.bus.lines.nmi =
      (m.bus.lines.nmi || (trail steps m l).any Moment.raisesNmi) := by
  induction steps generalizing m l with
  | nil => exact (Bool.or_false _).symm
  | cons s rest ih =>
    have caught := s.catchesNmi m l
    rw [performAll, trail, List.any_cons, ih, caught, Bool.or_assoc]
    rfl

end Step

namespace Machine

def ran? (m : Machine) : Option Machine :=
  if m.halted then none else (m.microcode.lookup (m.peek m.pc)).map (·.run m.fetchByte.2)

def servesNmi (m : Machine) : Bool :=
  m.ran?.any fun ran => ran.interruptPending && ran.bus.lines.nmi

def edges (m : Machine) : Nat := m.moments.countP Moment.raisesNmi

theorem edges_pos (m : Machine) : 0 < m.edges ↔ m.moments.any Moment.raisesNmi := by
  rw [edges, List.countP_pos_iff, List.any_eq_true]

theorem ran?_eq_some {m ran : Machine} :
    m.ran? = some ran ↔ m.halted = false ∧
      ∃ program, m.microcode.lookup (m.peek m.pc) = some program ∧
        program.run m.fetchByte.2 = ran := by
  unfold ran?
  cases m.halted <;> simp

theorem ran?_eq_none {m : Machine} : m.ran? = none ↔ m.halted = true ∨ m.step.2.isSome := by
  rw [isSome_step_iff]
  unfold ran?
  cases m.halted <;> simp

theorem lines_of_idle {m : Machine} (idle : m.ran? = none) :
    m.moments = [] ∧ m.step.1.bus.lines = m.bus.lines := by
  unfold moments
  rcases ran?_eq_none.1 idle with halted | failed
  · rw [if_pos halted, Cpu.step_halted halted]
    exact ⟨rfl, rfl⟩
  · obtain ⟨running, missing⟩ := m.isSome_step_iff.1 failed
    obtain ⟨journal, stepped⟩ := (fails_of_missing running missing).step
    have fetched : m.microcode.lookup m.fetchByte.1 = none := missing
    rw [if_neg (ne_true_of_eq_false running), fetched, stepped]
    exact ⟨rfl, rfl⟩

structure Ends (m ran : Machine) : Prop where
  succeeds : m.step.2 = none
  accepts : ∃ i, decode m.variant (m.peek m.pc) = some i ∧ ran.interruptPending = m.decides i
  nmi : ran.bus.lines.nmi = (m.bus.lines.nmi || m.moments.any Moment.raisesNmi)
  passed : ran.interruptPending = false → m.step.1.bus = ran.bus
  served : ran.interruptPending = true → ran.Served m.step.1

theorem ends_of_ran? {m ran : Machine} (executes : m.ran? = some ran) : m.Ends ran := by
  obtain ⟨running, program, found, rfl⟩ := ran?_eq_some.1 executes
  obtain ⟨i, b, decoded, modelled, regular⟩ := Microcode.regular_of_lookup found
  obtain ⟨-, pending⟩ := samples_once modelled regular
  obtain ⟨succeeds, passes, serves⟩ := step_ran running found
  have nmi := Step.nmi_performAll program.steps m.fetchByte.2 {}
  have fetched : m.microcode.lookup m.fetchByte.1 = some program := found
  have moments : m.moments = Step.trail program.steps m.fetchByte.2 {} := by
    simp only [Machine.moments, running, fetched, Bool.false_eq_true, if_false]
  rw [← moments] at nmi
  refine ⟨succeeds, ⟨i, decoded, pending⟩, nmi, fun passed => ?_, serves⟩
  obtain ⟨journal, stepped⟩ := passes passed
  rw [stepped]

/-- What a step does to the NMI latch: it is taken once, or stays. -/
theorem servesNmi_add_nmi (m : Machine) :
    m.servesNmi.toNat + m.step.1.bus.lines.nmi.toNat =
      (m.bus.lines.nmi || decide (0 < m.edges)).toNat := by
  have edges : decide (0 < m.edges) = m.moments.any Moment.raisesNmi := by
    rw [Bool.eq_iff_iff, decide_eq_true_iff, edges_pos]
  rw [edges, servesNmi]
  cases executes : m.ran? with
  | none =>
    obtain ⟨nothing, lines⟩ := lines_of_idle executes
    simp [nothing, lines]
  | some ran =>
    have ends := ends_of_ran? executes
    rw [← ends.nmi, Option.any_some]
    cases accepted : ran.interruptPending with
    | false => simp [ends.passed accepted]
    | true => simp [(ends.served accepted).acknowledged]

/-- A step keeps to the latch: one that finds it set takes the NMI, and an edge of its own is taken
or left in the latch. -/
structure KeepsNmi (m : Machine) : Prop where
  latched : m.halted = false → m.step.2 = none → m.bus.lines.nmi = true → m.servesNmi = true
  served : m.servesNmi = true →
    (∃ i, decode m.variant (m.peek m.pc) = some i ∧ m.decides i = true) ∧
      m.step.1.pc = wordOf (m.step.1.peek 0xFFFA) (m.step.1.peek 0xFFFB) ∧
      m.step.1.bus.lines.nmi = false
  raised : 0 < m.edges → m.servesNmi = true ∨ m.step.1.bus.lines.nmi = true
  idle : m.halted = true ∨ m.step.2.isSome →
    m.servesNmi = false ∧ m.step.1.bus.lines.nmi = m.bus.lines.nmi

theorem pc_served {ran d : Machine} (served : ran.Served d) (nmi : ran.bus.lines.nmi = true) :
    d.pc = wordOf (d.peek 0xFFFA) (d.peek 0xFFFB) := by
  have kind : ran.interruptKind = .nmi := if_pos nmi
  have entered := served.entered
  rw [kind] at entered
  rw [entered.pc, ← entered.peek_eq (outside_vector .nmi).1,
    ← entered.peek_eq (outside_vector .nmi).2]
  rfl

theorem keepsNmi (m : Machine) : m.KeepsNmi where
  latched running succeeds nmi := by
    cases executes : m.ran? with
    | none =>
      rcases ran?_eq_none.1 executes with halted | failed
      · cases running.symm.trans halted
      · rw [succeeds] at failed
        cases failed
    | some ran =>
      have ends := ends_of_ran? executes
      obtain ⟨i, decoded, accepts⟩ := ends.accepts
      -- A latched NMI is accepted whatever the flags are, and the instruction cannot clear it.
      rw [servesNmi, executes, Option.any_some, accepts, decides, ends.nmi, nmi]
      rfl
  served serves := by
    obtain ⟨ran, executes, both⟩ := Option.any_eq_true _ _ |>.1 serves
    obtain ⟨accepted, nmi⟩ := (Bool.and_eq_true _ _).mp both
    have ends := ends_of_ran? executes
    obtain ⟨i, decoded, accepts⟩ := ends.accepts
    have served := ends.served accepted
    exact ⟨⟨i, decoded, accepts.symm.trans accepted⟩, pc_served served nmi, served.acknowledged⟩
  raised edge := by
    have total := m.servesNmi_add_nmi
    rw [decide_eq_true edge, Bool.or_true] at total
    cases serves : m.servesNmi with
    | true => exact .inl rfl
    | false =>
      rw [serves, Bool.toNat_false, Nat.zero_add] at total
      exact .inr (Bool.toNat_eq_one.1 total)
  idle unsuccessful := by
    have executes := ran?_eq_none.2 unsuccessful
    rw [servesNmi, executes, (lines_of_idle executes).2]
    exact ⟨rfl, rfl⟩

/-- Whatever takes an NMI was asked for: each request and each edge is taken once at most, and so is
what the latch held before. -/
theorem countP_servesNmi (m : Machine) (happenings : List Happening) :
    (m.starts happenings).countP servesNmi + (m.after happenings).bus.lines.nmi.toNat ≤
      m.bus.lines.nmi.toNat + happenings.count (.signal .requestNmi) +
        ((m.starts happenings).map edges).sum := by
  induction happenings generalizing m with
  | nil => exact Nat.le_of_eq (Nat.add_comm _ _)
  | cons happening rest ih =>
    cases happening with
    | step =>
      have later := ih m.step.1
      have first := m.servesNmi_add_nmi
      have gained : (m.bus.lines.nmi || decide (0 < m.edges)).toNat ≤
          m.bus.lines.nmi.toNat + m.edges := by
        cases m.bus.lines.nmi <;> cases m.edges <;> simp
      have counted : (m.starts (.step :: rest)).countP servesNmi =
          (m.step.1.starts rest).countP servesNmi + m.servesNmi.toNat := by
        rw [Cpu.starts, List.countP_cons]
        cases m.servesNmi <;> rfl
      have behind : m.after (.step :: rest) = m.step.1.after rest := rfl
      rw [counted, behind, Cpu.starts, List.map_cons, List.sum_cons,
        List.count_cons_of_ne (by decide)]
      omega
    | signal s =>
      have later := ih (m.receive s)
      -- A request counts as one even if the latch was set, when it makes no difference.
      have received : (m.receive s).bus.lines.nmi.toNat + rest.count (.signal .requestNmi) ≤
          m.bus.lines.nmi.toNat + (Happening.signal s :: rest).count (.signal .requestNmi) := by
        cases s with
        | requestNmi =>
          rw [List.count_cons_self]
          have set : (m.receive .requestNmi).bus.lines.nmi.toNat = 1 := rfl
          omega
        | _ => exact Nat.add_le_add_left (List.count_le_count_cons) _
      have behind : m.after (.signal s :: rest) = (m.receive s).after rest := rfl
      rw [behind, Cpu.starts]
      omega

/-- No NMI is lost in a run, whatever signals come between its steps, and none is taken twice. -/
theorem nmi_taken_once (m : Machine) (happenings : List Happening) :
    (∀ c ∈ m.starts happenings, KeepsNmi c) ∧
      (m.bus.lines.nmi = false → (m.starts happenings).countP servesNmi ≤
        happenings.count (.signal .requestNmi) + ((m.starts happenings).map edges).sum) := by
  refine ⟨fun c _ => keepsNmi c, fun clear => ?_⟩
  have bound := m.countP_servesNmi happenings
  rw [clear, Bool.toNat_false] at bound
  omega

/-- An increment that has accepted an IRQ raises an edge, and the NMI is taken in place of the
IRQ. -/
theorem nmi_taken_once_edge :
    let m := { loaded [0xEE, 0xFC, 0xBF] with flags := {} }
    let happenings : List Happening := [.signal (.requestIrq { systemVia := true }), .step]
    m.bus.lines.nmi = false ∧
      (m.starts happenings).map (fun c => (servesNmi c, edges c)) = [(true, 1)] ∧
      (m.starts happenings).countP servesNmi ≤
        happenings.count (.signal .requestNmi) + ((m.starts happenings).map edges).sum ∧
      ∀ c ∈ m.starts happenings, KeepsNmi c := by
  intro m happenings
  obtain ⟨keeps, bound⟩ := nmi_taken_once m happenings
  exact ⟨rfl, by decide +kernel, bound rfl, keeps⟩

end Machine

end Cycle6502
