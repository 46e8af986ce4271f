import Cycle6502.CommandLine.Invocation
import Cycle6502.Proofs.Instruction.Textbook
import Mathlib.Data.List.Induction
import Mathlib.Logic.Function.Iterate
import Mathlib.Order.Bounds.Basic

/-! The drivers of a machine: single steps and runs under the monitor, and runs without it. Each is
so many steps of the machine; what differs is where it stops. -/

set_option autoImplicit false

namespace Cycle6502

namespace Cpu

variable {β : Type} [Bus β]

def stepped (c : Cpu β) (count : Nat) : Cpu β := (fun c => c.step.1)^[count] c

theorem stepped_succ (c : Cpu β) (count : Nat) :
    c.stepped (count + 1) = c.step.1.stepped count := rfl

/-- The numbers of steps of which the last fails. -/
def failing (c : Cpu β) : Set Nat := {j | 1 ≤ j ∧ (c.stepped (j - 1)).step.2.isSome}

/-- The numbers of steps of which the last fails or leads to a breakpoint. -/
def stops (c : Cpu β) (breakpoints : List UInt16) : Set Nat :=
  {j | 1 ≤ j ∧ ((c.stepped (j - 1)).step.2.isSome ∨ (c.stepped j).pc ∈ breakpoints)}

theorem stops_nil (c : Cpu β) : c.stops [] = c.failing := by
  ext j
  simp [stops, failing]

section
variable {c : Cpu β} {breakpoints : List UInt16}

theorem one_mem_stops :
    1 ∈ c.stops breakpoints ↔ c.step.2.isSome ∨ c.step.1.pc ∈ breakpoints := by
  simp [stops, stepped]

theorem succ_mem_stops {j : Nat} (positive : 1 ≤ j) :
    j + 1 ∈ c.stops breakpoints ↔ j ∈ c.step.1.stops breakpoints := by
  obtain ⟨k, rfl⟩ := Nat.exists_eq_add_of_le' positive
  simp [stops, stepped_succ]

theorem isLeast_stops_one (first : c.step.2.isSome ∨ c.step.1.pc ∈ breakpoints) :
    IsLeast (c.stops breakpoints) 1 :=
  ⟨one_mem_stops.2 first, fun _ stop => stop.1⟩

theorem isLeast_stops_succ {j : Nat} (least : IsLeast (c.stops breakpoints) j)
    (goesOn : ¬ (c.step.2.isSome ∨ c.step.1.pc ∈ breakpoints)) :
    ∃ k, j = k + 1 ∧ IsLeast (c.step.1.stops breakpoints) k := by
  obtain ⟨stop, lowest⟩ := least
  obtain ⟨k, rfl⟩ := Nat.exists_eq_add_of_le' stop.1
  have later : 1 ≤ k := by
    rcases Nat.eq_zero_or_pos k with rfl | positive
    · exact absurd (one_mem_stops.1 stop) goesOn
    · exact positive
  refine ⟨k, rfl, (succ_mem_stops later).1 stop, fun other found => ?_⟩
  exact Nat.le_of_succ_le_succ (lowest ((succ_mem_stops found.1).2 found))

end

end Cpu

namespace Monitor

def Stop.failure? : Stop → Option InvalidOpcode
  | .failed failure => some failure
  | _ => none

def stopAt (c : Machine) (count : Nat) : Stop :=
  match (c.stepped (count - 1)).step.2 with
  | some failure => .failed failure
  | none => .atBreakpoint

theorem stopAt_succ (c : Machine) {count : Nat} (later : 1 ≤ count) :
    stopAt c (count + 1) = stopAt c.step.1 count := by
  obtain ⟨k, rfl⟩ := Nat.exists_eq_add_of_le' later
  rfl

section
variable (breakpoints : List UInt16)

theorem proceed_succ (patience : Nat) (c : Machine) :
    proceed breakpoints (patience + 1) c =
      if c.step.2.isSome ∨ c.step.1.pc ∈ breakpoints then (c.step.1, stopAt c 1)
      else proceed breakpoints patience c.step.1 := by
  have first : stopAt c 1 = match c.step.2 with
      | some failure => .failed failure
      | none => .atBreakpoint := rfl
  rw [proceed, first]
  obtain ⟨d, result⟩ := c.step
  cases result with
  | some failure => rfl
  | none => simp

theorem fst_stepMany (count : Nat) (c : Machine) (out : String) :
    (stepMany breakpoints count c out).1 = (proceed breakpoints count c).1 := by
  induction count generalizing c out with
  | zero => rfl
  | succ count ih =>
    rw [stepMany, proceed]
    obtain ⟨d, result⟩ := c.step
    cases result with
    | some failure => rfl
    | none =>
      simp only
      split
      · rfl
      · exact ih d _

end

/-- A run without the monitor goes as far as one with it that has no breakpoints. -/
theorem runUntil_eq (limit done : Nat) (c : Machine) :
    (c.runUntil (fun _ => false) limit done).cpu = (proceed [] limit c).1 ∧
      (c.runUntil (fun _ => false) limit done).failure = (proceed [] limit c).2.failure? := by
  induction limit generalizing c done with
  | zero => exact ⟨rfl, rfl⟩
  | succ limit ih =>
    rw [Cpu.runUntil, proceed]
    obtain ⟨d, result⟩ := c.step
    cases result with
    | some failure => exact ⟨rfl, rfl⟩
    | none => exact ih (done + 1) d

section
variable {breakpoints : List UInt16} {c : Machine}

/-- A run that may go on for long enough stops behind the first step that makes it. -/
theorem proceed_of_isLeast {patience j : Nat} (least : IsLeast (c.stops breakpoints) j)
    (enough : j ≤ patience) :
    proceed breakpoints patience c = (c.stepped j, stopAt c j) := by
  induction patience generalizing c j with
  | zero => exact absurd (least.1.1.trans enough) (Nat.not_succ_le_zero 0)
  | succ patience ih =>
    rw [proceed_succ]
    split
    case isTrue first =>
      cases least.unique (Cpu.isLeast_stops_one first)
      rfl
    case isFalse goesOn =>
      obtain ⟨k, rfl, later⟩ := Cpu.isLeast_stops_succ least goesOn
      rw [ih later (Nat.le_of_succ_le_succ enough), stopAt_succ c later.1.1, Cpu.stepped_succ]

theorem proceed_of_lt {patience : Nat} (before : ∀ j ∈ c.stops breakpoints, patience < j) :
    proceed breakpoints patience c = (c.stepped patience, .interrupted) := by
  induction patience generalizing c with
  | zero => rfl
  | succ patience ih =>
    rw [proceed_succ]
    split
    case isTrue first =>
      have short := before 1 (Cpu.one_mem_stops.2 first)
      omega
    case isFalse =>
      rw [Cpu.stepped_succ]
      refine ih fun j stop => ?_
      exact Nat.lt_of_succ_lt_succ (before (j + 1) ((Cpu.succ_mem_stops stop.1).2 stop))

theorem fst_proceed {patience j : Nat} (least : IsLeast (c.stops breakpoints) j) :
    (proceed breakpoints patience c).1 = c.stepped (min patience j) := by
  rcases Nat.lt_or_ge patience j with short | enough
  · have before : ∀ k ∈ c.stops breakpoints, patience < k := fun k stop =>
      Nat.lt_of_lt_of_le short (least.2 stop)
    rw [proceed_of_lt before, Nat.min_eq_left (Nat.le_of_lt short)]
  · rw [proceed_of_isLeast least enough, Nat.min_eq_right enough]

end

end Monitor

namespace Command

def breakpoint? : Command → Option UInt16
  | .setBreakpoint addr | .clearBreakpoint addr => some addr
  | _ => none

def latest (addr : UInt16) (commands : List Command) : Option Command :=
  commands.reverse.find? (·.breakpoint? = some addr)

theorem latest_concat (addr : UInt16) (commands : List Command) (command : Command) :
    latest addr (commands ++ [command]) =
      if command.breakpoint? = some addr then some command else latest addr commands := by
  rw [latest, List.reverse_concat, List.find?_cons]
  by_cases about : command.breakpoint? = some addr <;> simp [about, latest]

end Command

namespace Monitor

variable (files : Files) (patience : Nat)

def after (m : Monitor) (commands : List Command) : Monitor :=
  commands.foldl (fun m command => (m.execute files patience command).monitor) m

theorem mem_breakpoints_execute (m : Monitor) (command : Command) (addr : UInt16) :
    addr ∈ (m.execute files patience command).monitor.breakpoints ↔
      if command.breakpoint? = some addr then command = .setBreakpoint addr
      else addr ∈ m.breakpoints := by
  cases command with
  | setBreakpoint other =>
    by_cases same : other = addr
    · simp [execute, Command.breakpoint?, same]
    · simp [execute, Command.breakpoint?, same, Ne.symm same]
  | clearBreakpoint other =>
    by_cases same : other = addr
    · simp [execute, Command.breakpoint?, same]
    · simp [execute, Command.breakpoint?, same, Ne.symm same]
  | step count =>
    simp only [execute, Command.breakpoint?]
    split <;> rfl
  | proceed =>
    simp only [execute, Command.breakpoint?]
    split <;> rfl
  | _ => rfl

theorem mem_breakpoints_after (m : Monitor) (commands : List Command) (addr : UInt16) :
    addr ∈ (m.after files patience commands).breakpoints ↔
      (Command.latest addr commands).elim (addr ∈ m.breakpoints) (· = .setBreakpoint addr) := by
  induction commands using List.reverseRecOn with
  | nil => rfl
  | append_singleton commands command ih =>
    have last : m.after files patience (commands ++ [command]) =
        ((m.after files patience commands).execute files patience command).monitor :=
      List.foldl_append
    rw [last, mem_breakpoints_execute, Command.latest_concat]
    split
    · rfl
    · exact ih

end Monitor

namespace CommandLine

structure Leaves (limit : Nat) (c d : Machine) (failure : Option InvalidOpcode) : Prop where
  cpu : (c.runUntil (fun _ => false) limit 0).cpu = d
  headless : headless limit c =
    { output := summary d, failure := failure.map .instruction, records := d.journal.records }

theorem leaves_proceed (limit : Nat) (c : Machine) :
    Leaves limit c (Monitor.proceed [] limit c).1 (Monitor.proceed [] limit c).2.failure? := by
  obtain ⟨cpu, failure⟩ := Monitor.runUntil_eq limit 0 c
  refine ⟨cpu, ?_⟩
  rw [CommandLine.headless, cpu, failure]

end CommandLine

namespace Monitor

/-- What the monitor makes of its machine, in steps of that machine. -/
structure Drives (files : Files) (m : Monitor) : Prop where
  halted : m.cpu.halted = true → ∀ patience,
    (∀ count, m.execute files patience (.step count) = { monitor := m, output := haltedText }) ∧
      m.execute files patience .proceed = { monitor := m, output := haltedText }
  step : m.cpu.halted = false → ∀ patience count j, IsLeast (m.cpu.stops m.breakpoints) j →
    (m.execute files patience (.step count)).monitor =
      { m with cpu := m.cpu.stepped (min count.toNat j) }
  stepOn : m.cpu.halted = false → m.cpu.stops m.breakpoints = ∅ → ∀ patience count,
    (m.execute files patience (.step count)).monitor =
      { m with cpu := m.cpu.stepped count.toNat }
  proceed : m.cpu.halted = false → ∀ patience j, IsLeast (m.cpu.stops m.breakpoints) j →
    j ≤ patience →
    m.execute files patience .proceed =
      { monitor := { m with cpu := m.cpu.stepped j }
        output := "Resuming execution...\n" ++ (stopAt m.cpu j).text (m.cpu.stepped j).pc
          ++ toString ((m.cpu.stepped j).clock - m.cpu.clock).toNat ++ " cycles elapsed\n"
          ++ registersText (m.cpu.stepped j) }

theorem drives (files : Files) (m : Monitor) : m.Drives files where
  halted halted patience := by simp [execute, halted]
  step running patience count j least := by
    rw [execute, if_neg (ne_true_of_eq_false running)]
    change { m with cpu := (stepMany m.breakpoints count.toNat m.cpu "").1 } = _
    rw [fst_stepMany, fst_proceed least]
  stepOn running endless patience count := by
    rw [execute, if_neg (ne_true_of_eq_false running)]
    change { m with cpu := (stepMany m.breakpoints count.toNat m.cpu "").1 } = _
    rw [fst_stepMany, proceed_of_lt fun j stop => absurd (endless ▸ stop) (Set.notMem_empty j)]
  proceed running patience j least enough := by
    rw [execute, if_neg (ne_true_of_eq_false running), proceedReply,
      proceed_of_isLeast least enough]

/-- All drivers take steps of the machine. A command to step takes as many as it is told, and a
command to go on takes any number, but none behind a failure or a breakpoint, and neither touches a
halted machine; the second tells how far the clock has moved. A run without the monitor takes as
many as it may, but none behind a failure, which it returns. The breakpoints are those that the last
command about them has set. -/
theorem drivers_step (files : Files) :
    (∀ m : Monitor, m.Drives files) ∧
    (∀ (c : Machine) (limit : Nat),
      (∀ j, IsLeast c.failing j → j ≤ limit → ∃ failure,
        (c.stepped (j - 1)).step.2 = some failure ∧
          CommandLine.Leaves limit c (c.stepped j) (some failure)) ∧
      ((∀ j ∈ c.failing, limit < j) → CommandLine.Leaves limit c (c.stepped limit) none)) ∧
    ∀ patience commands cpu addr,
      addr ∈ (after files patience { cpu } commands).breakpoints ↔
        Command.latest addr commands = some (.setBreakpoint addr) := by
  refine ⟨drives files, fun c limit => ⟨fun j least enough => ?_, fun before => ?_⟩, ?_⟩
  · obtain ⟨failure, failed⟩ := Option.isSome_iff_exists.1 least.1.2
    refine ⟨failure, failed, ?_⟩
    rw [← Cpu.stops_nil] at least
    have leaves := CommandLine.leaves_proceed limit c
    rwa [proceed_of_isLeast least enough, stopAt, failed] at leaves
  · rw [← Cpu.stops_nil] at before
    have leaves := CommandLine.leaves_proceed limit c
    rwa [proceed_of_lt before] at leaves
  · intro patience commands cpu addr
    rw [mem_breakpoints_after]
    cases Command.latest addr commands with
    | none => simp
    | some command => simp

/-- An invalid opcode behind an instruction, with a breakpoint where the run starts. -/
theorem drivers_step_invalid :
    let files : Files := .ofList []
    let c := Machine.loaded [0xE8, 0x02]
    let m : Monitor := { cpu := c, breakpoints := [0x0000] }
    (m.execute files 9 (.step 9)).monitor = { m with cpu := c.stepped 2 } ∧
      (m.execute files 9 .proceed).monitor = { m with cpu := c.stepped 2 } ∧
      ∃ failure, failure.pc = 0x0001 ∧ CommandLine.Leaves 9 c (c.stepped 2) (some failure) := by
  intro files c m
  obtain ⟨drives, headless, -⟩ := drivers_step files
  have run : (c.step.2 = none ∧ c.step.1.pc = 0x0001) ∧
      (c.stepped 1).step.2.map (·.pc) = some 0x0001 := by
    decide +kernel
  obtain ⟨⟨runs, next⟩, place⟩ := run
  have fails : (c.stepped 1).step.2.isSome := by
    simpa using congrArg Option.isSome place
  have goesOn : ¬ (c.step.2.isSome ∨ c.step.1.pc ∈ m.breakpoints) := by
    rw [runs, next]
    decide
  have stop : IsLeast (c.stops m.breakpoints) 2 := by
    refine ⟨⟨by decide, .inl fails⟩, fun j found => ?_⟩
    have later : j ≠ 1 := fun first => goesOn (Cpu.one_mem_stops.1 (first ▸ found))
    have positive : 1 ≤ j := found.1
    omega
  have failing : IsLeast c.failing 2 :=
    ⟨⟨by decide, fails⟩, fun j found => stop.2 ⟨found.1, .inl found.2⟩⟩
  obtain ⟨failure, failed, leaves⟩ := (headless c 9).1 2 failing (by decide)
  rw [failed] at place
  refine ⟨(drives m).step rfl 9 9 2 stop, ?_, failure, Option.some.inj place, leaves⟩
  rw [(drives m).proceed rfl 9 2 stop (by decide)]

end Monitor

end Cycle6502
