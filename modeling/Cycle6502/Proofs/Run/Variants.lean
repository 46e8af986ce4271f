import Cycle6502.Proofs.Instruction.Disassembly
import Cycle6502.Proofs.Instruction.Duration
import Cycle6502.Proofs.Instruction.Variants

/-! Runs of the two processors side by side, and the one instruction that they share and lay out in
different ways: a jump through memory, which takes the NMOS part to the wrong page. -/

set_option autoImplicit false

namespace Cycle6502

theorem Textbook.stretch_of_fast {accesses : List (Nat × UInt16)}
    (fast : ∀ access ∈ accesses, isOneMegahertz access.2 = false) (now : Nat) :
    stretch now accesses = 0 := by
  induction accesses generalizing now with
  | nil => rfl
  | cons access rest ih =>
    obtain ⟨first, later⟩ := List.forall_mem_cons.1 fast
    have prompt : delay (now + access.1) access.2 = 0 := by simp [delay, first]
    simp only [stretch, prompt, Nat.add_zero, ih later]

namespace Machine

theorem Counterparts.receive {m d : Machine} (same : m.Counterparts d) (s : Signal) :
    Counterparts (m.receive s) (d.receive s) :=
  { same with bus := congrArg (Signalled.drive · s) same.bus }

/-- Both parts go through the same states as long as they share the instructions that they fetch and
enter no handler in decimal mode. -/
theorem Counterparts.after {m d : Machine} (same : m.Counterparts d) {happenings : List Happening}
    (shared : ∀ c ∈ m.starts happenings, c.halted = false → Shared (c.peek c.pc))
    (binary : ∀ c ∈ m.starts happenings, true ∉ entries c) :
    m.results happenings = d.results happenings ∧
      Counterparts (m.after happenings) (d.after happenings) := by
  induction happenings generalizing m d with
  | nil => exact ⟨rfl, same⟩
  | cons happening rest ih =>
    cases happening with
    | signal s => exact ih (same.receive s) shared binary
    | step =>
      obtain ⟨first, later⟩ := List.forall_mem_cons.1 shared
      obtain ⟨clear, clearLater⟩ := List.forall_mem_cons.1 binary
      have stepped := stepsAlike same first
      obtain ⟨results, remaining⟩ := ih (stepped.binary clear) later clearLater
      exact ⟨congrArg₂ List.cons stepped.result results, remaining⟩

/-- The place of the byte of a pointer that a jump takes for the high one. -/
def pointerNext : Variant → Site
  | .nmos => .effectiveNextInPage
  | .cmos => .effectiveNext

def jumpCycles : Variant → Nat
  | .nmos => 5
  | .cmos => 6

def pointerPlaces (m : Machine) (v : Variant) : List UInt16 :=
  [.effective, pointerNext v].map (m.siteAddress .indirect)

section
variable {m : Machine} {p : Microprogram}

theorem pc_run_indirect (found : m.microcode.lookup (m.peek m.pc) = some p)
    (decoded : decode m.variant (m.peek m.pc) = some ⟨.jmp, .indirect⟩) :
    (p.run m.fetchByte.2).pc = wordOf (m.peek (m.siteAddress .indirect .effective))
      (m.peek (m.siteAddress .indirect (pointerNext m.variant))) := by
  have similar := run_similar found decoded rfl (by decide)
  let fetched := MicroOp.performAll [.fetchAbsolute] m.fetchByte.2 {}
  obtain ⟨reads, address⟩ := m.fetchAbsolute
  have resolves (site : Site)
      (one : site ∈ [.effective, .effectiveNext, .effectiveNextInPage]) :
      fetched.2.resolve site = m.siteAddress .indirect site := by
    have finds : MicroOp.Finds (m.siteAddress .indirect) 0 (.read site none) fetched.2 :=
      finds_pointer address ⟨site, none, rfl, one⟩
    exact finds.1 site rfl
  let low := fetched.1.read (fetched.2.resolve .effective)
  -- Both bytes are found where the pointer was before: a latch is filled, not an address.
  have jumped : (p.run m.fetchByte.2).pc =
      wordOf low.1 (low.2.read (fetched.2.resolve (pointerNext m.variant))).1 := by
    rw [similar.pc]
    cases m.variant <;> rfl
  obtain ⟨first, behind⟩ := reads.read (fetched.2.resolve .effective)
  obtain ⟨second, -⟩ := behind.read (fetched.2.resolve (pointerNext m.variant))
  rw [jumped, first, second, resolves .effective (by decide), resolves (pointerNext m.variant)]
  cases m.variant <;> decide

theorem clock_run_indirect (found : m.microcode.lookup (m.peek m.pc) = some p)
    (decoded : decode m.variant (m.peek m.pc) = some ⟨.jmp, .indirect⟩)
    (fast : ∀ place ∈ m.pointerPlaces m.variant, isOneMegahertz place = false) :
    (p.run m.fetchByte.2).bus.clock =
      m.bus.clock + .ofNat (jumpCycles m.variant) := by
  obtain ⟨i, b, decoded', modelled, regular⟩ := Microcode.regular_of_lookup found
  cases decoded.symm.trans decoded'
  cases modelled
  let b : Behaviour := { effects := [.jump] }
  have sites : (b.sites m.variant .indirect).map (m.siteAddress .indirect) =
      m.pointerPlaces m.variant := by
    cases m.variant <;> rfl
  have prompt : Textbook.stretch m.bus.clock.toNat (m.accesses b .indirect) = 0 := by
    refine Textbook.stretch_of_fast (fun access member => fast access.2 ?_) _
    rw [accesses, sites] at member
    exact (List.of_mem_zip member).2
  have plain : m.crossing b .indirect = 0 := by simp [crossing]
  rw [m.clock_run regular (by decide), prompt, plain]
  cases m.variant <;> rfl

end

/-- What a jump through memory comes to on either part. The NMOS part stays in the page of the
pointer, which shows if that begins in its last place; and the CMOS part takes a cycle more. -/
structure JumpsApart (m d : Machine) : Prop where
  result : m.step.2 = none ∧ d.step.2 = none
  pending : m.takesInterrupt = d.takesInterrupt
  same : m.operandWord % 256 ≠ 255 → m.resumption = d.resumption
  samePage : m.operandWord % 256 = 255 →
    m.resumption = wordOf (m.peek (.ofNat m.operandWord))
      (m.peek (.ofNat (m.operandWord / 256 * 256)))
  nextPage : m.operandWord % 256 = 255 →
    d.resumption = wordOf (m.peek (.ofNat m.operandWord))
      (m.peek (.ofNat ((m.operandWord / 256 + 1) % 256 * 256)))
  later : (∀ place ∈ m.pointerPlaces .nmos ++ m.pointerPlaces .cmos,
      isOneMegahertz place = false) →
    d.step.1.bus.clock = m.step.1.bus.clock + 1

theorem decode_cmos_indirect {opcode : UInt8}
    (decoded : decode .nmos opcode = some ⟨.jmp, .indirect⟩) :
    decode .cmos opcode = some ⟨.jmp, .indirect⟩ := by
  revert decoded
  exact forall_byte
    (P := fun opcode => decode .nmos opcode = some ⟨.jmp, .indirect⟩ →
      decode .cmos opcode = some ⟨.jmp, .indirect⟩)
    (by decide +kernel) opcode

section
variable {m : Machine}

theorem step_indirect (running : m.halted = false)
    (decoded : decode m.variant (m.peek m.pc) = some ⟨.jmp, .indirect⟩) :
    m.step.2 = none ∧ m.takesInterrupt = m.decides ⟨.jmp, .indirect⟩ ∧
      m.resumption = wordOf (m.peek (m.siteAddress .indirect .effective))
        (m.peek (m.siteAddress .indirect (pointerNext m.variant))) ∧
      ((∀ place ∈ m.pointerPlaces m.variant, isOneMegahertz place = false) →
        m.step.1.bus.clock = m.bus.clock + .ofNat (jumpCycles m.variant) +
          .ofNat (7 * m.takesInterrupt.toNat)) := by
  obtain ⟨p, found⟩ : ∃ p, m.microcode.lookup (m.peek m.pc) = some p := by
    obtain ⟨t, -, compiled⟩ := Microprogram.of?_eq decoded rfl
      (timed_of_effects decoded rfl (by decide)) (by decide)
    exact ⟨_, (Microcode.lookup_eq _ _).trans compiled⟩
  obtain ⟨i, b, decoded', modelled, regular⟩ := Microcode.regular_of_lookup found
  cases decoded.symm.trans decoded'
  obtain ⟨succeeds, stepped⟩ := step_sameState running found
  have takes := Cpu.takesInterrupt_eq found
  refine ⟨succeeds, takes.trans (samples_once modelled regular).2,
    (resumption_eq running found).trans (pc_run_indirect found decoded), fun fast => ?_⟩
  rw [takes, stepped.bus, clock_settle, clock_run_indirect found decoded fast]

end

theorem jumpsApart {m d : Machine} (same : m.Counterparts d) (running : m.halted = false)
    (decoded : decode m.variant (m.peek m.pc) = some ⟨.jmp, .indirect⟩) : m.JumpsApart d := by
  have word : d.operandWord = m.operandWord := by
    simp only [operandWord, operandByte, same.peek, ← same.pc]
  have decoded' : decode d.variant (d.peek d.pc) = some ⟨.jmp, .indirect⟩ := by
    rw [same.nmos] at decoded
    rw [same.cmos, same.peek, ← same.pc]
    exact decode_cmos_indirect decoded
  obtain ⟨succeeds, takes, target, clock⟩ := step_indirect running decoded
  obtain ⟨succeeds', takes', target', clock'⟩ := step_indirect (same.halted ▸ running) decoded'
  have decides : m.decides ⟨.jmp, .indirect⟩ = d.decides ⟨.jmp, .indirect⟩ := by
    simp only [Machine.decides, masked, same.bus, same.flags]
    rfl
  have pending : m.takesInterrupt = d.takesInterrupt := takes.trans (decides.trans takes'.symm)
  have places : d.pointerPlaces d.variant = m.pointerPlaces .cmos := by
    rw [same.cmos]
    exact congrArg (fun w => [UInt16.ofNat w, .ofNat ((w + 1) % 65536)]) word
  rw [places] at clock'
  rw [same.nmos] at target clock
  rw [same.cmos] at target' clock'
  change _ = wordOf (m.peek (.ofNat m.operandWord))
    (m.peek (.ofNat (m.operandWord / 256 * 256 + (m.operandWord + 1) % 256))) at target
  change _ = wordOf (d.peek (.ofNat d.operandWord))
    (d.peek (.ofNat ((d.operandWord + 1) % 65536))) at target'
  rw [same.peek, same.peek, word] at target'
  refine ⟨⟨succeeds, succeeds'⟩, pending, fun inside => ?_, fun last => ?_, fun last => ?_,
    fun fast => ?_⟩
  · have next : m.operandWord / 256 * 256 + (m.operandWord + 1) % 256 =
        (m.operandWord + 1) % 65536 := by
      have bound : m.operandWord < 65536 := m.base_lt .absolute
      omega
    rw [target, target', next]
  · have next : m.operandWord / 256 * 256 + (m.operandWord + 1) % 256 =
        m.operandWord / 256 * 256 := by
      omega
    rw [target, next]
  · have next : (m.operandWord + 1) % 65536 = (m.operandWord / 256 + 1) % 256 * 256 := by omega
    rw [target', next]
  · obtain ⟨own, other⟩ := List.forall_mem_append.1 fast
    rw [clock own, clock' other, pending, same.bus]
    simp only [jumpCycles]
    grind

/-- The two parts agree on what they share. On an instruction that both decode alike they differ in
the decimal flag behind an entry only, so they go the same way through whole runs without entries in
decimal mode. A jump through memory they lay out in different ways. -/
theorem variants_agree {m d : Machine} (same : m.Counterparts d) :
    ((m.halted = false → Shared (m.peek m.pc)) → m.StepsAlike d) ∧
      (∀ happenings,
        (∀ c ∈ m.starts happenings,
          (c.halted = false → Shared (c.peek c.pc)) ∧ true ∉ entries c) →
        m.results happenings = d.results happenings ∧
          Counterparts (m.after happenings) (d.after happenings)) ∧
      (m.halted = false → decode m.variant (m.peek m.pc) = some ⟨.jmp, .indirect⟩ →
        m.JumpsApart d) :=
  ⟨stepsAlike same,
    fun _ each => same.after (fun c start => (each c start).1) fun c start => (each c start).2,
    jumpsApart same⟩

theorem counterparts_retype {m : Machine} {s : Microcode} (nmos : m.variant = .nmos)
    (cmos : s.variant = .cmos) : m.Counterparts (m.retype s) :=
  ⟨nmos, cmos, rfl, rfl, rfl, rfl, rfl, rfl⟩

/-- A break in decimal mode, a run into an NMI in binary mode, and a jump through the last place of
a page. -/
theorem variants_agree_loaded :
    let store := Microcode.build .cmos .table
    let brk : Machine := { loaded [0x00] with flags := { decimal := true } }
    let load := loaded [0xA9, 0x05, 0xEA]
    let happenings := [.step, .signal .requestNmi, .step]
    let jump := loaded [0x6C, 0xFF, 0x00]
    (ModeApart brk.step.1 (brk.retype store).step.1 ∧
        brk.step.1.bus = (brk.retype store).step.1.bus) ∧
      Counterparts (load.after happenings) ((load.retype store).after happenings) ∧
      jump.resumption = 0x6C00 ∧ resumption (jump.retype store) = 0x0000 ∧
      (jump.retype store).step.1.bus.clock = jump.step.1.bus.clock + 1 := by
  intro store brk load happenings jump
  refine ⟨?_, ?_, ?_⟩
  · have shared : Shared (brk.peek brk.pc) := by decide +kernel
    have entry : brk.entries = [true] := by decide +kernel
    have same : brk.Counterparts (brk.retype store) := counterparts_retype rfl rfl
    have alike := (variants_agree same).1 fun _ => shared
    have decimal : true ∈ brk.entries := by simp [entry]
    rcases alike.board decimal with ⟨-, bus⟩ | ⟨twice, -⟩
    · exact ⟨alike.decimal decimal, bus⟩
    · exact absurd (entry.symm.trans twice) (by decide)
  · have each : ∀ c ∈ load.starts happenings,
        (c.halted = false → Shared (c.peek c.pc)) ∧ true ∉ entries c := by
      refine List.forall_mem_cons.2 ⟨?_, List.forall_mem_cons.2 ⟨?_, List.forall_mem_nil _⟩⟩ <;>
        decide +kernel
    have same : load.Counterparts (load.retype store) := counterparts_retype rfl rfl
    exact ((variants_agree same).2.1 happenings each).2
  · have decoded : decode jump.variant (jump.peek jump.pc) = some ⟨.jmp, .indirect⟩ := by
      decide +kernel
    have same : jump.Counterparts (jump.retype store) := counterparts_retype rfl rfl
    have apart := (variants_agree same).2.2 rfl decoded
    have last : jump.operandWord = 0xFF := by decide +kernel
    have low : jump.peek 0x00FF = 0x00 := peek_loaded (by decide) (by decide)
    have high : jump.peek 0x0100 = 0x00 := peek_loaded (by decide) (by decide)
    have start : jump.peek 0x0000 = 0x6C := by decide +kernel
    have samePage := apart.samePage (last ▸ rfl)
    have nextPage := apart.nextPage (last ▸ rfl)
    rw [last] at samePage nextPage
    have places : jump.pointerPlaces .nmos ++ jump.pointerPlaces .cmos =
        [0x00FF, 0x0000, 0x00FF, 0x0100] :=
      congrArg (fun w : Nat => [UInt16.ofNat w, .ofNat (w / 256 * 256 + (w + 1) % 256), .ofNat w,
        .ofNat ((w + 1) % 65536)]) last
    exact ⟨samePage.trans (congrArg₂ wordOf low start),
      nextPage.trans (congrArg₂ wordOf low high), apart.later (places ▸ by simp [isOneMegahertz])⟩

/-- An NMI behind a break in decimal mode: the second status that is stacked is not the same. -/
theorem brk_interrupted_apart :
    let m : Machine := requestNmi { loaded [0x00] with flags := { decimal := true } }
    let d := m.retype (.build .cmos .table)
    m.Counterparts d ∧ Shared (m.peek m.pc) ∧
      m.step.1.bus.ram.read 0x01FB ≠ d.step.1.bus.ram.read 0x01FB := by
  intro m d
  have same : m.Counterparts d := counterparts_retype rfl rfl
  have shared : Shared (m.peek m.pc) := by decide +kernel
  have entries : m.entries = [true, true] := by decide +kernel
  obtain ⟨once, -⟩ | ⟨-, p, decimal, apart⟩ :=
    (stepsAlike same fun _ => shared).board (by simp [entries])
  · exact absurd (entries.symm.trans once) (by decide)
  obtain ⟨here, there⟩ := apart.here
  have place : stackAddress (m.registers.sp - 5) = 0x01FB := by decide +kernel
  rw [place] at here there
  refine ⟨same, shared, fun equal => ?_⟩
  rw [here, there] at equal
  have kept := congrArg (fun status => (Flags.ofByte status).decimal) equal
  simp only [Flags.ofByte_toByte, decimal] at kept
  cases kept

end Machine

end Cycle6502
