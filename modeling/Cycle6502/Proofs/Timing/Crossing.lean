import Cycle6502.Proofs.Instruction.Reading
import Cycle6502.Proofs.Run.Replay
import Cycle6502.Proofs.Timing.Alignment

/-! When an indexed instruction reads the address that lacks its carry. A store does so in a cycle
of its own, which waits for the slow bus; a load does so in the cycle of a probe, which does not. -/

set_option autoImplicit false

namespace Cycle6502

/-- The accesses among some events, each with the clock at which it is made. -/
def BusEvent.dated (now : UInt64) : List BusEvent → List (UInt64 × BusEvent)
  | [] => []
  | .wait cycles :: rest => dated (now + cycles.toUInt64) rest
  | event :: rest => (now, event) :: dated now rest

theorem BusEvent.map_dated (now : UInt64) (events : List BusEvent) :
    (dated now events).map Prod.snd = events.filter (!·.isWait) := by
  induction events generalizing now with
  | nil => rfl
  | cons event rest ih =>
    cases event with
    | wait cycles => exact ih _
    | read | write | zeroPageRead | zeroPageWrite => exact congrArg (_ :: ·) (ih _)

namespace Contents

variable {s s' : Contents}

theorem clock_accept? {event : BusEvent} (access : event.isWait = false)
    (accepted : s.accept? event = some s') : s'.clock = s.clock := by
  cases event with
  | wait cycles => cases access
  | zeroPageWrite addr value =>
    cases accepted
    rfl
  | write addr value =>
    simp only [accept?] at accepted
    split at accepted <;> cases accepted <;> rfl
  | read addr value | zeroPageRead addr value =>
    simp only [accept?, Option.ite_none_right_eq_some, Option.some.injEq] at accepted
    rw [← accepted.2]

theorem dated_append {events : List BusEvent} (replays : s.replay? events = some s')
    (more : List BusEvent) :
    BusEvent.dated s.clock (events ++ more) =
      BusEvent.dated s.clock events ++ BusEvent.dated s'.clock more := by
  induction events generalizing s with
  | nil =>
    cases replays
    rfl
  | cons event rest ih =>
    obtain ⟨next, accepted, replays⟩ := Option.bind_eq_some_iff.1
      ((List.foldlM_cons ..).symm.trans replays)
    have later := ih replays
    cases event with
    | wait cycles =>
      cases accepted
      exact later
    | read | write | zeroPageRead | zeroPageWrite =>
      rw [clock_accept? rfl accepted] at later
      exact congrArg (_ :: ·) later

end Contents

namespace Step

theorem performAll_deeds (steps : List Step) (l : Latches) {m m' : Machine}
    (similar : Cpu.Similar Board.SameButTime False m m') :
    Cpu.Similar Board.SameButTime False (performAll steps m l).1
        (MicroOp.performAll (deeds steps) m' l).1 ∧
      (performAll steps m l).2 = (MicroOp.performAll (deeds steps) m' l).2 := by
  induction steps generalizing m m' l with
  | nil => exact ⟨similar, rfl⟩
  | cons s rest ih =>
    cases s with
    | wait cycles => exact ih l { similar with bus := similar.bus.advance_left cycles }
    | stretchedWait cycles site => exact ih l { similar with bus := similar.bus.advance_left _ }
    | op op =>
      by_cases check : op = .checkInterrupt
      · subst check
        exact ih l { similar with pending := False.elim }
      · obtain ⟨performed, same⟩ := op.perform_similar Board.SameButTime.simulation l
          (op.fastWithin_true l) similar
        have later := ih (op.perform m' l).2 performed
        rw [← same] at later
        simpa only [deeds_op check, performAll, perform, MicroOp.performAll, same] using later

theorem records_performAll {steps : List Step} (short : ∀ s ∈ steps, s.span 0 < 16) (m : Machine)
    (l : Latches) :
    (∃ events, Board.Records m.bus (performAll steps m l).1.bus events) ∧
      ∀ journal, ∃ events,
        Board.Records m.bus { (performAll steps m l).1 with journal }.settle.bus events := by
  have heard := performAll_similar Overheard.Accounts.lockstep (fastWithin_true steps m l) short
    m.similar_overheard
  refine ⟨⟨_, heard.bus.made ▸ m.bus.records_after _⟩, fun journal => ?_⟩
  have settled : Cpu.Similar (Overheard.Accounts m.bus) True
      { (performAll steps m l).1 with journal }.settle (performAll steps m.overheard l).1.settle :=
    Cpu.Similar.settle Overheard.Accounts.lockstep { heard with }
  exact ⟨_, settled.bus.made ▸ m.bus.records_after _⟩

end Step

namespace Machine

def dated (m : Machine) : List (UInt64 × BusEvent) :=
  BusEvent.dated m.bus.clock ((m.recording.step.1.bus.events.getD #[]).toList)

/-- The next step reads the address that lacks its carry, at a clock, behind its code and its
pointer. -/
def ReadsEarlyAt (m : Machine) (mode : Mode) (clock : UInt64) : Prop :=
  ∃ before after, m.dated = before ++ (clock, m.earlyRead mode) :: after ∧
    before.map Prod.snd = m.codeReads (1 + mode.operandBytes) ++ m.pointerReads mode

theorem ReadsEarlyAt.unique {m : Machine} {mode : Mode} {clock clock' : UInt64}
    (reads : m.ReadsEarlyAt mode clock) (reads' : m.ReadsEarlyAt mode clock') : clock = clock' := by
  obtain ⟨before, after, dated, same⟩ := reads
  obtain ⟨before', after', dated', same'⟩ := reads'
  have length : before.length = before'.length := by
    rw [← List.length_map Prod.snd, same, ← same', List.length_map]
  obtain ⟨-, rest⟩ := List.append_inj (dated.symm.trans dated') length
  exact congrArg Prod.fst (List.cons.inj rest).1

theorem Located.of_similar {m d d' : Machine} {mode : Mode} {addr : UInt16} {l : Latches}
    {decided : Prop} (located : m.Located mode addr d' l)
    (similar : Cpu.Similar Board.SameButTime decided d d') : m.Located mode addr d l where
  reads :=
    { registers := similar.registers.trans located.reads.registers
      flags := similar.flags.trans located.reads.flags
      halted := similar.halted.trans located.reads.halted
      pc := similar.pc.trans located.reads.pc
      ram := similar.bus.ram.trans located.reads.ram
      feedback := similar.bus.feedback.trans located.reads.feedback
      lines := similar.bus.lines.trans located.reads.lines
      accesses := similar.bus.accesses.trans located.reads.accesses }
  address := located.address
  early := located.early

theorem located_steps {m d : Machine} {mode : Mode} {addr : UInt16} {steps : List Step}
    {l : Latches} (found : m.effectiveAddress mode = some addr)
    (deeds : Step.deeds steps = mode.locating)
    (reached : Step.performAll steps m.fetchByte.2 {} = (d, l)) : m.Located mode addr d l := by
  obtain ⟨performed, same⟩ := Step.performAll_deeds steps {}
    (Cpu.Similar.refl Board.SameButTime.refl False m.fetchByte.2)
  rw [deeds, reached] at performed same
  have located : m.Located mode addr (MicroOp.performAll mode.locating m.fetchByte.2 {}).1
      (MicroOp.performAll mode.locating m.fetchByte.2 {}).2 := m.located found
  rw [← same] at located
  exact located.of_similar performed

section
variable {m d : Machine} {p : Microprogram} {l : Latches} (running : m.halted = false)
  (found : m.microcode.lookup (m.peek m.pc) = some p)
  {first rest : List Step} {op : MicroOp} (split : p.steps = first ++ .op op :: rest)
include running found split

/-- What is recorded of a step, before and behind an operation of its program. -/
theorem records_split (reached : Step.performAll first m.fetchByte.2 {} = (d, l)) :
    ∃ before after, Board.Records m.bus d.bus before ∧
      Board.Records (op.perform d l).1.bus m.step.1.bus after := by
  obtain ⟨_, _, -, -, regular⟩ := Microcode.regular_of_lookup found
  have short : ∀ s ∈ p.steps, s.span 0 < 16 := fun s member => regular.span_lt member
  obtain ⟨shortFirst, shortRest⟩ := List.forall_mem_append.1 (split ▸ short)
  have fetched : Board.Records m.bus m.fetchByte.2.bus [.read m.pc (m.peek m.pc)] :=
    .event rfl (if_pos rfl)
  obtain ⟨⟨before, recorded⟩, -⟩ := Step.records_performAll shortFirst m.fetchByte.2 {}
  obtain ⟨journal, stepped⟩ := Cpu.step_settle running found
  obtain ⟨after, settled⟩ := (Step.records_performAll (List.forall_mem_cons.1 shortRest).2
    (op.perform d l).1 (op.perform d l).2).2 journal
  have ran : p.run m.fetchByte.2 =
      (Step.performAll rest (op.perform d l).1 (op.perform d l).2).1 := by
    rw [Microprogram.run, split, Step.performAll_append, reached]
    rfl
  rw [reached] at recorded
  refine ⟨_, after, fetched.trans recorded, ?_⟩
  rw [stepped, ran]
  exact settled

theorem readsEarlyAt_split (reached : Step.performAll first m.recording.fetchByte.2 {} = (d, l))
    {mode : Mode} {addr : UInt16} {events : List BusEvent} {clock : UInt64}
    (located : m.recording.Located mode addr d l) (indexed : mode.site = .carried)
    (records : Board.Records d.bus (op.perform d l).1.bus events)
    (dates : BusEvent.dated d.bus.clock events =
      [(clock, .read l.nonCarried (d.peek l.nonCarried))]) : m.ReadsEarlyAt mode clock := by
  obtain ⟨before, after, front, back⟩ :=
    records_split (m := m.recording) running found split reached
  have recorded : d.bus.events = some before.toArray := by
    rw [front.recorded]
    simp [recording, Board.record]
  have accesses := located.reads.accesses
  rw [recorded] at accesses
  have earlier : (BusEvent.dated m.bus.clock before).map Prod.snd =
      m.codeReads (1 + mode.operandBytes) ++ m.pointerReads mode := by
    rw [BusEvent.map_dated]
    exact Option.some.inj accesses
  have early : BusEvent.read l.nonCarried (d.peek l.nonCarried) = m.earlyRead mode := by
    rw [located.early indexed, located.reads.peek]
    rfl
  have whole := (front.trans (records.trans back)).recorded
  rw [early] at dates
  refine ⟨BusEvent.dated m.bus.clock before,
    BusEvent.dated (op.perform d l).1.bus.clock after, ?_, earlier⟩
  -- The events of the step are those before the operation, its own and those behind it.
  calc
    m.dated = BusEvent.dated m.bus.clock (before ++ (events ++ after)) := by
      rw [dated, whole]
      simp [recording, Board.record]
    _ = BusEvent.dated m.bus.clock before ++ BusEvent.dated d.bus.clock (events ++ after) :=
      Contents.dated_append front.replays _
    _ = BusEvent.dated m.bus.clock before ++ (BusEvent.dated d.bus.clock events ++
          BusEvent.dated (op.perform d l).1.bus.clock after) :=
      congrArg (_ ++ ·) (Contents.dated_append records.replays _)
    _ = _ := by rw [dates, List.singleton_append]

end

end Machine

namespace Mode

/-- The cycle in which an indexed instruction reads the address that lacks its carry, if it does. -/
def earlyCycle : Mode → Nat
  | .indirectIndexed => 5
  | _ => 4

def probing : Mode → List Step
  | .absoluteX => [.wait 3, .op .checkInterrupt, .op .fetchAbsolute, .op (.indexAbsolute .x)]
  | .absoluteY => [.wait 3, .op .checkInterrupt, .op .fetchAbsolute, .op (.indexAbsolute .y)]
  | .indirectIndexed =>
    [.op (.fetchPointer none), .op (.zeroPageRead .pointer .low), .wait 4, .op .checkInterrupt,
      .op (.zeroPageRead .pointerNext .high), .op .joinPointer, .op (.indexAbsolute .y)]
  | _ => []

def approaching (mode : Mode) : List Step :=
  mode.locating.map .op ++
    [.stretchedWait (.ofNat mode.earlyCycle) .nonCarried, .op .checkInterrupt]

section
variable {mode : Mode} (indexed : mode.site = .carried)
include indexed

theorem inMemory_of_indexed : mode.inMemory := by
  cases mode <;> cases indexed <;> rfl

theorem deeds_probing : Step.deeds mode.probing = mode.locating := by
  cases mode <;> cases indexed <;> rfl

theorem deeds_approaching : Step.deeds mode.approaching = mode.locating := by
  cases mode <;> cases indexed <;> rfl

end

end Mode

section
variable {v : Variant} {opcode : UInt8} {i : Instruction} {b : Behaviour}
  (decoded : decode v opcode = some i) (modelled : Behaviour.of? i = some b)
  (indexed : i.mode.site = .carried)
include decoded indexed

theorem timed_of_indexed : opcode ∉ untimedOpcodes := by
  intro untimed
  rw [List.mem_singleton.1 untimed] at decoded
  cases v <;> cases decoded <;> cases indexed

include modelled

theorem Microprogram.of?_probing (reads : b.reads = true) (pure : b.writes = false) :
    ∃ p rest, of? v opcode = some p ∧ p.steps = i.mode.probing ++ .op .pageCrossProbe :: rest := by
  have direct : i.mode ≠ .relative := fun relative => nomatch relative ▸ indexed
  obtain ⟨t, laid, compiled⟩ :=
    of?_eq decoded modelled (timed_of_indexed decoded indexed) direct
  obtain ⟨mnemonic, mode⟩ := i
  obtain ⟨opening, effects, _, _, extra⟩ := b
  cases reads
  cases pure
  refine ⟨_, .stretchedWait 1 .carried :: .op (.read .carried (some .operand)) ::
    (effects.map MicroOp.effect).map .op, compiled, ?_⟩
  cases mode <;> cases indexed <;> cases laid <;> cbv

theorem Microprogram.of?_approaching (pure : b.reads = false) (writes : b.writes = true) :
    ∃ p rest, of? v opcode = some p ∧
      p.steps = i.mode.approaching ++ .op (.read .nonCarried none) :: rest := by
  have direct : i.mode ≠ .relative := fun relative => nomatch relative ▸ indexed
  obtain ⟨t, laid, compiled⟩ :=
    of?_eq decoded modelled (timed_of_indexed decoded indexed) direct
  obtain ⟨mnemonic, mode⟩ := i
  obtain ⟨opening, effects, _, _, extra⟩ := b
  cases writes
  cases pure
  refine ⟨_, (effects.map MicroOp.effect).map .op ++
    [.stretchedWait 1 .carried, .op (.write .carried)], compiled, ?_⟩
  cases mode <;> cases indexed <;> cases laid <;> cbv

end

namespace Machine

theorem Located.carried_ne {m d : Machine} {mode : Mode} {addr : UInt16} {l : Latches}
    (located : m.Located mode addr d l) (indexed : mode.site = .carried)
    (found : m.effectiveAddress mode = some addr) (carries : m.carries mode) :
    l.carried ≠ l.nonCarried := by
  have resolved : l.resolve mode.site = addr := located.address
  rw [indexed] at resolved
  have carried : l.carried = addr := resolved
  rw [carried, located.early indexed]
  exact fun same => (m.eq_nonCarried_iff indexed found).1 same carries

section
variable {m : Machine} {i : Instruction} {b : Behaviour} (running : m.halted = false)
  (decoded : decode m.variant (m.peek m.pc) = some i) (modelled : Behaviour.of? i = some b)
  (indexed : i.mode.site = .carried)
include running decoded modelled indexed

theorem readsEarlyAt_load (reads : b.reads = true) (pure : b.writes = false)
    (carries : m.carries i.mode) :
    m.ReadsEarlyAt i.mode (m.bus.clock + .ofNat i.mode.earlyCycle) := by
  obtain ⟨p, rest, compiled, split⟩ :=
    Microprogram.of?_probing decoded modelled indexed reads pure
  have found : m.microcode.lookup (m.peek m.pc) = some p :=
    (Microcode.lookup_eq _ _).trans compiled
  obtain ⟨addr, address⟩ := m.effectiveAddress_isSome (Mode.inMemory_of_indexed indexed)
  generalize reached : Step.performAll i.mode.probing m.recording.fetchByte.2 {} = state
  obtain ⟨d, l⟩ := state
  have located : m.recording.Located i.mode addr d l :=
    located_steps address (Mode.deeds_probing indexed) reached
  have clock : d.bus.clock + 1 = m.bus.clock + .ofNat i.mode.earlyCycle := by
    have same : d = (Step.performAll i.mode.probing m.recording.fetchByte.2 {}).1 := by rw [reached]
    rw [same]
    clear * - indexed
    obtain ⟨mnemonic, mode⟩ := i
    cases mode <;> cases indexed <;> exact UInt64.add_assoc _ _ _
  have probe : (MicroOp.pageCrossProbe.perform d l).1 = ((d.wait 1).read l.nonCarried).2 :=
    congrArg Prod.fst (if_neg (located.carried_ne indexed address carries))
  have waited : Board.Records d.bus (d.wait 1).bus [.wait 1] := .event rfl rfl
  have touched : Board.Records (d.wait 1).bus ((d.wait 1).read l.nonCarried).2.bus
      [.read l.nonCarried (d.peek l.nonCarried)] := .event rfl (if_pos rfl)
  refine readsEarlyAt_split running found split reached located indexed
    (probe ▸ waited.trans touched) ?_
  rw [← clock]
  rfl

theorem readsEarlyAt_store (pure : b.reads = false) (writes : b.writes = true) :
    m.ReadsEarlyAt i.mode (m.bus.clock + .ofNat (i.mode.earlyCycle +
      Textbook.delay (m.bus.clock.toNat + i.mode.earlyCycle) (m.nonCarried i.mode))) := by
  obtain ⟨p, rest, compiled, split⟩ :=
    Microprogram.of?_approaching decoded modelled indexed pure writes
  have found : m.microcode.lookup (m.peek m.pc) = some p :=
    (Microcode.lookup_eq _ _).trans compiled
  obtain ⟨addr, address⟩ := m.effectiveAddress_isSome (Mode.inMemory_of_indexed indexed)
  generalize reached : Step.performAll i.mode.approaching m.recording.fetchByte.2 {} = state
  obtain ⟨d, l⟩ := state
  have located : m.recording.Located i.mode addr d l :=
    located_steps address (Mode.deeds_approaching indexed) reached
  -- In front of its wait the store has found its operand, in no time.
  generalize start : MicroOp.performAll i.mode.locating m.recording.fetchByte.2 {} = state
    at reached
  have begun : state.1.bus.clock = m.bus.clock := by
    rw [← start]
    clear * - indexed
    obtain ⟨mnemonic, mode⟩ := i
    cases mode <;> cases indexed <;> rfl
  have waited : (((Step.stretchedWait (.ofNat i.mode.earlyCycle) .nonCarried).perform state.1
      state.2).1.sampleInterrupts, state.2) = (d, l) := by
    rw [← reached, Mode.approaching, Step.performAll_append, Step.performAll_ops, start]
    rfl
  have early : state.2.resolve .nonCarried = m.nonCarried i.mode := by
    rw [congrArg Prod.snd waited]
    exact located.early indexed
  have clock : d.bus.clock = m.bus.clock + .ofNat (i.mode.earlyCycle +
      Textbook.delay (m.bus.clock.toNat + i.mode.earlyCycle) (m.nonCarried i.mode)) := by
    have short : (UInt32.ofNat i.mode.earlyCycle).toNat < 2 ^ 32 - 2 := by
      cases i.mode <;> decide
    have ended := Step.clock_stretchedWait state.1 state.2 .nonCarried short
    have cycles : (UInt32.ofNat i.mode.earlyCycle).toNat = i.mode.earlyCycle := by
      cases i.mode <;> rfl
    rw [begun, early, cycles] at ended
    rw [← ended]
    exact congrArg (fun state => state.1.bus.clock) waited.symm
  have touched : Board.Records d.bus ((MicroOp.read .nonCarried none).perform d l).1.bus
      [.read l.nonCarried (d.peek l.nonCarried)] := .event rfl (if_pos rfl)
  refine readsEarlyAt_split running found split reached located indexed touched ?_
  rw [← clock]
  rfl

end

/-- When the address that lacks its carry is read, for every machine and every indexed load or
store. A store's read waits for the slow bus. A load's, which it makes when there is a carry, does
not: it is made in its cycle whatever the address and whatever the clock, so that it comes one or
two cycles before that of a store wherever the address is slow, and at an even clock as well as at
an odd one. -/
theorem step_readsEarly {m : Machine} {i : Instruction} {b : Behaviour}
    (running : m.halted = false) (decoded : decode m.variant (m.peek m.pc) = some i)
    (modelled : Behaviour.of? i = some b)
    (indexed : i.mode ∈ [.absoluteX, .absoluteY, .indirectIndexed]) :
    (b.reads = true → b.writes = false → m.carries i.mode → ∀ clock,
      m.ReadsEarlyAt i.mode clock ↔ clock = m.bus.clock + .ofNat i.mode.earlyCycle) ∧
    (b.reads = false → b.writes = true → ∀ clock,
      m.ReadsEarlyAt i.mode clock ↔ clock = m.bus.clock + .ofNat (i.mode.earlyCycle +
        Textbook.delay (m.bus.clock.toNat + i.mode.earlyCycle) (m.nonCarried i.mode))) := by
  have indexed : i.mode.site = .carried := by
    revert indexed
    cases i.mode <;> decide
  constructor
  · intro reads pure carries clock
    have early := readsEarlyAt_load running decoded modelled indexed reads pure carries
    exact ⟨fun other => other.unique early, fun same => same ▸ early⟩
  · intro pure writes clock
    have early := readsEarlyAt_store running decoded modelled indexed pure writes
    exact ⟨fun other => other.unique early, fun same => same ▸ early⟩

/-- A store through a pointer, due at an odd clock to read a slow address, and the load from
there. -/
theorem step_readsEarly_pointer :
    let store := loaded [0x91, 0x03, 0x00, 0xF0, 0xFD]
    let load := loaded [0xB1, 0x03, 0x00, 0xF0, 0xFD]
    store.nonCarried .indirectIndexed = 0xFD10 ∧ load.nonCarried .indirectIndexed = 0xFD10 ∧
      store.ReadsEarlyAt .indirectIndexed 7 ∧ load.ReadsEarlyAt .indirectIndexed 5 := by
  intro store load
  have stores : decode store.variant (store.peek store.pc) = some ⟨.sta, .indirectIndexed⟩ := by
    decide +kernel
  have loads : decode load.variant (load.peek load.pc) = some ⟨.lda, .indirectIndexed⟩ := by
    decide +kernel
  have carries : load.carries .indirectIndexed := by decide +kernel
  have early : store.nonCarried .indirectIndexed = 0xFD10 := by decide +kernel
  refine ⟨early, by decide +kernel, ?_, ?_⟩
  · rw [(step_readsEarly rfl stores rfl (by decide)).2 rfl rfl, early]
    decide
  · exact ((step_readsEarly rfl loads rfl (by decide)).1 rfl rfl carries 5).2 (by decide)

/-- A load of which the index carries out of a slow page reads that page at an even clock, without
any wait for the slow bus; the store there reads it at the next odd one. -/
theorem readsEarlyAt_even :
    let load := loaded [0xB9, 0xE0, 0xFE]
    let store := loaded [0x99, 0xE0, 0xFE]
    decode load.variant (load.peek load.pc) = some ⟨.lda, .absoluteY⟩ ∧
      load.carries .absoluteY ∧ load.nonCarried .absoluteY = 0xFE00 ∧ isOneMegahertz 0xFE00 ∧
      load.ReadsEarlyAt .absoluteY 4 ∧ (∀ clock, load.ReadsEarlyAt .absoluteY clock → clock = 4) ∧
      store.ReadsEarlyAt .absoluteY 5 := by
  intro load store
  have loads : decode load.variant (load.peek load.pc) = some ⟨.lda, .absoluteY⟩ := by
    decide +kernel
  have stores : decode store.variant (store.peek store.pc) = some ⟨.sta, .absoluteY⟩ := by
    decide +kernel
  have carries : load.carries .absoluteY := by decide +kernel
  have early : load.nonCarried .absoluteY = 0xFE00 := by decide +kernel
  have same : store.nonCarried .absoluteY = 0xFE00 := by decide +kernel
  have even : load.ReadsEarlyAt .absoluteY (0 + .ofNat 4) :=
    readsEarlyAt_load rfl loads rfl rfl rfl rfl carries
  have odd := readsEarlyAt_store (m := store) rfl stores rfl rfl rfl rfl
  have due : store.bus.clock + .ofNat (Mode.absoluteY.earlyCycle +
      Textbook.delay (store.bus.clock.toNat + Mode.absoluteY.earlyCycle)
        (store.nonCarried .absoluteY)) = 5 := by
    rw [same]
    decide
  rw [due] at odd
  exact ⟨loads, carries, early, by decide, even, fun clock other => other.unique even, odd⟩

end Machine

end Cycle6502
