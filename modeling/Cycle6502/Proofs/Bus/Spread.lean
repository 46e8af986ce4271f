import Cycle6502.Proofs.Bus.Stored

/-! A byte that is written to several places, of which the feedback register may be one. The order
of the writes does not show on the board. -/

set_option autoImplicit false

namespace Cycle6502.Board

/-- The second board is the first one once a byte has been written to some places and to no other,
whatever has been recorded. The RAM behind the feedback register is never written. -/
structure Spread (b b' : Board) (places : List UInt16) (value : UInt8) : Prop where
  found : ∀ addr ∈ places, b'.peek addr = value
  others : ∀ other, other ∉ places ∨ other = feedbackRegister → b'.ram.read other = b.ram.read other
  elsewhere : feedbackRegister ∉ places → b'.feedback = b.feedback ∧ b'.lines = b.lines
  register : feedbackRegister ∈ places →
    b'.feedback = value ∧
      b'.lines.requests = { b.lines.requests with feedback := value.toNat.testBit 0 } ∧
      b'.lines.nmi = (b.lines.nmi || (value.toNat.testBit 1 && !b.feedback.toNat.testBit 1))

variable {b b' c : Board} {addr : UInt16} {value : UInt8} {places : List UInt16}

namespace Stored

theorem ram_read (stored : b.Stored b' addr value) {other : UInt16}
    (kept : other ≠ addr ∨ other = feedbackRegister) : b'.ram.read other = b.ram.read other := by
  by_cases same : other = addr
  · -- What is kept at the place of a write is the RAM behind the register.
    have register : addr = feedbackRegister :=
      same ▸ kept.resolve_left fun different => different same
    rw [(stored.register register).1]
  · exact stored.others other same

theorem peek (stored : b.Stored b' addr value) {other : UInt16} (different : other ≠ addr) :
    b'.peek other = b.peek other := by
  unfold Board.peek
  split
  case isTrue register => exact (stored.elsewhere (register ▸ different.symm)).1
  case isFalse => exact stored.others other different

theorem spread (stored : b.Stored b' addr value) : b.Spread b' [addr] value where
  found other member := List.mem_singleton.1 member ▸ stored.found
  others other kept := stored.ram_read (kept.imp_left (by simp))
  elsewhere absent := stored.elsewhere fun same => absent (by simp [same])
  register present := (stored.register (List.mem_singleton.1 present).symm).2

end Stored

namespace Spread

theorem store (spread : b.Spread c places value) (stored : c.Stored b' addr value) :
    b.Spread b' (addr :: places) value where
  found other member := by
    by_cases same : other = addr
    · exact same ▸ stored.found
    · exact (stored.peek same).trans
        (spread.found other ((List.mem_cons.1 member).resolve_left same))
  others other kept := by
    rw [List.mem_cons, not_or] at kept
    rw [stored.ram_read (kept.imp_left And.left), spread.others other (kept.imp_left And.right)]
  elsewhere absent := by
    rw [List.mem_cons, not_or] at absent
    obtain ⟨feedback, lines⟩ := stored.elsewhere (Ne.symm absent.1)
    rw [feedback, lines]
    exact spread.elsewhere absent.2
  register present := by
    by_cases same : addr = feedbackRegister
    · obtain ⟨-, feedback, requests, nmi⟩ := stored.register same
      by_cases before : feedbackRegister ∈ places
      · obtain ⟨feedback', requests', nmi'⟩ := spread.register before
        rw [requests'] at requests
        rw [feedback', Bool.and_not_self, Bool.or_false, nmi'] at nmi
        exact ⟨feedback, requests, nmi⟩
      · obtain ⟨feedback', lines'⟩ := spread.elsewhere before
        rw [lines'] at requests nmi
        rw [feedback'] at nmi
        exact ⟨feedback, requests, nmi⟩
    · obtain ⟨feedback, lines⟩ := stored.elsewhere same
      rw [feedback, lines]
      exact spread.register ((List.mem_cons.1 present).resolve_left (Ne.symm same))

/-- Once a byte has been written back where it is, only writes to places that include it show. -/
theorem of_back (back : b.Stored c addr (b.peek addr)) (place : addr ∈ places)
    (spread : c.Spread b' places value) : b.Spread b' places value where
  found := spread.found
  others other kept := by
    have untouched : other ≠ addr ∨ other = feedbackRegister :=
      kept.imp_left fun absent same => absent (same ▸ place)
    rw [spread.others other kept, back.ram_read untouched]
  elsewhere absent := by
    obtain ⟨feedback, lines⟩ := back.elsewhere fun same => absent (same ▸ place)
    rw [← feedback, ← lines]
    exact spread.elsewhere absent
  register present := by
    obtain ⟨feedback, requests, nmi⟩ := spread.register present
    by_cases same : addr = feedbackRegister
    · have there : b.peek addr = b.feedback := if_pos same
      obtain ⟨-, feedback', requests', -⟩ := back.register same
      rw [requests'] at requests
      rw [back.nmi_of_back, feedback', there] at nmi
      exact ⟨feedback, requests, nmi⟩
    · obtain ⟨feedback', lines'⟩ := back.elsewhere same
      rw [lines'] at requests nmi
      rw [feedback'] at nmi
      exact ⟨feedback, requests, nmi⟩

theorem of_left (spread : c.Spread b' places value) (ram : c.ram = b.ram)
    (feedback : c.feedback = b.feedback) (lines : c.lines = b.lines) :
    b.Spread b' places value := by
  obtain ⟨found, others, elsewhere, register⟩ := spread
  rw [ram] at others
  rw [feedback] at elsewhere register
  rw [lines] at elsewhere register
  exact ⟨found, others, elsewhere, register⟩

theorem of_right (spread : b.Spread c places value) (same : SameButTime b' c) :
    b.Spread b' places value where
  found addr member := (same.peek addr).trans (spread.found addr member)
  others other kept := by rw [same.ram, spread.others other kept]
  elsewhere absent := by
    rw [same.feedback, same.lines]
    exact spread.elsewhere absent
  register present := by
    rw [same.feedback, same.lines]
    exact spread.register present

end Spread

end Cycle6502.Board
