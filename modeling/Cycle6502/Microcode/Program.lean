import Cycle6502.Micro.Listing
import Cycle6502.Timeline.Layout

/-! Microprograms: an instruction's timeline with its idle cycles folded into waits.

A wait runs from one synchronisation point to the next. Pinned slots and the final cycle are such
points; the operations of other slots run as soon as those before them are done. -/

set_option autoImplicit false

namespace Cycle6502

inductive Step where
  | wait (cycles : UInt32)
  /-- A wait that is lengthened when the access at its end goes to the slow bus. -/
  | stretchedWait (cycles : UInt32) (site : Site)
  | op (op : MicroOp)
  deriving DecidableEq, Repr, Inhabited

namespace Step

/-- The wait between two cycles, if the second is later. -/
def waitBetween (first last : UInt32) (site : Option Site) : List Step :=
  if first < last then
    match site with
    | some site => [.stretchedWait (last - first) site]
    | none => [.wait (last - first)]
  else []

/-- The steps of the slots from the synchronisation point `reached` on; `last` is the final
cycle, and what lies beyond it is dropped. -/
def ofSlots (last reached : UInt32) : Slots → List Step
  | [] => waitBetween reached last none
  | (cycle, slot) :: rest =>
    if cycle < last then
      if slot.pinned then
        waitBetween reached cycle slot.site ++ slot.ops.map .op ++ ofSlots last cycle rest
      else slot.ops.map .op ++ ofSlots last reached rest
    else if cycle = last then waitBetween reached last slot.site ++ slot.ops.map .op
    else waitBetween reached last none

def ofTimeline (t : Timeline) : List Step := ofSlots t.cycle 0 t.slots

open Listing in
def listing : Step → String
  | .wait cycles => call "Wait" [toString cycles.toNat]
  | .stretchedWait cycles site =>
    record "StretchedWait" [("cycles", toString cycles.toNat), ("at", site.name)]
  | .op m => call "Op" [m.listing]

/-- The cycles to add to a wait that starts at clock `now` and ends with an access.

The slow bus takes accesses at odd clocks only: a slow access is moved to the next odd clock, by
one cycle or two. -/
def stretch (cycles : UInt32) (slow : Bool) (now : UInt64) : UInt32 :=
  if slow then
    let odd := (now &&& 1).toUInt32
    (if cycles &&& 1 = 1 then odd ^^^ 1 else odd) + 1
  else 0

end Step

structure Microprogram where
  opcode : UInt8
  steps : List Step
  deriving DecidableEq, Repr, Inhabited

namespace Microprogram

/-- Compiles an opcode. There is nothing to compile for an opcode without an instruction, timing
or behaviour. -/
def compile (v : Variant) (opcode : UInt8) : Except LayoutError (Option Microprogram) :=
  if opcode ∈ untimedOpcodes then .ok none
  else match decode v opcode with
    | none => .ok none
    | some instruction => match Behaviour.of? instruction with
      | none => .ok none
      | some behaviour => match Schedule.layOut opcode instruction behaviour v with
        | .error e => .error e
        | .ok (.timed timeline) => .ok (some ⟨opcode, Step.ofTimeline timeline.finish⟩)
        | .ok (.delegated ops) => .ok (some ⟨opcode, ops.map .op⟩)

/-- The microprogram of an opcode, if it has one. -/
def of? (v : Variant) (opcode : UInt8) : Option Microprogram :=
  match compile v opcode with
  | .ok program => program
  | .error _ => none

end Microprogram

end Cycle6502
