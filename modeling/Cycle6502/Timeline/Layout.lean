import Cycle6502.Isa.Behaviour
import Cycle6502.Isa.Decode
import Cycle6502.Text.Hex
import Cycle6502.Timeline.Basic

/-! The layout of an instruction: its cycles by addressing mode. -/

set_option autoImplicit false

namespace Cycle6502

inductive LayoutError where
  | writeInImmediate (opcode : UInt8) (mnemonic : Mnemonic)
  | memoryOperandInImplied (opcode : UInt8) (mnemonic : Mnemonic)
  | unsupportedMode (opcode : UInt8) (instruction : Instruction)
  deriving DecidableEq, Repr

def LayoutError.message : LayoutError → String
  | .writeInImmediate opcode m =>
    "opcode 0x" ++ Text.hexByte opcode ++ ": " ++ m.name
      ++ " writes memory and cannot use immediate addressing"
  | .memoryOperandInImplied opcode m =>
    "opcode 0x" ++ Text.hexByte opcode ++ ": " ++ m.name
      ++ " accesses memory and cannot use implied addressing"
  | .unsupportedMode opcode i =>
    "opcode 0x" ++ Text.hexByte opcode ++ ": " ++ i.mnemonic.name ++ " does not support "
      ++ i.mode.name ++ " addressing"

inductive Schedule where
  | timed (timeline : Timeline)
  /-- The operations advance the clock and sample the interrupt lines themselves. -/
  | delegated (ops : List MicroOp)
  deriving DecidableEq

namespace Timeline

def appendEffects (t : Timeline) (effects : List Effect) : Timeline :=
  t.append (effects.map .effect)

def implied (b : Behaviour) : Timeline :=
  let cycles := if 1 + b.extra < 2 then 2 else 1 + b.extra
  empty.appendEffects b.opening |>.tick cycles |>.pin |>.appendEffects b.effects

def immediate (b : Behaviour) : Timeline :=
  empty.tick 2 |>.append [.fetchImmediate] |>.appendEffects b.effects

def accumulator (b : Behaviour) : Timeline :=
  empty.tick 2 |>.append [.loadAccumulator] |>.appendEffects b.effects
    |>.append [.storeAccumulator]

/-- Zero page. The write of an unchanged operand takes its cycle and does not reach the bus. -/
def zeroPage (b : Behaviour) (index : Option Index) : Timeline :=
  let fetched := empty.tick (if index.isSome then 3 else 2) |>.append [.fetchZeroPage index]
  let operand :=
    if b.reads then
      let read := fetched.zeroPageRead .effective .operand
      if b.writes then read.pin.tick 1 else read
    else fetched
  let done := operand.appendEffects b.effects
  if b.writes then done.zeroPageWrite .effective else done

def absolute (b : Behaviour) : Timeline :=
  let fetched := empty.tick (3 + b.extra) |>.append [.fetchAbsolute]
  let operand :=
    if b.reads then
      let read := fetched.busRead .effective (some .operand)
      if b.writes then read.busWrite .effective else read
    else fetched
  let done := operand.appendEffects b.effects
  if b.writes then done.busWrite .effective else done

/-- The accesses of an indexed operand before the effects. A pure read pays for a carry only when
there is one; a store or a modification always reads the address without the carry first. -/
def indexed (t : Timeline) (b : Behaviour) : Timeline :=
  match b.reads, b.writes with
  | true, false => t.append [.pageCrossProbe] |>.pin |>.busRead .carried (some .operand)
  | true, true =>
    t.busRead .nonCarried none |>.busRead .carried (some .operand) |>.busWrite .carried
  | false, true => t.busRead .nonCarried none
  | false, false => t

def indexedEffects (t : Timeline) (b : Behaviour) : Timeline :=
  let done := (t.indexed b).appendEffects b.effects
  if b.writes then done.busWrite .carried else done

def absoluteIndexed (b : Behaviour) (index : Index) : Timeline :=
  empty.tick 3 |>.append [.fetchAbsolute, .indexAbsolute index] |>.indexedEffects b

/-- A pointer at the zero-page operand plus X; a cycle goes to the operand before X is added. -/
def indexedIndirect (b : Behaviour) : Timeline :=
  let joined := empty.tick 3 |>.append [.fetchPointer (some .x)]
    |>.zeroPageRead .pointer .low |>.zeroPageRead .pointerNext .high |>.append [.joinPointer]
  let operand := if b.reads then joined.busRead .effective (some .operand) else joined
  let done := operand.appendEffects b.effects
  if b.writes then done.busWrite .effective else done

/-- A pointer at the zero-page operand, with Y added to where it points. -/
def indirectIndexed (b : Behaviour) : Timeline :=
  empty.tick 2 |>.append [.fetchPointer none]
    |>.zeroPageRead .pointer .low |>.zeroPageRead .pointerNext .high
    |>.append [.joinPointer, .indexAbsolute .y] |>.indexedEffects b

/-- A jump through memory. The NMOS part takes the high byte from the pointer's own page. -/
def indirect (b : Behaviour) (v : Variant) : Timeline :=
  let pointed := match v with
    | .nmos => empty.tick 3 |>.append [.fetchAbsolute]
        |>.busRead .effective (some .low) |>.busRead .effectiveNextInPage (some .high)
    | .cmos => empty.tick 4 |>.append [.fetchAbsolute]
        |>.busRead .effective (some .low) |>.busRead .effectiveNext (some .high)
  pointed.append [.joinPointer] |>.appendEffects b.effects

end Timeline

/-- The schedule of an instruction with a behaviour, before the timeline is finished. -/
def Schedule.layOut (opcode : UInt8) (i : Instruction) (b : Behaviour) (v : Variant) :
    Except LayoutError Schedule :=
  match i.mode with
  | .implied =>
    if b.reads || b.writes then .error (.memoryOperandInImplied opcode i.mnemonic)
    else .ok (.timed (.implied b))
  | .relative =>
    if b.isBranch then .ok (.delegated (b.effects.map .effect))
    else .error (.unsupportedMode opcode i)
  | .immediate =>
    if b.writes then .error (.writeInImmediate opcode i.mnemonic)
    else .ok (.timed (.immediate b))
  | .indirect =>
    if b.isJump then .ok (.timed (.indirect b v)) else .error (.unsupportedMode opcode i)
  | .accumulator => .ok (.timed (.accumulator b))
  | .zeroPage => .ok (.timed (.zeroPage b none))
  | .zeroPageX => .ok (.timed (.zeroPage b (some .x)))
  | .zeroPageY => .ok (.timed (.zeroPage b (some .y)))
  | .absolute => .ok (.timed (.absolute b))
  | .absoluteX => .ok (.timed (.absoluteIndexed b .x))
  | .absoluteY => .ok (.timed (.absoluteIndexed b .y))
  | .indexedIndirect => .ok (.timed (.indexedIndirect b))
  | .indirectIndexed => .ok (.timed (.indirectIndexed b))

end Cycle6502
