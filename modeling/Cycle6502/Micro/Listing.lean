import Cycle6502.Micro.Op

/-! Listings: the written forms of micro-operations and effects, each a name with its arguments. -/

set_option autoImplicit false

namespace Cycle6502

namespace Listing

def record (name : String) (fields : List (String × String)) : String :=
  name ++ " \x7b " ++ ", ".intercalate (fields.map fun (label, value) => label ++ ": " ++ value)
    ++ " \x7d"

def call (name : String) (arguments : List String) : String :=
  name ++ "(" ++ ", ".intercalate arguments ++ ")"

def optional (value : Option String) : String :=
  match value with
  | none => "None"
  | some text => call "Some" [text]

def bool (b : Bool) : String := if b then "true" else "false"

end Listing

def Register.name : Register → String
  | .a => "A"
  | .x => "X"
  | .y => "Y"
  | .s => "S"

def Index.name : Index → String
  | .x => "X"
  | .y => "Y"

def Site.name : Site → String
  | .effective => "Effective"
  | .carried => "Carried"
  | .nonCarried => "NonCarried"
  | .pointer => "Pointer"
  | .pointerNext => "PointerNext"
  | .effectiveNextInPage => "EffectiveNextInPage"
  | .effectiveNext => "EffectiveNext"

def Latch.name : Latch → String
  | .operand => "Operand"
  | .low => "Low"
  | .high => "High"

open Listing

def Effect.listing : Effect → String
  | .setFlag mask on => call "SetFlag" [mask.text, bool on]
  | .load r => call "Load" [r.name]
  | .store r => call "Store" [r.name]
  | .storeAAndX => "StoreAandX"
  | .storeZero => "StoreZero"
  | .incrementOperand => "IncrementOperand"
  | .decrementOperand => "DecrementOperand"
  | .increment r => call "Increment" [r.name]
  | .decrement r => call "Decrement" [r.name]
  | .addWithCarry => "AddWithCarry"
  | .subtractWithCarry => "SubtractWithCarry"
  | .bitTest => "BitTest"
  | .bitTestImmediate => "BitTestImmediate"
  | .rotate left logical => record "Rotate" [("left", bool left), ("logical", bool logical)]
  | .orOperand => "Or"
  | .andOperand => "And"
  | .exclusiveOrOperand => "Xor"
  | .compare r => call "Compare" [r.name]
  | .transfer source target => record "Transfer" [("from", source.name), ("to", target.name)]
  | .branch mask expected => record "Branch" [("flag", mask.text), ("when", bool expected)]
  | .branchAlways => "BranchAlways"
  | .push r => call "Push" [r.name]
  | .pushFlags => "PushFlags"
  | .pull r => call "Pull" [r.name]
  | .pullFlags => "PullFlags"
  | .returnFromSubroutine => "ReturnFromSubroutine"
  | .returnFromInterrupt => "ReturnFromInterrupt"
  | .jumpToSubroutine => "JumpToSubroutine"
  | .jump => "Jump"
  | .enterBreak => "Break"
  | .andAccumulatorIntoOperand => "AndAccumulatorIntoOperand"
  | .operandToAccumulator => "OperandToAccumulator"
  | .writeBackToBase => "WriteBackToBase"
  | .orIntoAccumulator => "OrIntoAccumulator"
  | .testAndSet => "TestAndSet"
  | .testAndReset => "TestAndReset"

def MicroOp.listing : MicroOp → String
  | .fetchZeroPage index => call "FetchZeroPage" [optional (index.map Index.name)]
  | .fetchAbsolute => "FetchAbsolute"
  | .indexAbsolute index => call "IndexAbsolute" [index.name]
  | .fetchPointer index => call "FetchPointer" [optional (index.map Index.name)]
  | .joinPointer => "JoinPointer"
  | .fetchImmediate => "FetchImmediate"
  | .loadAccumulator => "LoadAccumulator"
  | .storeAccumulator => "StoreAccumulator"
  | .read site into =>
    record "Read" [("at", site.name), ("into", optional (into.map Latch.name))]
  | .write site => record "Write" [("at", site.name)]
  | .zeroPageRead site into => record "ZeroPageRead" [("at", site.name), ("into", into.name)]
  | .zeroPageWrite site => record "ZeroPageWrite" [("at", site.name)]
  | .pageCrossProbe => "PageCrossProbe"
  | .checkInterrupt => "CheckInterrupt"
  | .effect e => call "Effect" [e.listing]

end Cycle6502
