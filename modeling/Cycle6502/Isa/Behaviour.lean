import Cycle6502.Isa.Effect
import Cycle6502.Isa.Instruction

/-! What each mnemonic does, and how it uses its memory operand. -/

set_option autoImplicit false

namespace Cycle6502

structure Behaviour where
  /-- Effects at the start of an implied instruction, before interrupts are sampled. -/
  opening : List Effect := []
  effects : List Effect := []
  reads : Bool := false
  writes : Bool := false
  /-- Internal cycles beyond the least that the addressing mode takes. -/
  extra : UInt32 := 0
  deriving DecidableEq, Repr, Inhabited

namespace Behaviour

def reading (effects : List Effect) : Behaviour := { effects, reads := true }

def writing (effects : List Effect) : Behaviour := { effects, writes := true }

def modifying (effects : List Effect) : Behaviour := { effects, reads := true, writes := true }

def readsAndWrites (b : Behaviour) : Bool := b.reads && b.writes

def isBranch (b : Behaviour) : Bool :=
  match b.effects with
  | [.branch _ _] | [.branchAlways] => true
  | _ => false

def isJump (b : Behaviour) : Bool := b.effects == [.jump]

/-- The behaviour of a mnemonic. Most undocumented ones have none; SAX, ASR and SLO are modelled
as software uses them. -/
def ofMnemonic? : Mnemonic → Option Behaviour
  | .nop => some {}
  | .brk => some { effects := [.enterBreak], extra := 6 }
  | .clc => some { effects := [.setFlag { carry := true } false] }
  | .sec => some { effects := [.setFlag { carry := true } true] }
  | .cli => some { effects := [.setFlag { irqDisable := true } false] }
  | .sei => some { effects := [.setFlag { irqDisable := true } true] }
  | .clv => some { effects := [.setFlag { overflow := true } false] }
  | .cld => some { effects := [.setFlag { decimal := true } false] }
  | .sed => some { effects := [.setFlag { decimal := true } true] }
  | .lda => some (reading [.load .a])
  | .ldx => some (reading [.load .x])
  | .ldy => some (reading [.load .y])
  | .sta => some (writing [.store .a])
  | .stx => some (writing [.store .x])
  | .sty => some (writing [.store .y])
  | .stz => some (writing [.storeZero])
  | .inc => some (modifying [.incrementOperand])
  | .dec => some (modifying [.decrementOperand])
  | .inx => some { effects := [.increment .x] }
  | .iny => some { effects := [.increment .y] }
  | .dex => some { effects := [.decrement .x] }
  | .dey => some { effects := [.decrement .y] }
  | .adc => some (reading [.addWithCarry])
  | .sbc => some (reading [.subtractWithCarry])
  | .bit => some (reading [.bitTest])
  | .asl => some (modifying [.rotate true true])
  | .lsr => some (modifying [.rotate false true])
  | .rol => some (modifying [.rotate true false])
  | .ror => some (modifying [.rotate false false])
  | .ora => some (reading [.orOperand])
  | .and => some (reading [.andOperand])
  | .eor => some (reading [.exclusiveOrOperand])
  | .cmp => some (reading [.compare .a])
  | .cpx => some (reading [.compare .x])
  | .cpy => some (reading [.compare .y])
  | .tax => some { effects := [.transfer .a .x] }
  | .tay => some { effects := [.transfer .a .y] }
  | .txa => some { effects := [.transfer .x .a] }
  | .tya => some { effects := [.transfer .y .a] }
  | .tsx => some { effects := [.transfer .s .x] }
  | .txs => some { effects := [.transfer .x .s] }
  | .bpl => some { effects := [.branch { negative := true } false] }
  | .bmi => some { effects := [.branch { negative := true } true] }
  | .bvc => some { effects := [.branch { overflow := true } false] }
  | .bvs => some { effects := [.branch { overflow := true } true] }
  | .bcc => some { effects := [.branch { carry := true } false] }
  | .bcs => some { effects := [.branch { carry := true } true] }
  | .bne => some { effects := [.branch { zero := true } false] }
  | .beq => some { effects := [.branch { zero := true } true] }
  | .bra => some { effects := [.branchAlways] }
  | .pha => some { effects := [.push .a], extra := 2 }
  | .phx => some { effects := [.push .x], extra := 2 }
  | .phy => some { effects := [.push .y], extra := 2 }
  | .php => some { effects := [.pushFlags], extra := 2 }
  | .pla => some { effects := [.pull .a], extra := 3 }
  | .plx => some { effects := [.pull .x], extra := 3 }
  | .ply => some { effects := [.pull .y], extra := 3 }
  | .plp => some { effects := [.pullFlags], extra := 3 }
  | .rts => some { effects := [.returnFromSubroutine], extra := 5 }
  | .rti => some { opening := [.returnFromInterrupt], extra := 5 }
  | .jsr => some { effects := [.jumpToSubroutine], extra := 3 }
  | .jmp => some { effects := [.jump] }
  | .tsb => some (modifying [.testAndSet])
  | .trb => some (modifying [.testAndReset])
  | .sax => some (writing [.storeAAndX])
  | .asr =>
    some { effects := [.andAccumulatorIntoOperand, .rotate false false, .operandToAccumulator] }
  | .slo => some (modifying [.rotate true false, .writeBackToBase, .orIntoAccumulator])
  | .anc | .ane | .arr | .dcp | .isb | .las | .lax | .rla | .rra | .sbx | .sha | .shs | .shx | .shy
  | .sre => none

/-- The behaviour of an instruction. Only the bit test depends on the mode. -/
def of? (i : Instruction) : Option Behaviour :=
  if i = ⟨.bit, .immediate⟩ then some (reading [.bitTestImmediate]) else ofMnemonic? i.mnemonic

end Behaviour

end Cycle6502
