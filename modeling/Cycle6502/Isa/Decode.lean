import Cycle6502.Isa.Instruction

/-! The opcode tables of the two processors. The NMOS table is a matrix of sixteen rows; the CMOS
table drops the undocumented instructions from it and adds its own. -/

set_option autoImplicit false

namespace Cycle6502

/-- The processors: the NMOS 6502 of the Model B and the CMOS 65C02 of the Master series. -/
inductive Variant where
  | nmos
  | cmos
  deriving DecidableEq, Repr, Inhabited

def Variant.name : Variant → String
  | .nmos => "NMOS6502"
  | .cmos => "CMOS65C02"

namespace Matrix

abbrev imp (m : Mnemonic) : Option Instruction := some ⟨m, .implied⟩
abbrev acc (m : Mnemonic) : Option Instruction := some ⟨m, .accumulator⟩
abbrev imm (m : Mnemonic) : Option Instruction := some ⟨m, .immediate⟩
abbrev zpg (m : Mnemonic) : Option Instruction := some ⟨m, .zeroPage⟩
abbrev zpx (m : Mnemonic) : Option Instruction := some ⟨m, .zeroPageX⟩
abbrev zpy (m : Mnemonic) : Option Instruction := some ⟨m, .zeroPageY⟩
abbrev abs (m : Mnemonic) : Option Instruction := some ⟨m, .absolute⟩
abbrev abx (m : Mnemonic) : Option Instruction := some ⟨m, .absoluteX⟩
abbrev aby (m : Mnemonic) : Option Instruction := some ⟨m, .absoluteY⟩
abbrev ind (m : Mnemonic) : Option Instruction := some ⟨m, .indirect⟩
abbrev izx (m : Mnemonic) : Option Instruction := some ⟨m, .indexedIndirect⟩
abbrev izy (m : Mnemonic) : Option Instruction := some ⟨m, .indirectIndexed⟩
abbrev rel (m : Mnemonic) : Option Instruction := some ⟨m, .relative⟩

/-- The NMOS opcodes, the row chosen by the high nibble and the column by the low one. -/
def nmos : List (List (Option Instruction)) :=
  [[imp .brk, izx .ora, none, izx .slo, zpg .nop, zpg .ora, zpg .asl, zpg .slo, imp .php,
     imm .ora, acc .asl, imm .anc, abs .nop, abs .ora, abs .asl, abs .slo],
   [rel .bpl, izy .ora, none, izy .slo, zpx .nop, zpx .ora, zpx .asl, zpx .slo, imp .clc,
     aby .ora, imp .nop, aby .slo, abx .nop, abx .ora, abx .asl, abx .slo],
   [abs .jsr, izx .and, none, izx .rla, zpg .bit, zpg .and, zpg .rol, zpg .rla, imp .plp,
     imm .and, acc .rol, imm .anc, abs .bit, abs .and, abs .rol, abs .rla],
   [rel .bmi, izy .and, none, izy .rla, zpx .nop, zpx .and, zpx .rol, zpx .rla, imp .sec,
     aby .and, imp .nop, aby .rla, abx .nop, abx .and, abx .rol, abx .rla],
   [imp .rti, izx .eor, none, izx .sre, zpg .nop, zpg .eor, zpg .lsr, zpg .sre, imp .pha,
     imm .eor, acc .lsr, imm .asr, abs .jmp, abs .eor, abs .lsr, abs .sre],
   [rel .bvc, izy .eor, none, izy .sre, zpx .nop, zpx .eor, zpx .lsr, zpx .sre, imp .cli,
     aby .eor, imp .nop, aby .sre, abx .nop, abx .eor, abx .lsr, abx .sre],
   [imp .rts, izx .adc, none, izx .rra, zpg .nop, zpg .adc, zpg .ror, zpg .rra, imp .pla,
     imm .adc, acc .ror, imm .arr, ind .jmp, abs .adc, abs .ror, abs .rra],
   [rel .bvs, izy .adc, none, izy .rra, zpx .nop, zpx .adc, zpx .ror, zpx .rra, imp .sei,
     aby .adc, imp .nop, aby .rra, none, abx .adc, abx .ror, abx .rra],
   [imm .nop, izx .sta, imm .nop, izx .sax, zpg .sty, zpg .sta, zpg .stx, zpg .sax, imp .dey,
     imm .nop, imp .txa, imm .ane, abs .sty, abs .sta, abs .stx, abs .sax],
   [rel .bcc, izy .sta, none, izy .sha, zpx .sty, zpx .sta, zpy .stx, zpy .sax, imp .tya,
     aby .sta, imp .txs, aby .shs, abx .shy, abx .sta, aby .shx, aby .sha],
   [imm .ldy, izx .lda, imm .ldx, izx .lax, zpg .ldy, zpg .lda, zpg .ldx, zpg .lax, imp .tay,
     imm .lda, imp .tax, imm .lax, abs .ldy, abs .lda, abs .ldx, abs .lax],
   [rel .bcs, izy .lda, none, izy .lax, zpx .ldy, zpx .lda, zpy .ldx, zpy .lax, imp .clv,
     aby .lda, imp .tsx, aby .las, abx .ldy, abx .lda, aby .ldx, aby .lax],
   [imm .cpy, izx .cmp, imm .nop, izx .dcp, zpg .cpy, zpg .cmp, zpg .dec, zpg .dcp, imp .iny,
     imm .cmp, imp .dex, imm .sbx, abs .cpy, abs .cmp, abs .dec, abs .dcp],
   [rel .bne, izy .cmp, none, izy .dcp, zpx .nop, zpx .cmp, zpx .dec, zpx .dcp, imp .cld,
     aby .cmp, imp .nop, aby .dcp, abx .nop, abx .cmp, abx .dec, abx .dcp],
   [imm .cpx, izx .sbc, imm .nop, izx .isb, zpg .cpx, zpg .sbc, zpg .inc, zpg .isb, imp .inx,
     imm .sbc, imp .nop, imm .sbc, abs .cpx, abs .sbc, abs .inc, abs .isb],
   [rel .beq, izy .sbc, none, izy .isb, zpx .nop, zpx .sbc, zpx .inc, zpx .isb, imp .sed,
     aby .sbc, imp .nop, aby .isb, abx .nop, abx .sbc, abx .inc, abx .isb]]

def cmosAdditions : List (UInt8 × Instruction) :=
  [(0x04, ⟨.tsb, .zeroPage⟩), (0x0C, ⟨.tsb, .absolute⟩), (0x14, ⟨.trb, .zeroPage⟩),
   (0x1A, ⟨.inc, .accumulator⟩), (0x1C, ⟨.trb, .absolute⟩), (0x34, ⟨.bit, .zeroPageX⟩),
   (0x3A, ⟨.dec, .accumulator⟩), (0x3C, ⟨.bit, .absoluteX⟩), (0x5A, ⟨.phy, .implied⟩),
   (0x64, ⟨.stz, .zeroPage⟩), (0x74, ⟨.stz, .zeroPageX⟩), (0x7A, ⟨.ply, .implied⟩),
   (0x80, ⟨.bra, .relative⟩), (0x89, ⟨.bit, .immediate⟩), (0x9C, ⟨.stz, .absolute⟩),
   (0x9E, ⟨.stz, .absoluteX⟩), (0xDA, ⟨.phx, .implied⟩), (0xFA, ⟨.plx, .implied⟩)]

end Matrix

def decodeNmos (opcode : UInt8) : Option Instruction := do
  let row ← Matrix.nmos[opcode.toNat / 16]?
  let cell ← row[opcode.toNat % 16]?
  cell

def decode : Variant → UInt8 → Option Instruction
  | .nmos, opcode => decodeNmos opcode
  | .cmos, opcode =>
    match Matrix.cmosAdditions.lookup opcode with
    | some instruction => some instruction
    | none => (decodeNmos opcode).filter (!·.mnemonic.undocumented)

/-- Opcodes that are only disassembled: they have an entry, and no timing is known for it. -/
def untimedOpcodes : List UInt8 := [0xF4]

end Cycle6502
