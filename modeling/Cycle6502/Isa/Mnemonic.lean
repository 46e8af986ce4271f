/-! Mnemonics: the documented instructions of both processors and the undocumented ones of the
NMOS part. -/

set_option autoImplicit false

namespace Cycle6502

inductive Mnemonic where
  | adc | and | asl | bcc | bcs | beq | bit | bmi | bne | bpl | bra | brk | bvc | bvs | clc | cld
  | cli | clv | cmp | cpx | cpy | dec | dex | dey | eor | inc | inx | iny | jmp | jsr | lda | ldx
  | ldy | lsr | nop | ora | pha | php | phx | phy | pla | plp | plx | ply | rol | ror | rti | rts
  | sbc | sec | sed | sei | sta | stx | sty | stz | tax | tay | trb | tsb | tsx | txa | txs | tya
  | anc | ane | arr | asr | dcp | isb | las | lax | rla | rra | sax | sbx | sha | shs | shx | shy
  | slo | sre
  deriving DecidableEq, Repr, Inhabited

namespace Mnemonic

def all : List Mnemonic :=
  [.adc, .and, .asl, .bcc, .bcs, .beq, .bit, .bmi, .bne, .bpl, .bra, .brk, .bvc, .bvs, .clc, .cld,
   .cli, .clv, .cmp, .cpx, .cpy, .dec, .dex, .dey, .eor, .inc, .inx, .iny, .jmp, .jsr, .lda, .ldx,
   .ldy, .lsr, .nop, .ora, .pha, .php, .phx, .phy, .pla, .plp, .plx, .ply, .rol, .ror, .rti, .rts,
   .sbc, .sec, .sed, .sei, .sta, .stx, .sty, .stz, .tax, .tay, .trb, .tsb, .tsx, .txa, .txs, .tya,
   .anc, .ane, .arr, .asr, .dcp, .isb, .las, .lax, .rla, .rra, .sax, .sbx, .sha, .shs, .shx, .shy,
   .slo, .sre]

def name : Mnemonic → String
  | .adc => "ADC" | .and => "AND" | .asl => "ASL" | .bcc => "BCC" | .bcs => "BCS" | .beq => "BEQ"
  | .bit => "BIT" | .bmi => "BMI" | .bne => "BNE" | .bpl => "BPL" | .bra => "BRA" | .brk => "BRK"
  | .bvc => "BVC" | .bvs => "BVS" | .clc => "CLC" | .cld => "CLD" | .cli => "CLI" | .clv => "CLV"
  | .cmp => "CMP" | .cpx => "CPX" | .cpy => "CPY" | .dec => "DEC" | .dex => "DEX" | .dey => "DEY"
  | .eor => "EOR" | .inc => "INC" | .inx => "INX" | .iny => "INY" | .jmp => "JMP" | .jsr => "JSR"
  | .lda => "LDA" | .ldx => "LDX" | .ldy => "LDY" | .lsr => "LSR" | .nop => "NOP" | .ora => "ORA"
  | .pha => "PHA" | .php => "PHP" | .phx => "PHX" | .phy => "PHY" | .pla => "PLA" | .plp => "PLP"
  | .plx => "PLX" | .ply => "PLY" | .rol => "ROL" | .ror => "ROR" | .rti => "RTI" | .rts => "RTS"
  | .sbc => "SBC" | .sec => "SEC" | .sed => "SED" | .sei => "SEI" | .sta => "STA" | .stx => "STX"
  | .sty => "STY" | .stz => "STZ" | .tax => "TAX" | .tay => "TAY" | .trb => "TRB" | .tsb => "TSB"
  | .tsx => "TSX" | .txa => "TXA" | .txs => "TXS" | .tya => "TYA" | .anc => "ANC" | .ane => "ANE"
  | .arr => "ARR" | .asr => "ASR" | .dcp => "DCP" | .isb => "ISB" | .las => "LAS" | .lax => "LAX"
  | .rla => "RLA" | .rra => "RRA" | .sax => "SAX" | .sbx => "SBX" | .sha => "SHA" | .shs => "SHS"
  | .shx => "SHX" | .shy => "SHY" | .slo => "SLO" | .sre => "SRE"

def undocumented : Mnemonic → Bool
  | .anc | .ane | .arr | .asr | .dcp | .isb | .las | .lax | .rla | .rra | .sax | .sbx | .sha
  | .shs | .shx | .shy | .slo | .sre => true
  | _ => false

theorem mem_all (m : Mnemonic) : m ∈ all := by cases m <;> decide

end Mnemonic

end Cycle6502
