import Cycle6502.Cpu.Execute
import Cycle6502.Disassembly

/-! Instructions of a processor: reset, single steps, and runs of many. -/

set_option autoImplicit false

namespace Cycle6502.Cpu

variable {β : Type} [Bus β]

def defaultEntry : UInt16 := 0x1900

def resetVector : UInt16 := 0xFFFC

/-- Where a reset leads, and how that was decided. A vector of all zeros or all ones is none. -/
def resolveEntry (c : Cpu β) : UInt16 × String :=
  let text (addr : UInt16) : String := "0x" ++ Text.hexWord addr
  match c.entryOverride with
  | some entry => (entry, "Using manually set entry point: " ++ text entry)
  | none =>
    let vector := wordOf (c.peek resetVector) (c.peek (resetVector + 1))
    if vector ≠ 0xFFFF ∧ vector ≠ 0x0000 then
      (vector, "Using reset vector entry point: " ++ text vector)
    else (defaultEntry, "No valid reset vector, defaulting to " ++ text defaultEntry)

/-- Makes ready to run from the entry point. The bus is left as it is. -/
def reset (c : Cpu β) : Cpu β :=
  let (entry, reason) := c.resolveEntry
  let registers : Registers := { sp := 0xFF }
  let flags : Flags := { irqDisable := true }
  { c with
    registers, flags, pc := entry, interruptPending := false, halted := false
    journal := (c.journal.note .info fun _ => reason).note .info fun _ =>
      "Reset complete: PC=0x" ++ Text.hexWord entry ++ ", SP=0x" ++ Text.hexByte registers.sp
        ++ ", P=" ++ flags.text }

def invalidOpcode (c : Cpu β) (opcode : UInt8) : InvalidOpcode :=
  ⟨opcode, c.pc - 1, (decode c.variant opcode).map (·.mnemonic)⟩

/-- Runs the instruction of an opcode that has been fetched. An invalid one is a failure. -/
def execute (c : Cpu β) (opcode : UInt8) : Cpu β × Option InvalidOpcode :=
  match c.microcode.lookup opcode with
  | some program => (program.run c, none)
  | none => (c, some (c.invalidOpcode opcode))

theorem execute_found {c : Cpu β} {opcode : UInt8} {program : Microprogram}
    (found : c.microcode.lookup opcode = some program) :
    c.execute opcode = (program.run c, none) := by
  rw [execute, found]

theorem execute_invalid {c : Cpu β} {opcode : UInt8} (missing : c.microcode.lookup opcode = none) :
    c.execute opcode = (c, some (c.invalidOpcode opcode)) := by
  rw [execute, missing]

def disassembly (c : Cpu β) (addr : UInt16) : String := Disassembly.line c.variant c.peek addr

def traceText (c : Cpu β) (line : String) : String :=
  line ++ " A:" ++ Text.hexByte c.registers.a ++ " X:" ++ Text.hexByte c.registers.x
    ++ " Y:" ++ Text.hexByte c.registers.y ++ " P:" ++ c.flags.text
    ++ "[" ++ Text.hexByte c.flags.toByte ++ "] SP:" ++ Text.hexByte c.registers.sp
    ++ " CYC:" ++ toString c.clock.toNat ++ c.symbols.annotation line

/-- Fetches and runs an instruction, then takes an interrupt that it found pending. An invalid
opcode halts the processor with its registers as they were. -/
def step (c : Cpu β) : Cpu β × Option InvalidOpcode :=
  if c.halted then (c, none)
  else
    let start := c.pc
    let line := if c.journal.admits .trace then some (c.disassembly start) else none
    let (opcode, c) := c.fetchByte
    match c.execute opcode with
    | (c, some failure) =>
      let text := failure.message ++ ": " ++ c.disassembly start
      ({ c with pc := start, halted := true }.note .error fun _ => text, some failure)
    | (c, none) =>
      let c := match line with
        | none => c
        | some line =>
          let text := c.traceText line
          c.note .trace fun _ => text
      (if c.interruptPending then { c with interruptPending := false }.serviceInterrupt else c,
        none)

structure Run (β : Type) where
  cpu : Cpu β
  done : Nat
  failure : Option InvalidOpcode

/-- Steps until `stop` holds, a step fails, or `limit` more are done. -/
def runUntil (stop : Cpu β → Bool) : (limit done : Nat) → Cpu β → Run β
  | 0, done, c => ⟨c, done, none⟩
  | limit + 1, done, c =>
    if stop c then ⟨c, done, none⟩
    else match c.step with
      | (c, some failure) => ⟨c, done, some failure⟩
      | (c, none) => runUntil stop limit (done + 1) c

end Cycle6502.Cpu
