import Cycle6502.Cpu.Alu
import Cycle6502.Cpu.Interrupts
import Cycle6502.Micro.Latches

/-! Execution: what effects, micro-operations and steps do to the processor and its latches. -/

set_option autoImplicit false

namespace Cycle6502

namespace Cpu

variable {β : Type} [Bus β]

def accumulate (c : Cpu β) (r : Alu.Result) : Cpu β :=
  { c with
    registers := { c.registers with a := r.value }
    flags := { c.flags.ofValue r.value with carry := r.carry, overflow := r.overflow } }

def add (c : Cpu β) (value : UInt8) : Cpu β :=
  c.accumulate (Alu.add c.registers.a value c.flags.carry c.flags.decimal)

def subtract (c : Cpu β) (value : UInt8) : Cpu β :=
  c.accumulate (Alu.subtract c.registers.a value c.flags.carry c.flags.decimal)

def compare (c : Cpu β) (register value : UInt8) : Cpu β :=
  { c with flags := { c.flags.ofValue (register - value) with carry := value ≤ register } }

def indexValue (c : Cpu β) : Option Index → UInt8
  | none => 0
  | some .x => c.registers.x
  | some .y => c.registers.y

end Cpu

variable {β : Type} [Bus β]

def Effect.perform (e : Effect) (c : Cpu β) (l : Latches) : Cpu β × Latches :=
  match e with
  | .setFlag mask on => ({ c with flags := c.flags.put mask on }, l)
  | .load r => (c.setRegisterAndFlags r l.operand, l)
  | .store r => (c, { l with operand := c.register r })
  | .storeAAndX => (c, { l with operand := c.registers.a &&& c.registers.x })
  | .storeZero => (c, { l with operand := 0 })
  | .incrementOperand =>
    let value := l.operand + 1
    ({ c with flags := c.flags.ofValue value }, { l with operand := value })
  | .decrementOperand =>
    let value := l.operand - 1
    ({ c with flags := c.flags.ofValue value }, { l with operand := value })
  | .increment r => (c.setRegisterAndFlags r (c.register r + 1), l)
  | .decrement r => (c.setRegisterAndFlags r (c.register r - 1), l)
  | .addWithCarry => (c.add l.operand, l)
  | .subtractWithCarry => (c.subtract l.operand, l)
  | .bitTest =>
    ({ c with
       flags := { c.flags with
         zero := c.registers.a &&& l.operand == 0
         negative := l.operand &&& 0x80 != 0
         overflow := l.operand &&& 0x40 != 0 } }, l)
  | .bitTestImmediate =>
    ({ c with flags := { c.flags with zero := c.registers.a &&& l.operand == 0 } }, l)
  | .rotate left logical =>
    let (value, carry) := Alu.rotate l.operand c.flags.carry left logical
    ({ c with flags := { c.flags.ofValue value with carry } }, { l with operand := value })
  | .orOperand | .orIntoAccumulator =>
    (c.setRegisterAndFlags .a (c.registers.a ||| l.operand), l)
  | .andOperand => (c.setRegisterAndFlags .a (c.registers.a &&& l.operand), l)
  | .exclusiveOrOperand => (c.setRegisterAndFlags .a (c.registers.a ^^^ l.operand), l)
  | .compare r => (c.compare (c.register r) l.operand, l)
  | .transfer source target =>
    let value := c.register source
    (match target with
      | .s => c.setRegister .s value
      | _ => c.setRegisterAndFlags target value, l)
  | .branch mask expected => (c.branch (c.flags.includes mask == expected), l)
  | .branchAlways => (c.branch true, l)
  | .push r => (c.push (c.register r), l)
  | .pushFlags => (c.push c.statusByte, l)
  | .pull r =>
    let (value, c) := c.pull
    (c.setRegisterAndFlags r value, l)
  | .pullFlags =>
    let (status, c) := c.pull
    (c.restoreStatus status, l)
  | .returnFromSubroutine =>
    let (returnTo, c) := c.pullWord
    ({ c with pc := returnTo + 1 }, l)
  | .returnFromInterrupt =>
    let (status, c) := c.pull
    let (returnTo, c) := (c.restoreStatus status).pullWord
    ({ c with pc := returnTo }, l)
  | .jumpToSubroutine =>
    let returnTo := c.pc - 1
    ({ c.pushWord returnTo with pc := l.addr }, l)
  | .jump => ({ c with pc := l.addr }, l)
  | .enterBreak => (c.enterBreak, l)
  | .andAccumulatorIntoOperand => (c, { l with operand := l.operand &&& c.registers.a })
  | .operandToAccumulator => (c.setRegister .a l.operand, l)
  | .writeBackToBase => (c.write l.addr l.operand, l)
  | .testAndSet =>
    ({ c with flags := { c.flags with zero := c.registers.a &&& l.operand == 0 } },
      { l with operand := l.operand ||| c.registers.a })
  | .testAndReset =>
    ({ c with flags := { c.flags with zero := c.registers.a &&& l.operand == 0 } },
      { l with operand := l.operand &&& ~~~c.registers.a })

def MicroOp.perform (op : MicroOp) (c : Cpu β) (l : Latches) : Cpu β × Latches :=
  match op with
  | .fetchZeroPage index =>
    let offset := c.indexValue index
    let (base, c) := c.fetchByte
    (c, { l with addr := (base + offset).toUInt16 })
  | .fetchAbsolute =>
    let (addr, c) := c.fetchWord
    (c, { l with addr })
  | .indexAbsolute index => (c, l.index (c.indexValue (some index)))
  | .fetchPointer index =>
    let offset := c.indexValue index
    let (base, c) := c.fetchByte
    (c, { l with pointer := base + offset })
  | .joinPointer => (c, { l with addr := wordOf l.low l.high })
  | .fetchImmediate =>
    let (operand, c) := c.fetchByte
    (c, { l with operand })
  | .loadAccumulator => (c, { l with operand := c.registers.a })
  | .storeAccumulator => (c.setRegister .a l.operand, l)
  | .read site into =>
    let (value, c) := c.read (l.resolve site)
    (c, match into with
      | some latch => l.store latch value
      | none => l)
  | .write site => (c.write (l.resolve site) l.operand, l)
  | .zeroPageRead site into =>
    let (value, c) := c.zeroPageRead (l.resolve site)
    (c, l.store into value)
  | .zeroPageWrite site => (c.zeroPageWrite (l.resolve site) l.operand, l)
  | .pageCrossProbe =>
    if l.carried = l.nonCarried then (c, l)
    else
      let (operand, c) := (c.wait 1).read l.nonCarried
      (c, { l with operand })
  | .checkInterrupt => (c.sampleInterrupts, l)
  | .effect e => e.perform c l

def Step.perform (s : Step) (c : Cpu β) (l : Latches) : Cpu β × Latches :=
  match s with
  | .wait cycles => (c.wait cycles, l)
  | .stretchedWait cycles site =>
    let slow := Bus.isSlow c.bus (l.resolve site)
    let extra := Step.stretch cycles slow c.clock
    (c.wait (cycles + extra), l)
  | .op m => m.perform c l

def Step.performAll : List Step → Cpu β → Latches → Cpu β × Latches
  | [], c, l => (c, l)
  | s :: rest, c, l =>
    let (c, l) := s.perform c l
    performAll rest c l

/-- Runs a microprogram, the latches being clear at its start. -/
def Microprogram.run (p : Microprogram) (c : Cpu β) : Cpu β := (Step.performAll p.steps c {}).1

end Cycle6502
