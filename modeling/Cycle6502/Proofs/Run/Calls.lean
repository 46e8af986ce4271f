import Cycle6502.Proofs.Run.Lockstep

/-! What a run asks of its bus. The calls are overheard by a bus that hands them on and changes
nothing; made again, without a processor, they take a bus where the run took it. -/

set_option autoImplicit false

namespace Cycle6502

namespace Bus

inductive Call where
  | read (addr : UInt16)
  | write (addr : UInt16) (value : UInt8)
  | zeroPageRead (addr : UInt16)
  | zeroPageWrite (addr : UInt16) (value : UInt8)
  | advance (cycles : UInt32)
  | acknowledgeNmi
  | signal (s : Signal)
  deriving DecidableEq, Repr

variable {β γ : Type} [Bus β] [Signalled β] [Bus γ] [Signalled γ]

def call (b : β) : Call → Option UInt8 × β
  | .read addr =>
    let (value, b) := Bus.read b addr
    (some value, b)
  | .write addr value => (none, Bus.write b addr value)
  | .zeroPageRead addr =>
    let (value, b) := Bus.zeroPageRead b addr
    (some value, b)
  | .zeroPageWrite addr value => (none, Bus.zeroPageWrite b addr value)
  | .advance cycles => (none, Bus.advance b cycles)
  | .acknowledgeNmi => (none, Bus.acknowledgeNmi b)
  | .signal s => (none, Signalled.drive b s)

def after (b : β) (calls : List Call) : β := calls.foldl (fun b c => (call b c).2) b

def answers (b : β) : List Call → List (Option UInt8)
  | [] => []
  | c :: rest => (call b c).1 :: answers (call b c).2 rest

theorem after_concat (b : β) (calls : List Call) (c : Call) :
    after b (calls ++ [c]) = (call (after b calls) c).2 :=
  List.foldl_concat _ _ _ _

namespace Lockstep

variable {R : β → γ → Prop} {b : β} {d : γ}

theorem call (lockstep : Lockstep (fun _ => True) R) (related : R b d) (c : Call) :
    (Bus.call b c).1 = (Bus.call d c).1 ∧ R (Bus.call b c).2 (Bus.call d c).2 := by
  cases c with
  | read addr =>
    obtain ⟨value, kept⟩ := lockstep.read related addr
    exact ⟨congrArg some value, kept⟩
  | write addr value => exact ⟨rfl, lockstep.write related addr value⟩
  | zeroPageRead addr =>
    obtain ⟨value, kept⟩ := lockstep.zeroPageRead related addr trivial
    exact ⟨congrArg some value, kept⟩
  | zeroPageWrite addr value => exact ⟨rfl, lockstep.zeroPageWrite related addr value trivial⟩
  | advance cycles => exact ⟨rfl, lockstep.advance related cycles⟩
  | acknowledgeNmi => exact ⟨rfl, lockstep.acknowledgeNmi related⟩
  | signal s => exact ⟨rfl, lockstep.drive related s⟩

theorem calls (lockstep : Lockstep (fun _ => True) R) (related : R b d) (calls : List Call) :
    answers b calls = answers d calls ∧ R (after b calls) (after d calls) := by
  induction calls generalizing b d with
  | nil => exact ⟨rfl, related⟩
  | cons c rest ih =>
    obtain ⟨answer, kept⟩ := lockstep.call related c
    obtain ⟨answers, remaining⟩ := ih kept
    exact ⟨congrArg₂ List.cons answer answers, remaining⟩

end Lockstep

end Bus

structure Overheard (β : Type) where
  bus : β
  calls : List Bus.Call := []

namespace Overheard

variable {β : Type} [Bus β] [Signalled β]

def make (w : Overheard β) (c : Bus.Call) : Overheard β :=
  ⟨(Bus.call w.bus c).2, w.calls ++ [c]⟩

instance : Bus (Overheard β) where
  read w addr := ((Bus.read w.bus addr).1, w.make (.read addr))
  write w addr value := w.make (.write addr value)
  zeroPageRead w addr := ((Bus.zeroPageRead w.bus addr).1, w.make (.zeroPageRead addr))
  zeroPageWrite w addr value := w.make (.zeroPageWrite addr value)
  peek w := Bus.peek w.bus
  isSlow w := Bus.isSlow w.bus
  advance w cycles := w.make (.advance cycles)
  clock w := Bus.clock w.bus
  irqAsserted w := Bus.irqAsserted w.bus
  nmiAsserted w := Bus.nmiAsserted w.bus
  acknowledgeNmi w := w.make .acknowledgeNmi
  writeReport w := Bus.writeReport w.bus

instance : Signalled (Overheard β) where
  drive w s := w.make (.signal s)
  report w := Signalled.report w.bus

/-- A relation that settles the answers and is kept by every call, and by waits for the slow bus, is
kept by whole runs. -/
theorem lockstep {γ : Type} [Bus γ] [Signalled γ] {R : β → γ → Prop}
    {Q : Overheard β → Overheard γ → Prop} (inner : Bus.Lockstep (fun _ => True) R)
    (related : ∀ {w : Overheard β} {w' : Overheard γ}, Q w w' → R w.bus w'.bus)
    (make : ∀ {w : Overheard β} {w' : Overheard γ}, Q w w' → ∀ c, Q (w.make c) (w'.make c))
    (stretchedWait : ∀ {w : Overheard β} {w' : Overheard γ}, Q w w' →
      ∀ (cycles : UInt32) addr, cycles.toNat < 16 →
        Q (w.make (.advance (cycles + Step.stretch cycles (Bus.isSlow w addr) (Bus.clock w))))
          (w'.make (.advance (cycles + Step.stretch cycles (Bus.isSlow w' addr) (Bus.clock w'))))) :
    Bus.Lockstep (fun _ => True) Q where
  stack _ := trivial
  read kept addr := ⟨(inner.read (related kept) addr).1, make kept (.read addr)⟩
  write kept addr value := make kept (.write addr value)
  zeroPageRead kept addr inside :=
    ⟨(inner.zeroPageRead (related kept) addr inside).1, make kept (.zeroPageRead addr)⟩
  zeroPageWrite kept addr value _ := make kept (.zeroPageWrite addr value)
  advance kept cycles := make kept (.advance cycles)
  irqAsserted kept := inner.irqAsserted (related kept)
  nmiAsserted kept := inner.nmiAsserted (related kept)
  stretchedWait := stretchedWait
  acknowledgeNmi kept := make kept .acknowledgeNmi
  drive kept s := make kept (.signal s)

structure Accounts (start b : β) (w : Overheard β) : Prop where
  same : w.bus = b
  made : b = Bus.after start w.calls

namespace Accounts

variable {start b : β} {w : Overheard β}

theorem make (accounts : Accounts start b w) (c : Bus.Call) :
    Accounts start (Bus.call b c).2 (w.make c) := by
  obtain ⟨rfl, made⟩ := accounts
  refine ⟨rfl, ?_⟩
  rw [Overheard.make, Bus.after_concat, ← made]

theorem lockstep : Bus.Lockstep (fun _ => True) (Accounts start) where
  stack _ := trivial
  read accounts addr :=
    ⟨congrArg (fun b => (Bus.read b addr).1) accounts.same.symm, accounts.make (.read addr)⟩
  write accounts addr value := accounts.make (.write addr value)
  zeroPageRead accounts addr _ :=
    ⟨congrArg (fun b => (Bus.zeroPageRead b addr).1) accounts.same.symm,
      accounts.make (.zeroPageRead addr)⟩
  zeroPageWrite accounts addr value _ := accounts.make (.zeroPageWrite addr value)
  advance accounts cycles := accounts.make (.advance cycles)
  irqAsserted accounts := congrArg Bus.irqAsserted accounts.same.symm
  nmiAsserted accounts := congrArg Bus.nmiAsserted accounts.same.symm
  stretchedWait accounts cycles addr _ := by
    obtain ⟨rfl, made⟩ := accounts
    exact make ⟨rfl, made⟩ (.advance _)
  acknowledgeNmi accounts := accounts.make .acknowledgeNmi
  drive accounts s := accounts.make (.signal s)

end Accounts

end Overheard

namespace Cpu

variable {β : Type}

def overheard (c : Cpu β) : Cpu (Overheard β) := { c with bus := ⟨c.bus, []⟩ }

variable [Bus β] [Signalled β]

def calls (c : Cpu β) (happenings : List Happening) : List Bus.Call :=
  (c.overheard.after happenings).bus.calls

theorem similar_overheard (c : Cpu β) : Similar (Overheard.Accounts c.bus) True c c.overheard :=
  ⟨⟨rfl, rfl⟩, rfl, rfl, rfl, rfl, rfl, fun _ => rfl⟩

theorem overheard_after (c : Cpu β) (happenings : List Happening) :
    Similar (Overheard.Accounts c.bus) True (c.after happenings)
      (c.overheard.after happenings) :=
  (c.similar_overheard.after Overheard.Accounts.lockstep fun e _ => e.fastNext_true).2

theorem calls_step (c : Cpu β) : c.calls [.step] = c.overheard.step.1.bus.calls := rfl

theorem bus_after (c : Cpu β) (happenings : List Happening) :
    (c.after happenings).bus = Bus.after c.bus (c.calls happenings) :=
  (c.overheard_after happenings).bus.made

end Cpu

end Cycle6502
