import Cycle6502.Main
import Cycle6502.Proofs.Arithmetic.Rotations
import Cycle6502.Proofs.Arithmetic.Sums
import Cycle6502.Proofs.Image.Absolute
import Cycle6502.Proofs.Image.Loading
import Cycle6502.Proofs.Instruction.Annotation
import Cycle6502.Proofs.Instruction.Duration
import Cycle6502.Proofs.Instruction.Modifying
import Cycle6502.Proofs.Instruction.Ownership
import Cycle6502.Proofs.Instruction.Reading
import Cycle6502.Proofs.Instruction.Stack
import Cycle6502.Proofs.Instruction.Subroutine
import Cycle6502.Proofs.Instruction.Undocumented
import Cycle6502.Proofs.Interrupt.Latch
import Cycle6502.Proofs.Interrupt.Lines
import Cycle6502.Proofs.Interrupt.Return
import Cycle6502.Proofs.Run.Arrangement
import Cycle6502.Proofs.Run.Calls
import Cycle6502.Proofs.Run.Drivers
import Cycle6502.Proofs.Run.Hidden
import Cycle6502.Proofs.Run.Pace
import Cycle6502.Proofs.Run.Plain
import Cycle6502.Proofs.Run.Replay
import Cycle6502.Proofs.Run.Status
import Cycle6502.Proofs.Run.Variants
import Cycle6502.Proofs.Run.Views
import Cycle6502.Proofs.Text.Definitions
import Cycle6502.Proofs.Text.Ranges
import Cycle6502.Proofs.Timeline.Accumulation
import Cycle6502.Proofs.Timing.Crossing
import Cycle6502.Proofs.Timing.Cycles
import Cycle6502.Proofs.Timing.Performed
import Cycle6502.Proofs.Timing.Waits
