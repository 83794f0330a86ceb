import Lr35902.Main
import Lr35902.Machine.Log
import Lr35902.Proofs.Reference.Interpreter
import Lr35902.Proofs.Simulation
import Lr35902.Proofs.Reference.Agreement
import Lr35902.Proofs.Memory
import Lr35902.Proofs.Decode
import Lr35902.Proofs.Plan
import Lr35902.Proofs.SystemBus
import Lr35902.Proofs.Total
import Lr35902.Proofs.Faults
import Lr35902.Proofs.Parametric
import Lr35902.Proofs.Machine.Reachable
import Lr35902.Proofs.Machine.Faults
import Lr35902.Proofs.Atomicity
import Lr35902.Proofs.Machine.Approach
import Lr35902.Proofs.Boot.Cells
import Lr35902.Proofs.Boot.Sketch
import Lr35902.Proofs.Boot.Handover
import Lr35902.Proofs.Bus.Recorder
import Lr35902.Proofs.Bus.Refinement
import Lr35902.Proofs.Lcd
import Lr35902.Proofs.Machine.Dispatch
import Lr35902.Proofs.Machine.Requests
import Lr35902.Proofs.Control
import Lr35902.Proofs.Machine.StepKind
import Lr35902.Proofs.Machine.Latency
import Lr35902.Proofs.Machine.Opcode
import Lr35902.Proofs.Machine.Reasons
import Lr35902.Proofs.Machine.EndOfRom
import Lr35902.Proofs.Machine.Waiting
import Lr35902.Proofs.Lcd.Timing
import Lr35902.Proofs.Cycles
import Lr35902.Proofs.Machine.Clocks
import Lr35902.Proofs.Machine.Runs
import Lr35902.Proofs.Machine.Resume
import Lr35902.Proofs.Machine.Handler
import Lr35902.Proofs.Machine.Image
import Lr35902.Proofs.Reference.Extended
import Lr35902.Proofs.Bus.SpriteCopy
import Lr35902.Proofs.Stack
import Lr35902.Proofs.Driven
import Lr35902.Proofs.Machine.Stopped
import Lr35902.Proofs.Decimal
import Lr35902.Proofs.Carry
import Lr35902.Proofs.Binary
import Lr35902.Proofs.Bus.Script
import Lr35902.Proofs.Shift
import Lr35902.Proofs.WordSum
import Lr35902.Proofs.Bus.Discipline
import Lr35902.Proofs.Checked.Contracts
import Lr35902.Proofs.Memory.Loads
import Lr35902.Proofs.Memory.BlockCopy
