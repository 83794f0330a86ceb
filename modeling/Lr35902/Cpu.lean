import Lr35902.Interrupt
import Lr35902.ProgramCounter
import Lr35902.RegisterFile

/-!
# The state of the processor

Besides its registers the processor has an interrupt switch, a run state, the table that the next
opcode is looked up in, and a count of the clock cycles since it was started.
-/

namespace Lr35902

/-- Whether the processor executes instructions. -/
inductive RunState where
  /-- It executes instructions. -/
  | normal
  /-- It waits for an interrupt. -/
  | halted
  /-- It has stopped for good. -/
  | stopped
deriving DecidableEq

/-- The state's name as it appears in messages. -/
def RunState.name : RunState → String
  | normal => "Normal"
  | halted => "Halted"
  | stopped => "Stopped"

/-- The table that the next opcode is looked up in. -/
inductive DecodeMode where
  | primary | extended
deriving DecidableEq

/-- Where the processor starts. -/
inductive StartState where
  /-- At address 0, with all registers zero. -/
  | boot
  /-- At the cartridge's entry point, with the registers that the boot program leaves. -/
  | postBoot
deriving DecidableEq

namespace RegisterFile

/-- The registers as the boot program leaves them. -/
def postBoot : RegisterFile where
  a := 0x01
  f := { zero := true, halfCarry := true, carry := true }
  b := 0x00
  c := 0x13
  d := 0x00
  e := 0xD8
  h := 0x01
  l := 0x4D
  sp := 0xFFFE
  pc := 0x0100

/-- The registers at the start. -/
def ofStart : StartState → RegisterFile
  | .boot => { pc := ProgramCounter.origin }
  | .postBoot => postBoot

end RegisterFile

/-- The state of the processor. -/
@[ext] structure Cpu where
  regs : RegisterFile
  /-- Whether interrupts are let through. -/
  ime : InterruptState := .blocked
  run : RunState := .normal
  mode : DecodeMode := .primary
  /-- The clock cycles since the start. -/
  cycles : Nat := 0
deriving DecidableEq, Inhabited

namespace Cpu

/-- The processor at the start. -/
def init (start : StartState) (ime : InterruptState) : Cpu := { regs := .ofStart start, ime }

/-- The processor after a reset, which blocks interrupts and clears the cycle count. -/
def reset (_ : Cpu) (start : StartState) : Cpu := init start .blocked

/-- The processor after it has left a waiting state. -/
def wake (cpu : Cpu) : Cpu := { cpu with run := .normal }

end Cpu

end Lr35902
