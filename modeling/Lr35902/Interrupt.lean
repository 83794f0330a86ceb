/-!
# Interrupts

Each of the five `Interrupt` sources owns a bit of the request register IF and of the enable
register IE, and a vector, the address of its handler.  Sources with lower bits go first
(`Interrupt.highestPending`).

`InterruptState` is the switch inside the processor that allows dispatch at all.  Enabling it takes
effect only after one more instruction has completed, which the state `pendingEnable` remembers.
-/

namespace Lr35902

/-- A source of interrupts. -/
inductive Interrupt where
  /-- The display has finished its last visible line. -/
  | vblank
  /-- A condition selected in the display's status register. -/
  | lcdStat
  /-- The timer has overflowed. -/
  | timer
  /-- A serial transfer is complete. -/
  | serial
  /-- A key was pressed. -/
  | joypad
deriving DecidableEq

namespace Interrupt

/-- The address of the request register IF. -/
def requestAddr : UInt16 := 0xFF0F

/-- The address of the enable register IE. -/
def enableAddr : UInt16 := 0xFFFF

/-- All sources, those served first in front. -/
def all : List Interrupt := [vblank, lcdStat, timer, serial, joypad]

/-- The source's bit in IF and IE. -/
def bit : Interrupt → UInt8
  | vblank => 0
  | lcdStat => 1
  | timer => 2
  | serial => 3
  | joypad => 4

/-- The byte in which only the source's bit is set. -/
def mask (i : Interrupt) : UInt8 := 1 <<< i.bit

/-- The address of the source's handler. -/
def vector (i : Interrupt) : UInt16 := 0x40 + 8 * i.bit.toUInt16

/-- The first source that is both requested and enabled. -/
def highestPending (requested enabled : UInt8) : Option Interrupt :=
  all.find? fun i => requested &&& enabled &&& 0x1F &&& i.mask != 0

/-- The source's name as it appears in messages. -/
def name : Interrupt → String
  | vblank => "VBlank"
  | lcdStat => "LcdStat"
  | timer => "Timer"
  | serial => "Serial"
  | joypad => "Joypad"

/-- A pending source is both requested and enabled. -/
theorem mask_ne_zero_of_highestPending {requested enabled : UInt8} {i : Interrupt}
    (h : highestPending requested enabled = some i) :
    requested &&& enabled &&& 0x1F &&& i.mask ≠ 0 := by
  simpa using List.find?_some h

end Interrupt

/-- Whether the processor lets interrupts through. -/
inductive InterruptState where
  /-- A pending interrupt is dispatched. -/
  | interruptible
  /-- No interrupt is dispatched. -/
  | blocked
  /-- Dispatch is allowed once the next instruction has completed. -/
  | pendingEnable
deriving DecidableEq

namespace InterruptState

instance : Inhabited InterruptState := ⟨blocked⟩

/-- Blocks interrupts at once. -/
def disable (_ : InterruptState) : InterruptState := blocked

/-- Lets interrupts through once the next instruction has completed. -/
def enableAfterNext (_ : InterruptState) : InterruptState := pendingEnable

/-- Lets interrupts through at once. -/
def enableNow (_ : InterruptState) : InterruptState := interruptible

/-- The state after an instruction has completed: an enable that was pending takes effect. -/
def instructionCompleted : InterruptState → InterruptState
  | pendingEnable => interruptible
  | s => s

/-- A pending interrupt would be dispatched. -/
def isInterruptible (s : InterruptState) : Bool := s == interruptible

/-- The state's name as it appears in messages. -/
def name : InterruptState → String
  | interruptible => "Interruptible"
  | blocked => "Blocked"
  | pendingEnable => "PendingEnable"

theorem instructionCompleted_ne_pendingEnable (s : InterruptState) :
    s.instructionCompleted ≠ pendingEnable := by
  cases s <;> decide

end InterruptState

end Lr35902
