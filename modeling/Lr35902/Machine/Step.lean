import Lr35902.Cpu.Step
import Lr35902.Machine

/-!
# Stepping the machine

`Machine.step` lets the processor dispatch an interrupt or execute one opcode byte, and then moves
the display on by the cycles that this took.  After a fault of the processor the display has not
moved.
-/

namespace Lr35902

namespace Machine

/-- The processor and the bus of the machine. -/
def board (m : Machine) : Board SystemBus := ⟨m.cpu, m.bus⟩

/-- Performs an action of the processor on the machine's bus. -/
def onBoard {α : Type} (act : Exec SystemBus α) : EStateM Fault Machine α :=
  fun m => match act m.board with
    | .ok v s => .ok v { m with cpu := s.cpu, bus := s.bus }
    | .error e s => .error e { m with cpu := s.cpu, bus := s.bus }

/-- Moves the display on by `cycles`. -/
def updateDisplay (cycles : Nat) : EStateM Fault Machine Unit :=
  fun m => match LcdTimer.update cycles (m.lcd, m.bus.memory) with
    | .ok _ (lcd, memory) => .ok () { m with lcd, bus := { m.bus with memory } }
    | .error e (lcd, memory) => .error e { m with lcd, bus := { m.bus with memory } }

/-- Dispatches a pending interrupt or executes one opcode byte, moves the display on, and returns
the cycles that have passed. -/
def step : EStateM Fault Machine Nat := do
  let cycles ← onBoard Exec.tick
  updateDisplay cycles
  return cycles

end Machine

end Lr35902
