import Lr35902.Bus
import Lr35902.Cpu

/-!
# Actions of the processor

An `Exec σ α` is an action of a processor on a bus of type `σ`.  An action that fails keeps what it
has changed up to then, so a fault leaves a processor and a bus that can be looked at and driven on.

This file holds the actions that instructions are made of: fetching, loading, storing, access to
registers by name, and the stack.
-/

namespace Lr35902

/-- A processor and the bus that it drives. -/
structure Board (σ : Type) where
  cpu : Cpu
  bus : σ

/-- An action of a processor on its bus. -/
abbrev Exec (σ : Type) : Type → Type := EStateM Fault (Board σ)

namespace Exec

variable {σ α : Type}

/-! ### The processor's own state -/

/-- The state of the processor. -/
@[inline] def cpu : Exec σ Cpu := fun s => .ok s.cpu s

/-- The registers. -/
@[inline] def regs : Exec σ RegisterFile := fun s => .ok s.cpu.regs s

/-- Changes the state of the processor. -/
@[inline] def modifyCpu (f : Cpu → Cpu) : Exec σ Unit := fun s => .ok () { s with cpu := f s.cpu }

/-- Changes the registers. -/
@[inline] def modifyRegs (f : RegisterFile → RegisterFile) : Exec σ Unit :=
  modifyCpu fun cpu => { cpu with regs := f cpu.regs }

/-- Replaces the flags. -/
@[inline] def setFlags (f : Flags) : Exec σ Unit := modifyRegs ({ · with f })

/-- Moves the program counter to `addr`. -/
@[inline] def jump (addr : UInt16) : Exec σ Unit := modifyRegs ({ · with pc := addr })

/-- Counts `n` cycles and returns them. -/
@[inline] def spend (n : Nat) : Exec σ Nat := do
  modifyCpu fun cpu => { cpu with cycles := cpu.cycles + n }
  return n

/-! ### Registers by name -/

/-- The result of an access to the registers, whose error becomes a fault. -/
@[inline] def ofAccess : Except AccessError α → Exec σ α
  | .ok v => pure v
  | .error e => throw (.access e)

/-- Reads the byte register `r`. -/
def readRegister8 (r : Register) : Exec σ UInt8 := do
  ofAccess ((← regs).read8 r)

/-- Writes the byte register `r`. -/
def writeRegister8 (r : Register) (v : UInt8) : Exec σ Unit := do
  let g ← ofAccess ((← regs).write8 r v)
  modifyRegs fun _ => g

/-- Reads the word register `r`. -/
def readRegister16 (r : Register) : Exec σ UInt16 := do
  ofAccess ((← regs).read16 r)

/-- Writes the word register `r`. -/
def writeRegister16 (r : Register) (w : UInt16) : Exec σ Unit := do
  let g ← ofAccess ((← regs).write16 r w)
  modifyRegs fun _ => g

/-! ### The bus -/

/-- Performs an access to the bus. -/
@[inline] def onBus (access : EStateM Fault σ α) : Exec σ α :=
  fun s => match access s.bus with
    | .ok v bus => .ok v { s with bus }
    | .error e bus => .error e { s with bus }

variable [Bus σ]

/-- Loads the byte at `addr`. -/
def load (addr : UInt16) : Exec σ UInt8 := onBus (Bus.read8 addr)

/-- Stores the byte `v` at `addr`. -/
def store (addr : UInt16) (v : UInt8) : Exec σ Unit := onBus (Bus.write8 addr v)

/-- Fetches the byte at the program counter, which moves on only if that succeeds. -/
def fetch : Exec σ UInt8 := do
  let pc := (← regs).pc
  let v ← onBus (Bus.fetch8 pc)
  jump (ProgramCounter.next pc)
  return v

/-- Fetches a word, low byte first. -/
def fetchWord : Exec σ UInt16 := do
  let lo ← fetch
  let hi ← fetch
  return Word.pack hi lo

/-- Reads the byte operand `r`, a register or the byte at HL. -/
def readOperand (r : Register) : Exec σ UInt8 := do
  if r = .hlIndirect then load (← regs).hl else readRegister8 r

/-- Writes the byte operand `r`, a register or the byte at HL. -/
def writeOperand (r : Register) (v : UInt8) : Exec σ Unit := do
  if r = .hlIndirect then store (← regs).hl v else writeRegister8 r v

/-- Stores a word below the stack pointer, high byte first, and then moves the pointer down. -/
def pushWord (w : UInt16) : Exec σ Unit := do
  let sp := (← regs).sp
  store (sp - 1) (Word.high w)
  store (sp - 2) (Word.low w)
  modifyRegs ({ · with sp := sp - 2 })

/-- Loads the word at the stack pointer, low byte first, and then moves the pointer up. -/
def popWord : Exec σ UInt16 := do
  let sp := (← regs).sp
  let lo ← load sp
  let hi ← load (sp + 1)
  modifyRegs ({ · with sp := sp + 2 })
  return Word.pack hi lo

end Exec

end Lr35902
