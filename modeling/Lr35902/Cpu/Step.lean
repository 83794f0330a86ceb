import Lr35902.Cpu.Execute

/-!
# Stepping the processor

* `Exec.step` executes one opcode byte.  The byte that announces an extended opcode is a step of its
  own, and a processor that waits does nothing for a while.
* `Exec.dispatch` enters the handler of an interrupt.
* `Exec.tick` does what the processor does next on a bus with interrupts: it dispatches a pending
  interrupt if it may, and executes otherwise.
-/

namespace Lr35902

namespace Cpu

/-- The cycles of the byte that announces an extended opcode. -/
def extensionCycles : Nat := 4

/-- The cycles of a step in which the processor waits. -/
def idleCycles : Nat := 4

/-- The cycles of entering an interrupt handler. -/
def dispatchCycles : Nat := 20

/-- The program counter points at a byte that was loaded. -/
def hasInstruction {σ : Type} [Bus σ] (cpu : Cpu) (bus : σ) : Bool :=
  cpu.regs.pc.toNat < Bus.extent bus

end Cpu

namespace Exec

variable {σ : Type} [Bus σ]

/-- Carries out the primary instruction with the given opcode, which was fetched from `addr`. -/
def primary (addr : UInt16) (opcode : UInt8) : Exec σ Nat :=
  match Instruction.decode opcode with
  | some i => instruction addr i
  | none => throw (.unknownOpcode opcode false addr)

/-- Ends an instruction that took `n` cycles.  If the enabling of interrupts was pending when the
instruction began, it takes effect now. -/
def complete (ime : InterruptState) (n : Nat) : Exec σ Nat := do
  if ime = .pendingEnable then
    modifyCpu fun cpu => { cpu with ime := cpu.ime.instructionCompleted }
  spend n

/-- Executes one opcode byte and returns the cycles that it took. -/
def step : Exec σ Nat := do
  let before ← cpu
  if before.run ≠ .normal then spend Cpu.idleCycles
  else
    let opcode ← fetch
    match before.mode with
    | .primary =>
      if opcode = extensionByte then
        modifyCpu ({ · with mode := .extended })
        spend Cpu.extensionCycles
      else complete before.ime (← primary before.regs.pc opcode)
    | .extended =>
      modifyCpu ({ · with mode := .primary })
      complete before.ime (← extendedInstruction (ExtendedInstruction.decode opcode))

/-- The first interrupt that is requested and enabled, whether or not interrupts are let through. -/
def pendingInterrupt : Exec σ (Option Interrupt) := do
  let requested ← load Interrupt.requestAddr
  let enabled ← load Interrupt.enableAddr
  return Interrupt.highestPending requested enabled

/-- Enters the handler of an interrupt: pushes the program counter, withdraws the request, blocks
further interrupts and leaves any waiting state. -/
def dispatch (i : Interrupt) : Exec σ Nat := do
  pushWord (← regs).pc
  let requested ← load Interrupt.requestAddr
  store Interrupt.requestAddr (requested &&& ~~~i.mask)
  jump i.vector
  modifyCpu fun cpu => { cpu with ime := cpu.ime.disable, run := .normal }
  spend Cpu.dispatchCycles

/-- Leaves a waiting state. -/
def wake : Exec σ Unit := modifyCpu Cpu.wake

/-- Dispatches a pending interrupt and returns the cycles that it took, or does nothing if there is
none or it may not be dispatched.  A pending interrupt that may not be dispatched still ends
waiting, except after the processor has stopped for good. -/
def pollInterrupts : Exec σ (Option Nat) := do
  let before ← cpu
  if before.run = .stopped then return none
  let some i ← pendingInterrupt | return none
  if before.ime.isInterruptible ∧ before.mode = .primary then
    return some (← dispatch i)
  if before.run = .halted then wake
  return none

/-- Dispatches a pending interrupt or else executes one opcode byte, and returns the cycles. -/
def tick : Exec σ Nat := do
  match ← pollInterrupts with
  | some n => return n
  | none => step

end Exec

end Lr35902
