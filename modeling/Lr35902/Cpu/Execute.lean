import Lr35902.Cpu.Exec
import Lr35902.Instruction.Decode

/-!
# Executing instructions

`Exec.instruction` and `Exec.extendedInstruction` carry out one instruction whose opcode has been
fetched, and return the clock cycles that it takes.  An instruction with an immediate operand
fetches it first.  Where an instruction reads a byte in memory, computes and writes it back, the
flags are set before the byte is written.
-/

namespace Lr35902

namespace Exec

variable {σ : Type}

/-! ### Timing -/

/-- The cycles of an instruction that takes longer when its operand is in memory. -/
def cyclesFor (r : Register) (register memory : Nat) : Nat :=
  if r = .hlIndirect then memory else register

/-- The cycles of an exchange between the accumulator and a place in memory. -/
def transferCycles : Location → Nat
  | .highImmediate => 12
  | .immediate => 16
  | _ => 8

/-! ### The accumulator and the flags -/

/-- The operation `op` on the accumulator and `v`. -/
def accumulate (op : AluOp) (v : UInt8) : Exec σ Unit :=
  modifyRegs fun g =>
    let (a, f) := op.apply g.a v g.f
    { g with a, f }

/-- Rotates the accumulator. -/
def rotateAccumulator (dir : Direction) (fill : Fill) : Exec σ Unit :=
  modifyRegs fun g =>
    let (a, f) := Alu.shift g.a dir fill g.f.carry
    { g with a, f }

/-- Corrects the accumulator to two decimal digits. -/
def decimalAdjust : Exec σ Unit :=
  modifyRegs fun g =>
    let (a, f) := Alu.decimalAdjust g.a g.f
    { g with a, f }

/-- Complements the accumulator. -/
def complement : Exec σ Unit :=
  modifyRegs fun g => { g with a := ~~~g.a, f := { g.f with subtract := true, halfCarry := true } }

/-- Sets the carry flag to a function of itself and clears the flags of the last sum. -/
def updateCarry (change : Bool → Bool) : Exec σ Unit :=
  modifyRegs fun g =>
    { g with f := { g.f with subtract := false, halfCarry := false, carry := change g.f.carry } }

/-- The sum of two words, whose flags are set. -/
def addWords (a b : UInt16) : Exec σ UInt16 := do
  let (w, f) := Alu.add16 a b
  setFlags f
  return w

/-- Whether a branch on `cond` is taken; a branch without a condition always is. -/
def taken (cond : Option Condition) : Exec σ Bool := do
  let f := (← regs).f
  return cond.all (·.holds f)

variable [Bus σ]

/-! ### Operands in memory -/

/-- The address of a place in memory; an immediate part of it is fetched. -/
def address : Location → Exec σ UInt16
  | .bc => return (← regs).bc
  | .de => return (← regs).de
  | .hlIncrement => return (← regs).hl
  | .hlDecrement => return (← regs).hl
  | .highImmediate => return 0xFF00 ||| (← fetch).toUInt16
  | .highC => return 0xFF00 ||| (← regs).c.toUInt16
  | .immediate => fetchWord

/-- Moves HL on after it was used as a pointer that counts. -/
def stepPointer : Location → Exec σ Unit
  | .hlIncrement => modifyRegs fun g => g.setHl (g.hl + 1)
  | .hlDecrement => modifyRegs fun g => g.setHl (g.hl - 1)
  | _ => pure ()

/-- Replaces the byte operand `r` by the value that `f` gives for it, after setting the flags. -/
def updateOperand (r : Register) (f : UInt8 → Flags → UInt8 × Flags) : Exec σ Unit := do
  let v ← readOperand r
  let (w, flags) := f v (← regs).f
  setFlags flags
  writeOperand r w

/-! ### Branches -/

/-- Calls `target`: pushes the program counter and jumps. -/
def callTo (target : UInt16) : Exec σ Unit := do
  pushWord (← regs).pc
  jump target

/-- Returns to the address on the stack. -/
def returnToCaller : Exec σ Unit := do
  jump (← popWord)

/-! ### The instruction sets -/

/-- Carries out an instruction whose opcode was fetched from `addr`. -/
def instruction (addr : UInt16) : Instruction → Exec σ Nat
  | .nop => return 4
  | .stop => do
    let v ← fetch
    if v ≠ 0 then throw (.malformedStop addr v)
    modifyCpu ({ · with run := .stopped })
    return 4
  | .halt => do
    modifyCpu ({ · with run := .halted })
    return 4
  | .di => do
    modifyCpu fun cpu => { cpu with ime := cpu.ime.disable }
    return 4
  | .ei => do
    modifyCpu fun cpu => { cpu with ime := cpu.ime.enableAfterNext }
    return 4
  | .load dst src => do
    writeOperand dst (← readOperand src)
    return if dst = .hlIndirect then 8 else cyclesFor src 4 8
  | .loadImmediate dst => do
    writeOperand dst (← fetch)
    return cyclesFor dst 8 12
  | .loadWord dst => do
    writeRegister16 dst (← fetchWord)
    return 12
  | .loadA src => do
    let a ← load (← address src)
    modifyRegs ({ · with a })
    stepPointer src
    return transferCycles src
  | .storeA dst => do
    let addr ← address dst
    store addr (← regs).a
    stepPointer dst
    return transferCycles dst
  | .storeSp => do
    let addr ← fetchWord
    let sp := (← regs).sp
    store addr (Word.low sp)
    store (addr + 1) (Word.high sp)
    return 20
  | .loadSpHl => do
    modifyRegs fun g => { g with sp := g.hl }
    return 8
  | .loadHlSp => do
    let e ← fetch
    let w ← addWords (← regs).sp (Word.signExtend e)
    modifyRegs (·.setHl w)
    return 12
  | .push src => do
    pushWord (← readRegister16 src)
    return 16
  | .pop dst => do
    writeRegister16 dst (← popWord)
    return 12
  | .alu op src => do
    accumulate op (← readOperand src)
    return cyclesFor src 4 8
  | .aluImmediate op => do
    accumulate op (← fetch)
    return 8
  | .inc dst => do
    updateOperand dst Alu.inc
    return cyclesFor dst 4 12
  | .dec dst => do
    updateOperand dst Alu.dec
    return cyclesFor dst 4 12
  | .incWord dst => do
    writeRegister16 dst ((← readRegister16 dst) + 1)
    return 8
  | .decWord dst => do
    writeRegister16 dst ((← readRegister16 dst) - 1)
    return 8
  | .addHl src => do
    let v ← readRegister16 src
    let w ← addWords (← regs).hl v
    modifyRegs (·.setHl w)
    return 8
  | .addSp => do
    let e ← fetch
    let w ← addWords (← regs).sp (Word.signExtend e)
    modifyRegs ({ · with sp := w })
    return 16
  | .rotateA dir fill => do
    rotateAccumulator dir fill
    return 4
  | .daa => do
    decimalAdjust
    return 4
  | .cpl => do
    complement
    return 4
  | .scf => do
    updateCarry fun _ => true
    return 4
  | .ccf => do
    updateCarry (!·)
    return 4
  | .jr cond => do
    let e ← fetch
    if ← taken cond then
      jump (ProgramCounter.displace (← regs).pc e)
      return 12
    else return 8
  | .jp cond => do
    let target ← fetchWord
    if ← taken cond then
      jump target
      return 16
    else return 12
  | .jpHl => do
    jump (← regs).hl
    return 4
  | .call cond => do
    let target ← fetchWord
    if ← taken cond then
      callTo target
      return 24
    else return 12
  | .ret none => do
    returnToCaller
    return 16
  | .ret (some cond) => do
    if ← taken (some cond) then
      returnToCaller
      return 20
    else return 8
  | .reti => do
    returnToCaller
    modifyCpu fun cpu => { cpu with ime := cpu.ime.enableNow }
    return 16
  | .rst target => do
    callTo target
    return 16

/-- Carries out an instruction of the extended set, whose first byte has been paid for. -/
def extendedInstruction (i : ExtendedInstruction) : Exec σ Nat :=
  match i.op with
  | .shift dir fill => do
    updateOperand i.target fun v f => Alu.shift v dir fill f.carry
    return cyclesFor i.target 4 12
  | .swap => do
    updateOperand i.target fun v _ => Alu.swap v
    return cyclesFor i.target 4 12
  | .bit n => do
    let v ← readOperand i.target
    modifyRegs fun g =>
      { g with f := { g.f with zero := !Byte.testBit v n, subtract := false, halfCarry := true } }
    return cyclesFor i.target 4 8
  | .res n => do
    writeOperand i.target (Byte.withBit (← readOperand i.target) n false)
    return cyclesFor i.target 4 12
  | .set n => do
    writeOperand i.target (Byte.withBit (← readOperand i.target) n true)
    return cyclesFor i.target 4 12

end Exec

end Lr35902
