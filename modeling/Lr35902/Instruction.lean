import Lr35902.Alu
import Lr35902.Register

/-!
# Instructions

`Instruction` is the primary instruction set and `ExtendedInstruction` the second one, whose opcodes
follow the byte 0xCB.  Operands that stand in the instruction stream are not part of the value: an
instruction says that it has an immediate operand, and execution fetches it.
-/

namespace Lr35902

/-- A test of the flags that decides a branch. -/
inductive Condition where
  /-- The zero flag is clear. -/
  | nz
  /-- The zero flag is set. -/
  | z
  /-- The carry flag is clear. -/
  | nc
  /-- The carry flag is set. -/
  | c
deriving DecidableEq

namespace Condition

/-- The condition that a two-bit field names; higher bits of `i` are ignored. -/
def ofIndex (i : UInt8) : Condition :=
  match (i &&& 3).toNat with
  | 0 => nz
  | 1 => z
  | 2 => nc
  | _ => c

/-- The flags meet the condition. -/
def holds (f : Flags) : Condition → Bool
  | nz => !f.zero
  | z => f.zero
  | nc => !f.carry
  | c => f.carry

end Condition

/-- A place in memory that exchanges a byte with the accumulator. -/
inductive Location where
  /-- The byte at BC. -/
  | bc
  /-- The byte at DE. -/
  | de
  /-- The byte at HL, which then goes up by one. -/
  | hlIncrement
  /-- The byte at HL, which then goes down by one. -/
  | hlDecrement
  /-- The byte at 0xFF00 plus an immediate byte. -/
  | highImmediate
  /-- The byte at 0xFF00 plus C. -/
  | highC
  /-- The byte at an immediate address. -/
  | immediate
deriving DecidableEq

/-- The pointer that a two-bit field names; higher bits of `i` are ignored. -/
def Location.pointer (i : UInt8) : Location :=
  match (i &&& 3).toNat with
  | 0 => bc
  | 1 => de
  | 2 => hlIncrement
  | _ => hlDecrement

/-- An instruction of the primary set. -/
inductive Instruction where
  | nop
  /-- Stops the processor; the byte that follows must be zero. -/
  | stop
  /-- Waits for an interrupt. -/
  | halt
  /-- Blocks interrupts. -/
  | di
  /-- Enables interrupts after the next instruction. -/
  | ei
  /-- Copies a byte. -/
  | load (dst src : Register)
  /-- Loads an immediate byte. -/
  | loadImmediate (dst : Register)
  /-- Loads an immediate word. -/
  | loadWord (dst : Register)
  /-- Loads the accumulator from memory. -/
  | loadA (src : Location)
  /-- Stores the accumulator in memory. -/
  | storeA (dst : Location)
  /-- Stores SP at an immediate address, low byte first. -/
  | storeSp
  /-- Copies HL to SP. -/
  | loadSpHl
  /-- Loads HL with SP plus a signed immediate byte. -/
  | loadHlSp
  | push (src : Register)
  | pop (dst : Register)
  /-- An operation on the accumulator and a byte operand. -/
  | alu (op : AluOp) (src : Register)
  /-- An operation on the accumulator and an immediate byte. -/
  | aluImmediate (op : AluOp)
  | inc (dst : Register)
  | dec (dst : Register)
  | incWord (dst : Register)
  | decWord (dst : Register)
  /-- Adds a word to HL. -/
  | addHl (src : Register)
  /-- Adds a signed immediate byte to SP. -/
  | addSp
  /-- Rotates the accumulator. -/
  | rotateA (dir : Direction) (fill : Fill)
  /-- Corrects the accumulator to two decimal digits. -/
  | daa
  /-- Complements the accumulator. -/
  | cpl
  /-- Sets the carry flag. -/
  | scf
  /-- Complements the carry flag. -/
  | ccf
  /-- Jumps by a signed immediate byte, always or on a condition. -/
  | jr (cond : Option Condition)
  /-- Jumps to an immediate address, always or on a condition. -/
  | jp (cond : Option Condition)
  /-- Jumps to HL. -/
  | jpHl
  /-- Calls an immediate address, always or on a condition. -/
  | call (cond : Option Condition)
  /-- Returns, always or on a condition. -/
  | ret (cond : Option Condition)
  /-- Returns and enables interrupts at once. -/
  | reti
  /-- Calls a fixed address in the first page. -/
  | rst (target : UInt16)
deriving DecidableEq

/-- What an extended instruction does to its operand. -/
inductive ExtendedOp where
  | shift (dir : Direction) (fill : Fill)
  | swap
  /-- Tests a bit. -/
  | bit (i : UInt8)
  /-- Clears a bit. -/
  | res (i : UInt8)
  /-- Sets a bit. -/
  | set (i : UInt8)
deriving DecidableEq

/-- An instruction of the extended set. -/
structure ExtendedInstruction where
  /-- What is done. -/
  op : ExtendedOp
  /-- The operand. -/
  target : Register
deriving DecidableEq

end Lr35902
