import Lr35902.Instruction

/-!
# Decoding

An opcode byte is read as three fields: `x` is its upper two bits, `y` the next three and `z` the
lowest three; `y` is split again into `p`, its upper two bits, and `q`, its lowest.  `x` selects a
quarter of the table, `z` a column in the outer quarters, and `y`, `p` and `q` the operand.

* `Instruction.decode` reads the primary table.  Eleven bytes and the byte 0xCB, which introduces
  the extended table, have no entry.
* `ExtendedInstruction.decode` reads the extended table, which is full.
-/

namespace Lr35902

/-- The fields of an opcode byte. -/
structure OpcodeFields where
  x : Nat
  y : Nat
  z : Nat

namespace OpcodeFields

/-- The fields of the byte `b`. -/
def ofByte (b : UInt8) : OpcodeFields where
  x := (b >>> 6).toNat
  y := ((b >>> 3) &&& 7).toNat
  z := (b &&& 7).toNat

end OpcodeFields

/-- The byte that announces an opcode of the extended table. -/
def extensionByte : UInt8 := 0xCB

namespace Instruction

/-- The first quarter of the table: loads of constants, counting, rotations and relative jumps. -/
def decodeFirst (b : UInt8) (y z : Nat) : Option Instruction :=
  let pair := Register.pairOrSp (b >>> 4)
  let operand := Register.ofIndex (b >>> 3)
  match z with
  | 0 =>
    match y with
    | 0 => some nop
    | 1 => some storeSp
    | 2 => some stop
    | 3 => some (jr none)
    | _ => some (jr (some (Condition.ofIndex (b >>> 3))))
  | 1 => some (if y % 2 = 0 then loadWord pair else addHl pair)
  | 2 =>
    let pointer := Location.pointer (b >>> 4)
    some (if y % 2 = 0 then storeA pointer else loadA pointer)
  | 3 => some (if y % 2 = 0 then incWord pair else decWord pair)
  | 4 => some (inc operand)
  | 5 => some (dec operand)
  | 6 => some (loadImmediate operand)
  | _ =>
    match y with
    | 0 => some (rotateA .left .wrap)
    | 1 => some (rotateA .right .wrap)
    | 2 => some (rotateA .left .carry)
    | 3 => some (rotateA .right .carry)
    | 4 => some daa
    | 5 => some cpl
    | 6 => some scf
    | _ => some ccf

/-- The last quarter of the table: the stack, branches, absolute and high addresses, and constant
operands of the accumulator.  All bytes without an instruction are here. -/
def decodeLast (b : UInt8) (y z : Nat) : Option Instruction :=
  let cond := some (Condition.ofIndex (b >>> 3))
  let pair := Register.pairOrAf (b >>> 4)
  match z with
  | 0 =>
    match y with
    | 4 => some (storeA .highImmediate)
    | 5 => some addSp
    | 6 => some (loadA .highImmediate)
    | 7 => some loadHlSp
    | _ => some (ret cond)
  | 1 =>
    match y with
    | 1 => some (ret none)
    | 3 => some reti
    | 5 => some jpHl
    | 7 => some loadSpHl
    | _ => some (pop pair)
  | 2 =>
    match y with
    | 4 => some (storeA .highC)
    | 5 => some (storeA .immediate)
    | 6 => some (loadA .highC)
    | 7 => some (loadA .immediate)
    | _ => some (jp cond)
  | 3 =>
    match y with
    | 0 => some (jp none)
    | 6 => some di
    | 7 => some ei
    | _ => none
  | 4 => if y < 4 then some (call cond) else none
  | 5 =>
    if y % 2 = 0 then some (push pair)
    else if y = 1 then some (call none)
    else none
  | 6 => some (aluImmediate (AluOp.ofIndex (b >>> 3)))
  | _ => some (rst (b &&& 0x38).toUInt16)

/-- The instruction with the opcode `b`, if there is one. -/
def decode (b : UInt8) : Option Instruction :=
  let { x, y, z } := OpcodeFields.ofByte b
  match x with
  | 0 => decodeFirst b y z
  | 1 =>
    if y = 6 ∧ z = 6 then some halt
    else some (load (Register.ofIndex (b >>> 3)) (Register.ofIndex b))
  | 2 => some (alu (AluOp.ofIndex (b >>> 3)) (Register.ofIndex b))
  | _ => decodeLast b y z

end Instruction

namespace ExtendedInstruction

/-- The shift or rotation that a three-bit field names. -/
def decodeShift (y : Nat) : ExtendedOp :=
  match y with
  | 0 => .shift .left .wrap
  | 1 => .shift .right .wrap
  | 2 => .shift .left .carry
  | 3 => .shift .right .carry
  | 4 => .shift .left .zero
  | 5 => .shift .right .sign
  | 6 => .swap
  | _ => .shift .right .zero

/-- The instruction with the opcode `b`. -/
def decode (b : UInt8) : ExtendedInstruction where
  op :=
    match (OpcodeFields.ofByte b).x with
    | 0 => decodeShift (OpcodeFields.ofByte b).y
    | 1 => .bit ((b >>> 3) &&& 7)
    | 2 => .res ((b >>> 3) &&& 7)
    | _ => .set ((b >>> 3) &&& 7)
  target := Register.ofIndex b

end ExtendedInstruction

end Lr35902
