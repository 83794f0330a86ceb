import Lr35902.Flags

/-!
# Arithmetic and logic

Each operation returns its result and the flags that it leaves.  `Alu.add` and `Alu.sub` carry all
byte arithmetic, `Alu.add16` the sums with HL and SP, and `Alu.shift` all shifts and rotations,
told apart by their direction and by the bit that is moved in.

`AluOp.apply` gives the eight operations on the accumulator, and `Alu.decimalAdjust` corrects the
accumulator after an operation on numbers with two decimal digits to the byte.
-/

namespace Lr35902

/-- The direction of a shift or rotation. -/
inductive Direction where
  | left | right
deriving DecidableEq

/-- Where the bit comes from that a shift moves in. -/
inductive Fill where
  /-- The bit that was moved out. -/
  | wrap
  /-- The carry flag. -/
  | carry
  /-- Always zero. -/
  | zero
  /-- The highest bit of the operand, so that a shift to the right keeps the sign. -/
  | sign
deriving DecidableEq

/-- An operation on the accumulator and a byte. -/
inductive AluOp where
  | add | adc | sub | sbc | and | xor | or | cp
deriving DecidableEq

namespace Alu

/-! ### Sums and differences -/

/-- The sum of two bytes and a carry. -/
def add (a b : UInt8) (carry : Bool) : UInt8 × Flags :=
  let c := Byte.ofBool carry
  let sum := a.toUInt16 + b.toUInt16 + c.toUInt16
  let v := sum.toUInt8
  (v, { zero := v == 0
        halfCarry := decide (0x0F < (a &&& 0x0F) + (b &&& 0x0F) + c)
        carry := decide (0xFF < sum) })

/-- The difference of two bytes, less a borrow. -/
def sub (a b : UInt8) (borrow : Bool) : UInt8 × Flags :=
  let c := Byte.ofBool borrow
  let subtrahend := b.toUInt16 + c.toUInt16
  let v := (a.toUInt16 - subtrahend).toUInt8
  (v, { zero := v == 0
        subtract := true
        halfCarry := decide (a &&& 0x0F < (b &&& 0x0F) + c)
        carry := decide (a.toUInt16 < subtrahend) })

/-- The sum of two words; the half-carry is the carry out of bit 11. -/
def add16 (a b : UInt16) : UInt16 × Flags :=
  let v := a + b
  (v, { zero := v == 0
        halfCarry := decide (0x0FFF < (a &&& 0x0FFF) + (b &&& 0x0FFF))
        carry := decide (v < a) })

/-- The byte after `v`; the carry of `f` is kept. -/
def inc (v : UInt8) (f : Flags) : UInt8 × Flags :=
  let (w, g) := add v 1 false
  (w, { g with carry := f.carry })

/-- The byte before `v`; the carry of `f` is kept. -/
def dec (v : UInt8) (f : Flags) : UInt8 × Flags :=
  let (w, g) := sub v 1 false
  (w, { g with carry := f.carry })

/-- The accumulator `a` corrected to two decimal digits, given the flags `f` of the sum or
difference that it holds.  The carry, once set, stays set. -/
def decimalAdjust (a : UInt8) (f : Flags) : UInt8 × Flags :=
  let (v, carry) :=
    if f.subtract then
      (a - ((if f.halfCarry then 0x06 else 0) ||| (if f.carry then 0x60 else 0)), f.carry)
    else
      let carry := f.carry || decide (0x99 < a)
      (a + ((if f.halfCarry || decide (0x09 < a &&& 0x0F) then 0x06 else 0) |||
        (if carry then 0x60 else 0)), carry)
  (v, { zero := v == 0, subtract := f.subtract, carry })

/-! ### Shifts -/

/-- Moves every bit of `v` one place; the carry flag becomes the bit that was moved out. -/
def shift (v : UInt8) (dir : Direction) (fill : Fill) (carry : Bool) : UInt8 × Flags :=
  let (moved, out, edge) := match dir with
    | .left => (v <<< 1, Byte.testBit v 7, (0 : UInt8))
    | .right => (v >>> 1, Byte.testBit v 0, (7 : UInt8))
  let incoming := match fill with
    | .wrap => out
    | .carry => carry
    | .zero => false
    | .sign => Byte.testBit v 7
  let w := moved ||| Byte.ofBool incoming <<< edge
  (w, { zero := w == 0, carry := out })

/-- Exchanges the halves of `v`. -/
def swap (v : UInt8) : UInt8 × Flags :=
  let w := Byte.swapNibbles v
  (w, { zero := w == 0 })

end Alu

namespace AluOp

/-- The operation that a three-bit field names; higher bits of `i` are ignored. -/
def ofIndex (i : UInt8) : AluOp :=
  match (i &&& 7).toNat with
  | 0 => add
  | 1 => adc
  | 2 => sub
  | 3 => sbc
  | 4 => and
  | 5 => xor
  | 6 => or
  | _ => cp

/-- The accumulator and the flags after the operation with operand `v`, from accumulator `a` and
flags `f`.  A comparison is a difference whose value is dropped. -/
def apply (op : AluOp) (a v : UInt8) (f : Flags) : UInt8 × Flags :=
  match op with
  | add => Alu.add a v false
  | adc => Alu.add a v f.carry
  | sub => Alu.sub a v false
  | sbc => Alu.sub a v f.carry
  | and => (a &&& v, { zero := a &&& v == 0, halfCarry := true })
  | xor => (a ^^^ v, { zero := a ^^^ v == 0 })
  | or => (a ||| v, { zero := a ||| v == 0 })
  | cp => (a, (Alu.sub a v false).2)

theorem apply_cp (a v : UInt8) (f : Flags) :
    apply cp a v f = (a, (apply sub a v f).2) := rfl

end AluOp

end Lr35902
