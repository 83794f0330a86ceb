import Lr35902.Proofs.Checked.Basic
import Lr35902.Proofs.Reference.Arithmetic

/-!
# Checked arithmetic

The arithmetic of the processor with its tests: a carry is zero or one, a bit has a number below 8,
and every sum that is not meant to wrap around fits in its width.  Bytes are added as words, their
lower halves as bytes, and so are the lower parts of words.

No test fails, whatever the operands are, and the results are those of the arithmetic without tests
(`Check.add_eq`, `Check.sub_eq`, `Check.add16_eq`, `Check.shift_eq`, `Check.apply_eq`).
-/

namespace Lr35902

namespace Check

/-- The sum of two bytes, which has to be a byte. -/
def byteSum (a b : UInt8) : Except Violation UInt8 := fit 8 (a.toNat + b.toNat) (a + b)

/-- The sum of two words, which has to be a word. -/
def wordSum (a b : UInt16) : Except Violation UInt16 := fit 16 (a.toNat + b.toNat) (a + b)

/-- The product of two words, which has to be a word. -/
def wordProduct (a b : UInt16) : Except Violation UInt16 := fit 16 (a.toNat * b.toNat) (a * b)

/-- A carry is zero or one. -/
def carryIn (c : UInt8) : Except Violation Unit := require (c ≤ 1) (.carryIn c)

/-- A bit of a byte has a number below 8. -/
def bitNumber (i : UInt8) : Except Violation Unit := require (i < 8) (.bitNumber i)

theorem carryIn_ofBool (c : Bool) : carryIn (Byte.ofBool c) = .ok () := by
  cases c <;> rfl

/-! ### Sums and differences -/

/-- The sum of two bytes and a carry. -/
def add (a b c : UInt8) : Except Violation (UInt8 × Flags) := do
  carryIn c
  let sum ← wordSum (← wordSum a.toUInt16 b.toUInt16) c.toUInt16
  let half ← byteSum (← byteSum (a &&& 0x0F) (b &&& 0x0F)) c
  let v := sum.toUInt8
  return (v, { zero := v == 0, halfCarry := decide (0x0F < half), carry := decide (0xFF < sum) })

/-- The difference of two bytes, less a borrow.  Only the difference itself wraps around. -/
def sub (a b c : UInt8) : Except Violation (UInt8 × Flags) := do
  carryIn c
  let subtrahend ← wordSum b.toUInt16 c.toUInt16
  let half ← byteSum (b &&& 0x0F) c
  let v := (a.toUInt16 - subtrahend).toUInt8
  return (v, { zero := v == 0, subtract := true, halfCarry := decide (a &&& 0x0F < half),
               carry := decide (a.toUInt16 < subtrahend) })

/-- The sum of two words, which wraps around; the sum for the half-carry does not. -/
def add16 (a b : UInt16) : Except Violation (UInt16 × Flags) := do
  let half ← wordSum (a &&& 0x0FFF) (b &&& 0x0FFF)
  let v := a + b
  return (v, { zero := v == 0, halfCarry := decide (0x0FFF < half), carry := decide (v < a) })

/-- The byte after `v`; the carry of `f` is kept. -/
def inc (v : UInt8) (f : Flags) : Except Violation (UInt8 × Flags) := do
  let (w, g) ← add v 1 0
  return (w, { g with carry := f.carry })

/-- The byte before `v`; the carry of `f` is kept. -/
def dec (v : UInt8) (f : Flags) : Except Violation (UInt8 × Flags) := do
  let (w, g) ← sub v 1 0
  return (w, { g with carry := f.carry })

/-- The accumulator and the flags after the operation `op`. -/
def apply (op : AluOp) (a v : UInt8) (f : Flags) : Except Violation (UInt8 × Flags) :=
  match op with
  | .add => add a v (Byte.ofBool false)
  | .adc => add a v (Byte.ofBool f.carry)
  | .sub => sub a v (Byte.ofBool false)
  | .sbc => sub a v (Byte.ofBool f.carry)
  | .cp => do return (a, (← sub a v 0).2)
  | op => .ok (op.apply a v f)

theorem add_eq (a b : UInt8) (c : Bool) : add a b (Byte.ofBool c) = .ok (Alu.add a b c) := by
  have ha := a.toNat_lt
  have hb := b.toNat_lt
  have hc := Byte.toNat_ofBool_le c
  have hpair : wordSum a.toUInt16 b.toUInt16 = .ok (a.toUInt16 + b.toUInt16) :=
    fit_eq (by simp only [UInt8.toNat_toUInt16]; omega) _
  have hsum : wordSum (a.toUInt16 + b.toUInt16) (Byte.ofBool c).toUInt16 =
      .ok (a.toUInt16 + b.toUInt16 + (Byte.ofBool c).toUInt16) :=
    fit_eq (by simp only [UInt16.toNat_add, UInt8.toNat_toUInt16]; omega) _
  have hhalves : byteSum (a &&& 0x0F) (b &&& 0x0F) = .ok ((a &&& 0x0F) + (b &&& 0x0F)) :=
    fit_eq (by simp only [Byte.toNat_and_fifteen]; omega) _
  have hhalf : byteSum ((a &&& 0x0F) + (b &&& 0x0F)) (Byte.ofBool c) =
      .ok ((a &&& 0x0F) + (b &&& 0x0F) + Byte.ofBool c) :=
    fit_eq (by simp only [UInt8.toNat_add, Byte.toNat_and_fifteen]; omega) _
  simp only [add, carryIn_ofBool, hpair, hsum, hhalves, hhalf, bind, Except.bind]
  rfl

/-- A carry that is no bit is noticed, and so is a sum that is too large for its width. -/
example : add 0 0 2 = .error (.carryIn 2) ∧ byteSum 0xFF 1 = .error (.overflow 8 0x100) :=
  ⟨rfl, rfl⟩

theorem sub_eq (a b : UInt8) (c : Bool) : sub a b (Byte.ofBool c) = .ok (Alu.sub a b c) := by
  have hb := b.toNat_lt
  have hc := Byte.toNat_ofBool_le c
  have hsum : wordSum b.toUInt16 (Byte.ofBool c).toUInt16 =
      .ok (b.toUInt16 + (Byte.ofBool c).toUInt16) :=
    fit_eq (by simp only [UInt8.toNat_toUInt16]; omega) _
  have hhalf : byteSum (b &&& 0x0F) (Byte.ofBool c) = .ok ((b &&& 0x0F) + Byte.ofBool c) :=
    fit_eq (by simp only [Byte.toNat_and_fifteen]; omega) _
  simp only [sub, carryIn_ofBool, hsum, hhalf, bind, Except.bind]
  rfl

theorem add16_eq (a b : UInt16) : add16 a b = .ok (Alu.add16 a b) := by
  have hhalf : wordSum (a &&& 0x0FFF) (b &&& 0x0FFF) = .ok ((a &&& 0x0FFF) + (b &&& 0x0FFF)) :=
    fit_eq (by simp only [Word.toNat_and_fff]; omega) _
  simp only [add16, hhalf, bind, Except.bind]
  rfl

theorem inc_eq (v : UInt8) (f : Flags) : inc v f = .ok (Alu.inc v f) := by
  have hadd : add v 1 0 = .ok (Alu.add v 1 false) := add_eq v 1 false
  rw [inc, hadd]
  rfl

theorem dec_eq (v : UInt8) (f : Flags) : dec v f = .ok (Alu.dec v f) := by
  have hsub : sub v 1 0 = .ok (Alu.sub v 1 false) := sub_eq v 1 false
  rw [dec, hsub]
  rfl

theorem apply_eq (op : AluOp) (a v : UInt8) (f : Flags) :
    apply op a v f = .ok (op.apply a v f) := by
  cases op with
  | add => exact add_eq a v false
  | adc => exact add_eq a v f.carry
  | sub => exact sub_eq a v false
  | sbc => exact sub_eq a v f.carry
  | cp =>
    have hsub : sub a v 0 = .ok (Alu.sub a v false) := sub_eq a v false
    rw [apply, hsub]
    rfl
  | and | xor | or => rfl

/-! ### Bits and shifts -/

/-- Bit `i` of `v`. -/
def testBit (v i : UInt8) : Except Violation Bool := do
  bitNumber i
  return Byte.testBit v i

/-- The byte `v` with bit `i` set or cleared. -/
def withBit (v i : UInt8) (on : Bool) : Except Violation UInt8 := do
  bitNumber i
  return Byte.withBit v i on

/-- Moves every bit of `v` one place; the carry flag becomes the bit that was moved out. -/
def shift (v : UInt8) (dir : Direction) (fill : Fill) (carry : Bool) :
    Except Violation (UInt8 × Flags) := do
  let (moved, out, edge) ← match dir with
    | .left => do pure (v <<< 1, ← testBit v 7, (0 : UInt8))
    | .right => do pure (v >>> 1, ← testBit v 0, (7 : UInt8))
  let incoming ← match fill with
    | .wrap => pure out
    | .carry => pure carry
    | .zero => pure false
    | .sign => testBit v 7
  bitNumber edge
  let w := moved ||| Byte.ofBool incoming <<< edge
  return (w, { zero := w == 0, carry := out })

theorem testBit_eq {i : UInt8} (h : i < 8) (v : UInt8) : testBit v i = .ok (Byte.testBit v i) := by
  rw [testBit, bitNumber, require_eq h]
  rfl

theorem withBit_eq {i : UInt8} (h : i < 8) (v : UInt8) (on : Bool) :
    withBit v i on = .ok (Byte.withBit v i on) := by
  rw [withBit, bitNumber, require_eq h]
  rfl

theorem shift_eq (v : UInt8) (dir : Direction) (fill : Fill) (carry : Bool) :
    shift v dir fill carry = .ok (Alu.shift v dir fill carry) := by
  cases dir <;> cases fill <;> rfl

end Check

end Lr35902
