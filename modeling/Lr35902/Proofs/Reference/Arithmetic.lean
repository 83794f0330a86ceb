import Lr35902.Alu
import Mathlib.Algebra.Group.Nat.Defs
import Mathlib.Data.Int.Basic
import Mathlib.Tactic.SplitIfs

/-!
# Arithmetic over the integers

What the arithmetic unit computes, said with integers and without machine words.  A result is an
integer, of which a register keeps the remainder, and a flag is a fact about integers.  The
operations on words follow these rules:

* `Alu.add_eq`, `Alu.sub_eq`, `Alu.add16_eq`: sums and differences;
* `Alu.inc_eq`, `Alu.dec_eq`: counting by one, which keeps the carry;
* `AluOp.apply_ofIndex`: the eight operations on the accumulator;
* `Alu.shift_eq`, `Alu.swap_eq`: moving the bits of a byte;
* `Alu.decimalAdjust_eq`: the correction to two decimal digits.
-/

namespace Lr35902

namespace Byte

/-! ### Bytes as integers -/

/-- The integer that a bit stands for. -/
def bit (b : Bool) : ℤ := if b then 1 else 0

theorem toNat_ofInt (i : ℤ) : ((UInt8.ofInt i).toNat : ℤ) = i % 256 := by
  simp only [UInt8.ofInt, UInt8.toNat_ofNat']
  omega

theorem eq_ofInt_iff {v : UInt8} {i : ℤ} : v = UInt8.ofInt i ↔ (v.toNat : ℤ) = i % 256 := by
  rw [← toNat_ofInt, Int.ofNat_inj, UInt8.toNat_inj]

theorem ofInt_eq_zero_iff {i : ℤ} : UInt8.ofInt i = 0 ↔ i % 256 = 0 := by
  rw [eq_comm, eq_ofInt_iff, UInt8.toNat_zero]
  omega

@[simp] theorem ofInt_toNat (v : UInt8) : UInt8.ofInt v.toNat = v := by
  have := v.toNat_lt
  refine (eq_ofInt_iff.2 ?_).symm
  omega

theorem add_eq_ofInt (v w : UInt8) : v + w = UInt8.ofInt (v.toNat + w.toNat) := by
  rw [eq_ofInt_iff, UInt8.toNat_add]
  omega

theorem sub_eq_ofInt (v w : UInt8) : v - w = UInt8.ofInt (v.toNat - w.toNat) := by
  have := v.toNat_lt
  have := w.toNat_lt
  rw [eq_ofInt_iff, UInt8.toNat_sub]
  omega

theorem toNat_ofBool (b : Bool) : ((ofBool b).toNat : ℤ) = bit b := by
  cases b <;> rfl

theorem bit_eq_toNat (b : Bool) : bit b = b.toNat := by
  cases b <;> rfl

theorem bit_cases (b : Bool) : bit b = 1 ∨ bit b = 0 := by
  cases b <;> decide

theorem bit_decide_cases (p : Prop) [Decidable p] :
    p ∧ bit (decide p) = 1 ∨ ¬ p ∧ bit (decide p) = 0 := by
  by_cases h : p
  · exact .inl ⟨h, by rw [decide_eq_true h, bit, if_pos rfl]⟩
  · exact .inr ⟨h, by rw [decide_eq_false h]; rfl⟩

theorem toNat_ofBool_le (b : Bool) : (ofBool b).toNat ≤ 1 := by
  cases b <;> decide

/-- The lower half of a byte. -/
theorem toNat_and_fifteen (v : UInt8) : (v &&& 0x0F).toNat = v.toNat % 16 := by
  rw [UInt8.toNat_and]
  exact Nat.and_two_pow_sub_one_eq_mod v.toNat 4

/-- A field of three bits, which names a byte operand. -/
theorem toNat_and_seven (v : UInt8) : (v &&& 7).toNat = v.toNat % 8 := by
  rw [UInt8.toNat_and]
  exact Nat.and_two_pow_sub_one_eq_mod v.toNat 3

/-- A field of two bits, which names a word operand or a condition. -/
theorem toNat_and_three (v : UInt8) : (v &&& 3).toNat = v.toNat % 4 := by
  rw [UInt8.toNat_and]
  exact Nat.and_two_pow_sub_one_eq_mod v.toNat 2

theorem toNat_complement (v : UInt8) : ((~~~v).toNat : ℤ) = 255 - v.toNat := by
  have := v.toNat_lt
  rw [UInt8.toNat_not, UInt8.size]
  omega

/-- A bit of a byte is a digit of its binary numeral. -/
theorem testBit_eq (v i : UInt8) :
    testBit v i = decide (v.toNat / 2 ^ (i.toNat % 8) % 2 = 1) := by
  have hbit : ((v >>> i) &&& 1).toNat = v.toNat / 2 ^ (i.toNat % 8) % 2 := by
    rw [UInt8.toNat_and, UInt8.toNat_shiftRight, Nat.shiftRight_eq_div_pow]
    exact Nat.and_two_pow_sub_one_eq_mod _ 1
  rw [testBit, Bool.eq_iff_iff]
  simp only [bne_iff_ne, ne_eq, decide_eq_true_eq, ← UInt8.toNat_inj, hbit, UInt8.toNat_zero]
  omega

theorem testBit_seven (v : UInt8) : testBit v 7 = decide (128 ≤ v.toNat) := by
  have := v.toNat_lt
  simp only [testBit_eq, UInt8.reduceToNat, Nat.reduceMod, Nat.reducePow, decide_eq_decide]
  omega

theorem testBit_zero (v : UInt8) : testBit v 0 = decide (v.toNat % 2 = 1) := by
  simp only [testBit_eq, UInt8.toNat_zero, Nat.zero_mod, Nat.pow_zero, Nat.div_one]

/-- A shift to the left makes room for a bit at the lower end. -/
theorem toNat_shiftLeft_or (v : UInt8) (b : Bool) :
    (v <<< 1 ||| ofBool b <<< 0).toNat = (2 * v.toNat + (ofBool b).toNat) % 256 := by
  obtain ⟨v⟩ := v
  revert v b
  decide +kernel

/-- A shift to the right makes room for a bit at the upper end. -/
theorem toNat_shiftRight_or (v : UInt8) (b : Bool) :
    (v >>> 1 ||| ofBool b <<< 7).toNat = v.toNat / 2 + 128 * (ofBool b).toNat := by
  obtain ⟨v⟩ := v
  revert v b
  decide +kernel

theorem toNat_swapNibbles (v : UInt8) :
    (swapNibbles v).toNat = v.toNat % 16 * 16 + v.toNat / 16 := by
  obtain ⟨v⟩ := v
  revert v
  decide +kernel

end Byte

namespace Word

/-! ### Words as integers -/

theorem toNat_ofInt (i : ℤ) : ((UInt16.ofInt i).toNat : ℤ) = i % 65536 := by
  simp only [UInt16.ofInt, UInt16.toNat_ofNat']
  omega

theorem eq_ofInt_iff {w : UInt16} {i : ℤ} : w = UInt16.ofInt i ↔ (w.toNat : ℤ) = i % 65536 := by
  rw [← toNat_ofInt, Int.ofNat_inj, UInt16.toNat_inj]

@[simp] theorem ofInt_toNat (w : UInt16) : UInt16.ofInt w.toNat = w := by
  have := w.toNat_lt
  refine (eq_ofInt_iff.2 ?_).symm
  omega

theorem add_eq_ofInt (v w : UInt16) : v + w = UInt16.ofInt (v.toNat + w.toNat) := by
  rw [eq_ofInt_iff, UInt16.toNat_add]
  omega

theorem sub_eq_ofInt (v w : UInt16) : v - w = UInt16.ofInt (v.toNat - w.toNat) := by
  have := v.toNat_lt
  have := w.toNat_lt
  rw [eq_ofInt_iff, UInt16.toNat_sub]
  omega

/-- The lower twelve bits of a word. -/
theorem toNat_and_fff (w : UInt16) : (w &&& 0x0FFF).toNat = w.toNat % 4096 := by
  rw [UInt16.toNat_and]
  exact Nat.and_two_pow_sub_one_eq_mod w.toNat 12

end Word

namespace Reference

open Byte (bit)

/-! ### The rules -/

/-- The number from -128 to 127 that a byte stands for. -/
def signed (e : ℤ) : ℤ := if e < 128 then e else e - 256

/-- The sum of two bytes and a carry. -/
def add (a v c : ℤ) : ℤ × Flags :=
  (a + v + c,
    { zero := (a + v + c) % 256 = 0
      halfCarry := 15 < a % 16 + v % 16 + c
      carry := 255 < a + v + c })

/-- The difference of two bytes, less a borrow. -/
def sub (a v c : ℤ) : ℤ × Flags :=
  (a - v - c,
    { zero := (a - v - c) % 256 = 0
      subtract := true
      halfCarry := a % 16 < v % 16 + c
      carry := a < v + c })

/-- The sum of two words, with the half-carry out of bit 11 and the carry out of bit 15. -/
def add16 (a b : ℤ) : ℤ × Flags :=
  (a + b,
    { zero := (a + b) % 65536 = 0
      halfCarry := 4095 < a % 4096 + b % 4096
      carry := 65535 < a + b })

/-- A byte and one more.  The carry is kept. -/
def inc (v : ℤ) (f : Flags) : ℤ × Flags := (v + 1, { (add v 1 0).2 with carry := f.carry })

/-- A byte and one less.  The carry is kept. -/
def dec (v : ℤ) (f : Flags) : ℤ × Flags := (v - 1, { (sub v 1 0).2 with carry := f.carry })

/-- Row `y` of the operations on the accumulator `a`: ADD, ADC, SUB, SBC, AND, XOR, OR and CP. -/
def alu (y : ℕ) (a v : ℤ) (f : Flags) : ℤ × Flags :=
  match y with
  | 0 => add a v 0
  | 1 => add a v (bit f.carry)
  | 2 => sub a v 0
  | 3 => sub a v (bit f.carry)
  | 4 => let r := a.toNat &&& v.toNat; (r, { zero := r = 0, halfCarry := true })
  | 5 => let r := a.toNat ^^^ v.toNat; (r, { zero := r = 0 })
  | 6 => let r := a.toNat ||| v.toNat; (r, { zero := r = 0 })
  | _ => (a, (sub a v 0).2)

/-- A byte after its bits were moved, given the result over the integers and the bit that was moved
out. -/
def moved (r : ℤ) (out : Bool) : ℤ × Flags := (r, { zero := r % 256 = 0, carry := out })

/-- Row `y` of the moves of a byte: RLC, RRC, RL, RR, SLA, SRA, SWAP and SRL. -/
def rotate (y : ℕ) (v : ℤ) (carry : Bool) : ℤ × Flags :=
  match y with
  | 0 => moved (2 * v + v / 128) (128 ≤ v)
  | 1 => moved (v / 2 + 128 * (v % 2)) (v % 2 = 1)
  | 2 => moved (2 * v + bit carry) (128 ≤ v)
  | 3 => moved (v / 2 + 128 * bit carry) (v % 2 = 1)
  | 4 => moved (2 * v) (128 ≤ v)
  | 5 => moved (v / 2 + 128 * (v / 128)) (v % 2 = 1)
  | 6 => moved (v % 16 * 16 + v / 16) false
  | _ => moved (v / 2) (v % 2 = 1)

/-- The correction of the accumulator to two decimal digits.  A digit is corrected by six if a carry
or borrow has left it, and after a sum also if it is above nine. -/
def decimalAdjust (a : ℤ) (f : Flags) : ℤ × Flags :=
  let low := f.halfCarry || (!f.subtract && 9 < a % 16)
  let high := f.carry || (!f.subtract && 0x99 < a)
  let correction := 6 * bit low + 0x60 * bit high
  let r := if f.subtract then a - correction else a + correction
  (r, { zero := r % 256 = 0, subtract := f.subtract, carry := high })

/-- What a byte register and the flags keep of a result. -/
def truncate (r : ℤ × Flags) : UInt8 × Flags := (UInt8.ofInt r.1, r.2)

/-- What a word register and the flags keep of a result. -/
def truncate16 (r : ℤ × Flags) : UInt16 × Flags := (UInt16.ofInt r.1, r.2)

end Reference

open Reference (truncate truncate16)

/-! ### The arithmetic unit follows the rules -/

namespace Alu

open Byte (bit)

theorem add_eq (a v : UInt8) (c : Bool) :
    add a v c = truncate (Reference.add a.toNat v.toNat (bit c)) := by
  have ha := a.toNat_lt
  have hv := v.toNat_lt
  have hc := Byte.toNat_ofBool c
  have hc' := Byte.toNat_ofBool_le c
  -- the sums that the flags are read off do not wrap around
  have hsum : (a.toUInt16 + v.toUInt16 + (Byte.ofBool c).toUInt16).toNat =
      a.toNat + v.toNat + (Byte.ofBool c).toNat := by
    simp only [UInt16.toNat_add, UInt8.toNat_toUInt16]
    omega
  have hhalf : ((a &&& 0x0F) + (v &&& 0x0F) + Byte.ofBool c).toNat =
      a.toNat % 16 + v.toNat % 16 + (Byte.ofBool c).toNat := by
    simp only [UInt8.toNat_add, Byte.toNat_and_fifteen]
    omega
  have hval : (a.toUInt16 + v.toUInt16 + (Byte.ofBool c).toUInt16).toUInt8 =
      UInt8.ofInt (a.toNat + v.toNat + bit c) := by
    rw [Byte.eq_ofInt_iff, UInt16.toNat_toUInt8, hsum]
    omega
  refine Prod.ext hval (Flags.ext ?_ rfl ?_ ?_)
  · simp only [add, truncate, Reference.add, beq_eq_decide, hval, Byte.ofInt_eq_zero_iff]
  · simp only [add, truncate, Reference.add, decide_eq_decide, UInt8.lt_iff_toNat_lt, hhalf,
      UInt8.reduceToNat]
    omega
  · simp only [add, truncate, Reference.add, decide_eq_decide, UInt16.lt_iff_toNat_lt, hsum,
      UInt16.reduceToNat]
    omega

theorem sub_eq (a v : UInt8) (c : Bool) :
    sub a v c = truncate (Reference.sub a.toNat v.toNat (bit c)) := by
  have ha := a.toNat_lt
  have hv := v.toNat_lt
  have hc := Byte.toNat_ofBool c
  have hc' := Byte.toNat_ofBool_le c
  -- only the difference wraps around, and the flags are read off before it is taken
  have hsub : (v.toUInt16 + (Byte.ofBool c).toUInt16).toNat =
      v.toNat + (Byte.ofBool c).toNat := by
    simp only [UInt16.toNat_add, UInt8.toNat_toUInt16]
    omega
  have hhalf : ((v &&& 0x0F) + Byte.ofBool c).toNat = v.toNat % 16 + (Byte.ofBool c).toNat := by
    simp only [UInt8.toNat_add, Byte.toNat_and_fifteen]
    omega
  have hval : (a.toUInt16 - (v.toUInt16 + (Byte.ofBool c).toUInt16)).toUInt8 =
      UInt8.ofInt (a.toNat - v.toNat - bit c) := by
    rw [Byte.eq_ofInt_iff, UInt16.toNat_toUInt8, UInt16.toNat_sub, hsub, UInt8.toNat_toUInt16]
    omega
  refine Prod.ext hval (Flags.ext ?_ rfl ?_ ?_)
  · simp only [sub, truncate, Reference.sub, beq_eq_decide, hval, Byte.ofInt_eq_zero_iff]
  · simp only [sub, truncate, Reference.sub, decide_eq_decide, UInt8.lt_iff_toNat_lt, hhalf,
      Byte.toNat_and_fifteen]
    omega
  · simp only [sub, truncate, Reference.sub, decide_eq_decide, UInt16.lt_iff_toNat_lt, hsub,
      UInt8.toNat_toUInt16]
    omega

theorem add16_eq (a b : UInt16) :
    add16 a b = truncate16 (Reference.add16 a.toNat b.toNat) := by
  have ha := a.toNat_lt
  have hb := b.toNat_lt
  have hhalf : ((a &&& 0x0FFF) + (b &&& 0x0FFF)).toNat = a.toNat % 4096 + b.toNat % 4096 := by
    simp only [UInt16.toNat_add, Word.toNat_and_fff]
    omega
  have hval : a + b = UInt16.ofInt (a.toNat + b.toNat) := by
    rw [Word.eq_ofInt_iff, UInt16.toNat_add]
    omega
  refine Prod.ext hval (Flags.ext ?_ rfl ?_ ?_)
  · simp only [add16, truncate16, Reference.add16, beq_eq_decide, decide_eq_decide]
    rw [← UInt16.toNat_inj, UInt16.toNat_add, UInt16.toNat_zero]
    omega
  · simp only [add16, truncate16, Reference.add16, decide_eq_decide, UInt16.lt_iff_toNat_lt, hhalf,
      UInt16.reduceToNat]
    omega
  · -- the sum wraps around exactly if it is below a summand
    simp only [add16, truncate16, Reference.add16, decide_eq_decide, UInt16.lt_iff_toNat_lt,
      UInt16.toNat_add]
    omega

theorem inc_eq (v : UInt8) (f : Flags) : inc v f = truncate (Reference.inc v.toNat f) := by
  have h := add_eq v 1 false
  simp only [truncate, Reference.add, Reference.inc, inc, h, bit]
  simp

theorem dec_eq (v : UInt8) (f : Flags) : dec v f = truncate (Reference.dec v.toNat f) := by
  have h := sub_eq v 1 false
  simp only [truncate, Reference.sub, Reference.dec, dec, h, bit]
  simp

end Alu

/-- A result that is a byte already is kept as it is. -/
theorem truncate_toNat (r : UInt8) (f : Bool → Flags) :
    truncate ((r.toNat : ℤ), f (r.toNat = 0)) = (r, f (r == 0)) := by
  simp only [truncate, Byte.ofInt_toNat, beq_eq_decide, ← UInt8.toNat_inj, UInt8.toNat_zero]

namespace AluOp

/-- The operation that a field names is the row of that number. -/
theorem apply_ofIndex (i a v : UInt8) (f : Flags) :
    (ofIndex i).apply a v f =
      truncate (Reference.alu (i.toNat % 8) a.toNat v.toNat f) := by
  simp only [ofIndex, Byte.toNat_and_seven]
  match i.toNat % 8 with
  | 0 => exact Alu.add_eq a v false
  | 1 => exact Alu.add_eq a v f.carry
  | 2 => exact Alu.sub_eq a v false
  | 3 => exact Alu.sub_eq a v f.carry
  | 4 =>
    have h := truncate_toNat (a &&& v) fun z => { zero := z, halfCarry := true }
    rw [UInt8.toNat_and] at h
    simpa only [apply, Reference.alu, Int.toNat_natCast, Int.natCast_eq_zero] using h.symm
  | 5 =>
    have h := truncate_toNat (a ^^^ v) fun z => { zero := z }
    rw [UInt8.toNat_xor] at h
    simpa only [apply, Reference.alu, Int.toNat_natCast, Int.natCast_eq_zero] using h.symm
  | 6 =>
    have h := truncate_toNat (a ||| v) fun z => { zero := z }
    rw [UInt8.toNat_or] at h
    simpa only [apply, Reference.alu, Int.toNat_natCast, Int.natCast_eq_zero] using h.symm
  | y + 7 =>
    change (a, (Alu.sub a v false).2) = _
    rw [Alu.sub_eq]
    simp [Reference.alu, truncate, Byte.bit]

end AluOp

namespace Alu

open Byte (bit)

/-- The row of a shift among the moves of a byte.  To the left the sign is the bit that was moved
out. -/
def shiftRow : Direction → Fill → ℕ
  | .left, .wrap => 0
  | .right, .wrap => 1
  | .left, .carry => 2
  | .right, .carry => 3
  | .left, .zero => 4
  | .right, .sign => 5
  | .left, .sign => 0
  | .right, .zero => 7

theorem moved_left (v : UInt8) (b : Bool) :
    (v <<< 1 ||| Byte.ofBool b <<< 0,
        ({ zero := v <<< 1 ||| Byte.ofBool b <<< 0 == 0, carry := Byte.testBit v 7 } : Flags)) =
      truncate (Reference.moved (2 * v.toNat + bit b) (128 ≤ (v.toNat : ℤ))) := by
  have hval : v <<< 1 ||| Byte.ofBool b <<< 0 = UInt8.ofInt (2 * v.toNat + bit b) := by
    rw [Byte.eq_ofInt_iff, Byte.toNat_shiftLeft_or, ← Byte.toNat_ofBool]
    omega
  have hout : decide (128 ≤ v.toNat) = decide (128 ≤ (v.toNat : ℤ)) := by
    simp only [decide_eq_decide]
    omega
  simp only [truncate, Reference.moved, beq_eq_decide, hval, Byte.ofInt_eq_zero_iff,
    Byte.testBit_seven, hout]

theorem moved_right (v : UInt8) (b : Bool) :
    (v >>> 1 ||| Byte.ofBool b <<< 7,
        ({ zero := v >>> 1 ||| Byte.ofBool b <<< 7 == 0, carry := Byte.testBit v 0 } : Flags)) =
      truncate (Reference.moved (v.toNat / 2 + 128 * bit b) ((v.toNat : ℤ) % 2 = 1)) := by
  have hv := v.toNat_lt
  have hb := Byte.toNat_ofBool_le b
  have hval : v >>> 1 ||| Byte.ofBool b <<< 7 = UInt8.ofInt (v.toNat / 2 + 128 * bit b) := by
    rw [Byte.eq_ofInt_iff, Byte.toNat_shiftRight_or, ← Byte.toNat_ofBool]
    omega
  have hout : decide (v.toNat % 2 = 1) = decide ((v.toNat : ℤ) % 2 = 1) := by
    simp only [decide_eq_decide]
    omega
  simp only [truncate, Reference.moved, beq_eq_decide, hval, Byte.ofInt_eq_zero_iff,
    Byte.testBit_zero, hout]

theorem bit_testBit_seven (v : UInt8) : bit (Byte.testBit v 7) = v.toNat / 128 := by
  have := v.toNat_lt
  rw [Byte.testBit_seven, bit]
  split_ifs with h <;> simp only [decide_eq_true_eq] at h <;> omega

theorem bit_testBit_zero (v : UInt8) : bit (Byte.testBit v 0) = v.toNat % 2 := by
  rw [Byte.testBit_zero, bit]
  split_ifs with h <;> simp only [decide_eq_true_eq] at h <;> omega

theorem shift_eq (v : UInt8) (dir : Direction) (fill : Fill) (carry : Bool) :
    shift v dir fill carry = truncate (Reference.rotate (shiftRow dir fill) v.toNat carry) := by
  have hleft := moved_left v (Byte.testBit v 7)
  have hright := moved_right v (Byte.testBit v 0)
  have hsign := moved_right v (Byte.testBit v 7)
  have hleft' := moved_left v false
  have hright' := moved_right v false
  rw [bit_testBit_seven] at hleft hsign
  rw [bit_testBit_zero] at hright
  simp only [bit, Bool.false_eq_true, if_false, Int.mul_zero, Int.add_zero] at hleft' hright'
  cases dir <;> cases fill
  case left.wrap => exact hleft
  case left.carry => exact moved_left v carry
  case left.zero => exact hleft'
  case left.sign => exact hleft
  case right.wrap => exact hright
  case right.carry => exact moved_right v carry
  case right.zero => exact hright'
  case right.sign => exact hsign

theorem swap_eq (v : UInt8) (carry : Bool) :
    swap v = truncate (Reference.rotate 6 v.toNat carry) := by
  have hv := v.toNat_lt
  have hval : Byte.swapNibbles v = UInt8.ofInt (v.toNat % 16 * 16 + v.toNat / 16) := by
    rw [Byte.eq_ofInt_iff, Byte.toNat_swapNibbles]
    omega
  simp only [swap, truncate, Reference.rotate, Reference.moved, beq_eq_decide, hval,
    Byte.ofInt_eq_zero_iff]

/-! ### Decimal digits -/

/-- A correction takes six of the digits that need it. -/
theorem toNat_correction (low high : Bool) :
    ((((if low then 0x06 else 0) ||| (if high then 0x60 else 0) : UInt8)).toNat : ℤ) =
      6 * bit low + 0x60 * bit high := by
  cases low <;> cases high <;> rfl

theorem decimalAdjust_eq (a : UInt8) (f : Flags) :
    decimalAdjust a f = truncate (Reference.decimalAdjust a.toNat f) := by
  obtain ⟨z, n, h, c⟩ := f
  have hlow : decide ((0x09 : UInt8) < a &&& 0x0F) = decide (9 < (a.toNat : ℤ) % 16) := by
    simp only [decide_eq_decide, UInt8.lt_iff_toNat_lt, Byte.toNat_and_fifteen, UInt8.reduceToNat]
    omega
  have hhigh : decide ((0x99 : UInt8) < a) = decide (0x99 < (a.toNat : ℤ)) := by
    simp only [decide_eq_decide, UInt8.lt_iff_toNat_lt, UInt8.reduceToNat]
    omega
  cases n with
  | false =>
    simp only [decimalAdjust, Reference.decimalAdjust, truncate, hlow, hhigh, Bool.false_eq_true,
      if_false, Bool.not_false, Bool.true_and]
    rw [Byte.add_eq_ofInt, toNat_correction]
    simp only [beq_eq_decide, Byte.ofInt_eq_zero_iff]
  | true =>
    simp only [decimalAdjust, Reference.decimalAdjust, truncate, if_true, Bool.not_true,
      Bool.false_and, Bool.or_false]
    rw [Byte.sub_eq_ofInt, toNat_correction]
    simp only [beq_eq_decide, Byte.ofInt_eq_zero_iff]

end Alu

end Lr35902
