import Lr35902.Cpu.Execute
import Lr35902.Proofs.Memory
import Lr35902.Proofs.Reference.Arithmetic
import Lr35902.Proofs.Registers
import Mathlib.Tactic.LinearCombination

/-!
# Decimal arithmetic of any length

A byte holds two decimal digits, and a row of bytes, the least significant one first, holds a number
of any length.  Two such numbers are added byte by byte: each sum is corrected to two decimal digits
before the next one takes the carry that it has left.  Differences are taken in the same way.

What one byte comes to is a rule over the integers (`Decimal.Rule`), in which the carry counts as a
hundred.  In a row of bytes the carries in between cancel out (`Decimal.combineRows_ok`), so the row
holds the digits of the sum or of the difference, and the last carry tells whether they are all
(`Decimal.decimal_arithmetic`).
-/

namespace Lr35902

namespace Decimal

open Byte (bit bit_cases bit_decide_cases bit_eq_toNat)

/-! ### Digits -/

/-- Both halves of the byte are decimal digits. -/
def IsDecimal (b : UInt8) : Prop := b.toNat / 16 ≤ 9 ∧ b.toNat % 16 ≤ 9

instance (b : UInt8) : Decidable (IsDecimal b) := inferInstanceAs (Decidable (_ ∧ _))

/-- The number that the two digits of a byte stand for. -/
def byteValue (b : UInt8) : ℕ := 10 * (b.toNat / 16) + b.toNat % 16

/-- The number that a row of bytes stands for, the least significant one first. -/
def value : List UInt8 → ℕ
  | [] => 0
  | b :: bs => byteValue b + 100 * value bs

/-- The byte with the two digits of `k`. -/
def packed (k : ℕ) : UInt8 := (16 * (k / 10) + k % 10).toUInt8

/-- The lowest `2 * n` digits of `k`, two to the byte, the least significant byte first. -/
def digits : ℕ → ℕ → List UInt8
  | 0, _ => []
  | n + 1, k => packed (k % 100) :: digits n (k / 100)

/-- The row of `n` bytes holds decimal digits only. -/
structure Numeral (n : ℕ) (bs : List UInt8) : Prop where
  length : bs.length = n
  decimal : ∀ b ∈ bs, IsDecimal b

section

variable {n : ℕ} {b : UInt8} {bs : List UInt8}

theorem byteValue_lt (h : IsDecimal b) : byteValue b < 100 := by
  obtain ⟨hhigh, hlow⟩ := h
  unfold byteValue
  omega

theorem packed_byteValue (h : IsDecimal b) : packed (byteValue b) = b := by
  obtain ⟨hhigh, hlow⟩ := h
  have hb := b.toNat_lt
  rw [packed, byteValue, ← UInt8.toNat_inj, Nat.toUInt8_eq, UInt8.toNat_ofNat']
  omega

theorem Numeral.value_lt (h : Numeral n bs) : value bs < 100 ^ n := by
  obtain ⟨rfl, hbs⟩ := h
  induction bs with
  | nil => exact Nat.one_pos
  | cons b bs ih =>
    rw [List.forall_mem_cons] at hbs
    have hb := byteValue_lt hbs.1
    have hrest := ih hbs.2
    rw [value, List.length_cons, Nat.pow_succ]
    omega

/-- A numeral holds the digits of its value. -/
theorem Numeral.eq_digits (h : Numeral n bs) : bs = digits n (value bs) := by
  obtain ⟨rfl, hbs⟩ := h
  induction bs with
  | nil => rfl
  | cons b bs ih =>
    rw [List.forall_mem_cons] at hbs
    have hb := byteValue_lt hbs.1
    have hlow : value (b :: bs) % 100 = byteValue b := by
      rw [value]
      omega
    have hrest : value (b :: bs) / 100 = value bs := by
      rw [value]
      omega
    rw [List.length_cons, digits, hlow, hrest, packed_byteValue hbs.1, ← ih hbs.2]

end

/-! ### One byte -/

/-- The accumulator and the flags after a correction.  `subtract` tells whether it was made to a
difference. -/
structure Corrected (subtract : Bool) (r : UInt8 × Flags) : Prop where
  decimal : IsDecimal r.1
  zero : r.2.zero = true ↔ r.1 = 0
  subtract : r.2.subtract = subtract
  halfCarry : r.2.halfCarry = false

/-- The rule for one byte: with a carry that counts as a hundred, the result is the sum or, with a
negative sign, the difference. -/
structure Rule (sign : ℤ) (subtract : Bool) (x y : UInt8) (c : Bool) (r : UInt8 × Flags) :
    Prop where
  corrected : Corrected subtract r
  value : (byteValue r.1 : ℤ) + sign * (100 * bit r.2.carry) =
    byteValue x + sign * (byteValue y + bit c)

/-- The correction of a result. -/
def adjust (r : UInt8 × Flags) : UInt8 × Flags := Alu.decimalAdjust r.1 r.2

theorem bit_or_cases (p q : Prop) [Decidable p] [Decidable q] :
    (p ∨ q) ∧ bit (decide p || decide q) = 1 ∨ ¬ (p ∨ q) ∧ bit (decide p || decide q) = 0 := by
  rw [← Bool.decide_or]
  exact bit_decide_cases (p ∨ q)

/-- The correction of what a byte keeps of an integer. -/
theorem adjust_truncate (i : ℤ) (f : Flags) :
    adjust (Reference.truncate (i, f)) =
      Reference.truncate (Reference.decimalAdjust (i % 256) f) := by
  rw [adjust, Reference.truncate, Alu.decimalAdjust_eq, Byte.toNat_ofInt]

/-- What a correction leaves follows from the rule for integers, given which digits it corrects. -/
theorem rule_of_digits {sign a : ℤ} {subtract : Bool} {x y : UInt8} {c : Bool} {f : Flags}
    (hf : f.subtract = subtract)
    (h : ∀ v : ℤ, v = (Reference.decimalAdjust a f).1 % 256 → v / 16 ≤ 9 ∧ v % 16 ≤ 9 ∧
      10 * (v / 16) + v % 16 + sign * (100 * bit (Reference.decimalAdjust a f).2.carry) =
        byteValue x + sign * (byteValue y + bit c)) :
    Rule sign subtract x y c (Reference.truncate (Reference.decimalAdjust a f)) := by
  obtain ⟨hhigh, hlow, hvalue⟩ := h _ (Byte.toNat_ofInt _)
  refine ⟨⟨⟨?_, ?_⟩, ?_, hf, rfl⟩, ?_⟩
  · exact_mod_cast hhigh
  · exact_mod_cast hlow
  · simp only [Reference.truncate, Byte.ofInt_eq_zero_iff]
    exact decide_eq_true_iff
  · rw [← hvalue]
    simp only [byteValue, Reference.truncate]
    push_cast
    rfl

/-- Of a sum those digits are corrected that come to ten or more. -/
theorem rule_add {x y : UInt8} (hx : IsDecimal x) (hy : IsDecimal y) (c : Bool) :
    Rule 1 false x y c (adjust (Alu.add x y c)) := by
  obtain ⟨hxhigh, hxlow⟩ := hx
  obtain ⟨hyhigh, hylow⟩ := hy
  rw [Alu.add_eq, Reference.add, adjust_truncate]
  refine rule_of_digits rfl fun v hv => ?_
  simp only [Reference.decimalAdjust, Bool.not_false, Bool.true_and, Bool.false_eq_true,
    if_false] at hv ⊢
  have hc := bit_cases c
  have hlow := bit_or_cases (15 < (x.toNat : ℤ) % 16 + y.toNat % 16 + bit c)
    (9 < ((x.toNat : ℤ) + y.toNat + bit c) % 256 % 16)
  have hhigh := bit_or_cases (255 < (x.toNat : ℤ) + y.toNat + bit c)
    (0x99 < ((x.toNat : ℤ) + y.toNat + bit c) % 256)
  generalize bit (_ || _) = low at hv hlow
  generalize bit (_ || _) = high at hv hhigh ⊢
  generalize bit c = carry at *
  replace hlow : 10 ≤ (x.toNat : ℤ) % 16 + y.toNat % 16 + carry ∧ low = 1 ∨
      (x.toNat : ℤ) % 16 + y.toNat % 16 + carry < 10 ∧ low = 0 := by
    omega
  -- the higher digit takes the carry that the lower one leaves
  replace hhigh : 10 ≤ (x.toNat : ℤ) / 16 + y.toNat / 16 + low ∧ high = 1 ∨
      (x.toNat : ℤ) / 16 + y.toNat / 16 + low < 10 ∧ high = 0 := by
    omega
  have hdigits : v = 16 * ((x.toNat : ℤ) / 16 + y.toNat / 16 + low - 10 * high) +
      ((x.toNat : ℤ) % 16 + y.toNat % 16 + carry - 10 * low) := by
    omega
  clear hv
  simp only [byteValue]
  omega

/-- Of a difference those digits are corrected that come to less than zero. -/
theorem rule_sub {x y : UInt8} (hx : IsDecimal x) (hy : IsDecimal y) (c : Bool) :
    Rule (-1) true x y c (adjust (Alu.sub x y c)) := by
  obtain ⟨hxhigh, hxlow⟩ := hx
  obtain ⟨hyhigh, hylow⟩ := hy
  rw [Alu.sub_eq, Reference.sub, adjust_truncate]
  refine rule_of_digits rfl fun v hv => ?_
  simp only [Reference.decimalAdjust, Bool.not_true, Bool.false_and, Bool.or_false,
    if_true] at hv ⊢
  have hc := bit_cases c
  have hlow := bit_decide_cases ((x.toNat : ℤ) % 16 < y.toNat % 16 + bit c)
  have hhigh := bit_decide_cases ((x.toNat : ℤ) < y.toNat + bit c)
  generalize bit (decide ((x.toNat : ℤ) % 16 < _)) = low at hv hlow
  generalize bit (decide ((x.toNat : ℤ) < _)) = high at hv hhigh ⊢
  generalize bit c = borrow at *
  replace hhigh : (x.toNat : ℤ) / 16 < y.toNat / 16 + low ∧ high = 1 ∨
      (y.toNat : ℤ) / 16 + low ≤ x.toNat / 16 ∧ high = 0 := by
    omega
  have hdigits : v = 16 * ((x.toNat : ℤ) / 16 - y.toNat / 16 - low + 10 * high) +
      ((x.toNat : ℤ) % 16 - y.toNat % 16 - borrow + 10 * low) := by
    omega
  clear hv
  simp only [byteValue]
  omega

/-! ### Rows of bytes -/

/-- Where an operation on the accumulator finds its operand, if that is not the accumulator. -/
inductive Operand where
  | register (r : Register) (h : r ∈ [Register.b, .c, .d, .e, .h, .l])
  /-- The byte at HL. -/
  | memory
  /-- The byte behind the opcode. -/
  | immediate

namespace Operand

/-- The instruction for the operation. -/
def instruction (op : AluOp) : Operand → Instruction
  | register r _ => .alu op r
  | memory => .alu op .hlIndirect
  | immediate => .aluImmediate op

/-- Puts the byte `y` where the instruction finds it. -/
def supply (y : UInt8) : Operand → Exec Memory Unit
  | register r _ => Exec.writeOperand r y
  | memory => Exec.writeOperand .hlIndirect y
  | immediate => fun s =>
    .ok () { s with bus := { s.bus with rom := s.bus.rom.set s.cpu.regs.pc y } }

end Operand

/-- Combines one byte of each number and corrects the result.  The address of an instruction plays
no part in either. -/
def combine (op : AluOp) (o : Operand) (x y : UInt8) : Exec Memory (UInt8 × Flags) := do
  Exec.modifyRegs ({ · with a := x })
  o.supply y
  let _ ← Exec.instruction 0 (o.instruction op)
  let _ ← Exec.instruction 0 .daa
  let g ← Exec.regs
  return (g.a, g.f)

/-- Combines two rows of bytes, and returns the accumulator and the flags after each byte. -/
def combineRows (op : AluOp) (o : Operand) (l : List (UInt8 × UInt8)) :
    Exec Memory (List (UInt8 × Flags)) :=
  l.mapM fun (x, y) => combine op o x y

/-- The processor with the given accumulator and flags. -/
def withAccumulator (cpu : Cpu) (r : UInt8 × Flags) : Cpu :=
  { cpu with regs := { cpu.regs with a := r.1, f := r.2 } }

section

variable (op : AluOp) (o : Operand) (x y : UInt8) (s : Board Memory)

/-- Wherever the operand is, the instruction does the operation with it. -/
theorem instruction_supplied :
    ∃ n t cpu bus, o.supply y s = .ok () t ∧ Exec.instruction 0 (o.instruction op) t =
      .ok n ⟨withAccumulator cpu (op.apply s.cpu.regs.a y s.cpu.regs.f), bus⟩ := by
  cases o with
  | register r h =>
    simp only [List.mem_cons, List.not_mem_nil, or_false] at h
    rcases h with rfl | rfl | rfl | rfl | rfl | rfl
    all_goals exact ⟨4, _, _, s.bus, rfl, rfl⟩
  | memory =>
    let m : Memory := { s.bus with ram := s.bus.ram.set s.cpu.regs.hl y }
    have hread : Bus.read8 s.cpu.regs.hl m = .ok y m := by
      rw [Memory.read8_eq, ByteSpace.get_set_self]
    refine ⟨8, ⟨s.cpu, m⟩, s.cpu, m, ?_, ?_⟩
    · simp only [Operand.supply, Exec.writeOperand_hlIndirect, bind_apply, Exec.regs_apply,
        Exec.store_apply, Memory.write8_eq, m]
    · simp only [Operand.instruction, Exec.instruction, Exec.readOperand_hlIndirect, bind_apply,
        Exec.regs_apply, Exec.load_apply, hread]
      rfl
  | immediate =>
    let m : Memory := { s.bus with rom := s.bus.rom.set s.cpu.regs.pc y }
    have hfetch : Bus.fetch8 s.cpu.regs.pc m = .ok y m := by
      rw [Memory.fetch8_eq, ByteSpace.get_set_self]
    refine ⟨8, ⟨s.cpu, m⟩, s.cpu.next, m, rfl, ?_⟩
    simp only [Operand.instruction, Exec.instruction, bind_apply, Exec.fetch_apply, hfetch]
    rfl

/-- One byte comes to the operation and its correction. -/
theorem combine_eq :
    let r := adjust (op.apply x y s.cpu.regs.f)
    ∃ cpu bus, combine op o x y s = .ok r ⟨withAccumulator cpu r, bus⟩ := by
  obtain ⟨n, t, cpu, bus, hsupply, hinstruction⟩ :=
    instruction_supplied op o y ⟨{ s.cpu with regs := { s.cpu.regs with a := x } }, s.bus⟩
  refine ⟨cpu, bus, ?_⟩
  simp only [combine, bind_apply, Exec.modifyRegs_apply, hsupply, hinstruction]
  rfl

end

/-- The rule for rows of bytes, in which the last carry counts as much as one byte more would. -/
structure RowsRule (sign : ℤ) (subtract : Bool) (l : List (UInt8 × UInt8)) (c : Bool)
    (rs : List (UInt8 × Flags)) (c' : Bool) : Prop where
  length : rs.length = l.length
  corrected : ∀ r ∈ rs, Corrected subtract r
  value : (value (rs.map (·.1)) : ℤ) + sign * (100 ^ l.length * bit c') =
    value (l.map (·.1)) + sign * (value (l.map (·.2)) + bit c)

section

variable {op : AluOp} {sign : ℤ} {subtract : Bool} {l : List (UInt8 × UInt8)}

/-- Rows of bytes follow the rule if single bytes do: the carries in between cancel out. -/
theorem combineRows_ok
    (hop : ∀ x y, IsDecimal x → IsDecimal y → ∀ f : Flags,
      Rule sign subtract x y f.carry (adjust (op.apply x y f)))
    (o : Operand) (hl : ∀ p ∈ l, IsDecimal p.1 ∧ IsDecimal p.2) (s : Board Memory) :
    ∃ rs t, combineRows op o l s = .ok rs t ∧
      RowsRule sign subtract l s.cpu.regs.f.carry rs t.cpu.regs.f.carry := by
  induction l generalizing s with
  | nil => exact ⟨[], s, rfl, rfl, List.forall_mem_nil _, by simp [value]⟩
  | cons p l ih =>
    obtain ⟨x, y⟩ := p
    obtain ⟨⟨hx, hy⟩, hl⟩ := List.forall_mem_cons.1 hl
    have hrule := hop x y hx hy s.cpu.regs.f
    obtain ⟨cpu, bus, ht⟩ := combine_eq op o x y s
    generalize adjust (op.apply x y s.cpu.regs.f) = r at hrule ht
    obtain ⟨rs, u, hu, hrows⟩ := ih hl ⟨withAccumulator cpu r, bus⟩
    refine ⟨r :: rs, u, ?_, ?_, ?_, ?_⟩
    · rw [combineRows] at hu
      simp only [combineRows, List.mapM_cons, bind_apply, ht, hu, pure_apply]
    · rw [List.length_cons, List.length_cons, hrows.length]
    · exact List.forall_mem_cons.2 ⟨hrule.corrected, hrows.corrected⟩
    · have hvalue := hrule.value
      have hvalues := hrows.value
      simp only [withAccumulator] at hvalues
      simp only [List.map_cons, value, List.length_cons, pow_succ]
      push_cast
      linear_combination hvalue + 100 * hvalues

end

section

variable {n : ℕ} {xs ys : List UInt8}

/-- Two numerals in rows follow the rule, and the result is a numeral. -/
theorem combineRows_zip (op : AluOp) {sign : ℤ} {subtract : Bool}
    (hop : ∀ x y, IsDecimal x → IsDecimal y → ∀ f : Flags,
      Rule sign subtract x y f.carry (adjust (op.apply x y f)))
    (hx : Numeral n xs) (hy : Numeral n ys) (o : Operand) (s : Board Memory) :
    ∃ rs t, combineRows op o (xs.zip ys) s = .ok rs t ∧ Numeral n (rs.map (·.1)) ∧
      (∀ r ∈ rs, Corrected subtract r) ∧
      (value (rs.map (·.1)) : ℤ) + sign * ((100 ^ n : ℕ) * bit t.cpu.regs.f.carry) =
        value xs + sign * (value ys + bit s.cpu.regs.f.carry) := by
  have hl : ∀ p ∈ xs.zip ys, IsDecimal p.1 ∧ IsDecimal p.2 := by
    rintro ⟨x, y⟩ hp
    obtain ⟨hxs, hys⟩ := List.of_mem_zip hp
    exact ⟨hx.decimal x hxs, hy.decimal y hys⟩
  have hlength : (xs.zip ys).length = n := by
    rw [List.length_zip, hx.length, hy.length, Nat.min_self]
  have hsame : xs.length = ys.length := hx.length.trans hy.length.symm
  obtain ⟨rs, t, ht, hrows⟩ := combineRows_ok hop o hl s
  have hvalue := hrows.value
  rw [hlength, List.map_fst_zip (Nat.le_of_eq hsame), List.map_snd_zip (Nat.le_of_eq hsame.symm)]
    at hvalue
  refine ⟨rs, t, ht, ⟨?_, ?_⟩, hrows.corrected, ?_⟩
  · rw [List.length_map, hrows.length, hlength]
  · intro b hb
    obtain ⟨r, hr, rfl⟩ := List.mem_map.1 hb
    exact (hrows.corrected r hr).decimal
  · exact_mod_cast hvalue

section

variable {R X Y P : ℕ} {b c : Bool}

/-- A result below `P` with the carry that a sum has left is the sum modulo `P`. -/
theorem sum_of_rule (h : (R : ℤ) + 1 * (P * bit b) = X + 1 * (Y + bit c)) (hlt : R < P) :
    (X + Y + c.toNat) % P = R ∧ (b = true ↔ P ≤ X + Y + c.toNat) := by
  rw [bit_eq_toNat, bit_eq_toNat] at h
  cases b with
  | false =>
    have hsum : X + Y + c.toNat = R := by
      rw [Bool.toNat_false] at h
      omega
    rw [hsum]
    exact ⟨Nat.mod_eq_of_lt hlt, iff_of_false nofun (Nat.not_le.2 hlt)⟩
  | true =>
    have hsum : X + Y + c.toNat = R + P := by
      rw [Bool.toNat_true] at h
      omega
    rw [hsum, Nat.add_mod_right]
    exact ⟨Nat.mod_eq_of_lt hlt, iff_of_true rfl (Nat.le_add_left P R)⟩

theorem difference_of_rule (h : (R : ℤ) + (-1) * (P * bit b) = X + (-1) * (Y + bit c))
    (hlt : R < P) :
    ((X : ℤ) - Y - c.toNat) % P = R ∧ (b = true ↔ X < Y + c.toNat) := by
  have hmod : (R : ℤ) % P = R := Int.emod_eq_of_lt (Int.natCast_nonneg R) (Int.ofNat_lt.2 hlt)
  rw [bit_eq_toNat, bit_eq_toNat] at h
  cases b with
  | false =>
    rw [Bool.toNat_false] at h
    have hdifference : (X : ℤ) - Y - c.toNat = R := by omega
    rw [hdifference]
    exact ⟨hmod, iff_of_false nofun (by omega)⟩
  | true =>
    rw [Bool.toNat_true] at h
    have hdifference : (X : ℤ) - Y - c.toNat = R - P := by omega
    rw [hdifference, Int.sub_emod_right]
    exact ⟨hmod, iff_of_true rfl (by omega)⟩

end

/-- Sums and differences of decimal numbers of any length.  Wherever the second number is taken
from, the bytes hold the digits of the result, and the last carry tells whether it is out of range.
After every correction the flags tell of that byte. -/
theorem decimal_arithmetic (hx : Numeral n xs) (hy : Numeral n ys) (o : Operand)
    (s : Board Memory) :
    let X := value xs
    let Y := value ys
    let c := s.cpu.regs.f.carry.toNat
    (∃ rs t, combineRows .adc o (xs.zip ys) s = .ok rs t ∧
      rs.map (·.1) = digits n ((X + Y + c) % 100 ^ n) ∧
      (t.cpu.regs.f.carry = true ↔ 100 ^ n ≤ X + Y + c) ∧ ∀ r ∈ rs, Corrected false r) ∧
    ∃ rs t, combineRows .sbc o (xs.zip ys) s = .ok rs t ∧
      rs.map (·.1) = digits n (((X : ℤ) - Y - c) % 100 ^ n).toNat ∧
      (t.cpu.regs.f.carry = true ↔ X < Y + c) ∧ ∀ r ∈ rs, Corrected true r := by
  intro X Y c
  constructor
  · obtain ⟨rs, t, ht, hresult, hcorrected, hvalue⟩ :=
      combineRows_zip .adc (fun _ _ hx hy f => rule_add hx hy f.carry) hx hy o s
    obtain ⟨hmod, hcarry⟩ := sum_of_rule hvalue hresult.value_lt
    refine ⟨rs, t, ht, ?_, hcarry, hcorrected⟩
    rw [hmod]
    exact hresult.eq_digits
  · obtain ⟨rs, t, ht, hresult, hcorrected, hvalue⟩ :=
      combineRows_zip .sbc (fun _ _ hx hy f => rule_sub hx hy f.carry) hx hy o s
    obtain ⟨hmod, hcarry⟩ := difference_of_rule hvalue hresult.value_lt
    refine ⟨rs, t, ht, ?_, hcarry, hcorrected⟩
    rw [Nat.cast_pow, Nat.cast_ofNat] at hmod
    rw [hmod]
    exact hresult.eq_digits

/-- The theorem for 4599 + 5401 and 4599 - 5401, both with a carry before. -/
theorem decimal_arithmetic_four_digits :
    let xs : List UInt8 := [0x99, 0x45]
    let ys : List UInt8 := [0x01, 0x54]
    let s : Board Memory := ⟨{ regs := { f := { carry := true } } }, .blank⟩
    Numeral 2 xs ∧ Numeral 2 ys ∧
      (∃ rs t, combineRows .adc .immediate (xs.zip ys) s = .ok rs t ∧
        rs.map (·.1) = [0x01, 0x00] ∧ t.cpu.regs.f.carry = true) ∧
      ∃ rs t, combineRows .sbc .immediate (xs.zip ys) s = .ok rs t ∧
        rs.map (·.1) = [0x97, 0x91] ∧ t.cpu.regs.f.carry = true := by
  intro xs ys s
  have hx : Numeral 2 xs := ⟨rfl, by decide +kernel⟩
  have hy : Numeral 2 ys := ⟨rfl, by decide +kernel⟩
  obtain ⟨⟨rs, t, ht, hdigits, hcarry, -⟩, rs', t', ht', hdigits', hcarry', -⟩ :=
    decimal_arithmetic hx hy .immediate s
  have hsum : digits 2 ((value xs + value ys + 1) % 100 ^ 2) = [0x01, 0x00] := by
    decide +kernel
  have hdifference : digits 2 (((value xs : ℤ) - value ys - 1) % 100 ^ 2).toNat = [0x97, 0x91] := by
    decide +kernel
  exact ⟨hx, hy, ⟨rs, t, ht, hdigits.trans hsum, hcarry.2 (by decide)⟩,
    rs', t', ht', hdigits'.trans hdifference, hcarry'.2 (by decide)⟩

end

end Decimal

end Lr35902
