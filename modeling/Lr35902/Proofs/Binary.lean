import Lr35902.Cpu.Execute
import Lr35902.Proofs.Carry

/-!
# Binary arithmetic of any length

Two numbers in rows of bytes are added and subtracted byte by byte, from the least significant end,
with the carry flag from each byte to the next.  A sum of bytes loses nothing if its carry is
counted (`Alu.isSum_add`), and a difference is what has to be added to the subtrahend
(`Alu.isSum_sub`).  So a row of sums holds the sum of the numbers, a row of differences their
difference, and each takes back what the other one does (`Binary.binary_arithmetic`).
-/

namespace Lr35902

namespace Alu

open Byte (bit)

/-- A sum with its carry loses nothing, also where the operand and the carry make up 256. -/
theorem isSum_add (x y : UInt8) (c : Bool) :
    Byte.IsSum x y c (add x y c).1 (add x y c).2.carry := by
  have hx := x.toNat_lt
  have hy := y.toNat_lt
  have hvalue := Byte.toNat_ofInt (x.toNat + y.toNat + bit c)
  have hcarry := Byte.bit_decide_cases (255 < (x.toNat : ℤ) + y.toNat + bit c)
  have hc := Byte.bit_cases c
  rw [add_eq, Byte.IsSum]
  simp only [Reference.truncate, Reference.add]
  simp only [Byte.bit_eq_toNat] at *
  omega

/-- A difference and its borrow: the minuend is the sum of the difference and the subtrahend. -/
theorem isSum_sub (x y : UInt8) (c : Bool) :
    Byte.IsSum (sub x y c).1 y c x (sub x y c).2.carry := by
  have hx := x.toNat_lt
  have hy := y.toNat_lt
  have hvalue := Byte.toNat_ofInt (x.toNat - y.toNat - bit c)
  have hborrow := Byte.bit_decide_cases ((x.toNat : ℤ) < y.toNat + bit c)
  have hc := Byte.bit_cases c
  rw [sub_eq, Byte.IsSum]
  simp only [Reference.truncate, Reference.sub]
  simp only [Byte.bit_eq_toNat] at *
  omega

end Alu

namespace Binary

open Bytes (value)

variable {σ : Type}

/-! ### Rows of bytes -/

/-- Loads one byte and combines it with another one. -/
def combine (op : AluOp) (x y : UInt8) : Exec σ UInt8 := do
  Exec.modifyRegs ({ · with a := x })
  Exec.accumulate op y
  return (← Exec.regs).a

/-- Combines two rows of bytes. -/
def combineRows (op : AluOp) (l : List (UInt8 × UInt8)) : Exec σ (List UInt8) :=
  l.mapM fun (x, y) => combine op x y

section

variable {xs ys : List UInt8}

theorem rowSum_add (hlength : xs.length = ys.length) (c : Bool) :
    let r := carryRow (fun p c => Alu.add p.1 p.2 c) (xs.zip ys) c
    RowSum xs ys c r.1 r.2 := by
  induction xs generalizing ys c with
  | nil =>
    obtain rfl := List.length_eq_zero_iff.1 hlength.symm
    exact .nil c
  | cons x xs ih =>
    obtain ⟨y, ys, rfl⟩ := List.exists_of_length_succ ys hlength.symm
    exact .cons (Alu.isSum_add x y c) (ih (Nat.succ.inj hlength) _)

theorem rowSum_sub (hlength : xs.length = ys.length) (c : Bool) :
    let r := carryRow (fun p c => Alu.sub p.1 p.2 c) (xs.zip ys) c
    RowSum r.1 ys c xs r.2 := by
  induction xs generalizing ys c with
  | nil =>
    obtain rfl := List.length_eq_zero_iff.1 hlength.symm
    exact .nil c
  | cons x xs ih =>
    obtain ⟨y, ys, rfl⟩ := List.exists_of_length_succ ys hlength.symm
    exact .cons (Alu.isSum_sub x y c) (ih (Nat.succ.inj hlength) _)

/-- In a row the operation is done for each byte with the carry of the one before. -/
theorem combineRows_eq (op : AluOp) (f : UInt8 → UInt8 → Bool → UInt8 × Flags)
    (hop : ∀ a v flags, op.apply a v flags = f a v flags.carry) (l : List (UInt8 × UInt8))
    (s : Board σ) :
    let r := carryRow (fun p c => f p.1 p.2 c) l s.cpu.regs.f.carry
    ∃ t, combineRows op l s = .ok r.1 t ∧ t.cpu.regs.f.carry = r.2 := by
  refine Exec.mapM_carryRow (fun p s => ?_) l s
  obtain ⟨x, y⟩ := p
  rw [← hop]
  exact ⟨_, rfl, rfl⟩

/-- Adding two rows gives their sum, with the carry flag before and after it. -/
theorem combineRows_adc (hlength : xs.length = ys.length) (s : Board σ) :
    ∃ rs t, combineRows .adc (xs.zip ys) s = .ok rs t ∧
      RowSum xs ys s.cpu.regs.f.carry rs t.cpu.regs.f.carry := by
  obtain ⟨t, ht, hcarry⟩ := combineRows_eq .adc Alu.add (fun _ _ _ => rfl) (xs.zip ys) s
  refine ⟨_, t, ht, ?_⟩
  rw [hcarry]
  exact rowSum_add hlength _

/-- Subtracting a row from another one gives what has to be added to it. -/
theorem combineRows_sbc (hlength : xs.length = ys.length) (s : Board σ) :
    ∃ rs t, combineRows .sbc (xs.zip ys) s = .ok rs t ∧
      RowSum rs ys s.cpu.regs.f.carry xs t.cpu.regs.f.carry := by
  obtain ⟨t, ht, hcarry⟩ := combineRows_eq .sbc Alu.sub (fun _ _ _ => rfl) (xs.zip ys) s
  refine ⟨_, t, ht, ?_⟩
  rw [hcarry]
  exact rowSum_sub hlength _

end

/-! ### Comparisons -/

/-- The flags tell how `a` compares with `v`. -/
structure Compared (a v : UInt8) (f : Flags) : Prop where
  zero : f.zero = true ↔ a = v
  subtract : f.subtract = true
  halfCarry : f.halfCarry = true ↔ a.toNat % 16 < v.toNat % 16
  carry : f.carry = true ↔ a < v

theorem compared_sub (a v : UInt8) : Compared a v (Alu.sub a v false).2 := by
  have ha := a.toNat_lt
  have hv := v.toNat_lt
  rw [Alu.sub_eq]
  simp only [Reference.truncate, Reference.sub, Byte.bit, Bool.false_eq_true, if_false]
  constructor
  · simp only [decide_eq_true_eq, ← UInt8.toNat_inj]
    omega
  · rfl
  · simp only [decide_eq_true_eq]
    omega
  · simp only [decide_eq_true_eq, UInt8.lt_iff_toNat_lt]
    omega

/-- Comparing leaves the accumulator alone and sets the flags that subtracting without a borrow
would set. -/
def Compares (s : Board σ) : Prop :=
  ∀ v, ∃ f, Compared s.cpu.regs.a v f ∧
    Exec.accumulate .sub v s = .ok ()
      { s with cpu := { s.cpu with regs := { s.cpu.regs with a := s.cpu.regs.a - v, f } } } ∧
    Exec.accumulate .cp v s = .ok () { s with cpu := { s.cpu with regs := { s.cpu.regs with f } } }

theorem compares (s : Board σ) : Compares s := by
  intro v
  have hdifference : (Alu.sub s.cpu.regs.a v false).1 = s.cpu.regs.a - v := by
    rw [Alu.sub_eq, Byte.sub_eq_ofInt]
    simp [Reference.truncate, Reference.sub, Byte.bit]
  refine ⟨_, compared_sub s.cpu.regs.a v, ?_, rfl⟩
  rw [← hdifference]
  rfl

/-! ### Sums and differences -/

/-- Sums and differences of binary numbers of any length.  The bytes hold the result as far as they
reach, and the last carry tells whether it is out of range.  Subtracting takes back what adding has
done, and leaves the same carry. -/
theorem binary_arithmetic {n : ℕ} {xs ys : List UInt8} (hx : xs.length = n) (hy : ys.length = n)
    (s : Board σ) :
    let X := value xs
    let Y := value ys
    let c := s.cpu.regs.f.carry.toNat
    (∃ rs t, combineRows .adc (xs.zip ys) s = .ok rs t ∧ rs.length = n ∧
      value rs = (X + Y + c) % 256 ^ n ∧ (t.cpu.regs.f.carry = true ↔ 256 ^ n ≤ X + Y + c) ∧
      Compares t ∧
      ∀ u : Board σ, u.cpu.regs.f.carry = s.cpu.regs.f.carry →
        ∃ w, combineRows .sbc (rs.zip ys) u = .ok xs w ∧
          w.cpu.regs.f.carry = t.cpu.regs.f.carry) ∧
    ∃ rs t, combineRows .sbc (xs.zip ys) s = .ok rs t ∧ rs.length = n ∧
      (value rs : ℤ) = ((X : ℤ) - Y - c) % 256 ^ n ∧ (t.cpu.regs.f.carry = true ↔ X < Y + c) ∧
      Compares t := by
  intro X Y c
  have hlength : xs.length = ys.length := hx.trans hy.symm
  constructor
  · obtain ⟨rs, t, ht, hsum⟩ := combineRows_adc hlength s
    have hrs : rs.length = n := hsum.length_left.symm.trans hx
    have hmod := hsum.value_mod
    have hcarry := hsum.carry_iff
    rw [hrs] at hmod hcarry
    refine ⟨rs, t, ht, hrs, hmod.symm, hcarry, compares t, fun u hu => ?_⟩
    obtain ⟨us, w, hw, hback⟩ := combineRows_sbc (hrs.trans hy.symm) u
    rw [hu] at hback
    obtain ⟨rfl, hsame⟩ := hsum.left_unique hback
    exact ⟨w, hw, hsame⟩
  · obtain ⟨rs, t, ht, hsum⟩ := combineRows_sbc hlength s
    have hmod := hsum.value_sub_mod
    rw [hx] at hmod
    exact ⟨rs, t, ht, hsum.length_left.trans hx, hmod.symm, hsum.borrow_iff, compares t⟩

/-- The theorem for 0x12FF + 0xEDFF and 0x12FF - 0xEDFF, both with a carry before. -/
theorem binary_arithmetic_two_bytes :
    let xs : List UInt8 := [0xFF, 0x12]
    let ys : List UInt8 := [0xFF, 0xED]
    let s : Board Unit := ⟨{ regs := { f := { carry := true } } }, ()⟩
    xs.length = 2 ∧ ys.length = 2 ∧
      (∃ rs t, combineRows .adc (xs.zip ys) s = .ok rs t ∧ value rs = 0x00FF ∧
        t.cpu.regs.f.carry = true ∧ ∃ w, combineRows .sbc (rs.zip ys) s = .ok xs w) ∧
      ∃ rs t, combineRows .sbc (xs.zip ys) s = .ok rs t ∧ value rs = 0x24FF ∧
        t.cpu.regs.f.carry = true := by
  intro xs ys s
  obtain ⟨⟨rs, t, ht, -, hvalue, hcarry, -, hback⟩, rs', t', ht', -, hvalue', hcarry', -⟩ :=
    binary_arithmetic (show xs.length = 2 from rfl) (show ys.length = 2 from rfl) s
  obtain ⟨w, hw, -⟩ := hback s rfl
  have hsum : (value xs + value ys + 1) % 256 ^ 2 = 0x00FF := by decide +kernel
  have hdifference : ((value xs : ℤ) - value ys - 1) % 256 ^ 2 = 0x24FF := by decide +kernel
  exact ⟨rfl, rfl, ⟨rs, t, ht, hvalue.trans hsum, hcarry.2 (by decide +kernel), w, hw⟩,
    rs', t', ht', Int.natCast_inj.1 (hvalue'.trans hdifference), hcarry'.2 (by decide +kernel)⟩

end Binary

end Lr35902
