import Lr35902.Proofs.Evaluation
import Lr35902.Proofs.Reference.Arithmetic
import Mathlib.Data.Nat.Digits.Lemmas
import Mathlib.Tactic.Linarith

/-!
# Rows of bytes linked by the carry

A row of bytes, the least significant one first, holds a number of any length (`Bytes.value`).  An
operation on such numbers goes from byte to byte, and each byte takes the carry that the one before
has left (`carryRow`).

Sums, differences and shifts by one place all come to the same relation between three rows and two
carries: one row is the sum of the other two and of the incoming carry, and the outgoing carry
counts as much as one byte more would (`RowSum`, `RowSum.value_eq`).  The operations differ in which
of the rows are given and which one is computed, so each of them is undone by another one.
-/

namespace Lr35902

namespace Bytes

/-- The number that a row of bytes stands for, the least significant one first. -/
def value (bs : List UInt8) : ℕ := Nat.ofDigits 256 (bs.map UInt8.toNat)

@[simp] theorem value_nil : value [] = 0 := rfl

@[simp] theorem value_cons (b : UInt8) (bs : List UInt8) :
    value (b :: bs) = b.toNat + 256 * value bs :=
  Nat.ofDigits_cons

theorem digit_lt (bs : List UInt8) : ∀ d ∈ bs.map UInt8.toNat, d < 256 := by
  intro d hd
  obtain ⟨b, -, rfl⟩ := List.mem_map.1 hd
  exact b.toNat_lt

theorem value_lt (bs : List UInt8) : value bs < 256 ^ bs.length := by
  have h := Nat.ofDigits_lt_base_pow_length (by decide) (digit_lt bs)
  rwa [List.length_map] at h

/-- Rows of the same length stand for different numbers. -/
theorem value_inj {as bs : List UInt8} (hlength : as.length = bs.length)
    (h : value as = value bs) : as = bs := by
  refine List.map_injective_iff.2 (fun _ _ => UInt8.toNat_inj.1) ?_
  exact Nat.ofDigits_inj_of_len_eq (by decide) (by simpa using hlength) (digit_lt as)
    (digit_lt bs) h

end Bytes

open Bytes (value value_lt value_inj)

/-! ### Sums -/

/-- The byte `s` and the outgoing carry `c'` are the sum of two bytes and the incoming carry `c`. -/
def Byte.IsSum (a b : UInt8) (c : Bool) (s : UInt8) (c' : Bool) : Prop :=
  s.toNat + 256 * c'.toNat = a.toNat + b.toNat + c.toNat

/-- The row `ss` and the outgoing carry are the sum of two rows and the incoming carry, byte by
byte. -/
inductive RowSum : List UInt8 → List UInt8 → Bool → List UInt8 → Bool → Prop
  | nil (c : Bool) : RowSum [] [] c [] c
  | cons {a b s : UInt8} {as bs ss : List UInt8} {c c' c'' : Bool} (head : Byte.IsSum a b c s c')
      (tail : RowSum as bs c' ss c'') : RowSum (a :: as) (b :: bs) c (s :: ss) c''

namespace RowSum

variable {as bs ss : List UInt8} {c c' : Bool}

theorem length_left (h : RowSum as bs c ss c') : as.length = ss.length := by
  induction h with
  | nil => rfl
  | cons _ _ ih => exact congrArg (· + 1) ih

/-- A row may be prolonged at its most significant end. -/
theorem concat {a b s : UInt8} {c'' : Bool} (h : RowSum as bs c ss c')
    (hlast : Byte.IsSum a b c' s c'') : RowSum (as ++ [a]) (bs ++ [b]) c (ss ++ [s]) c'' := by
  induction h with
  | nil => exact .cons hlast (.nil _)
  | cons head _ ih => exact .cons head (ih hlast)

/-- The carries in between cancel out. -/
theorem value_eq (h : RowSum as bs c ss c') :
    value ss + 256 ^ ss.length * c'.toNat = value as + value bs + c.toNat := by
  induction h with
  | nil => simp
  | @cons a b s as bs ss c c' c'' head _ ih =>
    have hpow : 256 ^ (ss.length + 1) * c''.toNat = 256 * (256 ^ ss.length * c''.toNat) := by
      rw [Nat.pow_succ, Nat.mul_comm _ 256, Nat.mul_assoc]
    rw [Byte.IsSum] at head
    rw [Bytes.value_cons, Bytes.value_cons, Bytes.value_cons, List.length_cons, hpow]
    omega

variable (h : RowSum as bs c ss c')
include h

/-- The row holds the sum as far as it reaches. -/
theorem value_mod : (value as + value bs + c.toNat) % 256 ^ ss.length = value ss := by
  rw [← h.value_eq, Nat.add_mul_mod_self_left, Nat.mod_eq_of_lt (value_lt ss)]

/-- The last carry tells whether the sum reaches further. -/
theorem carry_iff : c' = true ↔ 256 ^ ss.length ≤ value as + value bs + c.toNat := by
  have hlt := value_lt ss
  rw [← h.value_eq]
  cases c' with
  | false => simpa using hlt
  | true => simp

/-- The first row holds the difference of the other two as far as it reaches. -/
theorem value_sub_mod : ((value ss : ℤ) - value bs - c.toNat) % 256 ^ ss.length = value as := by
  have hlt := value_lt as
  have hvalue := congrArg (Nat.cast (R := ℤ)) h.value_eq
  rw [h.length_left] at hlt
  push_cast at hvalue
  have hdifference : (value ss : ℤ) - value bs - c.toNat =
      value as + 256 ^ ss.length * -c'.toNat := by linarith
  rw [hdifference, Int.add_mul_emod_self_left]
  exact Int.emod_eq_of_lt (Int.natCast_nonneg _) (by exact_mod_cast hlt)

/-- The last carry tells whether the difference is negative. -/
theorem borrow_iff : c' = true ↔ value ss < value bs + c.toNat := by
  have hlt := value_lt as
  have hvalue := h.value_eq
  rw [h.length_left] at hlt
  cases c' with
  | false =>
    rw [Bool.toNat_false, Nat.mul_zero] at hvalue
    exact iff_of_false nofun (by omega)
  | true =>
    rw [Bool.toNat_true, Nat.mul_one] at hvalue
    exact iff_of_true rfl (by omega)

/-- A sum, one of its rows and the incoming carry determine the other row and the last carry. -/
theorem left_unique {as₁ : List UInt8} {c₁ : Bool} (h₁ : RowSum as₁ bs c ss c₁) :
    as₁ = as ∧ c₁ = c' := by
  constructor
  · refine value_inj (h₁.length_left.trans h.length_left.symm) ?_
    exact_mod_cast h₁.value_sub_mod.symm.trans h.value_sub_mod
  · rw [Bool.eq_iff_iff, h₁.borrow_iff, h.borrow_iff]

omit h in
/-- A row and the carry that doubling another row has left determine that row and the carry that was
added. -/
theorem half_unique {as₁ : List UInt8} {c₁ : Bool} (h : RowSum as as c ss c')
    (h₁ : RowSum as₁ as₁ c₁ ss c') : as₁ = as ∧ c₁ = c := by
  have hvalue := h₁.value_eq.symm.trans h.value_eq
  have hc := c.toNat_le
  have hc₁ := c₁.toNat_le
  constructor
  · exact value_inj (h₁.length_left.trans h.length_left.symm) (by omega)
  · rw [Bool.eq_iff_iff, ← Bool.toNat_eq_one, ← Bool.toNat_eq_one]
    omega

end RowSum

/-! ### Operations from byte to byte -/

variable {σ α : Type}

/-- Goes along a row, from an incoming carry.  Every result comes with flags, whose carry the next
one takes. -/
def carryRow (f : α → Bool → UInt8 × Flags) : List α → Bool → List UInt8 × Bool
  | [], c => ([], c)
  | a :: l, c =>
    let r := f a c
    let rest := carryRow f l r.2.carry
    (r.1 :: rest.1, rest.2)

/-- An action that does the operation for one byte does it for a row, as the carry flag stays as it
is in between. -/
theorem Exec.mapM_carryRow {f : α → Bool → UInt8 × Flags} {x : α → Exec σ UInt8}
    (hx : ∀ a s, ∃ t, x a s = .ok (f a s.cpu.regs.f.carry).1 t ∧
      t.cpu.regs.f.carry = (f a s.cpu.regs.f.carry).2.carry) (l : List α) (s : Board σ) :
    ∃ t, l.mapM x s = .ok (carryRow f l s.cpu.regs.f.carry).1 t ∧
      t.cpu.regs.f.carry = (carryRow f l s.cpu.regs.f.carry).2 := by
  induction l generalizing s with
  | nil => exact ⟨s, rfl, rfl⟩
  | cons a l ih =>
    obtain ⟨t, ht, hcarry⟩ := hx a s
    obtain ⟨u, hu, hlast⟩ := ih t
    rw [hcarry] at hu hlast
    refine ⟨u, ?_, hlast⟩
    simp only [List.mapM_cons, bind_apply, ht, hu, pure_apply]
    rfl

end Lr35902
