import Lr35902.Cpu.Execute
import Lr35902.Proofs.Carry
import Lr35902.Proofs.Decode
import Lr35902.Proofs.Memory
import Lr35902.Proofs.Registers
import Mathlib.Data.Nat.Bitwise

/-!
# Shifts of any length

A number in a row of bytes is doubled from its least significant byte upwards and halved from its
most significant byte downwards.  The instruction for the first byte decides which bit is moved in
there, and every other byte takes the bit that the one before has left in the carry flag.

All these shifts are one operation that starts from different bits (`Alu.shift_eq_incoming`).  To
the left it adds a byte to itself (`Alu.isSum_shiftLeft`), and to the right it finds the byte of
which that gives the operand (`Alu.isSum_shiftRight`).  So a row that was moved to the left comes
back when it is moved to the right (`Binary.shift_arithmetic`).
-/

namespace Lr35902

namespace Bytes

/-- The number that a row of bytes stands for in two's complement. -/
def signed (bs : List UInt8) : ℤ := Int.bmod (value bs) (256 ^ bs.length)

variable {bs : List UInt8}

/-- The uppermost bit of a number is that of its most significant byte. -/
theorem half_le_value_iff (h : bs ≠ []) :
    256 ^ bs.length ≤ 2 * value bs ↔ 128 ≤ (bs.getLast h).toNat := by
  induction bs with
  | nil => exact absurd rfl h
  | cons b bs ih =>
    have hb := b.toNat_lt
    cases bs with
    | nil =>
      simp only [value_cons, value_nil, List.length_singleton, List.getLast_singleton]
      omega
    | cons b' bs =>
      rw [List.getLast_cons (List.cons_ne_nil b' bs), ← ih (List.cons_ne_nil b' bs), value_cons]
      simp only [List.length_cons, Nat.pow_succ]
      omega

theorem pow_length (h : bs ≠ []) : 256 ^ bs.length = 2 * 2 ^ (8 * bs.length - 1) := by
  have hlength := List.length_pos_iff.2 h
  rw [← Nat.pow_succ', Nat.succ_eq_add_one, Nat.sub_add_cancel (by omega), Nat.pow_mul]

theorem testBit_value (h : bs ≠ []) :
    (value bs).testBit (8 * bs.length - 1) = decide (256 ^ bs.length ≤ 2 * value bs) := by
  have hlt := value_lt bs
  rw [pow_length h] at hlt ⊢
  by_cases hle : 2 ^ (8 * bs.length - 1) ≤ value bs
  · rw [decide_eq_true (Nat.mul_le_mul_left 2 hle)]
    refine Nat.testBit_of_two_pow_le_and_two_pow_add_one_gt hle ?_
    rwa [Nat.pow_succ']
  · rw [decide_eq_false (by omega)]
    exact Nat.testBit_lt_two_pow (Nat.lt_of_not_le hle)

/-- The uppermost bit is the sign. -/
theorem signed_eq (h : bs ≠ []) :
    signed bs = if 256 ^ bs.length ≤ 2 * value bs then (value bs : ℤ) - (256 ^ bs.length : ℕ)
      else value bs := by
  have hlt := value_lt bs
  have hmod : (value bs : ℤ) % (256 ^ bs.length : ℕ) = value bs :=
    Int.emod_eq_of_lt (Int.natCast_nonneg _) (Int.ofNat_lt.2 hlt)
  have hpow := pow_length h
  rw [signed, Int.bmod_def, hmod]
  split_ifs <;> omega

end Bytes

namespace RowSum

open Bytes (value signed)

variable {as ss : List UInt8} {c c' : Bool} (h : RowSum as as c ss c') (hss : ss ≠ [])
include h hss

/-- The bit that doubling adds is the lowest one of the double. -/
theorem testBit_zero : (value ss).testBit 0 = c := by
  have hvalue := h.value_eq
  have hc := c.toNat_le
  rw [Bytes.pow_length hss, Nat.mul_assoc] at hvalue
  rw [Nat.testBit_zero, Bool.eq_iff_iff, decide_eq_true_iff, ← Bool.toNat_eq_one]
  omega

omit hss in
/-- Half of a number, with a bit that comes in above it. -/
theorem half_eq : value as = (value ss + 256 ^ ss.length * c'.toNat) / 2 := by
  have hvalue := h.value_eq
  have hc := c.toNat_le
  omega

/-- If the bit that comes in is the sign, then the half has the same sign. -/
theorem signed_half (hsign : c' = decide (256 ^ ss.length ≤ 2 * value ss)) :
    signed as = signed ss / 2 := by
  have hlt := Bytes.value_lt ss
  have hhalf := h.half_eq
  have has : as ≠ [] := by
    rw [← List.length_pos_iff, h.length_left]
    exact List.length_pos_iff.2 hss
  have hpow := Bytes.pow_length hss
  rw [Bytes.signed_eq hss, Bytes.signed_eq has, h.length_left]
  rw [hsign] at hhalf
  by_cases hle : 256 ^ ss.length ≤ 2 * value ss
  · rw [decide_eq_true hle, Bool.toNat_true] at hhalf
    rw [if_pos (by omega), if_pos hle]
    omega
  · rw [decide_eq_false hle, Bool.toNat_false] at hhalf
    rw [if_neg (by omega), if_neg hle]
    omega

end RowSum

namespace Alu

open Byte (bit)

/-! ### One byte -/

/-- The bit that a shift moves in. -/
def incoming (v : UInt8) (dir : Direction) (fill : Fill) (carry : Bool) : Bool :=
  match fill with
  | .wrap =>
    match dir with
    | .left => Byte.testBit v 7
    | .right => Byte.testBit v 0
  | .carry => carry
  | .zero => false
  | .sign => Byte.testBit v 7

/-- Every shift is a shift through the carry flag that starts from another bit. -/
theorem shift_eq_incoming (v : UInt8) (dir : Direction) (fill : Fill) (carry : Bool) :
    shift v dir fill carry = shift v dir .carry (incoming v dir fill carry) := by
  cases dir <;> cases fill <;> rfl

/-- A shift to the left adds the byte to itself. -/
theorem isSum_shiftLeft (v : UInt8) (c : Bool) :
    Byte.IsSum v v c (shift v .left .carry c).1 (shift v .left .carry c).2.carry := by
  have hv := v.toNat_lt
  have hvalue := Byte.toNat_ofInt (2 * v.toNat + bit c)
  have hout := Byte.bit_decide_cases (128 ≤ (v.toNat : ℤ))
  have hc := Byte.bit_cases c
  rw [shift_eq, Byte.IsSum]
  simp only [Reference.truncate, shiftRow, Reference.rotate, Reference.moved]
  simp only [Byte.bit_eq_toNat] at *
  omega

/-- A shift to the right finds the byte that gives the operand when it is added to itself and to the
bit that was moved out. -/
theorem isSum_shiftRight (v : UInt8) (c : Bool) :
    let r := shift v .right .carry c
    Byte.IsSum r.1 r.1 r.2.carry v c := by
  have hv := v.toNat_lt
  have hvalue := Byte.toNat_ofInt (v.toNat / 2 + 128 * bit c)
  have hout := Byte.bit_decide_cases ((v.toNat : ℤ) % 2 = 1)
  have hc := Byte.bit_cases c
  intro r
  simp only [r, shift_eq, Byte.IsSum, Reference.truncate, shiftRow, Reference.rotate,
    Reference.moved]
  simp only [Byte.bit_eq_toNat] at *
  omega

end Alu

namespace Binary

open Bytes (value)

/-! ### Rows of bytes -/

/-- The bytes of a row. -/
abbrev bytes (l : List (UInt8 × UInt8)) : List UInt8 := l.map (·.2)

/-- A row of bytes that is moved through the carry flag. -/
def shiftRow (dir : Direction) : List (UInt8 × UInt8) → Bool → List UInt8 × Bool :=
  carryRow fun p c => Alu.shift p.2 dir .carry c

theorem rowSum_shiftLeft (l : List (UInt8 × UInt8)) (c : Bool) :
    RowSum (bytes l) (bytes l) c (shiftRow .left l c).1 (shiftRow .left l c).2 := by
  induction l generalizing c with
  | nil => exact .nil c
  | cons p l ih => exact .cons (Alu.isSum_shiftLeft p.2 c) (ih _)

/-- A row that is moved to the right is given from its most significant end. -/
theorem rowSum_shiftRight (l : List (UInt8 × UInt8)) (c : Bool) :
    let r := shiftRow .right l c
    RowSum r.1.reverse r.1.reverse r.2 (bytes l).reverse c := by
  induction l generalizing c with
  | nil => exact .nil c
  | cons p l ih =>
    simp only [shiftRow, carryRow, bytes, List.map_cons, List.reverse_cons]
    exact (ih _).concat (Alu.isSum_shiftRight p.2 c)

/-- A shift to the left through the carry flag. -/
def rl : ExtendedOp := ExtendedInstruction.decodeShift 2

/-- A shift to the right through the carry flag. -/
def rr : ExtendedOp := ExtendedInstruction.decodeShift 3

/-- A shift to the left that moves in a zero. -/
def sla : ExtendedOp := ExtendedInstruction.decodeShift 4

/-- A shift to the right that keeps the sign. -/
def sra : ExtendedOp := ExtendedInstruction.decodeShift 5

/-- A shift to the right that moves in a zero. -/
def srl : ExtendedOp := ExtendedInstruction.decodeShift 7

/-- Loads a byte into the operand of the given number, moves its bits and reads it again. -/
def shiftByte (op : ExtendedOp) (p : UInt8 × UInt8) : Exec Memory UInt8 := do
  let r := Register.ofIndex p.1
  Exec.writeOperand r p.2
  let _ ← Exec.extendedInstruction ⟨op, r⟩
  Exec.readOperand r

/-- Moves the bits of a row of bytes, of which the first one is moved in its own way. -/
def shiftBytes (first rest : ExtendedOp) : List (UInt8 × UInt8) → Exec Memory (List UInt8)
  | [] => return []
  | p :: l => do
    let w ← shiftByte first p
    return w :: (← l.mapM (shiftByte rest))

section

variable (dir : Direction) (fill : Fill)

/-- Wherever the operand is, the instruction moves its bits. -/
theorem shiftByte_eq (p : UInt8 × UInt8) (s : Board Memory) :
    let r := Alu.shift p.2 dir fill s.cpu.regs.f.carry
    ∃ t, shiftByte (.shift dir fill) p s = .ok r.1 t ∧ t.cpu.regs.f.carry = r.2.carry := by
  obtain ⟨z, v⟩ := p
  have hz := Register.ofIndex_cases z
  simp only [shiftByte]
  generalize Register.ofIndex z = r at hz
  obtain rfl | hz := hz
  · -- what is stored in memory is loaded again
    let w := Alu.shift v dir fill s.cpu.regs.f.carry
    let m : Memory := { s.bus with ram := s.bus.ram.set s.cpu.regs.hl v }
    let m' : Memory := { m with ram := m.ram.set s.cpu.regs.hl w.1 }
    refine ⟨⟨{ s.cpu with regs := { s.cpu.regs with f := w.2 } }, m'⟩, ?_, rfl⟩
    simp only [Exec.extendedInstruction, Exec.updateOperand, Exec.readOperand_hlIndirect,
      Exec.writeOperand_hlIndirect, bind_apply, Exec.regs_apply, Exec.setFlags_apply,
      Exec.load_apply, Exec.store_apply, Memory.read8_eq, Memory.write8_eq,
      ByteSpace.get_set_self, pure_apply, RegisterFile.hl, m, m', w]
  · rcases hz with rfl | rfl | rfl | rfl | rfl | rfl | rfl <;> exact ⟨_, rfl, rfl⟩

/-- A row is moved through the carry flag, from the bit that its first byte takes. -/
theorem shiftBytes_eq (p : UInt8 × UInt8) (l : List (UInt8 × UInt8)) (s : Board Memory) :
    let r := shiftRow dir (p :: l) (Alu.incoming p.2 dir fill s.cpu.regs.f.carry)
    ∃ t, shiftBytes (.shift dir fill) (.shift dir .carry) (p :: l) s = .ok r.1 t ∧
      t.cpu.regs.f.carry = r.2 := by
  obtain ⟨t, ht, hfirst⟩ := shiftByte_eq dir fill p s
  obtain ⟨u, hu, hrest⟩ := Exec.mapM_carryRow (shiftByte_eq dir .carry) l t
  rw [Alu.shift_eq_incoming] at ht hfirst
  rw [hfirst] at hu hrest
  refine ⟨u, ?_, hrest⟩
  simp only [shiftBytes, bind_apply, ht, hu, pure_apply]
  rfl

end

section

variable {l : List (UInt8 × UInt8)} (hl : l ≠ []) (s : Board Memory)

/-- Moving a row to the left doubles it. -/
theorem shiftBytes_left (fill : Fill) :
    ∃ rs t, shiftBytes (.shift .left fill) (.shift .left .carry) l s = .ok rs t ∧
      RowSum (bytes l) (bytes l) (Alu.incoming (l.head hl).2 .left fill s.cpu.regs.f.carry) rs
        t.cpu.regs.f.carry := by
  obtain ⟨p, l, rfl⟩ := List.exists_cons_of_ne_nil hl
  obtain ⟨t, ht, hcarry⟩ := shiftBytes_eq .left fill p l s
  refine ⟨_, t, ht, ?_⟩
  rw [hcarry]
  exact rowSum_shiftLeft _ _

/-- Moving a row to the right, from its most significant end, finds the row of which it is the
double. -/
theorem shiftBytes_right (fill : Fill) :
    ∃ rs t, shiftBytes (.shift .right fill) (.shift .right .carry) l.reverse s = .ok rs t ∧
      RowSum rs.reverse rs.reverse t.cpu.regs.f.carry (bytes l)
        (Alu.incoming (l.getLast hl).2 .right fill s.cpu.regs.f.carry) := by
  obtain ⟨l, p, rfl⟩ := (List.eq_nil_or_concat' l).resolve_left hl
  obtain ⟨t, ht, hcarry⟩ := shiftBytes_eq .right fill p l.reverse s
  have hrow := rowSum_shiftRight (p :: l.reverse) (Alu.incoming p.2 .right fill s.cpu.regs.f.carry)
  rw [← List.reverse_concat] at ht hcarry hrow
  rw [bytes, ← List.map_reverse, List.reverse_reverse] at hrow
  rw [List.getLast_concat]
  refine ⟨_, t, ht, ?_⟩
  rw [hcarry]
  exact hrow

end

/-! ### Doubling and halving -/

/-- Shifts of binary numbers of any length.  To the left the bytes hold the double as far as they
reach, and the carry flag is the bit above it.  To the right they hold the half, rounded down, and
the carry flag is the bit that is left.  A row that was moved through the carry flag to the left
comes back when it is moved through it to the right. -/
theorem shift_arithmetic {l : List (UInt8 × UInt8)} (hl : l ≠ []) (s : Board Memory) :
    let n := l.length
    let V := value (bytes l)
    (∃ rs t, shiftBytes sla rl l s = .ok rs t ∧ rs.length = n ∧ value rs = 2 * V % 256 ^ n ∧
      t.cpu.regs.f.carry = V.testBit (8 * n - 1)) ∧
    (∃ rs t, shiftBytes srl rr l.reverse s = .ok rs t ∧ rs.length = n ∧
      value rs.reverse = V / 2 ∧ t.cpu.regs.f.carry = V.testBit 0) ∧
    (∃ rs t, shiftBytes sra rr l.reverse s = .ok rs t ∧ rs.length = n ∧
      Bytes.signed rs.reverse = Bytes.signed (bytes l) / 2 ∧
      t.cpu.regs.f.carry = V.testBit 0) ∧
    ∃ rs t, shiftBytes rl rl l s = .ok rs t ∧ rs.length = n ∧
      ∀ l' : List (UInt8 × UInt8), bytes l' = rs →
      ∀ u : Board Memory, u.cpu.regs.f.carry = t.cpu.regs.f.carry →
        ∃ us w, shiftBytes rr rr l'.reverse u = .ok us w ∧ us.reverse = bytes l ∧
          w.cpu.regs.f.carry = s.cpu.regs.f.carry := by
  intro n V
  have hbytes : bytes l ≠ [] := by simpa using hl
  have hlength : (bytes l).length = n := List.length_map _
  refine ⟨?_, ?_, ?_, ?_⟩
  · obtain ⟨rs, t, ht, hrow⟩ := shiftBytes_left hl s .zero
    have hrs : rs.length = n := hrow.length_left.symm.trans hlength
    have hmod := hrow.value_mod
    have hcarry := hrow.carry_iff
    simp only [Alu.incoming, Bool.toNat_false, Nat.add_zero, ← Nat.two_mul, hrs] at hmod hcarry
    refine ⟨rs, t, ht, hrs, hmod.symm, ?_⟩
    rw [← hlength, Bytes.testBit_value hbytes, hlength, Bool.eq_iff_iff, decide_eq_true_iff]
    exact hcarry
  · obtain ⟨rs, t, ht, hrow⟩ := shiftBytes_right hl s .zero
    refine ⟨rs, t, ht, ?_, ?_, (hrow.testBit_zero hbytes).symm⟩
    · rw [← List.length_reverse, hrow.length_left, hlength]
    · rw [hrow.half_eq]
      simp only [Alu.incoming, Bool.toNat_false, Nat.mul_zero, Nat.add_zero, V]
  · obtain ⟨rs, t, ht, hrow⟩ := shiftBytes_right hl s .sign
    refine ⟨rs, t, ht, ?_, hrow.signed_half hbytes ?_, (hrow.testBit_zero hbytes).symm⟩
    · rw [← List.length_reverse, hrow.length_left, hlength]
    · rw [Alu.incoming, Byte.testBit_seven, decide_eq_decide, Bytes.half_le_value_iff hbytes,
        List.getLast_map]
  · obtain ⟨rs, t, ht, hrow⟩ := shiftBytes_left hl s .carry
    refine ⟨rs, t, ht, hrow.length_left.symm.trans hlength, ?_⟩
    rintro l' rfl u hu
    have hl' : l' ≠ [] := by
      rintro rfl
      exact hbytes (List.length_eq_zero_iff.1 hrow.length_left)
    obtain ⟨us, w, hw, hback⟩ := shiftBytes_right hl' u .carry
    simp only [Alu.incoming] at hrow hback
    rw [hu] at hback
    obtain ⟨hus, hcarry⟩ := hrow.half_unique hback
    exact ⟨us, w, hw, hus, hcarry⟩

/-- The theorem for 0x8000FF, whose middle byte is in memory. -/
theorem shift_arithmetic_three_bytes :
    let l : List (UInt8 × UInt8) := [(0, 0xFF), (6, 0x00), (7, 0x80)]
    let s : Board Memory := ⟨{ regs := {} }, .blank⟩
    l ≠ [] ∧
      (∃ rs t, shiftBytes sla rl l s = .ok rs t ∧ value rs = 0x0001FE ∧
        t.cpu.regs.f.carry = true) ∧
      (∃ rs t, shiftBytes srl rr l.reverse s = .ok rs t ∧ value rs.reverse = 0x40007F ∧
        t.cpu.regs.f.carry = true) ∧
      (∃ rs t, shiftBytes sra rr l.reverse s = .ok rs t ∧ Bytes.signed rs.reverse = -0x3FFF81) ∧
      ∃ rs t, shiftBytes rl rl l s = .ok rs t ∧
        ∃ us w, shiftBytes rr rr (([0, 1, 2].zip rs).reverse) t = .ok us w ∧
          us.reverse = [0xFF, 0x00, 0x80] ∧ w.cpu.regs.f.carry = false := by
  intro l s
  have hl : l ≠ [] := List.cons_ne_nil _ _
  obtain ⟨⟨rs₁, t₁, h₁, -, hv₁, hc₁⟩, ⟨rs₂, t₂, h₂, -, hv₂, hc₂⟩, ⟨rs₃, t₃, h₃, -, hv₃, -⟩,
    rs₄, t₄, h₄, hlength, hback⟩ := shift_arithmetic hl s
  have hzip : bytes ([0, 1, 2].zip rs₄) = rs₄ :=
    List.map_snd_zip (Nat.le_of_eq hlength)
  have hhalf : Bytes.signed (bytes l) / 2 = -0x3FFF81 := by decide +kernel
  refine ⟨hl, ⟨rs₁, t₁, h₁, hv₁.trans ?_, hc₁.trans ?_⟩,
    ⟨rs₂, t₂, h₂, hv₂.trans ?_, hc₂.trans ?_⟩, ⟨rs₃, t₃, h₃, hv₃.trans hhalf⟩,
    rs₄, t₄, h₄, hback _ hzip t₄ rfl⟩
  all_goals decide +kernel

end Binary

end Lr35902
