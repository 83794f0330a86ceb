import Lr35902.Cpu.Step
import Lr35902.Proofs.Binary
import Lr35902.Proofs.Memory

/-!
# Sums of words

A sum of words is a sum of two bytes each: the high bytes take the carry of the low ones, and their
carries are those of the word (`Alu.add16_eq_bytes`).

The sum of SP and a signed byte is a sum of words too, since the byte is extended to one.  An offset
below zero then stands for 65536 more, so that the carry is set unless the sum is below zero
(`Alu.carry_displace`).
-/

namespace Lr35902

/-! ### Words and signed bytes as integers -/

namespace Byte

theorem toNat_ofSigned (e : Int8) : ((ofSigned e).toNat : ℤ) = e.toInt % 256 := by
  have hbits : (ofSigned e).toNat = e.toBitVec.toNat := rfl
  have hvalue := BitVec.toInt_eq_toNat_cond e.toBitVec
  rw [Int8.toInt_toBitVec] at hvalue
  rw [hbits, hvalue]
  have := e.toBitVec.isLt
  split <;> omega

end Byte

namespace Word

theorem toNat_signExtend_ofSigned (e : Int8) :
    ((signExtend (Byte.ofSigned e)).toNat : ℤ) = e.toInt % 65536 := by
  have hlt := e.toInt_lt
  have hle := e.le_toInt
  have he := Byte.toNat_ofSigned e
  rw [toNat_signExtend]
  split <;> omega

end Word

namespace Alu

open Byte (bit)

/-- The sum of two words is the sum of their low bytes and then that of their high bytes. -/
theorem add16_eq_bytes (a b : UInt16) :
    let lo := add (Word.low a) (Word.low b) false
    let hi := add (Word.high a) (Word.high b) lo.2.carry
    add16 a b = (Word.pack hi.1 lo.1,
      { zero := hi.1 == 0 && lo.1 == 0, halfCarry := hi.2.halfCarry, carry := hi.2.carry }) := by
  intro lo hi
  have hlo : Byte.IsSum _ _ false lo.1 lo.2.carry := isSum_add _ _ _
  have hhi : Byte.IsSum _ _ lo.2.carry hi.1 hi.2.carry := isSum_add _ _ _
  have hhalf : hi.2.halfCarry =
      decide (15 < ((Word.high a).toNat : ℤ) % 16 + (Word.high b).toNat % 16 + bit lo.2.carry) := by
    simp only [hi, add_eq, Reference.truncate, Reference.add]
  rw [Byte.bit_eq_toNat] at hhalf
  simp only [Byte.IsSum, Word.toNat_high, Word.toNat_low, Bool.toNat_false] at hlo hhi hhalf
  have hlt := lo.1.toNat_lt
  have hlt' := hi.1.toNat_lt
  have hc := hi.2.carry.toNat_le
  have hsum : (256 * hi.1.toNat + lo.1.toNat : ℤ) = (a.toNat + b.toNat) % 65536 := by omega
  have hcarry : 65535 < (a.toNat + b.toNat : ℤ) ↔ hi.2.carry.toNat = 1 := by omega
  rw [add16_eq]
  refine Prod.ext ?_ (Flags.ext ?_ rfl ?_ ?_)
  · rw [Reference.truncate16, eq_comm, Word.eq_ofInt_iff, Word.toNat_pack]
    simp only [Reference.add16]
    omega
  · simp only [Reference.truncate16, Reference.add16, ← hsum, beq_eq_decide,
      ← Bool.decide_and, ← UInt8.toNat_inj, UInt8.toNat_zero, decide_eq_decide]
    omega
  · simp only [Reference.truncate16, Reference.add16, hhalf, decide_eq_decide]
    omega
  · simp only [Reference.truncate16, Reference.add16, hcarry]
    simp

/-! ### Sums with a signed byte -/

/-- The sum of a word and a signed byte. -/
def displace (w : UInt16) (e : Int8) : UInt16 × Flags :=
  add16 w (Word.signExtend (Byte.ofSigned e))

variable (w : UInt16) (e : Int8)

theorem toNat_displace : ((displace w e).1.toNat : ℤ) = (w.toNat + e.toInt) % 65536 := by
  have he := Word.toNat_signExtend_ofSigned e
  rw [displace, add16_eq, Reference.truncate16, Word.toNat_ofInt]
  simp only [Reference.add16]
  omega

/-- The carry out of the word is set unless the sum is below zero. -/
theorem carry_displace :
    (displace w e).2.carry = true ↔
      0 ≤ e.toInt ∧ 65536 ≤ w.toNat + e.toInt ∨ e.toInt < 0 ∧ 0 ≤ w.toNat + e.toInt := by
  have hlt := e.toInt_lt
  have hle := e.le_toInt
  have hw := w.toNat_lt
  have he := Word.toNat_signExtend_ofSigned e
  rw [displace, add16_eq]
  simp only [Reference.truncate16, Reference.add16, decide_eq_true_iff]
  omega

/-- The only signed byte without an opposite one is -128. -/
theorem displace_neg (he : e ≠ -128) : (displace (displace w e).1 (-e)).1 = w := by
  have hlt := e.toInt_lt
  have hle := e.le_toInt
  have hw := w.toNat_lt
  have hne : e.toInt ≠ -128 := fun h => he (Int8.toInt_inj.1 h)
  have hneg : (-e).toInt = -e.toInt := by
    rw [Int8.toInt_neg]
    exact Int.bmod_eq_of_le (by omega) (by omega)
  rw [← UInt16.toNat_inj, ← Int.natCast_inj, toNat_displace, toNat_displace, hneg]
  omega

end Alu

namespace Exec

variable {σ : Type} [Bus σ] {s : Board σ} {e : Int8} {bus : σ}
  (he : Bus.fetch8 s.cpu.regs.pc s.bus = .ok (Byte.ofSigned e) bus)
include he

theorem addSp_apply (addr : UInt16) :
    let r := Alu.displace s.cpu.regs.sp e
    primary addr 0xE8 s =
      .ok 16 ⟨{ s.cpu.next with regs := { s.cpu.next.regs with sp := r.1, f := r.2 } }, bus⟩ := by
  have hdecode : Instruction.decode 0xE8 = some .addSp := rfl
  simp only [primary, hdecode, instruction, addWords, bind_apply, fetch_apply, he, regs_apply,
    setFlags_apply, modifyRegs_apply, pure_apply]
  rfl

theorem loadHlSp_apply (addr : UInt16) :
    let r := Alu.displace s.cpu.regs.sp e
    primary addr 0xF8 s =
      .ok 12 ⟨{ s.cpu.next with regs := { s.cpu.next.regs with f := r.2 }.setHl r.1 }, bus⟩ := by
  have hdecode : Instruction.decode 0xF8 = some .loadHlSp := rfl
  simp only [primary, hdecode, instruction, addWords, bind_apply, fetch_apply, he, regs_apply,
    setFlags_apply, modifyRegs_apply, pure_apply]
  rfl

end Exec

namespace Alu

/-- Sums of words.  They are sums of bytes with a carry in between, SP plus a signed byte is the
same word with the same flags in SP and in HL, and the opposite byte takes SP back. -/
theorem word_sums :
    (∀ a b : UInt16,
      let lo := add (Word.low a) (Word.low b) false
      let hi := add (Word.high a) (Word.high b) lo.2.carry
      let r := add16 a b
      r.1 = Word.pack hi.1 lo.1 ∧ r.2.carry = hi.2.carry ∧ r.2.halfCarry = hi.2.halfCarry ∧
        r.2.subtract = false ∧ (r.2.zero = true ↔ hi.1 = 0 ∧ lo.1 = 0)) ∧
    ∀ {σ : Type} [Bus σ] (addr : UInt16) (e : Int8) (s : Board σ) (bus : σ),
      Bus.fetch8 s.cpu.regs.pc s.bus = .ok (Byte.ofSigned e) bus →
      let SP := s.cpu.regs.sp.toNat
      ∃ w f, (w.toNat : ℤ) = (SP + e.toInt) % 65536 ∧
        (f.carry = true ↔
          0 ≤ e.toInt ∧ 65536 ≤ SP + e.toInt ∨ e.toInt < 0 ∧ 0 ≤ SP + e.toInt) ∧
        Exec.primary addr 0xF8 s =
          .ok 12 ⟨{ s.cpu.next with regs := { s.cpu.next.regs with f }.setHl w }, bus⟩ ∧
        Exec.primary addr 0xE8 s =
          .ok 16 ⟨{ s.cpu.next with regs := { s.cpu.next.regs with sp := w, f } }, bus⟩ ∧
        ∀ (addr' : UInt16) (u : Board σ) (bus' : σ), e ≠ -128 → u.cpu.regs.sp = w →
          Bus.fetch8 u.cpu.regs.pc u.bus = .ok (Byte.ofSigned (-e)) bus' →
          ∃ t, Exec.primary addr' 0xE8 u = .ok 16 t ∧ t.cpu.regs.sp = s.cpu.regs.sp := by
  constructor
  · intro a b lo hi r
    have h : r = _ := add16_eq_bytes a b
    rw [h]
    refine ⟨rfl, rfl, rfl, rfl, ?_⟩
    rw [Bool.and_eq_true, beq_iff_eq, beq_iff_eq]
  · intro σ _ addr e s bus he SP
    refine ⟨_, _, toNat_displace s.cpu.regs.sp e, carry_displace s.cpu.regs.sp e,
      Exec.loadHlSp_apply he addr, Exec.addSp_apply he addr, fun addr' u bus' hne hsp hneg => ?_⟩
    refine ⟨_, Exec.addSp_apply hneg addr', ?_⟩
    rw [hsp]
    exact displace_neg s.cpu.regs.sp e hne

/-- The theorem for SP = 8 and the byte -16, which takes SP below zero. -/
theorem word_sums_below_zero :
    let m (e : Int8) : Memory :=
      { Memory.blank with rom := Memory.blank.rom.set 0 (Byte.ofSigned e) }
    let s : Board Memory := ⟨{ regs := { sp := 8 } }, m (-16)⟩
    Bus.fetch8 s.cpu.regs.pc s.bus = .ok (Byte.ofSigned (-16)) s.bus ∧
      ∃ w f t t', w = 0xFFF8 ∧ f.carry = false ∧
        Exec.primary 0 0xF8 s = .ok 12 t ∧ t.cpu.regs.hl = w ∧ t.cpu.regs.f = f ∧
        t.cpu.regs.sp = 8 ∧
        Exec.primary 0 0xE8 s = .ok 16 t' ∧ t'.cpu.regs.sp = w ∧ t'.cpu.regs.f = f ∧
        ∃ u, Exec.primary 0 0xE8 ⟨{ regs := { sp := w } }, m 16⟩ = .ok 16 u ∧
          u.cpu.regs.sp = 8 := by
  intro m s
  have hfetch (e : Int8) : Bus.fetch8 0 (m e) = .ok (Byte.ofSigned e) (m e) := by
    rw [Memory.fetch8_eq, ByteSpace.get_set_self]
  obtain ⟨w, f, hw, hf, hload, hadd, hback⟩ := word_sums.2 0 (-16) s (m (-16)) (hfetch (-16))
  have hsp : w = 0xFFF8 := by
    rw [← UInt16.toNat_inj, ← Int.natCast_inj, hw]
    rfl
  have hcarry : f.carry = false := by
    rw [Bool.eq_false_iff, ne_eq, hf]
    decide
  exact ⟨hfetch (-16), w, f, _, _, hsp, hcarry, hload, RegisterFile.hl_setHl _ _, rfl, rfl, hadd,
    rfl, rfl, hback 0 ⟨{ regs := { sp := w } }, m 16⟩ (m 16) (by decide) rfl (hfetch 16)⟩

end Alu

end Lr35902
