import Lr35902.Proofs.Boot.Sketch
import Lr35902.Proofs.Reference.Arithmetic

/-!
# The loops of the boot program

The boot program clears the video memory and the sprite table in two loops, each of which counts a
pointer and branches back.  All of memory is zero already, so a turn of a loop changes only the
processor.  Both loops come to their end by induction on the bytes that are left
(`BootProgram.run?_clear`, `BootProgram.run?_clearSprites`).
-/

namespace Lr35902

theorem Alu.fst_dec (v : UInt8) (f : Flags) : (Alu.dec v f).1 = v - 1 := by
  have hall : ∀ v : BitVec 8, (Alu.sub ⟨v⟩ 1 false).1 = ⟨v⟩ - 1 := by decide +kernel
  exact hall v.toBitVec

namespace BootProgram

open Sketch

/-! ### Instructions of the loops -/

/-- The processor in a loop, at `pc` and with the pointer at `hl`.  The accumulator is zero. -/
def looping (f : Flags) (b : UInt8) (pc hl : UInt16) (cycles : Nat) : Cpu where
  regs := RegisterFile.setHl { f, b, sp := 0xFFFE, pc } hl
  cycles := cycles

variable {f : Flags} {b : UInt8} {pc p : UInt16} {n k : Nat}

/-- A store of zero leaves memory zero. -/
theorem access?_clear {cpu : Cpu} (h : IsPlain p) :
    access? (.store p 0) cpu [] = some (0, cpu, []) := by
  rw [access?, if_pos h]
  rfl

/-- A store of the accumulator at the pointer, which moves on. -/
theorem perform?_store (h : IsPlain p) (move : UInt16 → UInt16) :
    perform? ⟨.store (looping f b pc p n).regs.hl 0,
        fun _ => Plan.onRegs fun g => g.setHl (move g.hl), 8⟩ (looping f b pc p n) [] =
      some (8, looping f b pc (move p) (n + 8), []) := by
  have hhl : (looping f b pc p n).regs.hl = p := RegisterFile.hl_setHl _ p
  rw [hhl, perform?, access?_clear h]
  simp only [Option.bind_eq_bind, Option.bind_some, Plan.onRegs, hhl]
  rfl

theorem execute?_storeDecrement (h : IsPlain p) :
    execute? (looping f 0 0x0007 p n) [] = some (8, looping f 0 0x0008 (p - 1) (n + 8), []) :=
  perform?_store h (· - 1)

theorem execute?_storeIncrement (h : IsPlain p) :
    execute? (looping f b 0x0011 p n) [] = some (8, looping f b 0x0012 (p + 1) (n + 8), []) :=
  perform?_store h (· + 1)

theorem execute?_decB :
    execute? (looping f b 0x0012 p n) [] =
      some (4, looping (Alu.dec b f).2 (Alu.dec b f).1 0x0013 p (n + 4), []) := rfl

theorem execute?_extension :
    execute? (looping f 0 0x0008 p n) [] =
      some (4, { looping f 0 0x0009 p (n + 4) with mode := .extended }, []) := rfl

theorem execute?_testBit {z : Bool} (h : Byte.testBit (Word.high p) 7 = !z) :
    execute? { looping f 0 0x0009 p n with mode := .extended } [] =
      some (4, looping { zero := z, halfCarry := true, carry := f.carry } 0 0x000A p (n + 4),
        []) := by
  rw [← Bool.not_not z, ← h]
  rfl

/-- A branch back to the beginning of a loop, which is left when the zero flag is set. -/
theorem execute?_jrNz {e : UInt8} (hjr : byteAt? pc = some 0x20) (he : byteAt? (pc + 1) = some e) :
    execute? (looping f b pc p n) [] =
      if f.zero then some (8, looping f b (pc + 1 + 1) p (n + 8), [])
      else some (12, looping f b (ProgramCounter.displace (pc + 1 + 1) e) p (n + 12), []) := by
  have himm : fetchImmediate? .byte (looping f b pc p n).next =
      some (e.toUInt16, looping f b (pc + 1 + 1) p n) := by
    have he : byteAt? (looping f b pc p n).next.regs.pc = some e := he
    rw [fetchImmediate?, he]
    rfl
  have hplan : (Instruction.jr (some .nz)).plan pc (looping f b (pc + 1 + 1) p n).regs e.toUInt16 =
      .ok (Plan.jumping (looping f b (pc + 1 + 1) p n).regs (some .nz)
        (ProgramCounter.displace (pc + 1 + 1) e) 8 12) := by
    rw [Instruction.plan, UInt8.toUInt8_toUInt16]
    rfl
  have hdecode : Instruction.decode 0x20 = some (.jr (some .nz)) := by decide
  rw [execute?_primary rfl hjr (by decide) hdecode himm hplan]
  obtain ⟨zero, subtract, halfCarry, carry⟩ := f
  cases zero with
  | false => rfl
  | true => rfl

/-! ### Clearing the video memory -/

/-- The end of the loop that clears the video memory, which tests the highest bit of the pointer. -/
theorem run?_testPointer {z : Bool} (h : Byte.testBit (Word.high p) 7 = !z) :
    run? 3 (ofCpu (looping f 0 0x0008 p n)) =
      let f' : Flags := { zero := z, halfCarry := true, carry := f.carry }
      if z then some (16, ofCpu (looping f' 0 0x000C p (n + 16)))
      else some (20, ofCpu (looping f' 0 0x0007 p (n + 20))) := by
  have hopcode : byteAt? 0x000A = some 0x20 := by decide +kernel
  have hdistance : byteAt? (0x000A + 1) = some 0xFB := by decide +kernel
  have hback : ProgramCounter.displace (0x000A + 1 + 1) 0xFB = 0x0007 := by decide
  have hjr := execute?_jrNz (f := { zero := z, halfCarry := true, carry := f.carry }) (b := 0)
    (p := p) (n := n + 8) hopcode hdistance
  rw [hback] at hjr
  -- which way the branch goes only matters for where it leads
  cases z <;>
    exact run?_ofCpu rfl rfl execute?_extension
      (run?_ofCpu rfl rfl (execute?_testBit h) (run?_ofCpu rfl rfl hjr (run?_zero _)))

theorem isPlain_of_lt (h : p.toNat < 0xFF46) : IsPlain p := by
  constructor
  · rintro rfl
    exact absurd h (by decide)
  · rintro rfl
    exact absurd h (by decide)

/-- The loop that clears the video memory, when `k` bytes are left after this one. -/
theorem run?_clear (hp : p.toNat = 0x8000 + k) (hk : k < 0x2000) (hf : f.carry = false) :
    run? (4 * (k + 1)) (ofCpu (looping f 0 0x0007 p n)) =
      some (28 * k + 24,
        ofCpu (looping { zero := true, halfCarry := true } 0 0x000C 0x7FFF
          (n + (28 * k + 24)))) := by
  -- the flags change in every turn, but for the carry, so they are general in the induction
  induction k generalizing f p n with
  | zero =>
    -- the pointer leaves the video memory, and its highest bit is clear
    obtain rfl : p = 0x8000 := UInt16.toNat_inj.1 hp
    have hbit : Byte.testBit (Word.high 0x7FFF) 7 = !true := by decide
    have htest := run?_testPointer (f := f) (n := n + 8) hbit
    rw [hf] at htest
    have hplain : IsPlain 0x8000 := by decide
    have hrun := run?_ofCpu rfl rfl (execute?_storeDecrement hplain) htest
    exact hrun
  | succ k ih =>
    have hpred : (p - 1).toNat = p.toNat - 1 :=
      UInt16.toNat_sub_of_le p 1 (UInt16.le_iff_toNat_le.2 (show 1 ≤ p.toNat by omega))
    have hplain : IsPlain p := isPlain_of_lt (by omega)
    have hbit : Byte.testBit (Word.high (p - 1)) 7 = !false := by
      rw [Byte.testBit_seven, Word.toNat_high]
      exact decide_eq_true (by omega)
    have htest := run?_testPointer (f := f) (n := n + 8) hbit
    have hturn := run?_ofCpu rfl rfl (execute?_storeDecrement hplain) htest
    have hrest := ih (f := { halfCarry := true, carry := f.carry }) (p := p - 1) (n := n + 28)
      (by omega) (by omega) hf
    have hrun := run?_add hturn hrest
    rw [show 3 + 1 + 4 * (k + 1) = 4 * (k + 1 + 1) by omega,
      show 8 + 20 + (28 * k + 24) = 28 * (k + 1) + 24 by omega,
      show n + 28 + (28 * k + 24) = n + (28 * (k + 1) + 24) by omega] at hrun
    exact hrun

/-! ### Clearing the sprite table -/

/-- One turn of the loop that clears the sprite table. -/
theorem run?_storeSprite {z : Bool} (hplain : IsPlain p) (hz : (Alu.dec b f).2.zero = z) :
    run? 3 (ofCpu (looping f b 0x0011 p n)) =
      let f' := (Alu.dec b f).2
      if z then some (20, ofCpu (looping f' (b - 1) 0x0015 (p + 1) (n + 20)))
      else some (24, ofCpu (looping f' (b - 1) 0x0011 (p + 1) (n + 24))) := by
  have hopcode : byteAt? 0x0013 = some 0x20 := by decide +kernel
  have hdistance : byteAt? (0x0013 + 1) = some 0xFC := by decide +kernel
  have hback : ProgramCounter.displace (0x0013 + 1 + 1) 0xFC = 0x0011 := by decide
  have hjr := execute?_jrNz (f := (Alu.dec b f).2) (b := b - 1) (p := p + 1) (n := n + 12)
    hopcode hdistance
  rw [hback, hz] at hjr
  have hdec := execute?_decB (f := f) (b := b) (p := p + 1) (n := n + 8)
  rw [Alu.fst_dec] at hdec
  cases z <;>
    exact run?_ofCpu rfl rfl (execute?_storeIncrement hplain)
      (run?_ofCpu rfl rfl hdec (run?_ofCpu rfl rfl hjr (run?_zero _)))

/-- The loop that clears the sprite table, when `k` bytes are left after this one. -/
theorem run?_clearSprites (hb : b.toNat = k + 1) (hp : p.toNat + k = 0xFE9F)
    (hf : f.carry = false) :
    run? (3 * (k + 1)) (ofCpu (looping f b 0x0011 p n)) =
      some (24 * k + 20,
        ofCpu (looping { zero := true, subtract := true } 0 0x0015 0xFEA0
          (n + (24 * k + 20)))) := by
  have hplain : IsPlain p := isPlain_of_lt (by omega)
  induction k generalizing f b p n with
  | zero =>
    -- the counter comes to zero, and the branch is not taken
    obtain rfl : b = 1 := UInt8.toNat_inj.1 hb
    obtain rfl : p = 0xFE9F := UInt16.toNat_inj.1 hp
    have hdec : (Alu.dec 1 f).2 = { zero := true, subtract := true, carry := f.carry } := rfl
    have hz : (Alu.dec 1 f).2.zero = true := by rw [hdec]
    have hturn := run?_storeSprite (n := n) hplain hz
    rw [hdec, hf] at hturn
    exact hturn
  | succ k ih =>
    have hpred : (b - 1).toNat = b.toNat - 1 :=
      UInt8.toNat_sub_of_le b 1 (UInt8.le_iff_toNat_le.2 (show 1 ≤ b.toNat by omega))
    have hsucc : (p + 1).toNat = p.toNat + 1 := by
      rw [UInt16.toNat_add]
      exact Nat.mod_eq_of_lt (show p.toNat + 1 < 65536 by omega)
    have hz : (Alu.dec b f).2.zero = false := by
      change ((Alu.dec b f).1 == 0) = false
      rw [Alu.fst_dec, beq_eq_false_iff_ne, ne_eq, ← UInt8.toNat_inj, hpred, hb]
      exact Nat.succ_ne_zero k
    have hturn := run?_storeSprite (n := n) hplain hz
    have hrest := ih (f := (Alu.dec b f).2) (b := b - 1) (p := p + 1) (n := n + 24)
      (by omega) (by omega) hf (isPlain_of_lt (by omega))
    have hrun := run?_add hturn hrest
    rw [show 3 + 3 * (k + 1) = 3 * (k + 1 + 1) by omega,
      show 24 + (24 * k + 20) = 24 * (k + 1) + 20 by omega,
      show n + 24 + (24 * k + 20) = n + (24 * (k + 1) + 20) by omega] at hrun
    exact hrun

end BootProgram

end Lr35902
