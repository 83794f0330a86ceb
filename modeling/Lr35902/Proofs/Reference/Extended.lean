import Lr35902.Proofs.Plan
import Lr35902.Proofs.Reference.Agreement

/-!
# The extended table

What the 256 opcodes behind the byte 0xCB do, in the layout of their table and in integers: an
opcode byte is read as the fields `x`, `y` and `z`, of which `z` is the number of the operand.  The
effect of an opcode is a function of the registers and the bus (`Reference.extendedEffect`).

The byte 0xCB is a step of its own, and the opcode behind it another one.  Together they have that
effect and nothing else (`Reference.extended_eq_reference`).
-/

namespace Lr35902

namespace Reference

open Byte (bit)

/-! ### The table -/

/-- The byte `v` with bit `y` replaced. -/
def withBit (y : ℕ) (on : Bool) (v : ℤ) : ℤ := v + 2 ^ y * (bit on - v / 2 ^ y % 2)

/-- Row `y` of the quarters that replace their operand `v`: moves of its bits in quarter 0, and
clearing and setting a bit in quarters 2 and 3. -/
def replacement (x y : ℕ) (v : ℤ) (f : Flags) : ℤ × Flags :=
  match x with
  | 0 => rotate y v f.carry
  | 2 => (withBit y false v, f)
  | _ => (withBit y true v, f)

/-- Row `y` of quarter 1, which tests a bit of its operand `v`. -/
def test (y : ℕ) (v : ℤ) (f : Flags) : Flags :=
  { f with zero := v / 2 ^ y % 2 = 0, subtract := false, halfCarry := true }

variable {σ : Type} [Bus σ]

/-- The byte operand number `i`, of which number 6 is the byte at HL, and the bus after it was
read. -/
def operandOf (i : ℕ) (g : RegisterFile) (bus : σ) : ℤ × σ :=
  if i = 6 then
    let (v, bus) := Bus.loaded (UInt16.ofInt (hl g)) bus
    (v.toNat, bus)
  else (register g i, bus)

/-- The registers and the bus after the byte operand number `i` was written. -/
def withOperand (i : ℕ) (v : ℤ) (g : RegisterFile) (bus : σ) : RegisterFile × σ :=
  if i = 6 then (g, Bus.stored (UInt16.ofInt (hl g)) (UInt8.ofInt v) bus)
  else (setRegister i v g, bus)

/-- The registers and the bus after the flags were set to what `f` gives for the byte operand
number `i`. -/
def tested (i : ℕ) (f : ℤ → Flags → Flags) (g : RegisterFile) (bus : σ) : RegisterFile × σ :=
  let (v, bus) := operandOf i g bus
  ({ g with f := f v g.f }, bus)

/-- The registers and the bus after the byte operand number `i` and the flags were replaced. -/
def replaced (i : ℕ) (f : ℤ → Flags → ℤ × Flags) (g : RegisterFile) (bus : σ) :
    RegisterFile × σ :=
  let (v, bus) := operandOf i g bus
  let (w, flags) := f v g.f
  withOperand i w { g with f := flags } bus

/-- What the extended opcode `b` does to the registers and the bus. -/
def extendedEffect (b : ℕ) (g : RegisterFile) (bus : σ) : RegisterFile × σ :=
  let x := b / 64
  let y := b / 8 % 8
  let z := b % 8
  if x = 1 then tested z (test y) g bus else replaced z (replacement x y) g bus

/-- The cycles of the extended opcode `b`, together with those of the byte before it. -/
def extendedCycles (b : ℕ) : ℕ :=
  if b % 8 = 6 then if b / 64 = 1 then 12 else 16 else 8

/-! ### Bits -/

section

variable (v : UInt8) {i : UInt8} (hi : i.toNat < 8)
include hi

theorem toNat_withBit (on : Bool) :
    (Byte.withBit v i on).toNat + 2 ^ i.toNat * (v.toNat / 2 ^ i.toNat % 2) =
      v.toNat + 2 ^ i.toNat * (Byte.ofBool on).toNat := by
  have hall : ∀ v : BitVec 8, ∀ k : Fin 8, ∀ on,
      (Byte.withBit ⟨v⟩ (UInt8.ofNat k) on).toNat + 2 ^ k.val * (v.toNat / 2 ^ k.val % 2) =
        v.toNat + 2 ^ k.val * (Byte.ofBool on).toNat := by
    decide +kernel
  have hv := hall v.toBitVec ⟨i.toNat, hi⟩ on
  rwa [UInt8.ofNat_toNat] at hv

theorem withBit_eq (on : Bool) :
    Byte.withBit v i on = UInt8.ofInt (withBit i.toNat on v.toNat) := by
  have hsum := congrArg Int.ofNat (toNat_withBit v hi on)
  simp only [Int.ofNat_eq_natCast, Int.natCast_add, Int.natCast_mul, Int.natCast_pow,
    Int.natCast_emod, Int.natCast_ediv, Int.cast_ofNat_Int, Byte.toNat_ofBool] at hsum
  have hint : withBit i.toNat on v.toNat = (Byte.withBit v i on).toNat := by
    unfold withBit
    rw [Int.mul_sub]
    omega
  rw [hint, Byte.ofInt_toNat]

/-- The complement of a bit tells whether the digit is zero. -/
theorem not_testBit :
    (!Byte.testBit v i) = decide ((v.toNat : ℤ) / 2 ^ i.toNat % 2 = 0) := by
  have hdigit : (v.toNat : ℤ) / 2 ^ i.toNat % 2 = (v.toNat / 2 ^ i.toNat % 2 : ℕ) := by
    simp only [Int.natCast_emod, Int.natCast_ediv, Int.natCast_pow, Int.cast_ofNat_Int]
  rw [Byte.testBit_eq, Nat.mod_eq_of_lt hi, hdigit, ← decide_not, decide_eq_decide]
  omega

end

/-- A shift and the row of its number, and the exchange of the two halves. -/
theorem decodeShift_cases {y : ℕ} (hy : y < 8) :
    (y = 6 ∧ ExtendedInstruction.decodeShift y = .swap) ∨
      ∃ dir fill, ExtendedInstruction.decodeShift y = .shift dir fill ∧
        Alu.shiftRow dir fill = y := by
  interval_cases y
  case «6» => exact .inl ⟨rfl, rfl⟩
  all_goals exact .inr ⟨_, _, rfl, rfl⟩

/-! ### Operands -/

section

variable {P : σ → Prop} (hP : Bus.Reliable P) {bus : σ} (hbus : P bus) (cpu : Cpu) (i : UInt8)
include hP hbus

theorem readOperand_apply :
    ∃ v, Stands v (operandOf (i.toNat % 8) cpu.regs bus).1 ∧
      Exec.readOperand (Register.ofIndex i) ⟨cpu, bus⟩ =
        .ok v ⟨cpu, (operandOf (i.toNat % 8) cpu.regs bus).2⟩ ∧
      P (operandOf (i.toNat % 8) cpu.regs bus).2 := by
  unfold operandOf
  by_cases h : i.toNat % 8 = 6
  · obtain ⟨hread, hkept⟩ := hP.read8_eq hbus cpu.regs.hl
    rw [ofIndex_eq_hlIndirect_iff.2 h, if_pos h, ← (stands_hl cpu.regs).eq_ofInt]
    refine ⟨_, rfl, ?_, hkept⟩
    simp only [Exec.readOperand_hlIndirect, bind_apply, Exec.regs_apply, Exec.load_apply, hread]
  · have hbyte := Register.isByte_ofIndex (mt ofIndex_eq_hlIndirect_iff.1 h)
    rw [if_neg h, Exec.readOperand_eq hbyte]
    exact ⟨_, byte_ofIndex cpu.regs h, rfl, hbus⟩

theorem writeOperand_apply (w : ℤ) :
    Exec.writeOperand (Register.ofIndex i) (UInt8.ofInt w) ⟨cpu, bus⟩ =
      .ok () ⟨{ cpu with regs := (withOperand (i.toNat % 8) w cpu.regs bus).1 },
        (withOperand (i.toNat % 8) w cpu.regs bus).2⟩ := by
  unfold withOperand
  by_cases h : i.toNat % 8 = 6
  · obtain ⟨hwrite, -⟩ := hP.write8_eq hbus cpu.regs.hl (UInt8.ofInt w)
    rw [ofIndex_eq_hlIndirect_iff.2 h, if_pos h, ← (stands_hl cpu.regs).eq_ofInt]
    simp only [Exec.writeOperand_hlIndirect, bind_apply, Exec.regs_apply, Exec.store_apply, hwrite]
  · have hbyte := Register.isByte_ofIndex (mt ofIndex_eq_hlIndirect_iff.1 h)
    rw [if_neg h, Exec.writeOperand_eq hbyte, Exec.modifyRegs_apply, withByte_ofIndex _ h]

theorem updateOperand_apply {f : UInt8 → Flags → UInt8 × Flags} {r : ℤ → Flags → ℤ × Flags}
    (hf : ∀ v fl, f v fl = truncate (r v.toNat fl)) :
    Exec.updateOperand (Register.ofIndex i) f ⟨cpu, bus⟩ =
      .ok () ⟨{ cpu with regs := (replaced (i.toNat % 8) r cpu.regs bus).1 },
        (replaced (i.toNat % 8) r cpu.regs bus).2⟩ := by
  obtain ⟨v, hv, hread, hkept⟩ := readOperand_apply hP hbus cpu i
  have hwrite := writeOperand_apply hP hkept
    { cpu with regs := { cpu.regs with f := (r v.toNat cpu.regs.f).2 } } i
    (r v.toNat cpu.regs.f).1
  simp only [Exec.updateOperand, bind_apply, hread, Exec.regs_apply, hf, truncate,
    Exec.setFlags_apply, hwrite]
  rw [hv]
  rfl

omit [Bus σ] hP hbus in
/-- The cycles that are left to an instruction, from the cycles with those of the byte before. -/
theorem cyclesFor_eq_sub (m n : ℕ) :
    Exec.cyclesFor (Register.ofIndex i) m n = (if i.toNat % 8 = 6 then n + 4 else m + 4) - 4 := by
  rw [cyclesFor_ofIndex]
  split <;> rfl

/-- An instruction that replaces its operand. -/
theorem update_apply {f : UInt8 → Flags → UInt8 × Flags} {r : ℤ → Flags → ℤ × Flags}
    (hf : ∀ v fl, f v fl = truncate (r v.toNat fl)) :
    (do
        Exec.updateOperand (Register.ofIndex i) f
        return Exec.cyclesFor (Register.ofIndex i) 4 12 : Exec σ ℕ) ⟨cpu, bus⟩ =
      .ok ((if i.toNat % 8 = 6 then 16 else 8) - 4)
        ⟨{ cpu with regs := (replaced (i.toNat % 8) r cpu.regs bus).1 },
          (replaced (i.toNat % 8) r cpu.regs bus).2⟩ := by
  have hcycles : _ = (if i.toNat % 8 = 6 then 16 else 8) - 4 := cyclesFor_eq_sub i 4 12
  simp only [bind_apply, updateOperand_apply hP hbus cpu i hf, pure_apply, hcycles]

/-- An instruction that replaces a bit of its operand need not set the flags. -/
theorem updateBit_apply {n : UInt8} (hn : n.toNat < 8) (on : Bool) :
    (do
        Exec.writeOperand (Register.ofIndex i)
          (Byte.withBit (← Exec.readOperand (Register.ofIndex i)) n on)
        return Exec.cyclesFor (Register.ofIndex i) 4 12 : Exec σ ℕ) ⟨cpu, bus⟩ =
      .ok ((if i.toNat % 8 = 6 then 16 else 8) - 4)
        ⟨{ cpu with regs :=
            (replaced (i.toNat % 8) (fun v f => (withBit n.toNat on v, f)) cpu.regs bus).1 },
          (replaced (i.toNat % 8) (fun v f => (withBit n.toNat on v, f)) cpu.regs bus).2⟩ := by
  have hkeep := Exec.updateOperand_keepFlags (σ := σ) (Register.ofIndex i)
    (fun v => Byte.withBit v n on)
  have happly := update_apply hP hbus cpu i (f := fun v fl => (Byte.withBit v n on, fl))
    (r := fun v f => (withBit n.toNat on v, f))
    (fun v fl => by rw [withBit_eq v hn, truncate])
  rw [hkeep, bind_assoc] at happly
  exact happly

/-- An instruction that tests its operand. -/
theorem test_apply {n : UInt8} (hn : n.toNat < 8) :
    Exec.extendedInstruction ⟨.bit n, Register.ofIndex i⟩ ⟨cpu, bus⟩ =
      .ok ((if i.toNat % 8 = 6 then 12 else 8) - 4)
        ⟨{ cpu with regs := (tested (i.toNat % 8) (test n.toNat) cpu.regs bus).1 },
          (tested (i.toNat % 8) (test n.toNat) cpu.regs bus).2⟩ := by
  have hcycles : _ = (if i.toNat % 8 = 6 then 12 else 8) - 4 := cyclesFor_eq_sub i 4 8
  obtain ⟨v, hv, hread, -⟩ := readOperand_apply hP hbus cpu i
  simp only [Exec.extendedInstruction, bind_apply, hread, Exec.modifyRegs_apply, pure_apply,
    hcycles, not_testBit v hn]
  rw [hv]
  rfl

/-- The instruction has the effect of its table, and takes the cycles that are left to it. -/
theorem extendedInstruction_apply (b : UInt8) :
    Exec.extendedInstruction (ExtendedInstruction.decode b) ⟨cpu, bus⟩ =
      .ok (extendedCycles b.toNat - 4)
        ⟨{ cpu with regs := (extendedEffect b.toNat cpu.regs bus).1 },
          (extendedEffect b.toNat cpu.regs bus).2⟩ := by
  have hb := b.toNat_lt
  have hx : b.toNat / 64 < 4 := by omega
  have hy : b.toNat / 8 % 8 < 8 := Nat.mod_lt _ (by omega)
  have hbit : ((b >>> 3) &&& 7).toNat = b.toNat / 8 % 8 := by
    rw [Byte.toNat_and_seven, toNat_shiftRight_three]
  have hbit8 : ((b >>> 3) &&& 7).toNat < 8 := by rwa [hbit]
  unfold extendedEffect extendedCycles
  rw [ExtendedInstruction.decode, ofByte_eq]
  generalize hq : b.toNat / 64 = x at hx
  interval_cases x
  case «0» =>
    obtain ⟨hrow, hswap⟩ | ⟨dir, fill, hshift, hrow⟩ := decodeShift_cases hy
    · rw [hrow] at hswap ⊢
      rw [hswap]
      exact update_apply hP hbus cpu b (r := replacement 0 6) fun v fl => Alu.swap_eq v fl.carry
    · rw [hshift, ← hrow]
      exact update_apply hP hbus cpu b (r := replacement 0 (Alu.shiftRow dir fill))
        fun v fl => Alu.shift_eq v dir fill fl.carry
  case «1» =>
    rw [← hbit]
    exact test_apply hP hbus cpu b hbit8
  case «2» =>
    rw [← hbit]
    exact updateBit_apply hP hbus cpu b hbit8 false
  case «3» =>
    rw [← hbit]
    exact updateBit_apply hP hbus cpu b hbit8 true

end

/-! ### What an opcode leaves alone -/

/-- Besides the flags and its operand the opcode `b` changes no register.  It stores nothing but its
operand, which a test does not do either. -/
structure OperandOnly (b : ℕ) (g : RegisterFile) (bus : σ) : Prop where
  register : ∀ i < 8, i ≠ 6 → i ≠ b % 8 →
    register (extendedEffect b g bus).1 i = register g i
  sp : (extendedEffect b g bus).1.sp = g.sp
  /-- With its operand in memory, or only tested, it changes nothing but the flags. -/
  flags : b % 8 = 6 ∨ b / 64 = 1 →
    (extendedEffect b g bus).1 = { g with f := (extendedEffect b g bus).1.f }
  /-- With its operand in a register it does not use the bus. -/
  internal : b % 8 ≠ 6 → (extendedEffect b g bus).2 = bus
  memory : b % 8 = 6 → ∃ v, (extendedEffect b g bus).2 =
    if b / 64 = 1 then (Bus.loaded g.hl bus).2 else Bus.stored g.hl v (Bus.loaded g.hl bus).2

section

variable (b : ℕ) (g : RegisterFile) (bus : σ)

/-- The effect on the byte at HL. -/
theorem extendedEffect_memory (hz : b % 8 = 6) :
    ∃ f v, extendedEffect b g bus = ({ g with f },
      if b / 64 = 1 then (Bus.loaded g.hl bus).2
      else Bus.stored g.hl v (Bus.loaded g.hl bus).2) := by
  have hoperand : operandOf 6 g bus =
      (((Bus.loaded g.hl bus).1.toNat : ℤ), (Bus.loaded g.hl bus).2) := by
    rw [operandOf, if_pos rfl, ← (stands_hl g).eq_ofInt]
  by_cases hx : b / 64 = 1
  · refine ⟨test (b / 8 % 8) (Bus.loaded g.hl bus).1.toNat g.f, 0, ?_⟩
    simp only [extendedEffect, if_pos hx, hz, tested, hoperand]
  · let r := replacement (b / 64) (b / 8 % 8) (Bus.loaded g.hl bus).1.toNat g.f
    have hhl : UInt16.ofInt (hl { g with f := r.2 }) = g.hl := (stands_hl g).eq_ofInt.symm
    refine ⟨r.2, UInt8.ofInt r.1, ?_⟩
    simp only [extendedEffect, if_neg hx, hz, replaced, hoperand, withOperand, if_true]
    rw [hhl]

/-- The effect on a register. -/
theorem extendedEffect_register (hz : b % 8 ≠ 6) :
    ∃ f v, extendedEffect b g bus =
      (if b / 64 = 1 then { g with f } else setRegister (b % 8) v { g with f }, bus) := by
  by_cases hx : b / 64 = 1
  · refine ⟨test (b / 8 % 8) (register g (b % 8)) g.f, 0, ?_⟩
    simp only [extendedEffect, if_pos hx, tested, operandOf, if_neg hz]
  · let r := replacement (b / 64) (b / 8 % 8) (register g (b % 8)) g.f
    refine ⟨r.2, r.1, ?_⟩
    simp only [extendedEffect, if_neg hx, replaced, operandOf, withOperand, if_neg hz, r]

theorem register_setRegister_of_ne {i j : ℕ} (hi : i < 8) (hj : j < 8) (hi6 : i ≠ 6) (hj6 : j ≠ 6)
    (h : i ≠ j) (v : ℤ) : register (setRegister j v g) i = register g i := by
  interval_cases i <;> interval_cases j <;>
    first | exact absurd rfl h | exact absurd rfl hi6 | exact absurd rfl hj6 | rfl

theorem sp_setRegister (i : ℕ) (v : ℤ) : (setRegister i v g).sp = g.sp := by
  unfold setRegister
  split <;> rfl

theorem operandOnly : OperandOnly b g bus := by
  by_cases hz : b % 8 = 6
  · obtain ⟨f, v, heffect⟩ := extendedEffect_memory b g bus hz
    constructor
    case register =>
      intro i _ _ _
      rw [heffect]
      rfl
    case sp => rw [heffect]
    case flags =>
      intro _
      rw [heffect]
    case internal => exact fun hne => absurd hz hne
    case memory =>
      intro _
      exact ⟨v, by rw [heffect]⟩
  · obtain ⟨f, v, heffect⟩ := extendedEffect_register b g bus hz
    constructor
    case register =>
      intro i hi hi6 hne
      rw [heffect]
      split
      · rfl
      · exact register_setRegister_of_ne _ hi (Nat.mod_lt _ (by omega)) hi6 hz hne v
    case sp =>
      rw [heffect]
      split
      · rfl
      · exact sp_setRegister _ _ _
    case flags =>
      rintro (hmemory | htest)
      · exact absurd hmemory hz
      · simp only [heffect, if_pos htest]
    case internal =>
      intro _
      rw [heffect]
    case memory => exact fun hmemory => absurd hmemory hz

/-- The byte 0xCB is the opcode of an instruction here. -/
theorem extendedEffect_extensionByte :
    extendedEffect 0xCB g bus = ({ g with e := g.e ||| 2 }, bus) := by
  have hset : g.e ||| 2 = UInt8.ofInt (withBit 1 true g.e.toNat) :=
    withBit_eq g.e (show (1 : UInt8).toNat < 8 by decide) true
  rw [hset]
  rfl

variable (pc : UInt16)

/-- The effect does not depend on where the opcode was fetched. -/
theorem operandOf_pc (i : ℕ) : operandOf i { g with pc } bus = operandOf i g bus := by
  unfold operandOf register
  rfl

theorem withOperand_pc (i : ℕ) (v : ℤ) :
    withOperand i v { g with pc } bus =
      ({ (withOperand i v g bus).1 with pc }, (withOperand i v g bus).2) := by
  unfold withOperand
  split
  · rfl
  · unfold setRegister
    split <;> rfl

theorem extendedEffect_pc :
    extendedEffect b { g with pc } bus =
      ({ (extendedEffect b g bus).1 with pc }, (extendedEffect b g bus).2) := by
  unfold extendedEffect
  dsimp only
  split
  · simp only [tested, operandOf_pc]
  · simp only [replaced, operandOf_pc]
    let r := replacement (b / 64) (b / 8 % 8) (operandOf (b % 8) g bus).1 g.f
    exact withOperand_pc { g with f := r.2 } (operandOf (b % 8) g bus).2 pc (b % 8) r.1

end

/-! ### Both steps -/

omit [Bus σ] in
/-- The end of an instruction that has left the interrupt switch alone. -/
theorem complete_apply (cpu : Cpu) (bus : σ) (n : ℕ) :
    Exec.complete cpu.ime n ⟨cpu, bus⟩ = .ok n ⟨{ cpu with
      ime := if cpu.ime = .pendingEnable then .interruptible else cpu.ime
      cycles := cpu.cycles + n }, bus⟩ := by
  unfold Exec.complete
  by_cases h : cpu.ime = .pendingEnable
  · rw [if_pos h, bind_apply, Exec.modifyCpu_apply, h]
    rfl
  · rw [if_neg h, if_neg h]
    rfl

theorem extendedCycles_ge (b : ℕ) : 8 ≤ extendedCycles b := by
  unfold extendedCycles
  split
  · split <;> decide
  · exact Nat.le_refl 8

/-- A step that takes its opcode from the extended table has the effect of that table. -/
theorem step_eq_extended {P : σ → Prop} (hP : Bus.Reliable P) {s : Board σ} (hbus : P s.bus)
    (hrun : s.cpu.run = .normal) (hmode : s.cpu.mode = .extended) :
    let opcode := Bus.fetched s.cpu.regs.pc s.bus
    let b := opcode.1.toNat
    let effect := extendedEffect b s.cpu.regs opcode.2
    Exec.step s = .ok (extendedCycles b - 4) ⟨{
      regs := { effect.1 with pc := s.cpu.regs.pc + 1 }
      ime := if s.cpu.ime = .pendingEnable then .interruptible else s.cpu.ime
      run := .normal
      mode := .primary
      cycles := s.cpu.cycles + (extendedCycles b - 4) }, effect.2⟩ := by
  intro opcode b effect
  obtain ⟨hfetch, hkept⟩ := hP.fetch8_eq hbus s.cpu.regs.pc
  let next : Cpu := { s.cpu.next with mode := .primary }
  -- the program counter has moved on, on which the effect does not depend
  have heffect : extendedEffect b next.regs opcode.2 =
      ({ effect.1 with pc := s.cpu.regs.pc + 1 }, effect.2) :=
    extendedEffect_pc b s.cpu.regs opcode.2 (s.cpu.regs.pc + 1)
  calc
    Exec.step s = (Exec.extendedInstruction (ExtendedInstruction.decode opcode.1) >>=
        Exec.complete s.cpu.ime) ⟨next, opcode.2⟩ :=
      Exec.step_extended hrun hmode hfetch
    _ = Exec.complete s.cpu.ime (extendedCycles b - 4)
        ⟨{ next with regs := { effect.1 with pc := s.cpu.regs.pc + 1 } }, effect.2⟩ := by
      rw [bind_apply, extendedInstruction_apply hP hkept next, heffect]
    _ = _ := by
      rw [← hrun]
      exact complete_apply { next with regs := { effect.1 with pc := s.cpu.regs.pc + 1 } } effect.2
        (extendedCycles b - 4)

/-- The byte 0xCB is a step of its own, which moves the program counter and selects the extended
table.  With the step after it, it carries out the instruction of that table. -/
theorem extended_eq_reference {P : σ → Prop} (hP : Bus.Reliable P) {s : Board σ} (hbus : P s.bus)
    (hrun : s.cpu.run = .normal) (hmode : s.cpu.mode = .primary)
    (hb : (Bus.fetched s.cpu.regs.pc s.bus).1 = 0xCB) :
    let first := Bus.fetched s.cpu.regs.pc s.bus
    let second := Bus.fetched (s.cpu.regs.pc + 1) first.2
    let b := second.1.toNat
    let effect := extendedEffect b s.cpu.regs second.2
    let announced : Board σ := ⟨{ s.cpu with
      regs := { s.cpu.regs with pc := s.cpu.regs.pc + 1 }
      mode := .extended
      cycles := s.cpu.cycles + 4 }, first.2⟩
    Exec.step s = .ok 4 announced ∧
    Exec.step announced = .ok (extendedCycles b - 4) ⟨{
      regs := { effect.1 with pc := s.cpu.regs.pc + 2 }
      ime := if s.cpu.ime = .pendingEnable then .interruptible else s.cpu.ime
      run := .normal
      mode := .primary
      cycles := s.cpu.cycles + extendedCycles b }, effect.2⟩ ∧
    OperandOnly b s.cpu.regs second.2 ∧
    (b = 0xCB → effect = ({ s.cpu.regs with e := s.cpu.regs.e ||| 2 }, second.2)) := by
  intro first second b effect announced
  obtain ⟨hfetch, hkept⟩ := hP.fetch8_eq hbus s.cpu.regs.pc
  refine ⟨?_, ?_, operandOnly b s.cpu.regs second.2, ?_⟩
  · rw [hb] at hfetch
    exact Exec.step_extension hrun hmode hfetch
  · have hstep := step_eq_extended hP (s := announced) hkept hrun rfl
    have hpc : s.cpu.regs.pc + 1 + 1 = s.cpu.regs.pc + 2 := UInt16.add_assoc _ 1 1
    have hcycles : s.cpu.cycles + 4 + (extendedCycles b - 4) = s.cpu.cycles + extendedCycles b := by
      have hge := extendedCycles_ge b
      omega
    have heffect : extendedEffect b announced.cpu.regs second.2 =
        ({ effect.1 with pc := s.cpu.regs.pc + 1 }, effect.2) :=
      extendedEffect_pc b s.cpu.regs second.2 (s.cpu.regs.pc + 1)
    have hregs : { (extendedEffect b announced.cpu.regs second.2).1 with
        pc := s.cpu.regs.pc + 1 + 1 } = { effect.1 with pc := s.cpu.regs.pc + 2 } := by
      rw [heffect, hpc]
    have hsecond : (extendedEffect b announced.cpu.regs second.2).2 = effect.2 := by rw [heffect]
    exact hstep.trans (congrArg₂ (fun cpu bus => EStateM.Result.ok _ (Board.mk cpu bus))
      (Cpu.ext hregs rfl rfl rfl hcycles) hsecond)
  · intro hext
    rw [show effect = extendedEffect b s.cpu.regs second.2 from rfl, hext,
      extendedEffect_extensionByte]

/-- The theorem at the end of the address space, where the byte 0xCB is followed by itself, with an
enabling of interrupts pending: a bit of E is set and interrupts are let through. -/
theorem extended_eq_reference_set :
    let memory : Memory :=
      { Memory.blank with rom := ((ByteSpace.filled 0).set 0xFFFF 0xCB).set 0 0xCB }
    ∃ announced : Board Memory,
      Exec.step (⟨{ regs := { e := 0x10, pc := 0xFFFF }, ime := .pendingEnable }, memory⟩ :
        Board Memory) = .ok 4 announced ∧
      announced.cpu.ime = .pendingEnable ∧
      Exec.step announced =
        .ok 4 ⟨{ regs := { e := 0x12, pc := 1 }, ime := .interruptible, cycles := 8 }, memory⟩ := by
  intro memory
  have hopcode : memory.rom.get (0xFFFF + 1) = 0xCB := by decide +kernel
  obtain ⟨hfirst, hsecond, -, hset⟩ := extended_eq_reference Memory.reliable
    (s := ⟨{ regs := { e := 0x10, pc := 0xFFFF }, ime := .pendingEnable }, memory⟩)
    trivial rfl rfl (by decide +kernel)
  rw [hset (by decide +kernel)] at hsecond
  simp only [Memory.fetched_eq, hopcode] at hfirst hsecond
  exact ⟨_, hfirst, rfl, hsecond⟩

end Reference

end Lr35902
