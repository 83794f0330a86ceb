import Lr35902.Proofs.Memory
import Lr35902.Proofs.Reference.Parts
import Lr35902.Proofs.Step

/-!
# Agreement with the reference interpreter

Every row of the primary table is the row of the reference interpreter with the same number, so a
step of the processor that takes an opcode from that table, on a bus on which all accesses succeed,
is a step of the reference interpreter.  The decoder is read in the same order as the table: by the
quarter `x`, the column `z` and the row `y`.
-/

namespace Lr35902

namespace Reference

open Exec (Simulates)

variable {σ : Type} [Bus σ] {P : σ → Prop}

/-! ### Loads and stores -/

section

variable (hP : Bus.Reliable P)
include hP

theorem agrees_storeSp (addr : UInt16) :
    Simulates (Same P) Eq (Exec.instruction addr .storeSp) (quarter0 (σ := σ) addr 1 0) := by
  refine (agrees_fetchWord hP).bind fun a i ha => agrees_bindRegs fun g => ?_
  have hlow : Word.low g.sp = UInt8.ofInt g.sp.toNat := by rw [← low_ofInt, Word.ofInt_toNat]
  have hhigh : Word.high g.sp = UInt8.ofInt (g.sp.toNat / 256) := by
    rw [← high_ofInt, Word.ofInt_toNat]
  have hnext : a + 1 = UInt16.ofInt (i + 1) := by rw [← ha, Word.add_eq_ofInt]; rfl
  refine (agrees_store hP ha.eq_ofInt hlow).next ?_
  exact (agrees_store hP hnext hhigh).next (.pure rfl)

theorem agrees_stop (addr : UInt16) :
    Simulates (Same P) Eq (Exec.instruction addr .stop) (quarter0 (σ := σ) addr 2 0) := by
  refine (agrees_fetch hP).bind fun v i hv => ?_
  have hzero : v ≠ 0 ↔ i ≠ 0 := by
    rw [← hv, Int.natCast_ne_zero, ne_eq, ← UInt8.toNat_inj, UInt8.toNat_zero]
  by_cases h : v ≠ 0
  · rw [if_pos h, if_pos (hzero.1 h), ← hv, Byte.ofInt_toNat]
    exact fun cpu b c hb => .error hb
  · rw [if_neg h, if_neg (mt hzero.2 h)]
    exact .next (agrees_modifyCpu fun _ => rfl) (.pure rfl)

theorem agrees_loadWord {i : UInt8} {p : ℕ} (h : i.toNat % 4 = p) (addr : UInt16) :
    Simulates (Same P) Eq (Exec.instruction (σ := σ) addr (.loadWord (Register.pairOrSp i))) (do
      let w ← fetchWord
      modifyRegs (setPair p w)
      return 12) := by
  subst h
  refine (agrees_fetchWord hP).bind fun w j hw => ?_
  rw [Exec.writeRegister16_eq (Register.isWide_pairOrSp i), hw.eq_ofInt]
  exact Simulates.next (agrees_modifyRegs fun g => withWord_pairOrSp g i j) (.pure rfl)

theorem agrees_loadImmediate {i : UInt8} {y : ℕ} (h : i.toNat % 8 = y) (addr : UInt16) :
    Simulates (Same P) Eq (Exec.instruction (σ := σ) addr (.loadImmediate (Register.ofIndex i))) (do
      let v ← fetch
      setOperand y v
      return if y = 6 then 12 else 8) := by
  subst h
  refine (agrees_fetch hP).bind fun v j hv => ?_
  exact (agrees_setOperand hP i hv.eq_ofInt).next (.pure (cyclesFor_ofIndex i 8 12))

theorem agrees_load_ofIndex {i j : UInt8} {y z : ℕ} (hy : i.toNat % 8 = y) (hz : j.toNat % 8 = z)
    (addr : UInt16) :
    Simulates (Same P) Eq
      (Exec.instruction (σ := σ) addr (.load (Register.ofIndex i) (Register.ofIndex j))) (do
        let v ← operand z
        setOperand y v
        return if y = 6 ∨ z = 6 then 8 else 4) := by
  subst hy hz
  refine (agrees_operand hP j).bind fun v k hv => ?_
  refine (agrees_setOperand hP i hv.eq_ofInt).next (.pure ?_)
  simp only [cyclesFor_ofIndex, ofIndex_eq_hlIndirect_iff]
  split_ifs <;> first | rfl | omega

theorem agrees_push_pairOrAf {i : UInt8} {p : ℕ} (h : i.toNat % 4 = p) (addr : UInt16) :
    Simulates (Same P) Eq (Exec.instruction (σ := σ) addr (.push (Register.pairOrAf i))) (do
      let g ← regs
      push (stackPair g p)
      return 16) := by
  subst h
  simp only [Exec.instruction, Exec.readRegister16_eq (Register.isWide_pairOrAf i), bind_assoc,
    pure_bind]
  exact agrees_bindRegs fun g => (agrees_push hP (word_pairOrAf g i).eq_ofInt).next (.pure rfl)

theorem agrees_pop_pairOrAf {i : UInt8} {p : ℕ} (h : i.toNat % 4 = p) (addr : UInt16) :
    Simulates (Same P) Eq (Exec.instruction (σ := σ) addr (.pop (Register.pairOrAf i))) (do
      let w ← pop
      modifyRegs (setStackPair p w)
      return 12) := by
  subst h
  refine (agrees_pop hP).bind fun w j hw => ?_
  rw [Exec.writeRegister16_eq (Register.isWide_pairOrAf i), hw.eq_ofInt]
  exact Simulates.next (agrees_modifyRegs fun g => withWord_pairOrAf g i j) (.pure rfl)

omit hP in
theorem agrees_loadSpHl (addr : UInt16) :
    Simulates (Same P) Eq (Exec.instruction (σ := σ) addr .loadSpHl) (do
      let g ← regs
      modifyRegs (setPair 3 (hl g))
      return 8) := by
  have hset (g : RegisterFile) : setPair 3 (hl g) g = { g with sp := g.hl } := by
    rw [(stands_hl g).eq_ofInt]
    rfl
  rintro cpu b _ ⟨rfl, hb⟩
  simp only [Exec.instruction, bind_apply, Exec.modifyRegs_apply, regs_apply,
    modifyRegs_apply, pure_apply, hset]
  exact .ok rfl ⟨rfl, hb⟩

/-! ### Arithmetic -/

theorem agrees_inc {i : UInt8} {y : ℕ} (h : i.toNat % 8 = y) (addr : UInt16) :
    Simulates (Same P) Eq (Exec.instruction (σ := σ) addr (.inc (Register.ofIndex i))) (do
      update y inc
      return if y = 6 then 12 else 4) := by
  subst h
  exact (agrees_update hP i Alu.inc_eq).next (.pure (cyclesFor_ofIndex i 4 12))

theorem agrees_dec {i : UInt8} {y : ℕ} (h : i.toNat % 8 = y) (addr : UInt16) :
    Simulates (Same P) Eq (Exec.instruction (σ := σ) addr (.dec (Register.ofIndex i))) (do
      update y dec
      return if y = 6 then 12 else 4) := by
  subst h
  exact (agrees_update hP i Alu.dec_eq).next (.pure (cyclesFor_ofIndex i 4 12))

theorem agrees_alu {i j : UInt8} {y z : ℕ} (hy : i.toNat % 8 = y) (hz : j.toNat % 8 = z)
    (addr : UInt16) :
    Simulates (Same P) Eq
      (Exec.instruction addr (.alu (AluOp.ofIndex i) (Register.ofIndex j)))
      (quarter2 (σ := σ) y z) := by
  subst hy hz
  refine (agrees_operand hP j).bind fun v k hv => ?_
  refine Simulates.next (agrees_accumulate fun a fl => ?_) (.pure (cyclesFor_ofIndex j 4 8))
  rw [AluOp.apply_ofIndex, hv]

theorem agrees_aluImmediate {i : UInt8} {y : ℕ} (h : i.toNat % 8 = y) (addr : UInt16) :
    Simulates (Same P) Eq (Exec.instruction (σ := σ) addr (.aluImmediate (AluOp.ofIndex i))) (do
      let v ← fetch
      accumulate fun a f => alu y a v f
      return 8) := by
  subst h
  refine (agrees_fetch hP).bind fun v k hv => ?_
  refine Simulates.next (agrees_accumulate fun a fl => ?_) (.pure rfl)
  rw [AluOp.apply_ofIndex, hv]

omit [Bus σ] hP in
theorem stands16_signExtend {e : UInt8} {j : ℤ} (h : Stands e j) :
    Stands16 (Word.signExtend e) (signed j % 65536) := by
  have he := e.toNat_lt
  rw [Stands16, Word.toNat_signExtend, ← h, signed]
  split <;> split <;> omega

theorem agrees_addSp (addr : UInt16) :
    Simulates (Same P) Eq (Exec.instruction (σ := σ) addr .addSp) (do
      let e ← fetch
      let g ← regs
      let w ← addWord g.sp.toNat (signed e % 65536)
      modifyRegs (setPair 3 w)
      return 16) := by
  refine (agrees_fetch hP).bind fun e j he => agrees_bindRegs fun g => ?_
  refine (agrees_addWord rfl (stands16_signExtend he)).bind fun w k hw => ?_
  exact Simulates.next (agrees_modifyRegs fun r => by rw [hw]; rfl) (.pure rfl)

omit [Bus σ] hP in
theorem setHl_ofInt (g : RegisterFile) (w : ℤ) : g.setHl (UInt16.ofInt w) = setPair 2 w g :=
  withWord_pairOrSp g 2 w

theorem agrees_loadHlSp (addr : UInt16) :
    Simulates (Same P) Eq (Exec.instruction (σ := σ) addr .loadHlSp) (do
      let e ← fetch
      let g ← regs
      let w ← addWord g.sp.toNat (signed e % 65536)
      modifyRegs (setPair 2 w)
      return 12) := by
  refine (agrees_fetch hP).bind fun e j he => agrees_bindRegs fun g => ?_
  refine (agrees_addWord rfl (stands16_signExtend he)).bind fun w k hw => ?_
  exact Simulates.next (agrees_modifyRegs fun r => by rw [hw, setHl_ofInt]) (.pure rfl)

omit hP in
theorem agrees_addHl {i : UInt8} {p : ℕ} (h : i.toNat % 4 = p) (addr : UInt16) :
    Simulates (Same P) Eq (Exec.instruction (σ := σ) addr (.addHl (Register.pairOrSp i))) (do
      let g ← regs
      let w ← addWord (hl g) (pair g p)
      modifyRegs (setPair 2 w)
      return 8) := by
  subst h
  simp only [Exec.instruction, Exec.readRegister16_eq (Register.isWide_pairOrSp i), bind_assoc,
    pure_bind, Exec.regs_bind_regs]
  refine agrees_bindRegs fun g => ?_
  refine (agrees_addWord (stands_hl g) (word_pairOrSp g i)).bind fun w k hw => ?_
  exact Simulates.next (agrees_modifyRegs fun r => by rw [hw, setHl_ofInt]) (.pure rfl)

omit hP in
theorem agrees_incWord {i : UInt8} {p : ℕ} (h : i.toNat % 4 = p) (addr : UInt16) :
    Simulates (Same P) Eq (Exec.instruction (σ := σ) addr (.incWord (Register.pairOrSp i))) (do
      let w := pair (← regs) p
      modifyRegs (setPair p (w + 1))
      return 8) := by
  have hwide := Register.isWide_pairOrSp i
  subst h
  simp only [Exec.instruction, Exec.readRegister16_eq hwide, Exec.writeRegister16_eq hwide,
    bind_assoc, pure_bind]
  refine agrees_bindRegs fun g => Simulates.next (agrees_modifyRegs fun r => ?_) (.pure rfl)
  rw [Word.add_eq_ofInt, word_pairOrSp, withWord_pairOrSp]
  rfl

omit hP in
theorem agrees_decWord {i : UInt8} {p : ℕ} (h : i.toNat % 4 = p) (addr : UInt16) :
    Simulates (Same P) Eq (Exec.instruction (σ := σ) addr (.decWord (Register.pairOrSp i))) (do
      let w := pair (← regs) p
      modifyRegs (setPair p (w - 1))
      return 8) := by
  have hwide := Register.isWide_pairOrSp i
  subst h
  simp only [Exec.instruction, Exec.readRegister16_eq hwide, Exec.writeRegister16_eq hwide,
    bind_assoc, pure_bind]
  refine agrees_bindRegs fun g => Simulates.next (agrees_modifyRegs fun r => ?_) (.pure rfl)
  rw [Word.sub_eq_ofInt, word_pairOrSp, withWord_pairOrSp]
  rfl

omit hP in
theorem agrees_rotateA (dir : Direction) (fill : Fill) (addr : UInt16) :
    Simulates (Same P) Eq (Exec.instruction (σ := σ) addr (.rotateA dir fill)) (do
      accumulate fun a f => rotate (Alu.shiftRow dir fill) a f.carry
      return 4) :=
  Simulates.next (agrees_modifyRegs fun g => by rw [Alu.shift_eq]; rfl) (.pure rfl)

omit hP in
theorem agrees_daa (addr : UInt16) :
    Simulates (Same P) Eq (Exec.instruction (σ := σ) addr .daa) (do
      accumulate decimalAdjust
      return 4) :=
  Simulates.next (agrees_modifyRegs fun g => by rw [Alu.decimalAdjust_eq]; rfl) (.pure rfl)

omit hP in
theorem agrees_cpl (addr : UInt16) :
    Simulates (Same P) Eq (Exec.instruction (σ := σ) addr .cpl) (do
      accumulate fun a f => (255 - a, { f with subtract := true, halfCarry := true })
      return 4) := by
  refine Simulates.next (agrees_modifyRegs fun g => ?_) (.pure rfl)
  rw [← Byte.ofInt_toNat (~~~g.a), Byte.toNat_complement]

omit [Bus σ] hP in
/-- An adjustment of the flags leaves the accumulator alone. -/
theorem agrees_updateCarry (change : Bool → Bool) :
    Simulates (Same P) Eq (Exec.updateCarry (σ := σ) change) (accumulate fun a f =>
      (a, { f with subtract := false, halfCarry := false, carry := change f.carry })) :=
  agrees_modifyRegs fun g => by simp only [Byte.ofInt_toNat]

/-! ### Branches -/

omit [Bus σ] hP in
theorem condition_ofIndex {i : UInt8} {k : ℕ} (h : i.toNat % 4 = k) (f : Flags) :
    (some (Condition.ofIndex i)).all (·.holds f) = condition f k := by
  have hk := Nat.mod_lt i.toNat (by omega : 4 > 0)
  rw [Option.all_some, Condition.ofIndex, Byte.toNat_and_three]
  rw [h] at hk ⊢
  interval_cases k <;> rfl

theorem agrees_ret {i : UInt8} {k : ℕ} (h : i.toNat % 4 = k) (addr : UInt16) :
    Simulates (Same P) Eq (Exec.instruction (σ := σ) addr (.ret (some (Condition.ofIndex i)))) (do
      if condition (← regs).f k then
        leave
        return 20
      else return 8) :=
  agrees_taken (condition_ofIndex h) ((agrees_leave hP).next (.pure rfl)) (.pure rfl)

theorem agrees_reti (addr : UInt16) :
    Simulates (Same P) Eq (Exec.instruction (σ := σ) addr .reti) (do
      leave
      modifyCpu ({ · with ime := .interruptible })
      return 16) :=
  (agrees_leave hP).next (.next (agrees_modifyCpu fun _ => rfl) (.pure rfl))

omit hP in
theorem agrees_jpHl (addr : UInt16) :
    Simulates (Same P) Eq (Exec.instruction (σ := σ) addr .jpHl) (do
      let g ← regs
      jump (hl g)
      return 4) :=
  agrees_bindRegs fun g => (agrees_jump (stands_hl g).eq_ofInt).next (.pure rfl)

omit [Bus σ] hP in
/-- The targets of the short calls are eight bytes apart. -/
theorem target_eq_ofInt (b : UInt8) :
    (b &&& 0x38).toUInt16 = UInt16.ofInt (8 * ((b.toNat / 8 % 8 : ℕ) : ℤ)) := by
  have hfield : (b &&& 0x38).toNat = 8 * (b.toNat / 8 % 8) := by
    obtain ⟨v⟩ := b
    revert v
    decide +kernel
  rw [Word.eq_ofInt_iff, UInt8.toNat_toUInt16, hfield]
  omega

theorem agrees_rst {b : UInt8} {y : ℕ} (h : b.toNat / 8 % 8 = y) (addr : UInt16) :
    Simulates (Same P) Eq (Exec.instruction (σ := σ) addr (.rst (b &&& 0x38).toUInt16)) (do
      enter (8 * y)
      return 16) := by
  subst h
  exact (agrees_enter hP (target_eq_ofInt b)).next (.pure rfl)

/-! ### Fields of an opcode -/

section

omit [Bus σ] hP

theorem toNat_shiftRight_three (b : UInt8) : (b >>> 3).toNat = b.toNat / 8 := by
  simp only [UInt8.toNat_shiftRight, UInt8.reduceToNat, Nat.reduceMod, Nat.shiftRight_eq_div_pow,
    Nat.reducePow]

theorem toNat_shiftRight_four (b : UInt8) : (b >>> 4).toNat = b.toNat / 16 := by
  simp only [UInt8.toNat_shiftRight, UInt8.reduceToNat, Nat.reduceMod, Nat.shiftRight_eq_div_pow,
    Nat.reducePow]

/-- The fields of an opcode as digits of its octal numeral. -/
theorem ofByte_eq (b : UInt8) :
    OpcodeFields.ofByte b = ⟨b.toNat / 64, b.toNat / 8 % 8, b.toNat % 8⟩ := by
  rw [OpcodeFields.ofByte, Byte.toNat_and_seven, Byte.toNat_and_seven, toNat_shiftRight_three]
  simp only [UInt8.toNat_shiftRight, UInt8.reduceToNat, Nat.reduceMod, Nat.shiftRight_eq_div_pow,
    Nat.reducePow]

theorem transferCycles_pointer (i : UInt8) : Exec.transferCycles (Location.pointer i) = 8 := by
  unfold Location.pointer
  split <;> rfl

end

/-! ### The quarters of the table -/

/-- Carries out what the opcode `b` was decoded to. -/
def perform (addr : UInt16) (b : UInt8) (i : Option Instruction) : Exec σ ℕ :=
  i.elim (throw (.unknownOpcode b false addr)) (Exec.instruction addr)

omit hP in
theorem primary_eq (addr : UInt16) (b : UInt8) :
    Exec.primary (σ := σ) addr b = perform addr b (Instruction.decode b) := by
  unfold Exec.primary perform
  cases Instruction.decode b <;> rfl

variable {b : UInt8} {y z : ℕ}

theorem agrees_quarter0 (hy : b.toNat / 8 % 8 = y) (hz : z < 8) (addr : UInt16) :
    Simulates (Same P) Eq (perform (σ := σ) addr b (Instruction.decodeFirst b y z))
      (quarter0 addr y z) := by
  have hy8 : y < 8 := by omega
  have hrow : (b >>> 3).toNat % 8 = y := by rw [toNat_shiftRight_three, hy]
  have hpair : (b >>> 4).toNat % 4 = y / 2 := by rw [toNat_shiftRight_four]; omega
  interval_cases z
  case «0» =>
    -- rows 4 to 7 are the conditional jumps, and row 3 is the jump without a condition
    by_cases h : y < 4
    · interval_cases y
      case «0» => exact .pure rfl
      case «1» => exact agrees_storeSp hP addr
      case «2» => exact agrees_stop hP addr
      case «3» => exact agrees_jr hP (fun _ => rfl) addr
    · have hcond : (b >>> 3).toNat % 4 = y - 4 := by omega
      have hjr := agrees_jr hP (condition_ofIndex hcond) addr
      interval_cases y
      all_goals first | exact absurd (by decide) h | exact hjr
  case «1» =>
    by_cases h : y % 2 = 0
    · simp only [Instruction.decodeFirst, quarter0, if_pos h]
      exact agrees_loadWord hP hpair addr
    · simp only [Instruction.decodeFirst, quarter0, if_neg h]
      exact agrees_addHl hpair addr
  case «2» =>
    have hplace := agrees_pointer (P := P) (σ := σ) (b >>> 4)
    have hafter := agrees_stepPointer (P := P) (b >>> 4)
    have hcycles := transferCycles_pointer (b >>> 4)
    rw [hpair] at hplace hafter
    by_cases h : y % 2 = 0
    · simp only [Instruction.decodeFirst, quarter0, if_pos h]
      exact agrees_storeA hP hplace hafter hcycles addr
    · simp only [Instruction.decodeFirst, quarter0, if_neg h]
      exact agrees_loadA hP hplace hafter hcycles addr
  case «3» =>
    by_cases h : y % 2 = 0
    · simp only [Instruction.decodeFirst, quarter0, if_pos h]
      exact agrees_incWord hpair addr
    · simp only [Instruction.decodeFirst, quarter0, if_neg h]
      exact agrees_decWord hpair addr
  case «4» => exact agrees_inc hP hrow addr
  case «5» => exact agrees_dec hP hrow addr
  case «6» => exact agrees_loadImmediate hP hrow addr
  case «7» =>
    interval_cases y
    case «0» => exact agrees_rotateA .left .wrap addr
    case «1» => exact agrees_rotateA .right .wrap addr
    case «2» => exact agrees_rotateA .left .carry addr
    case «3» => exact agrees_rotateA .right .carry addr
    case «4» => exact agrees_daa addr
    case «5» => exact agrees_cpl addr
    case «6» => exact (agrees_updateCarry fun _ => true).next (.pure rfl)
    case «7» => exact (agrees_updateCarry (!·)).next (.pure rfl)

theorem agrees_quarter1 (hy : b.toNat / 8 % 8 = y) (hz : b.toNat % 8 = z) (addr : UInt16) :
    Simulates (Same P) Eq
      (perform (σ := σ) addr b
        (if y = 6 ∧ z = 6 then some .halt
        else some (.load (Register.ofIndex (b >>> 3)) (Register.ofIndex b))))
      (quarter1 y z) := by
  have hrow : (b >>> 3).toNat % 8 = y := by rw [toNat_shiftRight_three, hy]
  unfold quarter1
  by_cases h : y = 6 ∧ z = 6
  · rw [if_pos h, if_pos h]
    exact .next (agrees_modifyCpu fun _ => rfl) (.pure rfl)
  · rw [if_neg h, if_neg h]
    exact agrees_load_ofIndex hP hrow hz addr

theorem agrees_quarter3 (hy : b.toNat / 8 % 8 = y) (hz : z < 8) (addr : UInt16) :
    Simulates (Same P) Eq (perform (σ := σ) addr b (Instruction.decodeLast b y z))
      (quarter3 addr b.toNat y z) := by
  have hy8 : y < 8 := by omega
  have hrow : (b >>> 3).toNat % 8 = y := by rw [toNat_shiftRight_three, hy]
  have hpair : (b >>> 4).toNat % 4 = y / 2 := by rw [toNat_shiftRight_four]; omega
  have hundefined : Simulates (Same P) Eq (perform (σ := σ) addr b none)
      (undefined addr b.toNat) := by
    rw [undefined, UInt8.ofNat_toNat]
    exact .throw _
  have hcond (h : y < 4) : (b >>> 3).toNat % 4 = y := by omega
  interval_cases z
  case «0» =>
    -- rows 0 to 3 are the conditional returns, and those after them transfers
    by_cases h : y < 4
    · have hret := agrees_ret hP (hcond h) addr
      interval_cases y
      all_goals exact hret
    · interval_cases y
      case «4» => exact agrees_storeA hP (agrees_highImmediate hP) (.pure rfl) rfl addr
      case «5» => exact agrees_addSp hP addr
      case «6» => exact agrees_loadA hP (agrees_highImmediate hP) (.pure rfl) rfl addr
      case «7» => exact agrees_loadHlSp hP addr
  case «1» =>
    -- the even rows pop a word, the odd ones are single instructions
    have hpop := agrees_pop_pairOrAf hP hpair addr
    interval_cases y
    case «1» => exact (agrees_leave hP).next (.pure rfl)
    case «3» => exact agrees_reti hP addr
    case «5» => exact agrees_jpHl addr
    case «7» => exact agrees_loadSpHl addr
    all_goals exact hpop
  case «2» =>
    by_cases h : y < 4
    · have hjp := agrees_jp hP (condition_ofIndex (hcond h)) addr
      interval_cases y
      all_goals exact hjp
    · interval_cases y
      case «4» => exact agrees_storeA hP agrees_highC (.pure rfl) rfl addr
      case «5» => exact agrees_storeA hP (agrees_immediate hP) (.pure rfl) rfl addr
      case «6» => exact agrees_loadA hP agrees_highC (.pure rfl) rfl addr
      case «7» => exact agrees_loadA hP (agrees_immediate hP) (.pure rfl) rfl addr
  case «3» =>
    -- row 1 announces the extended table, which is no opcode here either
    interval_cases y
    case «0» => exact agrees_jp hP (fun _ => rfl) addr
    case «6» => exact .next (agrees_modifyCpu fun _ => rfl) (.pure rfl)
    case «7» => exact .next (agrees_modifyCpu fun _ => rfl) (.pure rfl)
    all_goals exact hundefined
  case «4» =>
    by_cases h : y < 4
    · simp only [Instruction.decodeLast, quarter3, if_pos h]
      exact agrees_call hP (condition_ofIndex (hcond h)) addr
    · simp only [Instruction.decodeLast, quarter3, if_neg h]
      exact hundefined
  case «5» =>
    by_cases h : y % 2 = 0
    · simp only [Instruction.decodeLast, quarter3, if_pos h]
      exact agrees_push_pairOrAf hP hpair addr
    · by_cases h₁ : y = 1
      · simp only [Instruction.decodeLast, quarter3, if_neg h, if_pos h₁]
        exact agrees_call hP (fun _ => rfl) addr
      · simp only [Instruction.decodeLast, quarter3, if_neg h, if_neg h₁]
        exact hundefined
  case «6» => exact agrees_aluImmediate hP hrow addr
  case «7» => exact agrees_rst hP hy addr

/-- Every opcode of the table is carried out as in the reference. -/
theorem agrees_primary (addr : UInt16) (b : UInt8) :
    Simulates (Same P) Eq (Exec.primary (σ := σ) addr b) (execute addr b.toNat) := by
  have hb := b.toNat_lt
  have hx : b.toNat / 64 < 4 := by omega
  have hz := Nat.mod_lt b.toNat (by omega : 8 > 0)
  rw [primary_eq, Instruction.decode, ofByte_eq, execute]
  simp only
  generalize hq : b.toNat / 64 = x at hx
  interval_cases x
  case «0» => exact agrees_quarter0 hP rfl hz addr
  case «1» => exact agrees_quarter1 hP rfl rfl addr
  case «2» =>
    have hrow : (b >>> 3).toNat % 8 = b.toNat / 8 % 8 := by rw [toNat_shiftRight_three]
    exact agrees_alu hP hrow rfl addr
  case «3» => exact agrees_quarter3 hP rfl hz addr

omit [Bus σ] hP in
/-- The end of an instruction: an enabling of interrupts that was pending takes effect. -/
theorem agrees_complete (ime : InterruptState) (n : ℕ) :
    Simulates (Same P) Eq (Exec.complete (σ := σ) ime n) (do
      modifyCpu fun cpu =>
        { cpu with
          ime :=
            if ime = .pendingEnable ∧ cpu.ime = .pendingEnable then .interruptible else cpu.ime
          cycles := cpu.cycles + n }
      return n) := by
  intro cpu b c hb
  have hime : cpu.ime.instructionCompleted =
      if cpu.ime = .pendingEnable then .interruptible else cpu.ime := by
    cases cpu.ime <;> rfl
  by_cases h : ime = .pendingEnable
  · simp only [Exec.complete, h, true_and, if_true, bind_apply, Exec.modifyCpu_apply,
      modifyCpu_apply, Exec.spend_apply, pure_apply, hime]
    exact .ok rfl hb
  · simp only [Exec.complete, h, false_and, if_false, bind_apply, modifyCpu_apply,
      Exec.spend_apply, pure_apply]
    exact .ok rfl hb

/-- An instruction with its end, once its opcode is fetched. -/
theorem agrees_primary_complete (before : Cpu) (b : UInt8) :
    Simulates (Same P) Eq
      (do Exec.complete (σ := σ) before.ime (← Exec.primary before.regs.pc b)) (do
        let n ← execute before.regs.pc b.toNat
        modifyCpu fun cpu =>
          { cpu with
            ime :=
              if before.ime = .pendingEnable ∧ cpu.ime = .pendingEnable then .interruptible
              else cpu.ime
            cycles := cpu.cycles + n }
        return n) := by
  refine (agrees_primary hP before.regs.pc b).bind fun m n h => ?_
  subst h
  exact agrees_complete before.ime m

end

omit [Bus σ] in
/-- Outcomes that cannot be told apart on the same bus are the same. -/
theorem eq_of_related {α : Type} {r t : EStateM.Result Fault (Board σ) α}
    (h : Outcome.Related (Same P) Eq r t) : r = t := by
  rcases h with ⟨rfl, rfl, -⟩ | ⟨rfl, -⟩ <;> rfl

/-- A step from the primary table is a step of the reference interpreter: the registers, the flags,
the bus, the interrupt switch, the run state and the cycles that it leaves are the same, and it
fails with the same fault. -/
theorem step_eq_reference (hP : Bus.Reliable P) {s : Board σ} (hbus : P s.bus)
    (hrun : s.cpu.run = .normal) (hmode : s.cpu.mode = .primary)
    (hb : (Bus.fetched s.cpu.regs.pc s.bus).1 ≠ extensionByte) :
    Exec.step s = step s := by
  obtain ⟨cpu, bus⟩ := s
  obtain ⟨hfetch, hbus'⟩ := hP.fetch8_eq hbus cpu.regs.pc
  have hnext : fetch ⟨cpu, bus⟩ = .ok ((Bus.fetched cpu.regs.pc bus).1.toNat : ℤ)
      ⟨cpu.next, (Bus.fetched cpu.regs.pc bus).2⟩ := by
    rw [fetch, ← next_eq_ofInt]
    rfl
  -- from here on both have fetched the opcode, and agree by the cases of the table
  have hrest := agrees_primary_complete hP cpu (Bus.fetched cpu.regs.pc bus).1
  have hsame := eq_of_related (hrest cpu.next _ _ ⟨rfl, hbus'⟩)
  refine (Exec.step_primary hrun hmode hfetch hb).trans (hsame.trans ?_)
  simp only [step, bind_apply, cpu_apply, hnext, Int.toNat_natCast]

/-- A processor that is about to subtract the byte at HL from a smaller accumulator. -/
def subtracting : Board Memory where
  cpu := { regs := { a := 0x3E, h := 0xC0, pc := 0x150 } }
  bus := { Memory.blank with
    ram := Memory.blank.ram.set 0xC000 0x4F
    rom := Memory.blank.rom.set 0x150 0x96 }

/-- The theorem for that processor: it borrows for both digits, in eight cycles. -/
theorem step_eq_reference_sub :
    Exec.step subtracting = .ok 8
      { cpu :=
          { regs :=
              { a := 0xEF
                f := { subtract := true, halfCarry := true, carry := true }
                h := 0xC0
                pc := 0x151 }
            cycles := 8 }
        bus := subtracting.bus } :=
  (step_eq_reference Memory.reliable trivial rfl rfl (by decide)).trans rfl

end Reference

end Lr35902
