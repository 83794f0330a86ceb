import Lr35902.Cpu.Execute
import Lr35902.Proofs.Reference.Interpreter
import Lr35902.Proofs.Registers
import Lr35902.Proofs.Simulation
import Mathlib.Tactic.IntervalCases

/-!
# The parts of instructions agree with the reference interpreter

On a bus on which all accesses succeed, the operands, accesses, stack operations, branches and
transfers that instructions are made of are those of the reference interpreter.  Values are compared
as integers: a byte `Stands` for its integer, a word for its (`Stands16`), and an address is
compared with what a register would keep of the integer (`Reduces`).
-/

namespace Lr35902

namespace Reference

open Exec (Simulates)

variable {σ : Type} [Bus σ] {P : σ → Prop}

/-- The integer is the byte's. -/
def Stands (v : UInt8) (i : ℤ) : Prop := (v.toNat : ℤ) = i

/-- The integer is the word's. -/
def Stands16 (w : UInt16) (i : ℤ) : Prop := (w.toNat : ℤ) = i

theorem Stands.eq_ofInt {v : UInt8} {i : ℤ} (h : Stands v i) : v = UInt8.ofInt i := by
  rw [← h, Byte.ofInt_toNat]

theorem Stands16.eq_ofInt {w : UInt16} {i : ℤ} (h : Stands16 w i) : w = UInt16.ofInt i := by
  rw [← h, Word.ofInt_toNat]

/-! ### Fields of an opcode -/

theorem ofIndex_eq_hlIndirect_iff {i : UInt8} :
    Register.ofIndex i = .hlIndirect ↔ i.toNat % 8 = 6 := by
  have := Nat.mod_lt i.toNat (by omega : 8 > 0)
  rw [Register.ofIndex, Byte.toNat_and_seven]
  generalize i.toNat % 8 = k at this
  interval_cases k <;> decide

theorem byte_ofIndex (g : RegisterFile) {i : UInt8} (h : i.toNat % 8 ≠ 6) :
    Stands (g.byte (Register.ofIndex i)) (register g (i.toNat % 8)) := by
  have := Nat.mod_lt i.toNat (by omega : 8 > 0)
  rw [Register.ofIndex, Byte.toNat_and_seven]
  generalize i.toNat % 8 = k at h this
  interval_cases k
  case «6» => exact absurd rfl h
  all_goals rfl

theorem withByte_ofIndex (g : RegisterFile) {i : UInt8} (h : i.toNat % 8 ≠ 6) (v : ℤ) :
    g.withByte (Register.ofIndex i) (UInt8.ofInt v) = setRegister (i.toNat % 8) v g := by
  have := Nat.mod_lt i.toNat (by omega : 8 > 0)
  rw [Register.ofIndex, Byte.toNat_and_seven]
  generalize i.toNat % 8 = k at h this
  interval_cases k
  case «6» => exact absurd rfl h
  all_goals rfl

theorem stands16_pack (hi lo : UInt8) : Stands16 (Word.pack hi lo) (256 * hi.toNat + lo.toNat) := by
  rw [Stands16, Word.toNat_pack]
  omega

theorem stands_hl (g : RegisterFile) : Stands16 g.hl (hl g) := stands16_pack g.h g.l

theorem high_ofInt (w : ℤ) : Word.high (UInt16.ofInt w) = UInt8.ofInt (w / 256) := by
  have := Word.toNat_ofInt w
  rw [Byte.eq_ofInt_iff, Word.toNat_high]
  omega

theorem low_ofInt (w : ℤ) : Word.low (UInt16.ofInt w) = UInt8.ofInt w := by
  have := Word.toNat_ofInt w
  rw [Byte.eq_ofInt_iff, Word.toNat_low]
  omega

theorem word_pairOrSp (g : RegisterFile) (i : UInt8) :
    Stands16 (g.word (Register.pairOrSp i)) (pair g (i.toNat % 4)) := by
  have := Nat.mod_lt i.toNat (by omega : 4 > 0)
  rw [Register.pairOrSp, Byte.toNat_and_three]
  generalize i.toNat % 4 = k at this
  interval_cases k
  case «3» => rfl
  all_goals exact stands16_pack _ _

theorem withWord_pairOrSp (g : RegisterFile) (i : UInt8) (w : ℤ) :
    g.withWord (Register.pairOrSp i) (UInt16.ofInt w) = setPair (i.toNat % 4) w g := by
  have := Nat.mod_lt i.toNat (by omega : 4 > 0)
  rw [Register.pairOrSp, Byte.toNat_and_three]
  generalize i.toNat % 4 = k at this
  interval_cases k
  case «3» => rfl
  all_goals
    simp only [RegisterFile.withWord, RegisterFile.write16, RegisterFile.setBc, RegisterFile.setDe,
      RegisterFile.setHl, high_ofInt, low_ofInt]
    rfl

/-- The flags byte as a sum of its bits. -/
theorem toNat_toByte (f : Flags) :
    (f.toByte.toNat : ℤ) =
      128 * Byte.bit f.zero + 64 * Byte.bit f.subtract + 32 * Byte.bit f.halfCarry +
        16 * Byte.bit f.carry := by
  obtain ⟨z, n, h, c⟩ := f
  cases z <;> cases n <;> cases h <;> cases c <;> rfl

theorem ofByte_ofInt (w : ℤ) :
    Flags.ofByte (UInt8.ofInt w) =
      { zero := w / 128 % 2 = 1
        subtract := w / 64 % 2 = 1
        halfCarry := w / 32 % 2 = 1
        carry := w / 16 % 2 = 1 } := by
  have hw := Byte.toNat_ofInt w
  simp only [Flags.ofByte, Byte.testBit_eq, UInt8.reduceToNat, Nat.reduceMod, Nat.reducePow]
  ext <;> simp only [decide_eq_decide] <;> omega

theorem word_pairOrAf (g : RegisterFile) (i : UInt8) :
    Stands16 (g.word (Register.pairOrAf i)) (stackPair g (i.toNat % 4)) := by
  have := Nat.mod_lt i.toNat (by omega : 4 > 0)
  rw [Register.pairOrAf, Byte.toNat_and_three]
  generalize i.toNat % 4 = k at this
  interval_cases k
  case «3» =>
    rw [stackPair, ← toNat_toByte]
    exact stands16_pack _ _
  all_goals exact stands16_pack _ _

theorem withWord_pairOrAf (g : RegisterFile) (i : UInt8) (w : ℤ) :
    g.withWord (Register.pairOrAf i) (UInt16.ofInt w) = setStackPair (i.toNat % 4) w g := by
  have := Nat.mod_lt i.toNat (by omega : 4 > 0)
  rw [Register.pairOrAf, Byte.toNat_and_three]
  generalize i.toNat % 4 = k at this
  interval_cases k
  all_goals
    simp only [RegisterFile.withWord, RegisterFile.write16, RegisterFile.setBc, RegisterFile.setDe,
      RegisterFile.setHl, RegisterFile.setAf, high_ofInt, low_ofInt, ofByte_ofInt]
    rfl

/-! ### Registers and the state of the processor -/

section

variable {α β : Type} {V : α → β → Prop}

omit [Bus σ]

theorem agrees_bindRegs {f : RegisterFile → Exec σ α} {g : RegisterFile → Exec σ β}
    (h : ∀ r, Simulates (Same P) V (f r) (g r)) :
    Simulates (Same P) V (Exec.regs >>= f) (regs >>= g) := Simulates.bindRegs h

theorem agrees_modifyCpu {f g : Cpu → Cpu} (h : ∀ cpu, f cpu = g cpu) :
    Simulates (Same P) Eq (Exec.modifyCpu f : Exec σ Unit) (modifyCpu g) := Simulates.modifyCpu h

theorem agrees_modifyRegs {f g : RegisterFile → RegisterFile} (h : ∀ r, f r = g r) :
    Simulates (Same P) Eq (Exec.modifyRegs f : Exec σ Unit) (modifyRegs g) :=
  Simulates.modifyRegs h

end

/-! ### Accesses -/

section

variable (hP : Bus.Reliable P)
include hP

theorem agrees_load {w : UInt16} {i : ℤ} (h : w = UInt16.ofInt i) :
    Simulates (Same P) Stands (Exec.load w) (load i) := by
  rintro cpu b _ ⟨rfl, hb⟩
  obtain ⟨hread, hb'⟩ := hP.read8_eq hb w
  subst h
  simp only [Exec.load_apply, hread, load]
  exact .ok rfl ⟨rfl, hb'⟩

theorem agrees_store {w : UInt16} {v : UInt8} {i j : ℤ} (h : w = UInt16.ofInt i)
    (hv : v = UInt8.ofInt j) :
    Simulates (Same P) Eq (Exec.store w v) (store i j) := by
  rintro cpu b _ ⟨rfl, hb⟩
  obtain ⟨hwrite, hb'⟩ := hP.write8_eq hb w v
  subst h hv
  simp only [Exec.store_apply, hwrite, store]
  exact .ok rfl ⟨rfl, hb'⟩

omit hP [Bus σ] in
theorem next_eq_ofInt (pc : UInt16) : ProgramCounter.next pc = UInt16.ofInt (pc.toNat + 1) := by
  rw [Word.eq_ofInt_iff, ProgramCounter.toNat_next]
  omega

theorem agrees_fetch : Simulates (Same P) Stands Exec.fetch (fetch (σ := σ)) := by
  rintro cpu b _ ⟨rfl, hb⟩
  obtain ⟨hfetch, hb'⟩ := hP.fetch8_eq hb cpu.regs.pc
  rw [Exec.fetch_apply, fetch, ← next_eq_ofInt]
  simp only [hfetch]
  exact .ok rfl ⟨rfl, hb'⟩

theorem agrees_fetchWord : Simulates (Same P) Stands16 Exec.fetchWord (fetchWord (σ := σ)) := by
  refine (agrees_fetch hP).bind fun lo i hlo => (agrees_fetch hP).bind fun hi j hhi => .pure ?_
  rw [Stands16, Word.toNat_pack, ← hlo, ← hhi]
  omega

omit hP [Bus σ] in
theorem agrees_jump {w : UInt16} {i : ℤ} (h : w = UInt16.ofInt i) :
    Simulates (Same P) Eq (Exec.jump w) (jump i) :=
  agrees_modifyRegs fun _ => by rw [h]

/-! ### Operands -/

theorem agrees_operand (i : UInt8) :
    Simulates (Same P) Stands (Exec.readOperand (Register.ofIndex i))
      (operand (σ := σ) (i.toNat % 8)) := by
  unfold operand
  by_cases h : i.toNat % 8 = 6
  · rw [ofIndex_eq_hlIndirect_iff.2 h, if_pos h]
    exact agrees_bindRegs fun g => agrees_load hP (stands_hl g).eq_ofInt
  · rw [Exec.readOperand_eq (Register.isByte_ofIndex (mt ofIndex_eq_hlIndirect_iff.1 h)), if_neg h]
    exact agrees_bindRegs fun g => .pure (byte_ofIndex g h)

theorem agrees_setOperand (i : UInt8) {v : UInt8} {j : ℤ} (hv : v = UInt8.ofInt j) :
    Simulates (Same P) Eq (Exec.writeOperand (Register.ofIndex i) v)
      (setOperand (σ := σ) (i.toNat % 8) j) := by
  unfold setOperand
  by_cases h : i.toNat % 8 = 6
  · rw [ofIndex_eq_hlIndirect_iff.2 h, if_pos h]
    exact agrees_bindRegs fun g => agrees_store hP (stands_hl g).eq_ofInt hv
  · rw [Exec.writeOperand_eq (Register.isByte_ofIndex (mt ofIndex_eq_hlIndirect_iff.1 h)), if_neg h]
    exact agrees_modifyRegs fun g => by rw [hv, withByte_ofIndex g h]

/-! ### Parts of instructions -/

theorem agrees_push {w : UInt16} {i : ℤ} (h : w = UInt16.ofInt i) :
    Simulates (Same P) Eq (Exec.pushWord w) (push (σ := σ) i) := by
  refine agrees_bindRegs fun g => ?_
  have hhi : Word.high w = UInt8.ofInt (i / 256) := by rw [h, high_ofInt]
  have hlo : Word.low w = UInt8.ofInt i := by rw [h, low_ofInt]
  refine (agrees_store hP (Word.sub_eq_ofInt g.sp 1) hhi).next ?_
  refine (agrees_store hP (Word.sub_eq_ofInt g.sp 2) hlo).next ?_
  exact agrees_modifyRegs fun _ => by rw [Word.sub_eq_ofInt]; rfl

theorem agrees_pop : Simulates (Same P) Stands16 Exec.popWord (pop (σ := σ)) := by
  refine agrees_bindRegs fun g => ?_
  refine (agrees_load hP (Word.ofInt_toNat g.sp).symm).bind fun lo i hlo => ?_
  refine (agrees_load hP (Word.add_eq_ofInt g.sp 1)).bind fun hi j hhi => ?_
  refine Simulates.next (agrees_modifyRegs fun _ => by rw [Word.add_eq_ofInt]; rfl) (.pure ?_)
  rw [← hlo, ← hhi]
  exact stands16_pack _ _

theorem agrees_update (i : UInt8) {f : UInt8 → Flags → UInt8 × Flags}
    {g : ℤ → Flags → ℤ × Flags} (h : ∀ v fl, f v fl = truncate (g v.toNat fl)) :
    Simulates (Same P) Eq (Exec.updateOperand (Register.ofIndex i) f)
      (update (σ := σ) (i.toNat % 8) g) := by
  refine (agrees_operand hP i).bind fun v j hv => agrees_bindRegs fun r => ?_
  rw [h, hv]
  exact Simulates.next (agrees_modifyRegs fun _ => rfl) (agrees_setOperand hP i rfl)

omit hP [Bus σ] in
theorem agrees_addWord {a b : UInt16} {i j : ℤ} (ha : Stands16 a i) (hb : Stands16 b j) :
    Simulates (Same P) (fun w k => w = UInt16.ofInt k) (Exec.addWords (σ := σ) a b)
      (addWord i j) := by
  subst ha hb
  unfold Exec.addWords addWord
  rw [Alu.add16_eq]
  exact Simulates.next (agrees_modifyRegs fun _ => rfl) (.pure rfl)

omit hP [Bus σ] in
theorem agrees_accumulate {op : AluOp} {v : UInt8} {f : ℤ → Flags → ℤ × Flags}
    (h : ∀ a fl, op.apply a v fl = truncate (f a.toNat fl)) :
    Simulates (Same P) Eq (Exec.accumulate (σ := σ) op v) (accumulate f) :=
  agrees_modifyRegs fun r => by rw [h]; rfl

/-! ### Branches -/

omit hP [Bus σ] in
theorem agrees_taken {α β : Type} {V : α → β → Prop} {cond : Option Condition}
    {taken : Flags → Bool} (h : ∀ f, cond.all (·.holds f) = taken f) {x y : Exec σ α}
    {x' y' : Exec σ β} (hx : Simulates (Same P) V x x') (hy : Simulates (Same P) V y y') :
    Simulates (Same P) V (do if ← Exec.taken cond then x else y)
      (do if taken (← regs).f then x' else y') := by
  intro cpu b c hb
  have hleft : (do if ← Exec.taken cond then x else y) ⟨cpu, b⟩ =
      (if taken cpu.regs.f then x else y) ⟨cpu, b⟩ := by
    simp [Exec.taken, h]
  have hright : (do if taken (← regs).f then x' else y') ⟨cpu, c⟩ =
      (if taken cpu.regs.f then x' else y') ⟨cpu, c⟩ := by
    simp
  rw [hleft, hright]
  split
  · exact hx cpu b c hb
  · exact hy cpu b c hb

omit hP [Bus σ] in
theorem displace_eq_ofInt (pc : UInt16) (e : UInt8) :
    ProgramCounter.displace pc e = UInt16.ofInt (pc.toNat + signed e.toNat) := by
  have := e.toNat_lt
  rw [Word.eq_ofInt_iff, ProgramCounter.toNat_displace, signed]
  split <;> split <;> omega

theorem agrees_jr {cond : Option Condition} {taken : Flags → Bool}
    (h : ∀ f, cond.all (·.holds f) = taken f) (addr : UInt16) :
    Simulates (Same P) Eq (Exec.instruction addr (.jr cond)) (jumpRelative (σ := σ) taken) := by
  refine (agrees_fetch hP).bind fun e j he => ?_
  refine agrees_taken h (agrees_bindRegs fun g => ?_) (.pure rfl)
  rw [← he]
  exact (agrees_jump (displace_eq_ofInt g.pc e)).next (.pure rfl)

theorem agrees_jp {cond : Option Condition} {taken : Flags → Bool}
    (h : ∀ f, cond.all (·.holds f) = taken f) (addr : UInt16) :
    Simulates (Same P) Eq (Exec.instruction addr (.jp cond)) (jumpAbsolute (σ := σ) taken) :=
  (agrees_fetchWord hP).bind fun _ _ ha =>
    agrees_taken h ((agrees_jump ha.eq_ofInt).next (.pure rfl)) (.pure rfl)

theorem agrees_enter {w : UInt16} {i : ℤ} (h : w = UInt16.ofInt i) :
    Simulates (Same P) Eq (Exec.callTo w) (enter (σ := σ) i) :=
  agrees_bindRegs fun g => (agrees_push hP (Word.ofInt_toNat g.pc).symm).next (agrees_jump h)

theorem agrees_leave : Simulates (Same P) Eq Exec.returnToCaller (leave (σ := σ)) :=
  (agrees_pop hP).bind fun _ _ ha => agrees_jump ha.eq_ofInt

theorem agrees_call {cond : Option Condition} {taken : Flags → Bool}
    (h : ∀ f, cond.all (·.holds f) = taken f) (addr : UInt16) :
    Simulates (Same P) Eq (Exec.instruction addr (.call cond)) (call (σ := σ) taken) :=
  (agrees_fetchWord hP).bind fun _ _ ha =>
    agrees_taken h ((agrees_enter hP ha.eq_ofInt).next (.pure rfl)) (.pure rfl)

/-! ### Transfers between the accumulator and memory -/

/-- The word is what a register keeps of the integer. -/
def Reduces (w : UInt16) (i : ℤ) : Prop := w = UInt16.ofInt i

theorem agrees_loadA {src : Location} {place : Exec σ ℤ} {after : Exec σ Unit} {n : ℕ}
    (hplace : Simulates (Same P) Reduces (Exec.address src) place)
    (hafter : Simulates (Same P) Eq (Exec.stepPointer src) after)
    (hn : Exec.transferCycles src = n) (addr : UInt16) :
    Simulates (Same P) Eq (Exec.instruction addr (.loadA src)) (loadA place after n) := by
  refine hplace.bind fun w i hi => (agrees_load hP hi).bind fun v j hv => ?_
  exact Simulates.next (agrees_modifyRegs fun _ => by rw [hv.eq_ofInt]) (hafter.next (.pure hn))

theorem agrees_storeA {dst : Location} {place : Exec σ ℤ} {after : Exec σ Unit} {n : ℕ}
    (hplace : Simulates (Same P) Reduces (Exec.address dst) place)
    (hafter : Simulates (Same P) Eq (Exec.stepPointer dst) after)
    (hn : Exec.transferCycles dst = n) (addr : UInt16) :
    Simulates (Same P) Eq (Exec.instruction addr (.storeA dst)) (storeA place after n) := by
  refine hplace.bind fun w i hi => agrees_bindRegs fun g => ?_
  exact (agrees_store hP hi (Byte.ofInt_toNat g.a).symm).next (hafter.next (.pure hn))

omit hP in
theorem agrees_pointer (i : UInt8) :
    Simulates (Same P) Reduces (Exec.address (Location.pointer i))
      (pointer (σ := σ) (i.toNat % 4)) := by
  have := Nat.mod_lt i.toNat (by omega : 4 > 0)
  rw [Location.pointer, Byte.toNat_and_three]
  generalize i.toNat % 4 = k at this
  interval_cases k
  all_goals exact agrees_bindRegs fun g => .pure (stands16_pack _ _).eq_ofInt

omit hP [Bus σ] in
theorem agrees_stepPointer (i : UInt8) :
    Simulates (Same P) Eq (Exec.stepPointer (Location.pointer i))
      (stepPointer (σ := σ) (i.toNat % 4)) := by
  have := Nat.mod_lt i.toNat (by omega : 4 > 0)
  rw [Location.pointer, Byte.toNat_and_three]
  generalize i.toNat % 4 = k at this
  have hset (g : RegisterFile) (w : ℤ) : g.setHl (UInt16.ofInt w) = setPair 2 w g :=
    withWord_pairOrSp g 2 w
  interval_cases k
  case «2» =>
    change Simulates _ _ (Exec.modifyRegs fun g => g.setHl (g.hl + 1))
      (modifyRegs fun g => setPair 2 (hl g + 1) g)
    refine agrees_modifyRegs fun g => ?_
    rw [Word.add_eq_ofInt, hset, stands_hl g]
    rfl
  case «3» =>
    change Simulates _ _ (Exec.modifyRegs fun g => g.setHl (g.hl - 1))
      (modifyRegs fun g => setPair 2 (hl g - 1) g)
    refine agrees_modifyRegs fun g => ?_
    rw [Word.sub_eq_ofInt, hset, stands_hl g]
    rfl
  all_goals exact .pure rfl

omit hP [Bus σ] in
theorem high_eq_ofInt (v : UInt8) : 0xFF00 ||| v.toUInt16 = UInt16.ofInt (0xFF00 + v.toNat) := by
  have hv := v.toNat_lt
  have hor := Nat.two_pow_add_eq_or_of_lt (i := 8) hv 0xFF
  rw [Word.eq_ofInt_iff, UInt16.toNat_or, UInt8.toNat_toUInt16]
  simp only [UInt16.reduceToNat, Nat.reducePow, Nat.reduceMul] at hor ⊢
  omega

theorem agrees_highImmediate :
    Simulates (Same P) Reduces (Exec.address .highImmediate) (highImmediate (σ := σ)) := by
  refine (agrees_fetch hP).bind fun v i hi => .pure ?_
  rw [← hi]
  exact high_eq_ofInt v

omit hP in
theorem agrees_highC :
    Simulates (Same P) Reduces (Exec.address .highC) (highC (σ := σ)) :=
  agrees_bindRegs fun g => .pure (high_eq_ofInt g.c)

theorem agrees_immediate :
    Simulates (Same P) Reduces (Exec.address .immediate) (fetchWord (σ := σ)) :=
  (agrees_fetchWord hP).mono fun _ _ => Stands16.eq_ofInt

omit hP [Bus σ] in
theorem cyclesFor_ofIndex (i : UInt8) (m n : ℕ) :
    Exec.cyclesFor (Register.ofIndex i) m n = if i.toNat % 8 = 6 then n else m := by
  simp only [Exec.cyclesFor, ofIndex_eq_hlIndirect_iff]

end

end Reference

end Lr35902
