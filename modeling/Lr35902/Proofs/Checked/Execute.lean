import Lr35902.Proofs.Checked.Alu
import Lr35902.Proofs.Checked.Decode
import Lr35902.Proofs.Cycles

/-!
# Checked execution

Instructions, steps and the dispatch of interrupts with the tests of all contracts on their way: the
decoding of the opcode, the accesses to registers by name, the arithmetic, and the count of cycles,
which has 64 bits.

Instructions that name registers of the right width break no contract, and the decoders give no
others (`Checked.upholds_instruction`, `Checked.upholds_extendedInstruction`).  A step and a
dispatch break none from any board whose count of cycles has room for the longest step
(`Checked.upholds_step`, `Checked.upholds_dispatch`).
-/

namespace Lr35902

/-- The bit that the operation is about, if it is about one, is a bit of a byte. -/
def ExtendedOp.WellFormed : ExtendedOp → Prop
  | .bit i | .res i | .set i => i < 8
  | .shift .. | .swap => True

instance (op : ExtendedOp) : Decidable op.WellFormed := by
  unfold ExtendedOp.WellFormed
  cases op <;> infer_instance

theorem ExtendedInstruction.wellFormed_decode (b : UInt8) : (decode b).op.WellFormed := by
  have hall : ∀ v : BitVec 8, (decode ⟨v⟩).op.WellFormed := by decide +kernel
  exact hall b.toBitVec

theorem Instruction.le_of_mem_durations {n : Nat} (h : n ∈ durations) : n ≤ 24 := by
  have hall : ∀ n ∈ durations, n ≤ 24 := by decide
  exact hall n h

namespace Check

/-- The byte in which only the bit of the source `i` is set. -/
def mask (i : Interrupt) : Except Violation UInt8 := do
  bitNumber i.bit
  return 1 <<< i.bit

/-- The address of the handler of the source `i`. -/
def vector (i : Interrupt) : Except Violation UInt16 := do
  wordSum 0x40 (← wordProduct 8 i.bit.toUInt16)

theorem mask_eq (i : Interrupt) : mask i = .ok i.mask := by cases i <;> rfl

theorem vector_eq (i : Interrupt) : vector i = .ok i.vector := by cases i <;> rfl

end Check

namespace Checked

variable {σ : Type} {s : Board σ}

/-! ### The accumulator and the flags -/

/-- The operation `op` on the accumulator and `v`. -/
def accumulate (op : AluOp) (v : UInt8) : Checked σ Unit :=
  updateRegs fun g => do
    let (a, f) ← Check.apply op g.a v g.f
    return { g with a, f }

/-- Rotates the accumulator. -/
def rotateAccumulator (dir : Direction) (fill : Fill) : Checked σ Unit :=
  updateRegs fun g => do
    let (a, f) ← Check.shift g.a dir fill g.f.carry
    return { g with a, f }

/-- The sum of two words, whose flags are set. -/
def addWords (a b : UInt16) : Checked σ UInt16 := do
  let (w, f) ← test (Check.add16 a b)
  act (Exec.setFlags f)
  return w

theorem upholds_accumulate (op : AluOp) (v : UInt8) :
    Upholds s (accumulate op v) (Exec.accumulate op v) := by
  refine upholds_updateRegs fun g => ?_
  rw [Check.apply_eq]
  rfl

theorem upholds_rotateAccumulator (dir : Direction) (fill : Fill) :
    Upholds s (rotateAccumulator dir fill) (Exec.rotateAccumulator dir fill) := by
  refine upholds_updateRegs fun g => ?_
  rw [Check.shift_eq]
  rfl

theorem upholds_addWords (a b : UInt16) : Upholds s (addWords a b) (Exec.addWords a b) :=
  .test (Check.add16_eq a b) ((Upholds.act _).bind fun _ _ _ => .pure _)

variable [Bus σ]

/-- Replaces the byte operand `r` by the value that `f` gives for it, after setting the flags. -/
def updateOperand (r : Register) (f : UInt8 → Flags → Except Violation (UInt8 × Flags)) :
    Checked σ Unit := do
  let v ← readOperand r
  let g ← act Exec.regs
  let (w, flags) ← test (f v g.f)
  act (Exec.setFlags flags)
  writeOperand r w

theorem upholds_updateOperand {r : Register} (h : r.IsOperand)
    {f : UInt8 → Flags → Except Violation (UInt8 × Flags)} {g : UInt8 → Flags → UInt8 × Flags}
    (hf : ∀ v flags, f v flags = .ok (g v flags)) :
    Upholds s (updateOperand r f) (Exec.updateOperand r g) := by
  refine (upholds_readOperand h).bind fun v t _ => (Upholds.act _).bind fun regs t _ => ?_
  refine .test (hf v regs.f) ?_
  exact (Upholds.act _).bind fun _ _ _ => upholds_writeOperand h _

/-! ### The instruction sets -/

/-- Carries out an instruction whose opcode was fetched from `addr`.  Instructions that access no
register by name and add nothing have nothing to test. -/
def instruction (addr : UInt16) : Instruction → Checked σ Nat
  | .load dst src => do
    writeOperand dst (← readOperand src)
    return if dst = .hlIndirect then 8 else Exec.cyclesFor src 4 8
  | .loadImmediate dst => do
    writeOperand dst (← act Exec.fetch)
    return Exec.cyclesFor dst 8 12
  | .loadWord dst => do
    writeRegister16 dst (← act Exec.fetchWord)
    return 12
  | .loadHlSp => do
    let e ← act Exec.fetch
    let w ← addWords (← act Exec.regs).sp (Word.signExtend e)
    act (Exec.modifyRegs (·.setHl w))
    return 12
  | .push src => do
    act (Exec.pushWord (← readRegister16 src))
    return 16
  | .pop dst => do
    writeRegister16 dst (← act Exec.popWord)
    return 12
  | .alu op src => do
    accumulate op (← readOperand src)
    return Exec.cyclesFor src 4 8
  | .aluImmediate op => do
    accumulate op (← act Exec.fetch)
    return 8
  | .inc dst => do
    updateOperand dst Check.inc
    return Exec.cyclesFor dst 4 12
  | .dec dst => do
    updateOperand dst Check.dec
    return Exec.cyclesFor dst 4 12
  | .incWord dst => do
    writeRegister16 dst ((← readRegister16 dst) + 1)
    return 8
  | .decWord dst => do
    writeRegister16 dst ((← readRegister16 dst) - 1)
    return 8
  | .addHl src => do
    let v ← readRegister16 src
    let w ← addWords (← act Exec.regs).hl v
    act (Exec.modifyRegs (·.setHl w))
    return 8
  | .addSp => do
    let e ← act Exec.fetch
    let w ← addWords (← act Exec.regs).sp (Word.signExtend e)
    act (Exec.modifyRegs ({ · with sp := w }))
    return 16
  | .rotateA dir fill => do
    rotateAccumulator dir fill
    return 4
  | i => act (Exec.instruction addr i)

theorem upholds_instruction {i : Instruction} (h : i.WellFormed) (addr : UInt16) :
    Upholds s (instruction addr i) (Exec.instruction addr i) := by
  cases i with
  | load dst src =>
    obtain ⟨hdst, hsrc, -⟩ := h
    exact (upholds_readOperand hsrc).bind fun v _ _ =>
      (upholds_writeOperand hdst v).bind fun _ _ _ => .pure _
  | loadImmediate dst =>
    exact (Upholds.act _).bind fun v _ _ => (upholds_writeOperand h v).bind fun _ _ _ => .pure _
  | loadWord dst =>
    exact (Upholds.act _).bind fun w _ _ => (upholds_writeRegister16 h w).bind fun _ _ _ => .pure _
  | push src =>
    exact (upholds_readRegister16 h).bind fun _ _ _ => (Upholds.act _).bind fun _ _ _ => .pure _
  | pop dst =>
    exact (Upholds.act _).bind fun w _ _ => (upholds_writeRegister16 h w).bind fun _ _ _ => .pure _
  | alu op src =>
    exact (upholds_readOperand h).bind fun v _ _ =>
      (upholds_accumulate op v).bind fun _ _ _ => .pure _
  | aluImmediate op =>
    exact (Upholds.act _).bind fun v _ _ => (upholds_accumulate op v).bind fun _ _ _ => .pure _
  | inc dst => exact (upholds_updateOperand h Check.inc_eq).bind fun _ _ _ => .pure _
  | dec dst => exact (upholds_updateOperand h Check.dec_eq).bind fun _ _ _ => .pure _
  | incWord dst | decWord dst =>
    exact (upholds_readRegister16 h).bind fun w _ _ =>
      (upholds_writeRegister16 h _).bind fun _ _ _ => .pure _
  | addHl src =>
    exact (upholds_readRegister16 h).bind fun v _ _ => (Upholds.act _).bind fun g _ _ =>
      (upholds_addWords g.hl v).bind fun w _ _ => (Upholds.act _).bind fun _ _ _ => .pure _
  | loadHlSp | addSp =>
    exact (Upholds.act _).bind fun e _ _ => (Upholds.act _).bind fun g _ _ =>
      (upholds_addWords g.sp _).bind fun w _ _ => (Upholds.act _).bind fun _ _ _ => .pure _
  | rotateA dir fill => exact (upholds_rotateAccumulator dir fill).bind fun _ _ _ => .pure _
  | _ => exact .act _

/-- Carries out an instruction of the extended set, whose first byte has been paid for. -/
def extendedInstruction (i : ExtendedInstruction) : Checked σ Nat :=
  match i.op with
  | .shift dir fill => do
    updateOperand i.target fun v f => Check.shift v dir fill f.carry
    return Exec.cyclesFor i.target 4 12
  | .swap => do
    updateOperand i.target fun v _ => .ok (Alu.swap v)
    return Exec.cyclesFor i.target 4 12
  | .bit n => do
    let v ← readOperand i.target
    updateRegs fun g => do
      let on ← Check.testBit v n
      return { g with f := { g.f with zero := !on, subtract := false, halfCarry := true } }
    return Exec.cyclesFor i.target 4 8
  | .res n => do
    let v ← readOperand i.target
    writeOperand i.target (← test (Check.withBit v n false))
    return Exec.cyclesFor i.target 4 12
  | .set n => do
    let v ← readOperand i.target
    writeOperand i.target (← test (Check.withBit v n true))
    return Exec.cyclesFor i.target 4 12

theorem upholds_extendedInstruction {i : ExtendedInstruction} (hop : i.op.WellFormed)
    (htarget : i.target.IsOperand) :
    Upholds s (extendedInstruction i) (Exec.extendedInstruction i) := by
  obtain ⟨op, target⟩ := i
  cases op with
  | shift dir fill =>
    have hshift (v : UInt8) (f : Flags) := Check.shift_eq v dir fill f.carry
    exact (upholds_updateOperand htarget hshift).bind fun _ _ _ => .pure _
  | swap => exact (upholds_updateOperand htarget fun _ _ => rfl).bind fun _ _ _ => .pure _
  | bit n =>
    refine (upholds_readOperand htarget).bind fun v _ _ => ?_
    refine (upholds_updateRegs fun g => ?_).bind fun _ _ _ => .pure _
    rw [Check.testBit_eq hop]
    rfl
  | res n | set n =>
    exact (upholds_readOperand htarget).bind fun v _ _ => .test (Check.withBit_eq hop v _)
      ((upholds_writeOperand htarget _).bind fun _ _ _ => .pure _)

/-- Carries out the primary instruction with the given opcode, which was fetched from `addr`. -/
def primary (addr : UInt16) (opcode : UInt8) : Checked σ Nat := do
  match ← test (Check.decode opcode) with
  | some i => instruction addr i
  | none => act (throw (.unknownOpcode opcode false addr))

theorem upholds_primary (addr : UInt16) (opcode : UInt8) :
    Upholds s (primary addr opcode) (Exec.primary addr opcode) := by
  refine .test (Check.decode_eq opcode) ?_
  unfold Exec.primary
  cases h : Instruction.decode opcode with
  | some i => exact upholds_instruction (Instruction.wellFormed_of_decode h) addr
  | none => exact .act _

/-! ### The count of cycles -/

/-- Counts `n` cycles and returns them. -/
def spend (n : Nat) : Checked σ Nat := do
  let cpu ← act Exec.cpu
  let cycles ← test (Check.fit 64 (cpu.cycles + n) (cpu.cycles + n))
  act (Exec.modifyCpu ({ · with cycles }))
  return n

/-- Ends an instruction that took `n` cycles. -/
def complete (ime : InterruptState) (n : Nat) : Checked σ Nat := do
  if ime = .pendingEnable then
    act (Exec.modifyCpu fun cpu => { cpu with ime := cpu.ime.instructionCompleted })
  spend n

omit [Bus σ] in
theorem upholds_spend {n : Nat} (h : s.cpu.cycles + n < 2 ^ 64) :
    Upholds s (spend n) (Exec.spend n) := by
  have hfit : Check.fit 64 (s.cpu.cycles + n) (s.cpu.cycles + n) = .ok (s.cpu.cycles + n) :=
    Check.fit_eq h _
  change Upholds s _ (Exec.cpu >>= fun cpu => Exec.modifyCpu ({ · with cycles := cpu.cycles + n })
    >>= fun _ => pure n)
  refine (Upholds.act _).bind fun cpu t hcpu => ?_
  cases hcpu
  exact .test hfit ((Upholds.act _).bind fun _ _ _ => .pure _)

omit [Bus σ] in
theorem upholds_complete {ime : InterruptState} {n : Nat} (h : s.cpu.cycles + n < 2 ^ 64) :
    Upholds s (complete ime n) (Exec.complete ime n) := by
  unfold complete Exec.complete
  split
  · refine (Upholds.act _).bind fun _ t ht => upholds_spend ?_
    cases ht
    exact h
  · exact upholds_spend h

/-! ### Steps and dispatches -/

/-- Executes one opcode byte and returns the cycles that it took. -/
def step : Checked σ Nat := do
  let before ← act Exec.cpu
  if before.run ≠ .normal then spend Cpu.idleCycles
  else
    let opcode ← act Exec.fetch
    match before.mode with
    | .primary =>
      if opcode = extensionByte then
        act (Exec.modifyCpu ({ · with mode := .extended }))
        spend Cpu.extensionCycles
      else complete before.ime (← primary before.regs.pc opcode)
    | .extended =>
      act (Exec.modifyCpu ({ · with mode := .primary }))
      let i ← test (Check.decodeExtended opcode)
      complete before.ime (← extendedInstruction i)

/-- Enters the handler of an interrupt. -/
def dispatch (i : Interrupt) : Checked σ Nat := do
  act (Exec.pushWord (← act Exec.regs).pc)
  let requested ← act (Exec.load Interrupt.requestAddr)
  let mask ← test (Check.mask i)
  act (Exec.store Interrupt.requestAddr (requested &&& ~~~mask))
  let vector ← test (Check.vector i)
  act (Exec.jump vector)
  act (Exec.modifyCpu fun cpu => { cpu with ime := cpu.ime.disable, run := .normal })
  spend Cpu.dispatchCycles

theorem upholds_step (h : s.cpu.cycles < 2 ^ 64 - 24) : Upholds s step Exec.step := by
  refine (Upholds.act _).bind fun before t₀ hbefore => ?_
  cases hbefore
  split
  · exact upholds_spend (by unfold Cpu.idleCycles; omega)
  refine (Upholds.act _).bind fun opcode t hfetch => ?_
  obtain ⟨g, ht⟩ := Exec.onlyRegs_fetch.of_ok hfetch
  have hcycles : t.cpu.cycles = s.cpu.cycles := by rw [ht]
  cases s.cpu.mode with
  | primary =>
    dsimp only
    split
    · refine (Upholds.act _).bind fun _ u hu => upholds_spend ?_
      cases hu
      dsimp only
      unfold Cpu.extensionCycles
      omega
    · refine (upholds_primary _ _).bind fun n u hu => upholds_complete ?_
      obtain ⟨hn, hkept⟩ := Exec.primary_ok hu
      have hle := Instruction.le_of_mem_durations hn
      omega
  | extended =>
    refine (Upholds.act _).bind fun _ u hu => .test (Check.decodeExtended_eq opcode) ?_
    cases hu
    refine (upholds_extendedInstruction (ExtendedInstruction.wellFormed_decode opcode)
      (Register.isOperand_ofIndex opcode)).bind fun n v hv => upholds_complete ?_
    obtain ⟨hn, g', hg⟩ := Exec.extendedInstruction_ok hv
    have hle := Instruction.le_of_mem_durations hn
    rw [hg]
    dsimp only
    omega

theorem upholds_dispatch (h : s.cpu.cycles < 2 ^ 64 - 24) (i : Interrupt) :
    Upholds s (dispatch i) (Exec.dispatch i) := by
  refine (Upholds.act _).bind fun g t₀ h₀ => ?_
  cases h₀
  refine (Upholds.act _).bind fun _ t₁ h₁ => (Upholds.act _).bind fun requested t₂ h₂ => ?_
  refine .test (Check.mask_eq i) ((Upholds.act _).bind fun _ t₃ h₃ => ?_)
  refine .test (Check.vector_eq i) ((Upholds.act _).bind fun _ t₄ h₄ => ?_)
  refine (Upholds.act _).bind fun _ t₅ h₅ => upholds_spend ?_
  -- nothing on the way has counted cycles
  obtain ⟨g₁, hg₁⟩ := (Exec.onlyRegs_pushWord _).of_ok h₁
  obtain ⟨g₂, hg₂⟩ := (Exec.OnlyRegs.onBus _).of_ok h₂
  obtain ⟨g₃, hg₃⟩ := (Exec.OnlyRegs.onBus _).of_ok h₃
  cases h₄
  cases h₅
  rw [hg₃, hg₂, hg₁]
  unfold Cpu.dispatchCycles
  dsimp only
  omega

end Checked

end Lr35902
