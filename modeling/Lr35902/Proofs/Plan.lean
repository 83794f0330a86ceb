import Lr35902.Cpu.Execute
import Lr35902.Proofs.Decode

/-!
# Plans of instructions

Every instruction does the same things in the same order: it fetches its immediate bytes, accesses
the data in memory at most once, and then changes the processor.  A `Plan` says which access that
is, what is done with the byte or word that it gives, and how many cycles this takes.  Executing an
instruction is making its plan and carrying it out (`Exec.instruction_eq`,
`Exec.extendedInstruction_eq`).
-/

namespace Lr35902

/-- The immediate bytes that follow an opcode. -/
inductive Immediate where
  | none | byte | word
deriving DecidableEq

/-- An access to the data in memory.  Words lie low byte first. -/
inductive DataAccess where
  | none
  | load (addr : UInt16)
  | store (addr : UInt16) (v : UInt8)
  /-- Loads a byte, sets the flags, and stores another byte in its place. -/
  | update (addr : UInt16) (f : UInt8 → Flags → UInt8 × Flags)
  | push (w : UInt16)
  | pop
  /-- Stores a word, low byte first. -/
  | storeWord (addr w : UInt16)

/-- What remains of an instruction once its immediate bytes are fetched. -/
structure Plan where
  access : DataAccess
  /-- The change of the processor, given what was loaded. -/
  finish : UInt16 → Cpu → Cpu
  cycles : Nat

namespace Plan

/-- The processor with its registers changed. -/
def onRegs (change : RegisterFile → RegisterFile) (cpu : Cpu) : Cpu :=
  { cpu with regs := change cpu.regs }

/-- A plan without an access. -/
def internal (cycles : Nat) (change : Cpu → Cpu) : Plan := ⟨.none, fun _ => change, cycles⟩

/-- Uses the byte operand `r`. -/
def reading (g : RegisterFile) (r : Register) (cycles memoryCycles : Nat)
    (use : UInt8 → RegisterFile → RegisterFile) : Plan :=
  if r = .hlIndirect then ⟨.load g.hl, fun v => onRegs (use v.toUInt8), memoryCycles⟩
  else internal cycles (onRegs (use (g.byte r)))

/-- Writes the byte operand `r`. -/
def writing (g : RegisterFile) (r : Register) (v : UInt8) (cycles memoryCycles : Nat) : Plan :=
  if r = .hlIndirect then ⟨.store g.hl v, fun _ => id, memoryCycles⟩
  else internal cycles (onRegs (·.withByte r v))

/-- Replaces the byte operand `r` and the flags. -/
def updating (g : RegisterFile) (r : Register) (cycles memoryCycles : Nat)
    (f : UInt8 → Flags → UInt8 × Flags) : Plan :=
  if r = .hlIndirect then ⟨.update g.hl f, fun _ => id, memoryCycles⟩
  else
    internal cycles (onRegs fun g =>
      let (v, flags) := f (g.byte r) g.f
      { g with f := flags }.withByte r v)

/-- Goes on at `target` if the branch is taken. -/
def jumping (g : RegisterFile) (cond : Option Condition) (target : UInt16)
    (cycles takenCycles : Nat) : Plan :=
  if cond.all (·.holds g.f) then internal takenCycles (onRegs ({ · with pc := target }))
  else internal cycles id

/-- Pushes the program counter and goes on at `target`. -/
def calling (g : RegisterFile) (target : UInt16) (cycles : Nat) : Plan :=
  ⟨.push g.pc, fun _ => onRegs ({ · with pc := target }), cycles⟩

/-- Goes on at the address on the stack. -/
def returning (cycles : Nat) : Plan := ⟨.pop, fun w => onRegs ({ · with pc := w }), cycles⟩

/-- Adds a word to another one, sets the flags and puts the sum where `put` says. -/
def adding (a b : UInt16) (cycles : Nat) (put : UInt16 → RegisterFile → RegisterFile) : Plan :=
  internal cycles (onRegs fun g => put (Alu.add16 a b).1 { g with f := (Alu.add16 a b).2 })

end Plan

/-- The address of a place in memory, where `imm` is the immediate part. -/
def Location.addr (g : RegisterFile) (imm : UInt16) : Location → UInt16
  | bc => g.bc
  | de => g.de
  | hlIncrement => g.hl
  | hlDecrement => g.hl
  | highImmediate => 0xFF00 ||| imm
  | highC => 0xFF00 ||| g.c.toUInt16
  | immediate => imm

/-- The registers after a place in memory was used. -/
def Location.step (g : RegisterFile) : Location → RegisterFile
  | hlIncrement => g.setHl (g.hl + 1)
  | hlDecrement => g.setHl (g.hl - 1)
  | _ => g

namespace Instruction

/-- The immediate bytes of an instruction. -/
def immediate : Instruction → Immediate
  | stop | loadImmediate _ | loadHlSp | addSp | aluImmediate _ | jr _ => .byte
  | loadA .highImmediate | storeA .highImmediate => .byte
  | loadWord _ | storeSp | jp _ | call _ => .word
  | loadA .immediate | storeA .immediate => .word
  | _ => .none

open Plan

/-- The plan of an instruction whose opcode was fetched from `addr` and whose immediate bytes are
`imm`, or the fault that it raises. -/
def plan (addr : UInt16) (g : RegisterFile) (imm : UInt16) : Instruction → Except Fault Plan
  | nop => .ok (internal 4 id)
  | stop =>
    if imm.toUInt8 ≠ 0 then .error (.malformedStop addr imm.toUInt8)
    else .ok (internal 4 ({ · with run := .stopped }))
  | halt => .ok (internal 4 ({ · with run := .halted }))
  | di => .ok (internal 4 ({ · with ime := .blocked }))
  | ei => .ok (internal 4 ({ · with ime := .pendingEnable }))
  | load dst src =>
    .ok (if dst = .hlIndirect then writing g dst (g.byte src) 4 8
      else reading g src 4 8 fun v g => g.withByte dst v)
  | loadImmediate dst => .ok (writing g dst imm.toUInt8 8 12)
  | loadWord dst => .ok (internal 12 (onRegs (·.withWord dst imm)))
  | loadA src =>
    .ok ⟨.load (src.addr g imm), fun v => onRegs fun g => src.step { g with a := v.toUInt8 },
      Exec.transferCycles src⟩
  | storeA dst =>
    .ok ⟨.store (dst.addr g imm) g.a, fun _ => onRegs fun g => dst.step g,
      Exec.transferCycles dst⟩
  | storeSp => .ok ⟨.storeWord imm g.sp, fun _ => id, 20⟩
  | loadSpHl => .ok (internal 8 (onRegs fun g => { g with sp := g.hl }))
  | loadHlSp => .ok (adding g.sp (Word.signExtend imm.toUInt8) 12 fun w g => g.setHl w)
  | push src => .ok ⟨.push (g.word src), fun _ => id, 16⟩
  | pop dst => .ok ⟨.pop, fun w => onRegs (·.withWord dst w), 12⟩
  | alu op src =>
    .ok (reading g src 4 8 fun v g =>
      { g with a := (op.apply g.a v g.f).1, f := (op.apply g.a v g.f).2 })
  | aluImmediate op =>
    .ok (internal 8 (onRegs fun g =>
      { g with a := (op.apply g.a imm.toUInt8 g.f).1, f := (op.apply g.a imm.toUInt8 g.f).2 }))
  | inc dst => .ok (updating g dst 4 12 Alu.inc)
  | dec dst => .ok (updating g dst 4 12 Alu.dec)
  | incWord dst => .ok (internal 8 (onRegs fun g => g.withWord dst (g.word dst + 1)))
  | decWord dst => .ok (internal 8 (onRegs fun g => g.withWord dst (g.word dst - 1)))
  | addHl src => .ok (adding g.hl (g.word src) 8 fun w g => g.setHl w)
  | addSp => .ok (adding g.sp (Word.signExtend imm.toUInt8) 16 fun w g => { g with sp := w })
  | rotateA dir fill =>
    .ok (internal 4 (onRegs fun g =>
      { g with
        a := (Alu.shift g.a dir fill g.f.carry).1
        f := (Alu.shift g.a dir fill g.f.carry).2 }))
  | daa =>
    .ok (internal 4 (onRegs fun g =>
      { g with a := (Alu.decimalAdjust g.a g.f).1, f := (Alu.decimalAdjust g.a g.f).2 }))
  | cpl =>
    .ok (internal 4 (onRegs fun g =>
      { g with a := ~~~g.a, f := { g.f with subtract := true, halfCarry := true } }))
  | scf =>
    .ok (internal 4 (onRegs fun g =>
      { g with f := { g.f with subtract := false, halfCarry := false, carry := true } }))
  | ccf =>
    .ok (internal 4 (onRegs fun g =>
      { g with f := { g.f with subtract := false, halfCarry := false, carry := !g.f.carry } }))
  | jr cond => .ok (jumping g cond (ProgramCounter.displace g.pc imm.toUInt8) 8 12)
  | jp cond => .ok (jumping g cond imm 12 16)
  | jpHl => .ok (internal 4 (onRegs fun g => { g with pc := g.hl }))
  | call cond => .ok (if cond.all (·.holds g.f) then calling g imm 24 else internal 12 id)
  | ret none => .ok (returning 16)
  | ret (some cond) =>
    .ok (if (some cond).all (·.holds g.f) then returning 20 else internal 8 id)
  | reti =>
    .ok ⟨.pop, fun w cpu =>
      { cpu with regs := { cpu.regs with pc := w }, ime := .interruptible }, 16⟩
  | rst target => .ok (calling g target 16)

end Instruction

/-- The plan of an extended instruction. -/
def ExtendedInstruction.plan (g : RegisterFile) (i : ExtendedInstruction) : Plan :=
  match i.op with
  | .shift dir fill => Plan.updating g i.target 4 12 fun v f => Alu.shift v dir fill f.carry
  | .swap => Plan.updating g i.target 4 12 fun v _ => Alu.swap v
  | .bit n =>
    Plan.reading g i.target 4 8 fun v g =>
      { g with f := { g.f with zero := !Byte.testBit v n, subtract := false, halfCarry := true } }
  | .res n => Plan.updating g i.target 4 12 fun v f => (Byte.withBit v n false, f)
  | .set n => Plan.updating g i.target 4 12 fun v f => (Byte.withBit v n true, f)

namespace Exec

variable {σ : Type} [Bus σ]

/-- Fetches the immediate bytes. -/
def fetchImmediate : Immediate → Exec σ UInt16
  | .none => return 0
  | .byte => return (← fetch).toUInt16
  | .word => fetchWord

/-- Makes an access and returns what it loads. -/
def access : DataAccess → Exec σ UInt16
  | .none => return 0
  | .load a => return (← load a).toUInt16
  | .store a v => do
    store a v
    return 0
  | .update a f => do
    let v ← load a
    let (w, flags) := f v (← regs).f
    setFlags flags
    store a w
    return 0
  | .push w => do
    pushWord w
    return 0
  | .pop => popWord
  | .storeWord a w => do
    store a (Word.low w)
    store (a + 1) (Word.high w)
    return 0

/-- Carries out a plan. -/
def perform (p : Plan) : Exec σ Nat := do
  let w ← access p.access
  modifyCpu (p.finish w)
  return p.cycles

/-- Carries out a plan that could be made. -/
def performPlanned : Except Fault Plan → Exec σ Nat
  | .ok p => perform p
  | .error e => throw e

end Exec

theorem RegisterFile.hl_withFlags (g : RegisterFile) (f : Flags) :
    RegisterFile.hl { g with f } = g.hl := rfl

namespace Exec

variable {σ α : Type} [Bus σ]

/-! ### Immediate bytes -/

theorem fetchImmediate_none_bind (k : UInt16 → Exec σ α) :
    (fetchImmediate .none >>= k) = k 0 := rfl

theorem fetchImmediate_byte_bind (k : UInt16 → Exec σ α) :
    (fetchImmediate .byte >>= k) = fetch >>= fun v => k v.toUInt16 := by
  simp only [fetchImmediate, bind_assoc, pure_bind]

theorem fetchImmediate_word_bind (k : UInt16 → Exec σ α) :
    (fetchImmediate .word >>= k) = fetchWord >>= k := rfl

/-! ### Plans of each shape -/

theorem perform_internal (n : Nat) (change : Cpu → Cpu) :
    (perform (Plan.internal n change) : Exec σ Nat) = do
      modifyCpu change
      return n := rfl

section

variable {r : Register} (h : r.IsOperand) (m n : Nat)
include h

theorem perform_reading (use : UInt8 → RegisterFile → RegisterFile) :
    (do let g ← regs; perform (Plan.reading g r m n use) : Exec σ Nat) = do
      let v ← readOperand r
      modifyRegs (use v)
      return cyclesFor r m n := by
  rcases h with rfl | h
  · simp only [Plan.reading, cyclesFor, if_true, perform, access, readOperand_hlIndirect,
      bind_assoc, pure_bind, UInt8.toUInt8_toUInt16]
    rfl
  · simp only [Plan.reading, cyclesFor, if_neg h.2, readOperand_eq h, bind_assoc, pure_bind]
    rfl

theorem perform_writing (v : UInt8) :
    (do let g ← regs; perform (Plan.writing g r v m n) : Exec σ Nat) = do
      writeOperand r v
      return cyclesFor r m n := by
  rcases h with rfl | h
  · simp only [Plan.writing, cyclesFor, if_true, perform, access, writeOperand_hlIndirect,
      bind_assoc, pure_bind]
    rfl
  · simp only [Plan.writing, cyclesFor, if_neg h.2, writeOperand_eq h]
    rfl

theorem perform_updating (f : UInt8 → Flags → UInt8 × Flags) :
    (do let g ← regs; perform (Plan.updating g r m n f) : Exec σ Nat) = do
      updateOperand r f
      return cyclesFor r m n := by
  rcases h with rfl | h
  · funext s
    simp only [Plan.updating, cyclesFor, if_true, perform, access, updateOperand,
      readOperand_hlIndirect, writeOperand_hlIndirect, bind_apply, regs_apply, load_apply]
    cases Bus.read8 s.cpu.regs.hl s.bus with
    | ok v b =>
      simp only [setFlags_apply, store_apply, RegisterFile.hl_withFlags]
      cases Bus.write8 s.cpu.regs.hl (f v s.cpu.regs.f).1 b <;> rfl
    | error e b => rfl
  · simp only [Plan.updating, cyclesFor, if_neg h.2, updateOperand, readOperand_eq h,
      writeOperand_eq h, bind_assoc, pure_bind]
    rfl

end

theorem perform_calling (target : UInt16) (n : Nat) :
    (do let g ← regs; perform (Plan.calling g target n) : Exec σ Nat) = do
      callTo target
      return n := by
  simp only [perform, access, Plan.calling, callTo, bind_assoc, pure_bind]
  rfl

theorem perform_returning (n : Nat) :
    (do let _ ← regs; perform (Plan.returning n) : Exec σ Nat) = do
      returnToCaller
      return n := by
  simp only [perform, access, Plan.returning, returnToCaller, bind_assoc]
  rfl

/-- A plan that depends on a condition is carried out like a branch. -/
theorem perform_branch (cond : Option Condition) {p q : RegisterFile → Plan} {x y : Exec σ Nat}
    (hp : (do let g ← regs; perform (p g)) = x) (hq : (do let g ← regs; perform (q g)) = y) :
    (do
        let g ← regs
        perform (if cond.all (·.holds g.f) then p g else q g) : Exec σ Nat) =
      (do if ← taken cond then x else y) := by
  subst hp hq
  funext s
  simp only [taken, bind_apply, regs_apply, pure_apply]
  split <;> rfl

/-- An instruction fetches its immediate bytes, and then its plan is made and carried out. -/
theorem instruction_eq {i : Instruction} (h : i.WellFormed) (addr : UInt16) :
    instruction addr i = (do
      let imm ← fetchImmediate i.immediate
      let g ← regs
      performPlanned (i.plan addr g imm) : Exec σ Nat) := by
  cases i
  case load dst src =>
    obtain ⟨hdst, hsrc, hne⟩ := h
    simp only [instruction, Instruction.immediate, Instruction.plan, fetchImmediate_none_bind,
      performPlanned]
    by_cases hmem : dst = .hlIndirect
    · -- a byte that goes to memory comes from a register, so there is one access
      subst hmem
      have hbyte : src.IsByte := hsrc.resolve_left (hne rfl)
      simp only [if_true, readOperand_eq hbyte, writeOperand_hlIndirect, Plan.writing, perform,
        access, bind_assoc, pure_bind, regs_bind_regs]
      rfl
    · have hbyte : dst.IsByte := hdst.resolve_left hmem
      simp only [if_neg hmem, perform_reading hsrc, writeOperand_eq hbyte]
  case loadImmediate dst =>
    simp only [instruction, Instruction.immediate, Instruction.plan, fetchImmediate_byte_bind,
      performPlanned, perform_writing h, UInt8.toUInt8_toUInt16]
  case loadWord dst =>
    simp only [instruction, Instruction.immediate, Instruction.plan, fetchImmediate_word_bind,
      performPlanned, perform_internal, writeRegister16_eq h]
    rfl
  case nop => rfl
  case halt => rfl
  case di => rfl
  case ei => rfl
  case loadSpHl => rfl
  case rotateA dir fill => rfl
  case daa => rfl
  case cpl => rfl
  case scf => rfl
  case ccf => rfl
  case jpHl => rfl
  case reti =>
    simp only [instruction, Instruction.immediate, Instruction.plan, fetchImmediate_none_bind,
      performPlanned, perform, access, returnToCaller, bind_assoc]
    rfl
  case rst target =>
    simp only [instruction, Instruction.immediate, Instruction.plan, fetchImmediate_none_bind,
      performPlanned, perform, access, Plan.calling, callTo, bind_assoc, pure_bind]
    rfl
  case aluImmediate op =>
    simp only [instruction, Instruction.immediate, Instruction.plan, fetchImmediate_byte_bind,
      performPlanned, UInt8.toUInt8_toUInt16]
    rfl
  case alu op src =>
    simp only [instruction, Instruction.immediate, Instruction.plan, fetchImmediate_none_bind,
      performPlanned, perform_reading h]
    rfl
  -- these differ from their plans only in how they name registers
  case inc dst =>
    simp only [instruction, Instruction.immediate, Instruction.plan, fetchImmediate_none_bind,
      performPlanned, perform_updating h]
  case dec dst =>
    simp only [instruction, Instruction.immediate, Instruction.plan, fetchImmediate_none_bind,
      performPlanned, perform_updating h]
  case incWord dst =>
    simp only [instruction, readRegister16_eq h, writeRegister16_eq h, bind_assoc, pure_bind]
    rfl
  case decWord dst =>
    simp only [instruction, readRegister16_eq h, writeRegister16_eq h, bind_assoc, pure_bind]
    rfl
  case addHl src =>
    simp only [instruction, readRegister16_eq h, bind_assoc, pure_bind, regs_bind_regs]
    rfl
  case push src =>
    simp only [instruction, Instruction.immediate, Instruction.plan, fetchImmediate_none_bind,
      performPlanned, perform, access, readRegister16_eq h, bind_assoc, pure_bind]
    rfl
  case pop dst =>
    simp only [instruction, writeRegister16_eq h]
    rfl
  case addSp =>
    simp only [instruction, Instruction.immediate, Instruction.plan, fetchImmediate_byte_bind,
      UInt8.toUInt8_toUInt16]
    rfl
  case loadHlSp =>
    simp only [instruction, Instruction.immediate, Instruction.plan, fetchImmediate_byte_bind,
      UInt8.toUInt8_toUInt16]
    rfl
  case storeSp =>
    simp only [instruction, Instruction.immediate, Instruction.plan, fetchImmediate_word_bind,
      performPlanned, perform, access, bind_assoc, pure_bind]
    rfl
  case ret cond =>
    cases cond with
    | none => exact Eq.symm (perform_returning (σ := σ) 16)
    | some cond =>
      simp only [instruction, Instruction.immediate, Instruction.plan, fetchImmediate_none_bind,
        performPlanned]
      refine Eq.symm ?_
      exact perform_branch (some cond) (perform_returning 20) rfl
  case loadA src =>
    cases src
    all_goals
      simp only [instruction, Instruction.immediate, Instruction.plan, fetchImmediate_none_bind,
        fetchImmediate_byte_bind, fetchImmediate_word_bind, address, performPlanned, perform,
        access, bind_assoc, pure_bind, UInt8.toUInt8_toUInt16]
      rfl
  case storeA dst =>
    cases dst
    all_goals
      simp only [instruction, Instruction.immediate, Instruction.plan, fetchImmediate_none_bind,
        fetchImmediate_byte_bind, fetchImmediate_word_bind, address, performPlanned, perform,
        access, bind_assoc, pure_bind, regs_bind_regs]
      rfl
  case stop =>
    simp only [instruction, Instruction.immediate, Instruction.plan, fetchImmediate_byte_bind]
    refine bind_congr fun v => ?_
    rw [UInt8.toUInt8_toUInt16]
    by_cases h : v ≠ 0
    · simp only [if_pos h, performPlanned]
      rfl
    · simp only [if_neg h, performPlanned]
      rfl
  case jr cond =>
    simp only [instruction, Instruction.immediate, Instruction.plan, fetchImmediate_byte_bind,
      performPlanned, UInt8.toUInt8_toUInt16]
    refine bind_congr fun e => Eq.symm ?_
    exact perform_branch cond rfl rfl
  case jp cond =>
    simp only [instruction, Instruction.immediate, Instruction.plan, fetchImmediate_word_bind,
      performPlanned]
    refine bind_congr fun w => Eq.symm ?_
    exact perform_branch cond rfl rfl
  case call cond =>
    simp only [instruction, Instruction.immediate, Instruction.plan, fetchImmediate_word_bind,
      performPlanned]
    refine bind_congr fun w => Eq.symm ?_
    exact perform_branch cond (perform_calling w 24) rfl

/-- A replacement that leaves the flags alone need not set them. -/
theorem updateOperand_keepFlags (r : Register) (f : UInt8 → UInt8) :
    (updateOperand r fun v flags => (f v, flags) : Exec σ Unit) =
      (do writeOperand r (f (← readOperand r))) :=
  bind_congr fun _ => rfl

/-- An extended instruction has no immediate bytes. -/
theorem extendedInstruction_eq {i : ExtendedInstruction} (h : i.target.IsOperand) :
    extendedInstruction i = (do let g ← regs; perform (i.plan g) : Exec σ Nat) := by
  obtain ⟨op, target⟩ := i
  cases op with
  | shift dir fill => exact (perform_updating h 4 12 _).symm
  | swap => exact (perform_updating h 4 12 _).symm
  | bit n => exact (perform_reading h 4 8 _).symm
  | res n =>
    simp only [extendedInstruction, ExtendedInstruction.plan, perform_updating h,
      updateOperand_keepFlags, bind_assoc]
  | set n =>
    simp only [extendedInstruction, ExtendedInstruction.plan, perform_updating h,
      updateOperand_keepFlags, bind_assoc]

end Exec

end Lr35902
