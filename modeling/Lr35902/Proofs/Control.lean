import Lr35902.Proofs.Plan
import Lr35902.Proofs.Step

/-!
# How the processor goes on

The interrupt switch, the run state and the table of the next opcode decide what the processor does
next; together they are its `Control`.  Fetching bytes and accessing data changes nothing of the
processor but registers (`Exec.OnlyRegs`), so what an instruction does to the control can be read
off its name, and nothing else is changed (`Exec.instruction_ok`).
-/

namespace Lr35902

/-- The part of the processor that decides how it goes on. -/
structure Control where
  /-- Whether interrupts are let through. -/
  ime : InterruptState
  run : RunState
  mode : DecodeMode
deriving DecidableEq

/-- The control of the processor. -/
def Cpu.control (cpu : Cpu) : Control := ⟨cpu.ime, cpu.run, cpu.mode⟩

namespace Control

/-- The control after the end of an instruction that began with the interrupt switch in `before`. -/
def completed (before : InterruptState) (c : Control) : Control :=
  if before = .pendingEnable then { c with ime := c.ime.instructionCompleted } else c

variable (c : Control) {before : InterruptState}

/-- An enabling of interrupts that was pending takes effect when the next instruction ends. -/
theorem ime_completed_ne (h : before = .pendingEnable) :
    (c.completed before).ime ≠ .pendingEnable := by
  rw [completed, if_pos h]
  exact c.ime.instructionCompleted_ne_pendingEnable

theorem completed_of_ne (h : before ≠ .pendingEnable) : c.completed before = c := if_neg h

@[simp] theorem run_completed (before : InterruptState) : (c.completed before).run = c.run := by
  unfold completed
  split <;> rfl

@[simp] theorem mode_completed (before : InterruptState) : (c.completed before).mode = c.mode := by
  unfold completed
  split <;> rfl

/-- A processor that waits is between two instructions, and no enabling of interrupts is pending. -/
def Settled (c : Control) : Prop :=
  c.run ≠ .normal → c.mode = .primary ∧ c.ime ≠ .pendingEnable

end Control

/-- What an instruction itself does to the control. -/
def Instruction.control (c : Control) : Instruction → Control
  | stop => { c with run := .stopped }
  | halt => { c with run := .halted }
  | di => { c with ime := .blocked }
  | ei => { c with ime := .pendingEnable }
  | reti => { c with ime := .interruptible }
  | _ => c

@[simp] theorem Instruction.mode_control (i : Instruction) (c : Control) :
    (i.control c).mode = c.mode := by
  cases i <;> rfl

/-- The instructions that move the interrupt switch. -/
theorem Instruction.ime_control {i : Instruction} (c : Control) (hdi : i ≠ .di) (hei : i ≠ .ei)
    (hreti : i ≠ .reti) : (i.control c).ime = c.ime := by
  cases i
  case di => exact absurd rfl hdi
  case ei => exact absurd rfl hei
  case reti => exact absurd rfl hreti
  all_goals rfl

/-- The instructions that end in a waiting state. -/
theorem Instruction.eq_of_run_control {i : Instruction} {c : Control}
    (h : (i.control c).run ≠ c.run) : i = .halt ∨ i = .stop := by
  cases i
  case halt => exact .inl rfl
  case stop => exact .inr rfl
  all_goals exact absurd rfl h

/-! ### Plans -/

/-- The processor with its control replaced. -/
def Cpu.withControl (cpu : Cpu) (c : Control) : Cpu :=
  { cpu with ime := c.ime, run := c.run, mode := c.mode }

/-- The cycles that an instruction can take. -/
def Instruction.durations : List Nat := [4, 8, 12, 16, 20, 24]

namespace Plan

/-- The plan takes as long as some instruction does.  Besides registers it changes the control only,
as `change` says. -/
structure Follows (p : Plan) (change : Control → Control) : Prop where
  cycles : p.cycles ∈ Instruction.durations
  finish : ∀ w cpu, ∃ g, p.finish w cpu = { cpu.withControl (change cpu.control) with regs := g }

variable (g : RegisterFile) (r : Register) {m n : Nat}

theorem follows_internal (hm : m ∈ Instruction.durations)
    (change : RegisterFile → RegisterFile) : (internal m (onRegs change)).Follows id :=
  ⟨hm, fun _ cpu => ⟨change cpu.regs, rfl⟩⟩

section

variable (hm : m ∈ Instruction.durations) (hn : n ∈ Instruction.durations)
include hm hn

theorem follows_reading (use : UInt8 → RegisterFile → RegisterFile) :
    (reading g r m n use).Follows id := by
  unfold reading
  split
  · exact ⟨hn, fun _ _ => ⟨_, rfl⟩⟩
  · exact follows_internal hm _

theorem follows_writing (v : UInt8) : (writing g r v m n).Follows id := by
  unfold writing
  split
  · exact ⟨hn, fun _ _ => ⟨_, rfl⟩⟩
  · exact follows_internal hm _

theorem follows_updating (f : UInt8 → Flags → UInt8 × Flags) :
    (updating g r m n f).Follows id := by
  unfold updating
  split
  · exact ⟨hn, fun _ _ => ⟨_, rfl⟩⟩
  · exact follows_internal hm _

theorem follows_jumping (cond : Option Condition) (target : UInt16) :
    (jumping g cond target m n).Follows id := by
  unfold jumping
  split
  · exact follows_internal hn _
  · exact follows_internal hm id

end

end Plan

theorem Exec.transferCycles_mem (place : Location) :
    transferCycles place ∈ Instruction.durations := by
  cases place <;> decide

/-- The plan of an instruction changes the control as the instruction's name says. -/
theorem Instruction.follows_plan {i : Instruction} {addr imm : UInt16} {g : RegisterFile}
    {p : Plan} (h : i.plan addr g imm = .ok p) : p.Follows fun c => i.control c := by
  cases i
  case stop =>
    by_cases hzero : imm.toUInt8 ≠ 0
    · simp only [plan, if_pos hzero, reduceCtorEq] at h
    · simp only [plan, if_neg hzero, Except.ok.injEq] at h
      rw [← h]
      exact ⟨by decide, fun _ _ => ⟨_, rfl⟩⟩
  case load dst src =>
    cases h
    split
    · exact Plan.follows_writing g dst (by decide) (by decide) _
    · exact Plan.follows_reading g src (by decide) (by decide) _
  case loadImmediate dst =>
    cases h
    exact Plan.follows_writing g dst (by decide) (by decide) _
  case alu op src =>
    cases h
    exact Plan.follows_reading g src (by decide) (by decide) _
  case inc dst =>
    cases h
    exact Plan.follows_updating g dst (by decide) (by decide) _
  case dec dst =>
    cases h
    exact Plan.follows_updating g dst (by decide) (by decide) _
  case jr cond =>
    cases h
    exact Plan.follows_jumping g (by decide) (by decide) cond _
  case jp cond =>
    cases h
    exact Plan.follows_jumping g (by decide) (by decide) cond _
  case loadA src =>
    cases h
    exact ⟨Exec.transferCycles_mem src, fun _ _ => ⟨_, rfl⟩⟩
  case storeA dst =>
    cases h
    exact ⟨Exec.transferCycles_mem dst, fun _ _ => ⟨_, rfl⟩⟩
  case call cond =>
    cases h
    split
    · exact ⟨of_decide_eq_true rfl, fun _ _ => ⟨_, rfl⟩⟩
    · exact Plan.follows_internal (by decide) id
  case ret cond =>
    cases cond with
    | none =>
      cases h
      exact ⟨by decide, fun _ _ => ⟨_, rfl⟩⟩
    | some cond =>
      cases h
      split
      · exact ⟨by decide, fun _ _ => ⟨_, rfl⟩⟩
      · exact Plan.follows_internal (by decide) id
  -- the plans of the others do not depend on conditions or operands
  all_goals
    cases h
    exact ⟨of_decide_eq_true rfl, fun _ _ => ⟨_, rfl⟩⟩

theorem ExtendedInstruction.follows_plan (i : ExtendedInstruction) (g : RegisterFile) :
    (i.plan g).Follows id := by
  have h₄ : 4 ∈ Instruction.durations := by decide
  have h₈ : 8 ∈ Instruction.durations := by decide
  have h₁₂ : 12 ∈ Instruction.durations := by decide
  obtain ⟨op, target⟩ := i
  cases op with
  | bit n =>
    simp only [plan]
    exact Plan.follows_reading g target h₄ h₈ _
  | shift dir fill => exact Plan.follows_updating g target h₄ h₁₂ _
  | swap => exact Plan.follows_updating g target h₄ h₁₂ _
  | res n => exact Plan.follows_updating g target h₄ h₁₂ _
  | set n => exact Plan.follows_updating g target h₄ h₁₂ _

namespace Exec

variable {σ α β : Type}

/-! ### Actions that change registers only -/

/-- Whether the action succeeds or fails, it changes nothing of the processor but registers. -/
def OnlyRegs (x : Exec σ α) : Prop := ∀ s, ∃ g, (final x s).cpu = { s.cpu with regs := g }

namespace OnlyRegs

theorem bind {x : Exec σ α} {f : α → Exec σ β} (hx : OnlyRegs x)
    (hf : ∀ v, OnlyRegs (f v)) : OnlyRegs (x >>= f) := by
  intro s
  obtain ⟨g, hg⟩ := hx s
  unfold final at hg ⊢
  rw [bind_apply]
  cases h : x s with
  | ok v t =>
    rw [h] at hg
    obtain ⟨g', hg'⟩ := hf v t
    exact ⟨g', by rw [← final, hg', hg]⟩
  | error e t =>
    rw [h] at hg
    exact ⟨g, hg⟩

theorem pure (v : α) : OnlyRegs (Pure.pure v : Exec σ α) := fun s => ⟨s.cpu.regs, rfl⟩

theorem regs : OnlyRegs (Exec.regs : Exec σ RegisterFile) := fun s => ⟨s.cpu.regs, rfl⟩

theorem modifyRegs (f : RegisterFile → RegisterFile) :
    OnlyRegs (Exec.modifyRegs f : Exec σ Unit) := fun s => ⟨f s.cpu.regs, rfl⟩

theorem onBus (access : EStateM Fault σ α) : OnlyRegs (Exec.onBus access) := by
  intro s
  refine ⟨s.cpu.regs, ?_⟩
  unfold final
  rw [onBus_apply]
  cases access s.bus <;> rfl

theorem of_ok {x : Exec σ α} (hx : OnlyRegs x) {s t : Board σ} {v : α} (h : x s = .ok v t) :
    ∃ g, t.cpu = { s.cpu with regs := g } := by
  rw [← final_ok h]
  exact hx s

end OnlyRegs

variable [Bus σ]

theorem onlyRegs_fetch : OnlyRegs (fetch : Exec σ UInt8) :=
  OnlyRegs.regs.bind fun _ => (OnlyRegs.onBus _).bind fun v =>
    (OnlyRegs.modifyRegs _).bind fun _ => .pure v

theorem onlyRegs_fetchImmediate (k : Immediate) :
    OnlyRegs (fetchImmediate k : Exec σ UInt16) := by
  have hfetch := onlyRegs_fetch (σ := σ)
  cases k with
  | none => exact .pure 0
  | byte => exact hfetch.bind fun v => .pure v.toUInt16
  | word => exact hfetch.bind fun lo => hfetch.bind fun hi => .pure (Word.pack hi lo)

theorem onlyRegs_pushWord (w : UInt16) : OnlyRegs (pushWord w : Exec σ Unit) :=
  OnlyRegs.regs.bind fun _ => (OnlyRegs.onBus _).bind fun _ =>
    (OnlyRegs.onBus _).bind fun _ => .modifyRegs _

theorem onlyRegs_popWord : OnlyRegs (popWord : Exec σ UInt16) :=
  OnlyRegs.regs.bind fun _ => (OnlyRegs.onBus _).bind fun lo =>
    (OnlyRegs.onBus _).bind fun hi => (OnlyRegs.modifyRegs _).bind fun _ =>
      .pure (Word.pack hi lo)

theorem onlyRegs_access (a : DataAccess) : OnlyRegs (access a : Exec σ UInt16) := by
  cases a with
  | none => exact .pure 0
  | load a => exact (OnlyRegs.onBus _).bind fun v => .pure v.toUInt16
  | store a v => exact (OnlyRegs.onBus _).bind fun _ => .pure 0
  | update a f =>
    refine (OnlyRegs.onBus _).bind fun _ => OnlyRegs.regs.bind fun _ => ?_
    exact (OnlyRegs.modifyRegs _).bind fun _ => (OnlyRegs.onBus _).bind fun _ => .pure 0
  | push w => exact (onlyRegs_pushWord w).bind fun _ => .pure 0
  | pop => exact onlyRegs_popWord
  | storeWord a w =>
    exact (OnlyRegs.onBus _).bind fun _ => (OnlyRegs.onBus _).bind fun _ => .pure 0

/-! ### Instructions -/

variable {s t : Board σ} {n : Nat}

/-- A plan that is carried out does to the processor, besides registers, what it follows. -/
theorem perform_ok {p : Plan} {change : Control → Control} (hp : p.Follows change)
    (h : perform p s = .ok n t) :
    n ∈ Instruction.durations ∧
      ∃ g, t.cpu = { s.cpu.withControl (change s.cpu.control) with regs := g } := by
  obtain ⟨w, u, haccess, hfinish⟩ := bind_eq_ok_iff.1 h
  obtain ⟨g, hu⟩ := (onlyRegs_access p.access).of_ok haccess
  obtain ⟨g', hg'⟩ := hp.finish w u.cpu
  cases hfinish
  refine ⟨hp.cycles, g', ?_⟩
  change p.finish w u.cpu = _
  rw [hg', hu]
  rfl

/-- An instruction takes one of the durations.  Besides registers it changes the control only. -/
theorem instruction_ok {i : Instruction} (hi : i.WellFormed) {addr : UInt16}
    (h : instruction addr i s = .ok n t) :
    n ∈ Instruction.durations ∧
      ∃ g, t.cpu = { s.cpu.withControl (i.control s.cpu.control) with regs := g } := by
  rw [instruction_eq hi] at h
  obtain ⟨imm, u, himmediate, h⟩ := bind_eq_ok_iff.1 h
  obtain ⟨g, hu⟩ := (onlyRegs_fetchImmediate i.immediate).of_ok himmediate
  simp only [bind_apply, regs_apply] at h
  cases hp : i.plan addr u.cpu.regs imm with
  | ok p =>
    rw [hp] at h
    obtain ⟨hn, g', ht⟩ := perform_ok (Instruction.follows_plan hp) h
    rw [hu] at ht
    exact ⟨hn, g', ht⟩
  | error e =>
    rw [hp] at h
    cases h

theorem extendedInstruction_ok {b : UInt8}
    (h : extendedInstruction (ExtendedInstruction.decode b) s = .ok n t) :
    n ∈ Instruction.durations ∧ ∃ g, t.cpu = { s.cpu with regs := g } := by
  rw [extendedInstruction_eq (Register.isOperand_ofIndex b), bind_apply, regs_apply] at h
  exact perform_ok (ExtendedInstruction.follows_plan _ _) h

theorem control_instruction {i : Instruction} (hi : i.WellFormed) {addr : UInt16}
    (h : instruction addr i s = .ok n t) : t.cpu.control = i.control s.cpu.control := by
  obtain ⟨-, g, ht⟩ := instruction_ok hi h
  rw [ht]
  rfl

theorem control_extendedInstruction {b : UInt8}
    (h : extendedInstruction (ExtendedInstruction.decode b) s = .ok n t) :
    t.cpu.control = s.cpu.control := by
  obtain ⟨-, g, ht⟩ := extendedInstruction_ok h
  rw [ht]
  rfl

omit [Bus σ] in
theorem control_complete {ime : InterruptState} {k : Nat} (h : complete ime k s = .ok n t) :
    t.cpu.control = s.cpu.control.completed ime := by
  unfold complete at h
  unfold Control.completed
  split at h
  · rename_i hpending
    cases h
    rw [if_pos hpending]
    rfl
  · rename_i hpending
    cases h
    rw [if_neg hpending]
    rfl

end Exec

end Lr35902
