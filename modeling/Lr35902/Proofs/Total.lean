import Lr35902.Cpu.Step
import Lr35902.Proofs.Bus.Reliable
import Lr35902.Proofs.Plan

/-!
# Actions that cannot fail

An action is *total* on a set of states of the bus if it succeeds from each of them and ends in
another one (`Exec.Total`).  On a reliable bus all parts of instructions are total, and so are all
instructions but the one that checks the byte behind it (`Exec.total_instruction`).
-/

namespace Lr35902

namespace Exec

variable {σ α β : Type} {P : σ → Prop}

/-- The action succeeds if the bus is in `P`, and leaves it there. -/
def Total (P : σ → Prop) (x : Exec σ α) : Prop :=
  ∀ s, P s.bus → ∃ v t, x s = .ok v t ∧ P t.bus

namespace Total

theorem bind {x : Exec σ α} {f : α → Exec σ β} (hx : Total P x) (hf : ∀ v, Total P (f v)) :
    Total P (x >>= f) := by
  intro s hs
  obtain ⟨v, t, hv, ht⟩ := hx s hs
  obtain ⟨w, u, hw, hu⟩ := hf v t ht
  refine ⟨w, u, ?_, hu⟩
  rw [bind_apply, hv]
  exact hw

theorem pure (v : α) : Total P (Pure.pure v : Exec σ α) := fun s hs => ⟨v, s, rfl, hs⟩

theorem cpu : Total P (Exec.cpu : Exec σ Cpu) := fun s hs => ⟨s.cpu, s, rfl, hs⟩

theorem regs : Total P (Exec.regs : Exec σ RegisterFile) := fun s hs => ⟨s.cpu.regs, s, rfl, hs⟩

theorem modifyCpu (f : Cpu → Cpu) : Total P (Exec.modifyCpu f : Exec σ Unit) :=
  fun s hs => ⟨(), { s with cpu := f s.cpu }, rfl, hs⟩

theorem modifyRegs (f : RegisterFile → RegisterFile) :
    Total P (Exec.modifyRegs f : Exec σ Unit) := modifyCpu _

theorem spend (n : Nat) : Total P (Exec.spend n : Exec σ Nat) := (modifyCpu _).bind fun _ => pure n

theorem complete (ime : InterruptState) (n : Nat) : Total P (Exec.complete ime n : Exec σ Nat) := by
  unfold Exec.complete
  split
  · exact (modifyCpu _).bind fun _ => spend n
  · exact spend n

end Total

/-! ### Accesses to a reliable bus -/

variable [Bus σ] (hP : Bus.Reliable P)
include hP

theorem total_load (addr : UInt16) : Total P (load addr) := by
  intro s hs
  obtain ⟨h, hb⟩ := hP.read8_eq hs addr
  exact ⟨_, _, by rw [load_apply, h], hb⟩

theorem total_store (addr : UInt16) (v : UInt8) : Total P (store addr v) := by
  intro s hs
  obtain ⟨h, hb⟩ := hP.write8_eq hs addr v
  exact ⟨_, _, by rw [store_apply, h], hb⟩

theorem total_fetch : Total P fetch := by
  intro s hs
  obtain ⟨h, hb⟩ := hP.fetch8_eq hs s.cpu.regs.pc
  exact ⟨_, _, by rw [fetch_apply, h], hb⟩

theorem total_fetchImmediate (k : Immediate) : Total P (fetchImmediate k) := by
  have hfetch := total_fetch hP
  cases k with
  | none => exact .pure 0
  | byte => exact hfetch.bind fun v => .pure v.toUInt16
  | word => exact hfetch.bind fun lo => hfetch.bind fun hi => .pure (Word.pack hi lo)

theorem total_pushWord (w : UInt16) : Total P (pushWord w) :=
  Total.regs.bind fun g => (total_store hP (g.sp - 1) (Word.high w)).bind fun _ =>
    (total_store hP (g.sp - 2) (Word.low w)).bind fun _ => .modifyRegs _

theorem total_popWord : Total P popWord :=
  Total.regs.bind fun g => (total_load hP g.sp).bind fun lo =>
    (total_load hP (g.sp + 1)).bind fun hi => (Total.modifyRegs _).bind fun _ =>
      .pure (Word.pack hi lo)

theorem total_access (a : DataAccess) : Total P (access a) := by
  cases a with
  | none => exact .pure 0
  | load a => exact (total_load hP a).bind fun v => .pure v.toUInt16
  | store a v => exact (total_store hP a v).bind fun _ => .pure 0
  | update a f =>
    refine (total_load hP a).bind fun v => Total.regs.bind fun g => ?_
    exact (Total.modifyRegs _).bind fun _ => (total_store hP a _).bind fun _ => .pure 0
  | push w => exact (total_pushWord hP w).bind fun _ => .pure 0
  | pop => exact total_popWord hP
  | storeWord a w =>
    exact (total_store hP a _).bind fun _ => (total_store hP (a + 1) _).bind fun _ => .pure 0

theorem total_perform (p : Plan) : Total P (perform p) :=
  (total_access hP p.access).bind fun w => (Total.modifyCpu (p.finish w)).bind fun _ =>
    .pure p.cycles

/-! ### Instructions -/

omit [Bus σ] hP in
/-- Only one instruction can turn out not to have a plan. -/
theorem exists_plan {i : Instruction} (h : i ≠ .stop) (addr : UInt16) (g : RegisterFile)
    (imm : UInt16) : ∃ p, i.plan addr g imm = .ok p := by
  cases i
  case stop => exact absurd rfl h
  case ret cond => cases cond <;> exact ⟨_, rfl⟩
  all_goals exact ⟨_, rfl⟩

theorem total_instruction {i : Instruction} (hi : i.WellFormed) (h : i ≠ .stop) (addr : UInt16) :
    Total P (instruction addr i) := by
  rw [instruction_eq hi]
  refine (total_fetchImmediate hP i.immediate).bind fun imm => Total.regs.bind fun g => ?_
  obtain ⟨p, hp⟩ := exists_plan h addr g imm
  rw [hp]
  exact total_perform hP p

theorem total_extendedInstruction (b : UInt8) :
    Total P (extendedInstruction (ExtendedInstruction.decode b)) := by
  rw [extendedInstruction_eq (Register.isOperand_ofIndex b)]
  exact Total.regs.bind fun g => total_perform hP _

/-! ### Interrupts -/

theorem total_dispatch (i : Interrupt) : Total P (dispatch i) := by
  refine Total.regs.bind fun g => (total_pushWord hP g.pc).bind fun _ => ?_
  refine (total_load hP Interrupt.requestAddr).bind fun requested => ?_
  refine (total_store hP Interrupt.requestAddr _).bind fun _ => ?_
  exact (Total.modifyRegs _).bind fun _ => (Total.modifyCpu _).bind fun _ => .spend _

end Exec

end Lr35902
