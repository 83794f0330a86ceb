import Lr35902.Proofs.Atomicity
import Lr35902.Proofs.Bus.Refinement
import Lr35902.Proofs.Cycles
import Lr35902.Proofs.StepKind

/-!
# A processor and its driver

Whoever drives a processor may call for anything at any time, on any bus, and may go on after a call
that has failed (`Cpu.Driven`).  Whatever the calls are, a processor that waits is between two
instructions and has no enabling of interrupts pending (`Cpu.Driven.settled`).  So a step that waits
has neither to look after.

A processor that does what comes next is driven, too (`Exec.drives_tick`).
-/

namespace Lr35902

/-- The processor comes from a start by calls and resets.  Each call is made on a bus of its own,
and one that fails is a call, too. -/
inductive Cpu.Driven : Cpu → Prop
  | init (start : StartState) (ime : InterruptState) : Driven (.init start ime)
  | call {cpu : Cpu} (h : Driven cpu) {σ : Type} [Bus σ] (c : Call) (bus : σ) :
      Driven (final c.exec ⟨cpu, bus⟩).cpu
  | reset {cpu : Cpu} (h : Driven cpu) (start : StartState) : Driven (cpu.reset start)

/-- Every bus keeps what shows nothing of it. -/
theorem Bus.keeps_nothing {σ : Type} [Bus σ] : Bus.Keeps fun _ : σ => () where
  read8 _ _ := rfl
  fetch8 _ _ := rfl
  write8 _ := rfl

namespace Exec

variable {σ α : Type}

/-- An action that changes registers only leaves the control alone. -/
theorem OnlyRegs.control {x : Exec σ α} (hx : OnlyRegs x) (s : Board σ) :
    (final x s).cpu.control = s.cpu.control := by
  obtain ⟨g, hg⟩ := hx s
  rw [hg]
  rfl

variable [Bus σ] {s t : Board σ} {n : Nat} {e : Fault} {i : Interrupt}

/-! ### What settles -/

/-- A step can only fail where the processor executes, and it leaves it executing. -/
theorem run_of_step_error (h : step s = .error e t) : t.cpu.run = .normal := by
  have hrun : s.cpu.run = .normal := by
    refine Decidable.byContradiction fun hwaiting => ?_
    rw [step_waiting hwaiting] at h
    cases h
  obtain ⟨n, u, hu, ht, -⟩ := step_error Bus.keeps_nothing h
  obtain ⟨hcpu, -⟩ := hu.kept Bus.keeps_nothing
  rw [ht, hcpu]
  exact hrun

theorem onlyRegs_pendingInterrupt : OnlyRegs (pendingInterrupt : Exec σ (Option Interrupt)) :=
  (OnlyRegs.onBus _).bind fun _ => (OnlyRegs.onBus _).bind fun _ => .pure _

theorem settled_step (hs : s.cpu.control.Settled) : (final step s).cpu.control.Settled := by
  cases h : step s with
  | ok n t =>
    obtain ⟨hfits, ht⟩ := step_control_of_ok h
    rw [final_ok h, ht]
    exact StepKind.settled hfits hs
  | error e t =>
    rw [final_error h]
    exact fun hwaiting => absurd (run_of_step_error h) hwaiting

theorem settled_dispatch (i : Interrupt) (hs : s.cpu.control.Settled) :
    (final (dispatch i) s).cpu.control.Settled := by
  cases h : dispatch i s with
  | ok n t =>
    rw [final_ok h]
    exact fun hwaiting => absurd (dispatch_ok h).2.2 hwaiting
  | error e t =>
    -- a dispatch that fails has moved the stack pointer at most
    obtain ⟨-, ht⟩ := dispatch_error Bus.keeps_nothing h
    rw [final_error h, ht]
    exact hs

theorem settled_call (c : Call) (hs : s.cpu.control.Settled) :
    (final c.exec s).cpu.control.Settled := by
  cases c with
  | step =>
    rw [Call.exec, final_bind_pure]
    exact settled_step hs
  | pendingInterrupt =>
    rw [Call.exec, final_bind_pure, onlyRegs_pendingInterrupt.control]
    exact hs
  | dispatch i =>
    rw [Call.exec, final_bind_pure]
    exact settled_dispatch i hs
  | wake => exact fun hwaiting => absurd rfl hwaiting

end Exec

/-- Whatever its driver has called for, a processor that waits is between two instructions and has
no enabling of interrupts pending. -/
theorem Cpu.Driven.settled {cpu : Cpu} (h : cpu.Driven) : cpu.control.Settled := by
  induction h with
  | init start ime => exact fun hwaiting => absurd rfl hwaiting
  | call _ c bus ih => exact Exec.settled_call c ih
  | reset _ start => exact fun hwaiting => absurd rfl hwaiting

namespace Exec

variable {σ α β : Type}

/-! ### What drives -/

/-- Whether the action succeeds or fails, it does to the processor what a driver could do. -/
def Drives (x : Exec σ α) : Prop := ∀ s, s.cpu.Driven → (final x s).cpu.Driven

namespace Drives

theorem bind {x : Exec σ α} {f : α → Exec σ β} (hx : Drives x) (hf : ∀ v, Drives (f v)) :
    Drives (x >>= f) := by
  intro s hs
  have hdriven := hx s hs
  cases h : x s with
  | ok v t =>
    rw [final_ok h] at hdriven
    rw [final_bind h]
    exact hf v t hdriven
  | error e t =>
    rw [final_error h] at hdriven
    rw [final_error (bind_eq_error_iff.2 (.inl h))]
    exact hdriven

theorem pure (v : α) : Drives (Pure.pure v : Exec σ α) := fun _ hs => hs

theorem cpu : Drives (Exec.cpu : Exec σ Cpu) := fun _ hs => hs

variable [Bus σ]

/-- An action is what a driver could do if a call for it is. -/
theorem of_call {x : Exec σ α} (c : Call) {f : α → Reply}
    (h : c.exec = x >>= fun v => Pure.pure (f v)) : Drives x := by
  rintro ⟨cpu, bus⟩ hs
  have hdriven := hs.call c bus
  rwa [h, final_bind_pure] at hdriven

end Drives

variable [Bus σ]

theorem drives_pollInterrupts : Drives (pollInterrupts : Exec σ (Option Nat)) := by
  have hpending : Drives (pendingInterrupt : Exec σ (Option Interrupt)) :=
    .of_call .pendingInterrupt rfl
  have hwake : Drives (wake : Exec σ Unit) := .of_call .wake rfl
  refine Drives.cpu.bind fun before => ?_
  split
  · exact .pure none
  refine hpending.bind fun pending => ?_
  cases pending with
  | none => exact .pure none
  | some i =>
    have hdispatch : Drives (dispatch i : Exec σ Nat) := .of_call (.dispatch i) rfl
    dsimp only
    split
    · exact hdispatch.bind fun n => .pure (some n)
    split
    · exact hwake.bind fun _ => .pure none
    · exact .pure none

/-- Doing what comes next is a series of calls. -/
theorem drives_tick : Drives (tick : Exec σ Nat) := by
  refine drives_pollInterrupts.bind fun cycles => ?_
  cases cycles with
  | some n => exact .pure n
  | none => exact .of_call .step rfl

end Exec

end Lr35902
