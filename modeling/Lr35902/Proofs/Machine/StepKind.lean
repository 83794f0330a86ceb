import Lr35902.Proofs.Driven
import Lr35902.Proofs.Machine.Dispatch

/-!
# What a step of a machine comes to

A step of a machine dispatches an interrupt or is a step of the processor, and its kind tells what
it needs and what it does to the control (`Machine.step_control`).  The steps of a machine drive its
processor (`Machine.Reachable.driven`), so one that waits is between two instructions and has no
enabling of interrupts pending (`Machine.Reachable.settled`).
-/

namespace Lr35902

namespace Machine

variable {m : Machine}

/-- What the machine's next step comes to. -/
def stepKind (m : Machine) : StepKind :=
  match Exec.pollInterrupts m.board with
  | .ok (some _) _ => .dispatch
  | .ok none s => Exec.stepKind s
  | .error .. => .failed

theorem stepKind_of_dispatches (h : m.Dispatches) : m.stepKind = .dispatch := by
  obtain ⟨n, s, hs⟩ := h
  rw [stepKind, hs]

theorem stepKind_of_not_dispatches (hm : m.bus.WellFormed) (h : ¬ m.Dispatches) :
    m.stepKind = Exec.stepKind ⟨m.polled, m.bus⟩ := by
  rw [stepKind, pollInterrupts_of_not_dispatches hm h]

/-- Polling leaves the interrupt switch alone unless it dispatches. -/
theorem polled_ime (m : Machine) : m.polled.ime = m.cpu.ime := by
  unfold polled
  split <;> rfl

/-- Polling does not start a processor that has stopped. -/
theorem polled_run_eq_stopped_iff : m.polled.run = .stopped ↔ m.cpu.run = .stopped := by
  unfold polled
  by_cases h : m.cpu.run = .halted ∧ m.HasPending
  · simp [h, Cpu.wake]
  · simp [h]

theorem control_entered (m : Machine) (i : Interrupt) (n : Nat) :
    ((m.entered i).advanceDisplay n).cpu.control = ⟨.blocked, .normal, m.cpu.mode⟩ := rfl

/-- The kind of a step tells what it began with and what it did to the control. -/
theorem step_control (hm : m.bus.WellFormed) :
    m.stepKind.Fits m.polled.control ∧
      m.next.cpu.control = m.stepKind.control m.polled.control := by
  by_cases h : m.Dispatches
  · obtain ⟨hrun, hime, hmode, -⟩ := (dispatches_iff hm).1 h
    obtain ⟨i, -, hstep⟩ := step_of_dispatches hm h
    rw [stepKind_of_dispatches h, next, final_ok hstep]
    refine ⟨⟨?_, (polled_ime m).trans hime, (polled_mode m).trans hmode⟩, ?_⟩
    · exact mt polled_run_eq_stopped_iff.1 hrun
    · rw [control_entered, ← polled_mode]
      rfl
  · rw [stepKind_of_not_dispatches hm h, cpu_next, final, tick_of_not_dispatches hm h]
    exact Exec.step_control (s := ⟨m.polled, m.bus⟩) SystemBus.reliable hm

/-- The interrupt switch after a step depends on the kind of the step and on the switch before. -/
theorem ime_next (hm : m.bus.WellFormed) :
    m.next.cpu.ime = (m.stepKind.control m.polled.control).ime :=
  congrArg Control.ime (step_control hm).2

/-- The steps of the first kind are those that dispatch. -/
theorem stepKind_eq_dispatch_iff : m.stepKind = .dispatch ↔ m.Dispatches := by
  refine ⟨fun h => ?_, stepKind_of_dispatches⟩
  unfold stepKind at h
  cases hpoll : Exec.pollInterrupts m.board with
  | ok cycles s =>
    rw [hpoll] at h
    cases cycles with
    | some n => exact ⟨n, s, hpoll⟩
    | none => exact absurd h (Exec.stepKind_ne_dispatch s)
  | error e s =>
    rw [hpoll] at h
    cases h

/-- The steps of a machine do to its processor what a driver could do. -/
theorem Reachable.driven (hm : m.Reachable) : m.cpu.Driven := by
  refine hm.invariant (P := (·.cpu.Driven)) (fun m hm => ?_) (fun m _ ih => ?_)
  · obtain ⟨start, hcpu⟩ := hm.cpu_eq
    rw [hcpu]
    exact .init start .blocked
  · rw [cpu_next]
    exact Exec.drives_tick m.board ih

/-- A reachable machine whose processor waits is between two instructions, and no enabling of
interrupts is pending. -/
theorem Reachable.settled (hm : m.Reachable) : m.cpu.control.Settled := hm.driven.settled

end Machine

end Lr35902
