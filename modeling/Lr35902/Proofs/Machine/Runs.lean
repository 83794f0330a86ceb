import Lr35902.Proofs.Machine.Clocks
import Lr35902.Proofs.Machine.Reasons

/-!
# Complete runs

A run that is left alone makes steps until there is a reason to stop or a step fails.
`Machine.RunsTo` is that run, with the number of its successful steps; it has one end at most
(`Machine.RunsTo.unique`), which `Machine.runFor` comes to when it is given enough steps
(`Machine.runFor_of_runsTo`).

Under a limit of cycles every run has an end, and the limits are tight (`Machine.runWithin_tight`):
the run makes no more steps than fit if all of them are as short as a step can be, it overshoots the
limit of cycles by less than the longest step, and the limit of frames not at all.
-/

namespace Lr35902

/-- The reason for which the run has ended. -/
def RunResult.reason? : RunResult → Option StopReason
  | ended reason _ => some reason
  | paused _ | failed .. => none

namespace Machine

/-- From the machine, `k` steps that succeed lead to the end of the run: there is a reason to stop
by then, or the next step fails. -/
inductive RunsTo (limits : Limits) : Machine → Nat → RunResult → Prop
  | ended {m : Machine} {reason : StopReason} (h : m.stopReason? limits = some reason) :
      RunsTo limits m 0 (.ended reason m)
  | failed {m m' : Machine} {e : Fault} (hgo : m.stopReason? limits = none)
      (h : m.step = .error e m') : RunsTo limits m 0 (.failed e m')
  | step {m m' : Machine} {n k : Nat} {r : RunResult} (hgo : m.stopReason? limits = none)
      (h : m.step = .ok n m') (hrun : RunsTo limits m' k r) : RunsTo limits m (k + 1) r

variable {m m' : Machine} {limits : Limits} {reason : StopReason} {r r' : RunResult} {k j n : Nat}
  {maxCycles : Nat} {maxFrames : Option Nat}

/-- With enough steps a run comes to its end. -/
theorem runFor_of_runsTo (h : RunsTo limits m k r) (hn : k < n) : m.runFor limits n = r := by
  induction h generalizing n with
  | ended hstop =>
    cases n with
    | zero => exact absurd hn (Nat.not_lt_zero 0)
    | succ n => rw [runFor_succ, hstop]
  | failed hgo hstep =>
    cases n with
    | zero => exact absurd hn (Nat.not_lt_zero 0)
    | succ n => simp only [runFor_succ, hgo, hstep]
  | step hgo hstep _ ih =>
    cases n with
    | zero => exact absurd hn (Nat.not_lt_zero _)
    | succ n =>
      simp only [runFor_succ, hgo, hstep]
      exact ih (Nat.lt_of_succ_lt_succ hn)

/-- A run has one end. -/
theorem RunsTo.unique (h : RunsTo limits m k r) (h' : RunsTo limits m j r') : r = r' := by
  have hr : m.runFor limits (k + j + 1) = r := runFor_of_runsTo h (by omega)
  rw [← hr]
  exact runFor_of_runsTo h' (by omega)

/-- A run of a reachable machine leads to another one. -/
theorem RunsTo.reachable (h : RunsTo limits m k r) (hm : m.Reachable) : r.machine.Reachable := by
  induction h with
  | ended _ => exact hm
  | failed _ hstep => exact hm.fault hstep
  | step _ hstep _ ih => exact ih (hm.step hstep)

/-- A run that has ended had the reason that it gives. -/
theorem RunsTo.stopReason?_of_reason? (h : RunsTo limits m k r) (hr : r.reason? = some reason) :
    r.machine.stopReason? limits = some reason := by
  induction h with
  | ended hstop => exact hstop.trans hr
  | failed _ _ => cases hr
  | step _ _ _ ih => exact ih hr

/-! ### Bounds -/

/-- A step that succeeds takes at least 4 and at most 24 cycles, which the processor counts, and
completes one frame at most. -/
theorem step_bounds (hm : m.bus.WellFormed) (h : m.step = .ok n m') :
    m.cpu.cycles + 4 ≤ m'.cpu.cycles ∧ m'.cpu.cycles ≤ m.cpu.cycles + 24 ∧
      m'.lcd.frames ≤ m.lcd.frames + 1 := by
  have hdurations : ∀ n ∈ Instruction.durations, 4 ≤ n ∧ n ≤ 24 := by decide
  obtain ⟨hn, hcycles⟩ := step_ok hm h
  obtain ⟨hshortest, hlongest⟩ := hdurations n hn
  obtain ⟨s, -, rfl⟩ := step_eq_ok_iff.1 h
  refine ⟨by omega, by omega, ?_⟩
  change (m.lcd.advance s.bus.memory n).1.frames ≤ m.lcd.frames + 1
  have hframes := m.lcd.frames_advance s.bus.memory n
  omega

/-- Under a limit of cycles a run has an end.  What is left to the limit pays for its steps. -/
theorem exists_runsTo (hm : m.Reachable) (maxCycles : Nat) (maxFrames : Option Nat) :
    ∃ k r, RunsTo ⟨some maxCycles, maxFrames⟩ m k r ∧ 4 * k < maxCycles - m.cpu.cycles + 4 := by
  induction hleft : maxCycles - m.cpu.cycles using Nat.strongRecOn generalizing m with
  | ind left ih =>
    cases hstop : m.stopReason? ⟨some maxCycles, maxFrames⟩ with
    | some reason => exact ⟨0, _, .ended hstop, by omega⟩
    | none =>
      have hbelow := (below_of_stopReason? hstop).1
      cases hstep : m.step with
      | ok n m' =>
        have hcycles := (step_bounds hm.wellFormed hstep).1
        obtain ⟨k, r, hrun, hk⟩ := ih _ (by omega) (hm.step hstep) rfl
        exact ⟨k + 1, r, .step hstop hstep hrun, by omega⟩
      | error e m' => exact ⟨0, _, .failed hstop hstep, by omega⟩

/-- `Machine.runWithin` comes to that end. -/
theorem runsTo_runWithin (hm : m.Reachable) (maxCycles : Nat) (maxFrames : Option Nat) :
    ∃ k ≤ (maxCycles - m.cpu.cycles + 3) / 4,
      RunsTo ⟨some maxCycles, maxFrames⟩ m k (m.runWithin maxCycles maxFrames) := by
  obtain ⟨k, r, hrun, hk⟩ := exists_runsTo hm maxCycles maxFrames
  have hfits : k < stepBound maxCycles m.cpu.cycles := by
    unfold stepBound
    omega
  refine ⟨k, by omega, ?_⟩
  rw [runWithin, runFor_of_runsTo hrun hfits]
  exact hrun

/-- A run that begins below its limit of cycles overshoots it by less than the longest step. -/
theorem RunsTo.cycles_lt (h : RunsTo ⟨some maxCycles, maxFrames⟩ m k r) (hm : m.Reachable)
    (hbelow : m.cpu.cycles < maxCycles + 24) : r.machine.cpu.cycles < maxCycles + 24 := by
  induction h with
  | ended _ => exact hbelow
  | failed _ hstep =>
    rw [← (step_error hm hstep).1] at hbelow
    exact hbelow
  | step hgo hstep _ ih =>
    have hcycles := (below_of_stopReason? hgo).1
    have hcounted := (step_bounds hm.wellFormed hstep).2.1
    exact ih (hm.step hstep) (by omega)

/-- A run never exceeds its limit of frames. -/
theorem RunsTo.frames_le {limit : Nat} (h : RunsTo ⟨some maxCycles, some limit⟩ m k r)
    (hm : m.Reachable) (hbelow : m.lcd.frames ≤ limit) : r.machine.lcd.frames ≤ limit := by
  induction h with
  | ended _ => exact hbelow
  | failed _ hstep =>
    rw [← (step_error hm hstep).2.1] at hbelow
    exact hbelow
  | step hgo hstep _ ih =>
    have hframes := (below_of_stopReason? hgo).2
    have hlt := Nat.lt_of_not_le (mt reached_some.2 (Bool.eq_false_iff.1 hframes))
    have hcounted := (step_bounds hm.wellFormed hstep).2.2
    exact ih (hm.step hstep) (by omega)

/-- Under a limit of cycles the run of a reachable machine comes to its end, in no more steps than
fit if each of them takes 4 cycles.  Below the limits at its start, it ends less than 24 cycles
behind the limit of cycles, at or behind it if that is the reason for its end, and exactly at the
limit of frames if that one is. -/
theorem runWithin_tight (hm : m.Reachable) (maxCycles : Nat) (maxFrames : Option Nat) :
    let r := m.runWithin maxCycles maxFrames
    (∃ k ≤ (maxCycles - m.cpu.cycles + 3) / 4, RunsTo ⟨some maxCycles, maxFrames⟩ m k r) ∧
    (m.cpu.cycles < maxCycles → r.machine.cpu.cycles < maxCycles + 24) ∧
    (r.reason? = some .cycleLimit → maxCycles ≤ r.machine.cpu.cycles) ∧
    ∀ limit, maxFrames = some limit → m.lcd.frames < limit → r.reason? = some .frameLimit →
      r.machine.lcd.frames = limit := by
  intro r
  obtain ⟨k, hk, hrun⟩ := runsTo_runWithin hm maxCycles maxFrames
  refine ⟨⟨k, hk, hrun⟩, fun hbelow => hrun.cycles_lt hm (by omega), fun hend => ?_, ?_⟩
  · exact maxCycles_le_of_stopReason? (hrun.stopReason?_of_reason? hend)
  · rintro limit rfl hbelow hend
    exact Nat.le_antisymm (hrun.frames_le hm (Nat.le_of_lt hbelow))
      (maxFrames_le_of_stopReason? (hrun.stopReason?_of_reason? hend))

/-- The theorem for a boot program that calls itself for ever: from 96 cycles its last step takes
the run as far behind the limit as a step can. -/
theorem runWithin_tight_call :
    ∃ m : Machine, withBoot [] (some [0xCD, 0x00, 0x00]) = .ok m ∧
      m.cpu.cycles < 97 ∧ m.lcd.frames < 1 ∧
      (m.runWithin 97 (some 1)).reason? = some .cycleLimit ∧
      97 ≤ (m.runWithin 97 (some 1)).machine.cpu.cycles ∧
      (m.runWithin 97 (some 1)).machine.cpu.cycles < 97 + 24 ∧
      (m.runWithin 97 (some 1)).machine.cpu.cycles = 120 ∧
      ∃ k ≤ 25, RunsTo ⟨some 97, some 1⟩ m k (m.runWithin 97 (some 1)) := by
  obtain ⟨m, hstart, hzero, hframes, hend, hcycles⟩ : ∃ m : Machine,
      withBoot [] (some [0xCD, 0x00, 0x00]) = .ok m ∧ m.cpu.cycles = 0 ∧ m.lcd.frames < 1 ∧
      (m.runWithin 97 (some 1)).reason? = some .cycleLimit ∧
      (m.runWithin 97 (some 1)).machine.cpu.cycles = 120 :=
    ⟨_, rfl, rfl, Nat.one_pos, by decide +kernel, by decide +kernel⟩
  have hbelow : m.cpu.cycles < 97 := by
    rw [hzero]
    decide
  obtain ⟨⟨k, hk, hrun⟩, hlt, hle, -⟩ := runWithin_tight (.withBoot hstart) 97 (some 1)
  rw [hzero] at hk
  exact ⟨m, hstart, hbelow, hframes, hend, hle hend, hlt hbelow, hcycles, k, hk, hrun⟩

end Machine

end Lr35902
