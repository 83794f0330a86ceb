import Lr35902.Proofs.Machine.Runs

/-!
# Runs with breaks

All that a run needs in order to go on is in the machine.  So a run that has ended at a limit of
cycles can be taken up again under a higher one, and comes to the same end as a run without a break
(`Machine.runWithin_resumes`), wherever it was cut.  A run that has ended for another reason comes
to the same end under every higher limit.
-/

namespace Lr35902

namespace Machine

variable {m : Machine} {reason : StopReason} {r : RunResult} {k j : Nat}
  {maxFrames : Option Nat} {c d : Nat}

/-- Under a higher limit of cycles a run goes on wherever it did under the lower one. -/
theorem stopReason?_eq_none_of_le (hle : c ≤ d) (h : m.stopReason? ⟨some c, maxFrames⟩ = none) :
    m.stopReason? ⟨some d, maxFrames⟩ = none := by
  have hbelow := below_of_stopReason? h
  have hcycles : reached (some d) m.cpu.cycles = false :=
    Bool.eq_false_iff.2 (mt reached_some.1 (by omega))
  rw [stopReason?_eq, Option.or_eq_none_iff] at h ⊢
  refine ⟨h.1, ?_⟩
  simp only [limitReason?, hcycles, hbelow.2, Bool.false_eq_true, if_false]

/-- Any other reason to stop than the lower limit is one under the higher limit, too. -/
theorem stopReason?_eq_some_of_le (hle : c ≤ d)
    (h : m.stopReason? ⟨some c, maxFrames⟩ = some reason) (hreason : reason ≠ .cycleLimit) :
    m.stopReason? ⟨some d, maxFrames⟩ = some reason := by
  rw [stopReason?_eq, Option.or_eq_some_iff] at h ⊢
  refine h.imp_right fun ⟨hgo, hlimit⟩ => ⟨hgo, ?_⟩
  unfold limitReason? at hlimit ⊢
  split at hlimit
  · cases hlimit
    exact absurd rfl hreason
  rename_i hcycles
  have hcycles : ¬ reached (some d) m.cpu.cycles := mt reached_some.1 fun hd =>
    hcycles (reached_some.2 (Nat.le_trans hle hd))
  rw [if_neg hcycles]
  exact hlimit

/-- A run that has ended at its limit of cycles is the beginning of the run under a higher one. -/
theorem RunsTo.resume (h : RunsTo ⟨some c, maxFrames⟩ m k r) (hle : c ≤ d)
    (hr : r.reason? = some .cycleLimit) {r' : RunResult}
    (h' : RunsTo ⟨some d, maxFrames⟩ r.machine j r') :
    RunsTo ⟨some d, maxFrames⟩ m (k + j) r' := by
  induction h with
  | ended _ =>
    rw [Nat.zero_add]
    exact h'
  | failed _ _ => cases hr
  | step hgo hstep _ ih =>
    rw [Nat.succ_add]
    exact .step (stopReason?_eq_none_of_le hle hgo) hstep (ih hr h')

/-- A run that has not ended at its limit of cycles is the run under every higher one. -/
theorem RunsTo.raise (h : RunsTo ⟨some c, maxFrames⟩ m k r) (hle : c ≤ d)
    (hr : r.reason? ≠ some .cycleLimit) : RunsTo ⟨some d, maxFrames⟩ m k r := by
  induction h with
  | ended hstop =>
    refine .ended (stopReason?_eq_some_of_le hle hstop ?_)
    rintro rfl
    exact hr rfl
  | failed hgo hstep => exact .failed (stopReason?_eq_none_of_le hle hgo) hstep
  | step hgo hstep _ ih => exact .step (stopReason?_eq_none_of_le hle hgo) hstep (ih hr)

/-- A run of a reachable machine that has ended at its limit of cycles and is taken up again under a
higher one comes to the end of the run without that break, which has an end.  If it has ended for
another reason or at a fault, that is the end under the higher limit. -/
theorem runWithin_resumes (hm : m.Reachable) (hle : c ≤ d) (maxFrames : Option Nat) :
    let r := m.runWithin c maxFrames
    (∃ k, RunsTo ⟨some d, maxFrames⟩ m k (m.runWithin d maxFrames)) ∧
    (r.reason? = some .cycleLimit →
      r.machine.runWithin d maxFrames = m.runWithin d maxFrames) ∧
    (r.reason? ≠ some .cycleLimit → m.runWithin d maxFrames = r) := by
  intro r
  obtain ⟨k, -, hfirst⟩ := runsTo_runWithin hm c maxFrames
  obtain ⟨l, -, hwhole⟩ := runsTo_runWithin hm d maxFrames
  refine ⟨⟨l, hwhole⟩, fun hr => ?_, fun hr => hwhole.unique (hfirst.raise hle hr)⟩
  obtain ⟨j, -, hrest⟩ := runsTo_runWithin (hfirst.reachable hm) d maxFrames
  exact (hfirst.resume hle hr hrest).unique hwhole

/-- A boot program that enables interrupts, exchanges the halves of the accumulator and repeats
that. -/
def exchanges : List UInt8 := [0xFB, 0xCB, 0x37, 0x18, 0xFB]

/-- The theorem for that program, cut behind the byte that announces the extended opcode and with
the enabling of interrupts pending, and for a program that fails before it reaches the limit. -/
theorem runWithin_resumes_extended :
    (∃ m : Machine, withBoot [] (some exchanges) = .ok m ∧
      (m.runWithin 8 none).reason? = some .cycleLimit ∧
      (m.runWithin 8 none).machine.cpu.mode = .extended ∧
      (m.runWithin 8 none).machine.cpu.ime = .pendingEnable ∧
      (m.runWithin 8 none).machine.runWithin 100 none = m.runWithin 100 none) ∧
    ∃ m : Machine, withBoot [] (some [0x00, 0xD3]) = .ok m ∧
      (m.runWithin 8 none).reason? = none ∧ m.runWithin 100 none = m.runWithin 8 none := by
  have hcut : withBoot [] (some exchanges) = .ok _ := rfl
  have hfails : withBoot [] (some [0x00, 0xD3]) = .ok _ := rfl
  obtain ⟨-, hresumes, -⟩ :=
    runWithin_resumes (.withBoot hcut) (by decide : 8 ≤ 100) none
  obtain ⟨-, -, hraises⟩ :=
    runWithin_resumes (.withBoot hfails) (by decide : 8 ≤ 100) none
  exact ⟨⟨_, hcut, by decide +kernel, by decide +kernel, by decide +kernel,
      hresumes (by decide +kernel)⟩,
    ⟨_, hfails, by decide +kernel, hraises (by decide +kernel)⟩⟩

end Machine

end Lr35902
