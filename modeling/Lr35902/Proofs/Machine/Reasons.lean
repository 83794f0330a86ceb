import Lr35902.Machine.Run
import Lr35902.Proofs.Machine.Polling

/-!
# Reasons to stop

Before each step a run looks at the machine.  That reads memory at fixed addresses only, so it
cannot fail, and what it finds is a function of the machine: `Machine.haltedForever` for a processor
that waits (`Machine.checkHaltedForever_eq`) and `Machine.stopReason?` for all reasons to stop
(`Machine.checkStop_eq`).

The limits are looked at last, so they decide only where the machine itself gives no reason to stop
(`Machine.stopReason?_eq`).
-/

namespace Lr35902

namespace Machine

/-- The processor waits for an interrupt that cannot come: none is pending, and the display, the
only source that this machine has, is off or has its interrupt disabled. -/
def haltedForever (m : Machine) : Bool :=
  m.cpu.run == .halted && m.pendingInterrupt.isNone &&
    !(LcdTimer.isOn m.memory && m.peek Interrupt.enableAddr &&& Interrupt.vblank.mask != 0)

/-- The reason to stop before the next step, if there is one. -/
def stopReason? (limits : Limits) (m : Machine) : Option StopReason :=
  if m.cpu.run = .stopped then some .stopped
  else if m.cpu.run = .normal ∧ ¬ m.cpu.hasInstruction m.bus then some .endOfRom
  else if m.haltedForever then some .haltedForever
  else if reached limits.maxCycles m.cpu.cycles then some .cycleLimit
  else if reached limits.maxFrames m.lcd.frames then some .frameLimit
  else none

variable {m : Machine} {limits : Limits} {maxCycles : Nat} {maxFrames : Option Nat}

/-! ### What a run looks at -/

/-- The three registers can be read, whatever the memory is. -/
theorem checkHaltedForever_eq (m : Machine) : m.checkHaltedForever = .ok m.haltedForever := by
  unfold checkHaltedForever haltedForever
  by_cases hrun : m.cpu.run = .halted
  · rw [if_neg (not_not_intro hrun), hrun, ← Option.not_isSome]
    simp only [Memory.read_word]
    rfl
  · rw [if_pos hrun, beq_false_of_ne hrun]
    rfl

theorem checkStop_eq (limits : Limits) (m : Machine) :
    m.checkStop limits = .ok (m.stopReason? limits) := by
  unfold checkStop stopReason?
  rw [checkHaltedForever_eq]
  simp only [apply_ite Except.ok]
  rfl

theorem runFor_succ (limits : Limits) (n : Nat) (m : Machine) :
    m.runFor limits (n + 1) =
      match m.stopReason? limits with
      | some reason => .ended reason m
      | none =>
        match m.step with
        | .ok _ m' => m'.runFor limits n
        | .error e m' => .failed e m' := by
  rw [runFor, checkStop_eq]
  cases m.stopReason? limits <;> rfl

/-- A run goes on only with a processor that waits or has its program counter at a loaded byte. -/
theorem halted_or_hasInstruction (h : m.stopReason? limits = none) :
    m.cpu.run = .halted ∨ m.cpu.run = .normal ∧ m.cpu.hasInstruction m.bus := by
  unfold stopReason? at h
  split at h
  · cases h
  rename_i hstopped
  split at h
  · cases h
  rename_i hend
  cases hrun : m.cpu.run with
  | halted => exact .inl rfl
  | stopped => exact absurd hrun hstopped
  | normal => exact .inr ⟨rfl, Decidable.not_not.1 fun hnot => hend ⟨hrun, hnot⟩⟩

/-! ### Limits -/

/-- The limit that is reached, if there is one. -/
def limitReason? (limits : Limits) (m : Machine) : Option StopReason :=
  if reached limits.maxCycles m.cpu.cycles then some .cycleLimit
  else if reached limits.maxFrames m.lcd.frames then some .frameLimit
  else none

/-- A run looks at its limits only if the machine itself gives no reason to stop. -/
theorem stopReason?_eq (limits : Limits) (m : Machine) :
    m.stopReason? limits = (m.stopReason? {}).or (m.limitReason? limits) := by
  unfold Machine.stopReason? limitReason?
  split
  · rfl
  split
  · rfl
  split
  · rfl
  · rfl

/-- Without limits no limit is reached. -/
theorem stopReason?_unlimited (m : Machine) :
    m.stopReason? {} ≠ some .cycleLimit ∧ m.stopReason? {} ≠ some .frameLimit := by
  unfold Machine.stopReason?
  split
  · exact ⟨nofun, nofun⟩
  split
  · exact ⟨nofun, nofun⟩
  split
  · exact ⟨nofun, nofun⟩
  · exact ⟨nofun, nofun⟩

theorem reached_some {limit value : Nat} : reached (some limit) value = true ↔ limit ≤ value :=
  decide_eq_true_iff

/-- A run that goes on has not reached its limits. -/
theorem below_of_stopReason? (h : m.stopReason? ⟨some maxCycles, maxFrames⟩ = none) :
    m.cpu.cycles < maxCycles ∧ reached maxFrames m.lcd.frames = false := by
  rw [stopReason?_eq, Option.or_eq_none_iff] at h
  have hlimits := h.2
  unfold limitReason? at hlimits
  split at hlimits
  · cases hlimits
  rename_i hcycles
  split at hlimits
  · cases hlimits
  rename_i hframes
  exact ⟨Nat.lt_of_not_le (mt reached_some.2 hcycles), Bool.eq_false_iff.2 hframes⟩

/-- A run that ends at its limit of cycles has reached it. -/
theorem maxCycles_le_of_stopReason?
    (h : m.stopReason? ⟨some maxCycles, maxFrames⟩ = some .cycleLimit) :
    maxCycles ≤ m.cpu.cycles := by
  rw [stopReason?_eq, Option.or_eq_some_iff] at h
  have hlimits := (h.resolve_left m.stopReason?_unlimited.1).2
  unfold limitReason? at hlimits
  split at hlimits
  · rename_i hcycles
    exact reached_some.1 hcycles
  split at hlimits
  · cases hlimits
  · cases hlimits

/-- A run that ends at its limit of frames has reached it. -/
theorem maxFrames_le_of_stopReason? {limit : Nat}
    (h : m.stopReason? ⟨some maxCycles, some limit⟩ = some .frameLimit) :
    limit ≤ m.lcd.frames := by
  rw [stopReason?_eq, Option.or_eq_some_iff] at h
  have hlimits := (h.resolve_left m.stopReason?_unlimited.2).2
  unfold limitReason? at hlimits
  split at hlimits
  · cases hlimits
  split at hlimits
  · rename_i hframes
    exact reached_some.1 hframes
  · cases hlimits

end Machine

end Lr35902
