import Lr35902.Proofs.Control
import Lr35902.Proofs.Faults

/-!
# What a step comes to

A step dispatches an interrupt, waits, announces an extended opcode, completes an instruction or
fails (`StepKind`).  Its kind tells what it needs and what it does to the control
(`Exec.step_control`), so what is true of the control has to be checked for each kind only
(`StepKind.settled`).
-/

namespace Lr35902

/-- What a step comes to. -/
inductive StepKind where
  /-- It enters the handler of an interrupt. -/
  | dispatch
  /-- It waits. -/
  | idle
  /-- It announces an extended opcode. -/
  | extension
  /-- It completes an instruction of the primary set. -/
  | completed (i : Instruction)
  /-- It completes an instruction of the extended set. -/
  | completedExtended (i : ExtendedInstruction)
  /-- It fails. -/
  | failed
deriving DecidableEq

namespace StepKind

/-- The control that a step of this kind begins with. -/
def Fits (c : Control) : StepKind → Prop
  | dispatch => c.run ≠ .stopped ∧ c.ime = .interruptible ∧ c.mode = .primary
  | idle => c.run ≠ .normal
  | extension | completed _ | failed => c.run = .normal ∧ c.mode = .primary
  | completedExtended _ => c.run = .normal ∧ c.mode = .extended

/-- What a step of this kind does to the control. -/
def control (c : Control) : StepKind → Control
  | dispatch => { c with ime := .blocked, run := .normal }
  | extension => { c with mode := .extended }
  | completed i => (i.control c).completed c.ime
  | completedExtended _ => { c with mode := .primary }.completed c.ime
  | idle | failed => c

variable {k : StepKind} {c : Control}

/-- A step with the extended table executes an extended instruction. -/
theorem eq_completedExtended (hk : k.Fits c) (hrun : c.run = .normal) (hmode : c.mode = .extended) :
    ∃ i, k = .completedExtended i := by
  cases k with
  | completedExtended i => exact ⟨i, rfl⟩
  | idle => exact absurd hrun hk
  | dispatch => cases hk.2.2.symm.trans hmode
  | extension => cases hk.2.symm.trans hmode
  | completed i => cases hk.2.symm.trans hmode
  | failed => cases hk.2.symm.trans hmode

/-- The only step that makes a processor wait for an interrupt completes the instruction for it. -/
theorem eq_halt (hk : k.Fits c) (hrun : c.run = .normal)
    (h : (k.control c).run = .halted) : k = .completed .halt := by
  have hwaits : (k.control c).run ≠ c.run := by
    rw [h, hrun]
    decide
  cases k with
  | dispatch => cases h
  | idle => exact absurd hrun hk
  | failed => exact absurd rfl hwaits
  | extension => exact absurd rfl hwaits
  | completedExtended i => exact absurd (Control.run_completed _ _) hwaits
  | completed i =>
    simp only [control, Control.run_completed] at h hwaits
    obtain rfl | rfl := Instruction.eq_of_run_control hwaits
    · rfl
    · cases h

/-- A step of any kind leaves the control settled. -/
theorem settled (hk : k.Fits c) (hc : c.Settled) : (k.control c).Settled := by
  intro hrun
  cases k with
  | dispatch => exact absurd rfl hrun
  | idle => exact hc hk
  | failed => exact absurd hk.1 hrun
  | extension => exact absurd hk.1 hrun
  | completedExtended i =>
    simp only [control, Control.run_completed] at hrun
    exact absurd hk.1 hrun
  | completed i =>
    simp only [control, Control.run_completed, Control.mode_completed, Instruction.mode_control]
      at hrun ⊢
    refine ⟨hk.2, ?_⟩
    by_cases hpending : c.ime = .pendingEnable
    · exact Control.ime_completed_ne _ hpending
    · -- the instruction that ends in a waiting state leaves the interrupt switch alone
      rw [Control.completed_of_ne _ hpending]
      rw [← hk.1] at hrun
      obtain rfl | rfl := Instruction.eq_of_run_control hrun
      · exact hpending
      · exact hpending

end StepKind

namespace Exec

variable {σ : Type} [Bus σ] {s t : Board σ} {opcode : UInt8} {bus : σ} {n : Nat}

/-- What `Exec.step` comes to.  It does not poll for interrupts. -/
def stepKind (s : Board σ) : StepKind :=
  if s.cpu.run ≠ .normal then .idle
  else
    match Bus.fetch8 s.cpu.regs.pc s.bus, step s with
    | .ok opcode _, .ok .. =>
      match s.cpu.mode with
      | .primary =>
        match Instruction.decode opcode with
        | some i => .completed i
        | none => .extension
      | .extended => .completedExtended (ExtendedInstruction.decode opcode)
    | _, _ => .failed

theorem stepKind_ne_dispatch (s : Board σ) : stepKind s ≠ .dispatch := by
  intro h
  unfold stepKind at h
  split at h
  · cases h
  · split at h
    · split at h
      · split at h <;> cases h
      · cases h
    · cases h

theorem stepKind_waiting (hrun : s.cpu.run ≠ .normal) : stepKind s = .idle := if_pos hrun

theorem stepKind_error {e : Fault} (hrun : s.cpu.run = .normal) (h : step s = .error e t) :
    stepKind s = .failed := by
  simp only [stepKind, hrun, ne_eq, not_true, if_false, h]
  cases Bus.fetch8 s.cpu.regs.pc s.bus <;> rfl

/-- What it takes to complete an instruction of the primary set. -/
theorem cases_of_completed {i : Instruction} (h : stepKind s = .completed i) :
    s.cpu.run = .normal ∧ s.cpu.mode = .primary ∧
      ∃ opcode bus, Bus.fetch8 s.cpu.regs.pc s.bus = .ok opcode bus ∧
        Instruction.decode opcode = some i := by
  unfold stepKind at h
  split at h
  · cases h
  rename_i hrun
  split at h
  · rename_i opcode bus _ _ hfetch _
    split at h
    · rename_i hmode
      split at h
      · rename_i j hj
        cases h
        exact ⟨Decidable.not_not.1 hrun, hmode, opcode, bus, hfetch, hj⟩
      · cases h
    · cases h
  · cases h

/-- The instruction to wait moves the program counter, and no other register. -/
theorem regs_step_halt (h : stepKind s = .completed .halt) :
    (final step s).cpu.regs = s.cpu.next.regs := by
  obtain ⟨hrun, hmode, opcode, bus, hfetch, hi⟩ := cases_of_completed h
  have hext : opcode ≠ extensionByte := by
    rintro rfl
    cases hi
  rw [final_congr (step_primary hrun hmode hfetch hext)]
  have hhalt : primary s.cpu.regs.pc opcode ⟨s.cpu.next, bus⟩ =
      .ok 4 ⟨{ s.cpu.next with run := .halted }, bus⟩ := by
    simp only [primary, hi]
    rfl
  rw [final_bind hhalt, complete]
  split <;> rfl

section

variable (hrun : s.cpu.run = .normal)
  (hfetch : Bus.fetch8 s.cpu.regs.pc s.bus = .ok opcode bus) (h : step s = .ok n t)
include hrun hfetch h

theorem stepKind_primary (hmode : s.cpu.mode = .primary) :
    stepKind s = match Instruction.decode opcode with
      | some i => .completed i
      | none => .extension := by
  simp only [stepKind, hrun, ne_eq, not_true, if_false, hfetch, h, hmode]

theorem stepKind_extended (hmode : s.cpu.mode = .extended) :
    stepKind s = .completedExtended (ExtendedInstruction.decode opcode) := by
  simp only [stepKind, hrun, ne_eq, not_true, if_false, hfetch, h, hmode]

theorem control_step_primary (hmode : s.cpu.mode = .primary) {i : Instruction}
    (hi : Instruction.decode opcode = some i) :
    t.cpu.control = (i.control s.cpu.control).completed s.cpu.ime := by
  have hext : opcode ≠ extensionByte := by
    rintro rfl
    cases hi
  rw [step_primary hrun hmode hfetch hext, bind_eq_ok_iff] at h
  obtain ⟨k, u, hu, ht⟩ := h
  simp only [primary, hi] at hu
  rw [control_complete ht, control_instruction (Instruction.wellFormed_of_decode hi) hu]
  rfl

theorem control_step_extended (hmode : s.cpu.mode = .extended) :
    t.cpu.control = { s.cpu.control with mode := .primary }.completed s.cpu.ime := by
  rw [step_extended hrun hmode hfetch, bind_eq_ok_iff] at h
  obtain ⟨k, u, hu, ht⟩ := h
  rw [control_complete ht, control_extendedInstruction hu]
  rfl

theorem control_step_extension (hmode : s.cpu.mode = .primary)
    (hi : Instruction.decode opcode = none) :
    t.cpu.control = { s.cpu.control with mode := .extended } := by
  by_cases hext : opcode = extensionByte
  · subst hext
    rw [step_extension hrun hmode hfetch] at h
    cases h
    rfl
  · -- any other byte without an entry in the table is a fault
    rw [step_primary hrun hmode hfetch hext, bind_eq_ok_iff] at h
    obtain ⟨k, u, hu, -⟩ := h
    simp only [primary, hi] at hu
    cases hu

end

/-- The kind of a step that succeeds tells what it began with and what it did to the control. -/
theorem step_control_of_ok (h : step s = .ok n t) :
    (stepKind s).Fits s.cpu.control ∧ t.cpu.control = (stepKind s).control s.cpu.control := by
  by_cases hwaiting : s.cpu.run ≠ .normal
  · rw [step_waiting hwaiting] at h
    cases h
    rw [stepKind_waiting hwaiting]
    exact ⟨hwaiting, rfl⟩
  have hrun : s.cpu.run = .normal := Decidable.not_not.1 hwaiting
  cases hfetch : Bus.fetch8 s.cpu.regs.pc s.bus with
  | error e bus =>
    rw [step_fetch_error hrun hfetch] at h
    cases h
  | ok opcode bus =>
    cases hmode : s.cpu.mode with
    | extended =>
      rw [stepKind_extended hrun hfetch h hmode]
      exact ⟨⟨hrun, hmode⟩, control_step_extended hrun hfetch h hmode⟩
    | primary =>
      rw [stepKind_primary hrun hfetch h hmode]
      cases hi : Instruction.decode opcode with
      | some i => exact ⟨⟨hrun, hmode⟩, control_step_primary hrun hfetch h hmode hi⟩
      | none => exact ⟨⟨hrun, hmode⟩, control_step_extension hrun hfetch h hmode hi⟩

variable {P : σ → Prop}

/-- On a reliable bus a step that fails has done nothing to the control, so there the kind tells of
every step what it began with and what it did. -/
theorem step_control (hP : Bus.Reliable P) (hs : P s.bus) :
    (stepKind s).Fits s.cpu.control ∧
      (final step s).cpu.control = (stepKind s).control s.cpu.control := by
  cases h : step s with
  | ok n t =>
    rw [final_ok h]
    exact step_control_of_ok h
  | error e t =>
    obtain ⟨hrun, hmode, hcases⟩ := (step_error_iff hP hs).1 h
    rw [stepKind_error hrun h, final_error h]
    refine ⟨⟨hrun, hmode⟩, ?_⟩
    obtain ⟨-, -, rfl⟩ | ⟨-, -, -, rfl⟩ := hcases
    · rfl
    · rfl

end Exec

end Lr35902
