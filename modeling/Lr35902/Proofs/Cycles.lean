import Lr35902.Proofs.Control

/-!
# The count of cycles

The processor counts cycles while it waits, at the byte that announces an extended opcode and at the
end of an instruction, and in each case it counts what the step returns (`Exec.step_ok`).  Entering
the handler of an interrupt counts in the same way (`Exec.dispatch_ok`).
-/

namespace Lr35902

namespace Exec

variable {σ : Type} {s t : Board σ} {n : Nat}

theorem spend_ok {k : Nat} (h : spend k s = .ok n t) :
    n = k ∧ t.cpu.cycles = s.cpu.cycles + n := by
  cases h
  exact ⟨rfl, rfl⟩

/-- The end of an instruction counts what the instruction takes. -/
theorem complete_ok {ime : InterruptState} {k : Nat} (h : complete ime k s = .ok n t) :
    n = k ∧ t.cpu.cycles = s.cpu.cycles + n := by
  unfold complete at h
  split at h
  · rw [bind_apply, modifyCpu_apply] at h
    obtain ⟨hn, hcycles⟩ := spend_ok h
    exact ⟨hn, hcycles⟩
  · exact spend_ok h

variable [Bus σ]

theorem primary_ok {addr : UInt16} {opcode : UInt8} (h : primary addr opcode s = .ok n t) :
    n ∈ Instruction.durations ∧ t.cpu.cycles = s.cpu.cycles := by
  unfold primary at h
  cases hi : Instruction.decode opcode with
  | none =>
    rw [hi] at h
    cases h
  | some i =>
    rw [hi] at h
    obtain ⟨hn, g, hcpu⟩ := instruction_ok (Instruction.wellFormed_of_decode hi) h
    rw [hcpu]
    exact ⟨hn, rfl⟩

/-- An instruction of either table does not count itself, its end does. -/
theorem execute_ok {before : Cpu} {opcode : UInt8} (h : execute before opcode s = .ok n t) :
    n ∈ Instruction.durations ∧ t.cpu.cycles = s.cpu.cycles + n := by
  unfold execute at h
  cases hmode : before.mode with
  | primary =>
    simp only [hmode] at h
    -- the byte that announces an extended opcode counts on its own
    split at h
    · rw [bind_apply, modifyCpu_apply] at h
      obtain ⟨rfl, hcycles⟩ := spend_ok h
      exact ⟨by decide, hcycles⟩
    · obtain ⟨k, u, hu, ht⟩ := bind_eq_ok_iff.1 h
      obtain ⟨rfl, hcycles⟩ := complete_ok ht
      obtain ⟨hn, hkept⟩ := primary_ok hu
      rw [hkept] at hcycles
      exact ⟨hn, hcycles⟩
  | extended =>
    simp only [hmode] at h
    rw [bind_apply, modifyCpu_apply] at h
    obtain ⟨k, u, hu, ht⟩ := bind_eq_ok_iff.1 h
    obtain ⟨rfl, hcycles⟩ := complete_ok ht
    obtain ⟨hn, g, hcpu⟩ := extendedInstruction_ok hu
    rw [hcpu] at hcycles
    exact ⟨hn, hcycles⟩

/-- A step that succeeds takes one of the durations and counts it. -/
theorem step_ok (h : step s = .ok n t) :
    n ∈ Instruction.durations ∧ t.cpu.cycles = s.cpu.cycles + n := by
  by_cases hwaiting : s.cpu.run ≠ .normal
  · rw [step_waiting hwaiting] at h
    obtain ⟨rfl, hcycles⟩ := spend_ok h
    exact ⟨by decide, hcycles⟩
  have hrun : s.cpu.run = .normal := Decidable.not_not.1 hwaiting
  cases hfetch : Bus.fetch8 s.cpu.regs.pc s.bus with
  | ok opcode bus =>
    rw [step_running hrun hfetch] at h
    obtain ⟨hn, hcycles⟩ := execute_ok h
    exact ⟨hn, hcycles⟩
  | error e bus =>
    rw [step_fetch_error hrun hfetch] at h
    cases h

/-- A dispatch that succeeds counts its cycles and leaves the processor executing. -/
theorem dispatch_ok {i : Interrupt} (h : dispatch i s = .ok n t) :
    n = Cpu.dispatchCycles ∧ t.cpu.cycles = s.cpu.cycles + n ∧ t.cpu.run = .normal := by
  obtain ⟨g, u, ⟨⟩, h⟩ := bind_eq_ok_iff.1 h
  obtain ⟨⟨⟩, u₁, h₁, h⟩ := bind_eq_ok_iff.1 h
  obtain ⟨requested, u₂, h₂, h⟩ := bind_eq_ok_iff.1 h
  obtain ⟨⟨⟩, u₃, h₃, h⟩ := bind_eq_ok_iff.1 h
  -- the accesses of the dispatch change registers only
  obtain ⟨g₁, hg₁⟩ := (onlyRegs_pushWord _).of_ok h₁
  obtain ⟨g₂, hg₂⟩ := (OnlyRegs.onBus _).of_ok h₂
  obtain ⟨g₃, hg₃⟩ := (OnlyRegs.onBus _).of_ok h₃
  cases h
  refine ⟨rfl, ?_, rfl⟩
  rw [hg₃, hg₂, hg₁]

end Exec

end Lr35902
