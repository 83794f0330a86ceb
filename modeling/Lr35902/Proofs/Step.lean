import Lr35902.Cpu.Step
import Lr35902.Proofs.Evaluation

/-!
# The cases of a step

What `Exec.step` does, case by case: waiting, a failed fetch, the byte that announces the extended
table, an opcode of the primary table and an opcode of the extended table.
-/

namespace Lr35902

namespace Exec

variable {σ : Type} [Bus σ] {s : Board σ} {opcode : UInt8} {bus : σ} {e : Fault}

theorem step_waiting (hrun : s.cpu.run ≠ .normal) : step s = spend Cpu.idleCycles s := by
  simp only [step, bind_apply, cpu_apply, if_pos hrun]

theorem step_fetch_error (hrun : s.cpu.run = .normal)
    (hfetch : Bus.fetch8 s.cpu.regs.pc s.bus = .error e bus) :
    step s = .error e { s with bus } := by
  simp only [step, bind_apply, cpu_apply, hrun, ne_eq, not_true, if_false, fetch_apply, hfetch]

/-- What a step does with the opcode that it has fetched, where `before` is the processor at its
start. -/
def execute (before : Cpu) (opcode : UInt8) : Exec σ Nat :=
  match before.mode with
  | .primary =>
    if opcode = extensionByte then do
      modifyCpu ({ · with mode := .extended })
      spend Cpu.extensionCycles
    else primary before.regs.pc opcode >>= complete before.ime
  | .extended => do
    modifyCpu ({ · with mode := .primary })
    extendedInstruction (ExtendedInstruction.decode opcode) >>= complete before.ime

theorem step_running (hrun : s.cpu.run = .normal)
    (hfetch : Bus.fetch8 s.cpu.regs.pc s.bus = .ok opcode bus) :
    step s = execute s.cpu opcode ⟨s.cpu.next, bus⟩ := by
  simp only [step, bind_apply, cpu_apply, hrun, ne_eq, not_true, if_false, fetch_apply, hfetch]
  unfold execute
  cases s.cpu.mode <;> rfl

theorem step_eq_fetch_bind (hrun : s.cpu.run = .normal) : step s = (fetch >>= execute s.cpu) s := by
  cases hfetch : Bus.fetch8 s.cpu.regs.pc s.bus with
  | ok opcode bus =>
    rw [step_running hrun hfetch]
    simp only [bind_apply, fetch_apply, hfetch]
  | error e bus =>
    rw [step_fetch_error hrun hfetch]
    simp only [bind_apply, fetch_apply, hfetch]

theorem step_extension (hrun : s.cpu.run = .normal) (hmode : s.cpu.mode = .primary)
    (hfetch : Bus.fetch8 s.cpu.regs.pc s.bus = .ok extensionByte bus) :
    step s = spend Cpu.extensionCycles ⟨{ s.cpu.next with mode := .extended }, bus⟩ := by
  simp only [step, bind_apply, cpu_apply, hrun, hmode, ne_eq, not_true, if_false, if_true,
    fetch_apply, hfetch, modifyCpu_apply]

theorem step_primary (hrun : s.cpu.run = .normal) (hmode : s.cpu.mode = .primary)
    (hfetch : Bus.fetch8 s.cpu.regs.pc s.bus = .ok opcode bus) (h : opcode ≠ extensionByte) :
    step s = (primary s.cpu.regs.pc opcode >>= complete s.cpu.ime) ⟨s.cpu.next, bus⟩ := by
  simp only [step, bind_apply, cpu_apply, hrun, hmode, ne_eq, not_true, if_false, fetch_apply,
    hfetch, if_neg h]

theorem step_extended (hrun : s.cpu.run = .normal) (hmode : s.cpu.mode = .extended)
    (hfetch : Bus.fetch8 s.cpu.regs.pc s.bus = .ok opcode bus) :
    step s = (extendedInstruction (ExtendedInstruction.decode opcode) >>= complete s.cpu.ime)
      ⟨{ s.cpu.next with mode := .primary }, bus⟩ := by
  simp only [step, bind_apply, cpu_apply, hrun, hmode, ne_eq, not_true, if_false, fetch_apply,
    hfetch, modifyCpu_apply]

omit [Bus σ] in
/-- Ending an instruction cannot fail, so an instruction with its end fails where it fails
itself. -/
theorem bind_complete_error_iff {x : Exec σ Nat} {ime : InterruptState} {s s' : Board σ}
    {e : Fault} : (x >>= complete ime) s = .error e s' ↔ x s = .error e s' := by
  rw [bind_eq_error_iff]
  constructor
  · rintro (h | ⟨n, t, -, h⟩)
    · exact h
    · unfold complete at h
      split at h <;> cases h
  · exact .inl

end Exec

end Lr35902
