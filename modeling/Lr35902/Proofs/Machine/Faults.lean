import Lr35902.Proofs.Faults
import Lr35902.Proofs.Machine.Polling

/-!
# When a step of the machine fails

A step of a reachable machine fails only at a byte that is no opcode and at a stop that is not
followed by zero (`Machine.step_fails_iff`).  No access to the bus ever fails, and no access of the
display to the memory.  A failed step has consumed the bytes that it fetched, and has woken the
processor if it was halted; nothing else has changed.
-/

namespace Lr35902

namespace Machine

variable {m m' : Machine}

/-- The machine after a failed step that fetched `k` bytes: it does not wait, and those bytes are
gone. -/
def stuckAfter (m : Machine) (k : UInt16) : Machine :=
  { m with cpu := { m.cpu with
      run := .normal
      regs := { m.cpu.regs with pc := m.cpu.regs.pc + k } } }

theorem withBoard_next_next (m : Machine) :
    m.withBoard ⟨Cpu.next (Cpu.next { m.cpu with run := .normal }), m.bus⟩ = m.stuckAfter 2 := by
  have hpc : ProgramCounter.next (ProgramCounter.next m.cpu.regs.pc) = m.cpu.regs.pc + 2 :=
    UInt16.add_assoc _ 1 1
  simp only [withBoard, stuckAfter, Cpu.next, hpc]

/-- A step of a reachable machine fails at a byte that is no opcode and at a stop that is not
followed by zero, and nowhere else.  Then it has fetched one byte or two, and ended waiting. -/
theorem step_fails_iff (hm : m.Reachable) {e : Fault} :
    m.step = .error e m' ↔
      ¬ m.Dispatches ∧ (m.cpu.run = .normal ∨ m.cpu.run = .halted ∧ m.HasPending) ∧
        m.cpu.mode = .primary ∧
          let pc := m.cpu.regs.pc
          let opcode := m.bus.memory.rom.get pc
          let operand := m.bus.memory.rom.get (pc + 1)
          (opcode ∈ Instruction.undefinedOpcodes ∧
              e = .unknownOpcode opcode false pc ∧ m' = m.stuckAfter 1) ∨
            (opcode = 0x10 ∧ operand ≠ 0 ∧
              e = .malformedStop pc operand ∧ m' = m.stuckAfter 2) := by
  have hbus := hm.wellFormed
  rw [step_eq_error_iff]
  by_cases h : m.Dispatches
  · obtain ⟨n, s, hs⟩ := tick_of_dispatches h
    simp [h, hs]
  rw [tick_of_not_dispatches hbus h]
  constructor
  · rintro ⟨s, hs, rfl⟩
    obtain ⟨hrun, hmode, hcases⟩ := (Exec.step_error_iff SystemBus.reliable hbus).1 hs
    refine ⟨h, polled_run_eq_normal_iff.1 hrun, polled_mode m ▸ hmode, ?_⟩
    simp only [polled_eq_of_run hrun, SystemBus.fetched_eq] at hcases
    obtain ⟨hundefined, he, rfl⟩ | ⟨hstop, hzero, he, rfl⟩ := hcases
    · exact .inl ⟨hundefined, he, rfl⟩
    · exact .inr ⟨hstop, hzero, he, withBoard_next_next m⟩
  · -- the other way round, the processor after polling is where a step fails
    rintro ⟨-, hrun, hmode, hcases⟩
    have hrun := polled_run_eq_normal_iff.2 hrun
    have hmode := (polled_mode m).trans hmode
    obtain ⟨hundefined, he, rfl⟩ | ⟨hstop, hzero, he, rfl⟩ := hcases
    · refine ⟨⟨Cpu.next { m.cpu with run := .normal }, m.bus⟩, ?_, rfl⟩
      refine (Exec.step_error_iff SystemBus.reliable hbus).2 ⟨hrun, hmode, .inl ?_⟩
      simp only [polled_eq_of_run hrun, SystemBus.fetched_eq]
      exact ⟨hundefined, he, trivial⟩
    · refine ⟨⟨_, m.bus⟩, ?_, (withBoard_next_next m).symm⟩
      refine (Exec.step_error_iff SystemBus.reliable hbus).2 ⟨hrun, hmode, .inr ?_⟩
      simp only [polled_eq_of_run hrun, SystemBus.fetched_eq]
      exact ⟨hstop, hzero, he, trivial⟩

/-- The theorem at a boot program that begins with a malformed stop. -/
theorem step_fails_at_malformedStop :
    ∃ m m', withBoot [] (some [0x10, 0x01]) = .ok m ∧
      m.step = .error (.malformedStop 0 0x01) m' := by
  have hstart : withBoot [] (some [0x10, 0x01]) = .ok _ := rfl
  have hfault := (step_fails_iff (.withBoot hstart)).2
    ⟨mt Dispatches.hasPending (by decide +kernel), .inl rfl, rfl,
      .inr ⟨by decide +kernel, by decide +kernel,
        (by decide +kernel : Fault.malformedStop 0 0x01 = _), rfl⟩⟩
  exact ⟨_, _, hstart, hfault⟩

end Machine

end Lr35902
