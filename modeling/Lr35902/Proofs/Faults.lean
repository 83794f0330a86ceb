import Lr35902.Proofs.Step
import Lr35902.Proofs.Total

/-!
# When a step fails

On a reliable bus a step of the processor fails at a byte that is no opcode and at a stop that is
not followed by zero, and nowhere else (`Exec.step_error_iff`).  The bytes that were fetched by then
are gone, and that is all that has changed.
-/

namespace Lr35902

namespace Exec

variable {σ : Type} [Bus σ] {P : σ → Prop}

/-- What a step does at a byte that is no opcode. -/
theorem primary_undefined {b : UInt8} (h : b ∈ Instruction.undefinedOpcodes) (addr : UInt16)
    (s : Board σ) : primary addr b s = .error (.unknownOpcode b false addr) s := by
  rw [primary, Instruction.decode_eq_none_iff.2 (.inl h)]
  rfl

/-- What a step does at a stop. -/
theorem primary_stop (hP : Bus.Reliable P) {s : Board σ} (hs : P s.bus) (addr : UInt16) :
    primary addr 0x10 s =
      if (Bus.fetched s.cpu.regs.pc s.bus).1 ≠ 0 then
        .error (.malformedStop addr (Bus.fetched s.cpu.regs.pc s.bus).1)
          ⟨s.cpu.next, (Bus.fetched s.cpu.regs.pc s.bus).2⟩
      else
        .ok 4 ⟨{ s.cpu.next with run := .stopped }, (Bus.fetched s.cpu.regs.pc s.bus).2⟩ := by
  obtain ⟨hfetch, -⟩ := hP.fetch8_eq hs s.cpu.regs.pc
  rw [primary, Instruction.decode_eq_stop_iff.2 rfl]
  simp only [instruction, bind_apply, fetch_apply, hfetch]
  by_cases h : (Bus.fetched s.cpu.regs.pc s.bus).1 ≠ 0
  · simp only [if_pos h]
    rfl
  · simp only [if_neg h]
    rfl

/-- Every other byte with an entry in the primary table is carried out. -/
theorem total_primary (hP : Bus.Reliable P) {b : UInt8} (hb : b ∉ Instruction.undefinedOpcodes)
    (hext : b ≠ extensionByte) (hstop : b ≠ 0x10) (addr : UInt16) : Total P (primary addr b) := by
  have hdefined : Instruction.decode b ≠ none := by
    rw [ne_eq, Instruction.decode_eq_none_iff, not_or]
    exact ⟨hb, hext⟩
  obtain ⟨i, hi⟩ := Option.ne_none_iff_exists'.1 hdefined
  have hne : i ≠ .stop := fun h => hstop (Instruction.decode_eq_stop_iff.1 (h ▸ hi))
  simp only [primary, hi]
  exact total_instruction hP (Instruction.wellFormed_of_decode hi) hne addr

/-- Carrying out an opcode fails at a byte that is none, and at a stop that is not followed by
zero. -/
theorem primary_error_iff (hP : Bus.Reliable P) {s s' : Board σ} (hs : P s.bus) {b : UInt8}
    (hext : b ≠ extensionByte) {addr : UInt16} {e : Fault} :
    primary addr b s = .error e s' ↔
      let operand := Bus.fetched s.cpu.regs.pc s.bus
      (b ∈ Instruction.undefinedOpcodes ∧ e = .unknownOpcode b false addr ∧ s' = s) ∨
        (b = 0x10 ∧ operand.1 ≠ 0 ∧
          e = .malformedStop addr operand.1 ∧ s' = ⟨s.cpu.next, operand.2⟩) := by
  by_cases hundefined : b ∈ Instruction.undefinedOpcodes
  · have hnotStop : b ≠ 0x10 := by
      rintro rfl
      exact absurd hundefined (by decide)
    rw [primary_undefined hundefined]
    simp [hundefined, hnotStop, eq_comm]
  by_cases hstop : b = 0x10
  · subst hstop
    rw [primary_stop hP hs]
    by_cases hzero : (Bus.fetched s.cpu.regs.pc s.bus).1 = 0
    · simp [hundefined, hzero]
    · simp [hundefined, hzero, eq_comm]
  · -- all other opcodes are carried out, as no access fails
    obtain ⟨v, t, h, -⟩ := total_primary hP hundefined hext hstop addr s hs
    rw [h]
    simp [hundefined, hstop]

/-- A step fails at a byte that is no opcode, and at a stop that is not followed by zero. -/
theorem step_error_iff (hP : Bus.Reliable P) {s s' : Board σ} (hs : P s.bus) {e : Fault} :
    step s = .error e s' ↔
      s.cpu.run = .normal ∧ s.cpu.mode = .primary ∧
        let opcode := Bus.fetched s.cpu.regs.pc s.bus
        let next := Bus.fetched s.cpu.next.regs.pc opcode.2
        (opcode.1 ∈ Instruction.undefinedOpcodes ∧
            e = .unknownOpcode opcode.1 false s.cpu.regs.pc ∧ s' = ⟨s.cpu.next, opcode.2⟩) ∨
          (opcode.1 = 0x10 ∧ next.1 ≠ 0 ∧
            e = .malformedStop s.cpu.regs.pc next.1 ∧ s' = ⟨s.cpu.next.next, next.2⟩) := by
  obtain ⟨hfetch, hbus⟩ := hP.fetch8_eq hs s.cpu.regs.pc
  by_cases hwaiting : s.cpu.run ≠ .normal
  · rw [step_waiting hwaiting]
    simp [hwaiting]
  have hrun : s.cpu.run = .normal := Decidable.not_not.1 hwaiting
  cases hmode : s.cpu.mode with
  | extended =>
    have htotal := total_extendedInstruction hP (Bus.fetched s.cpu.regs.pc s.bus).1
    obtain ⟨v, t, h, -⟩ := htotal ⟨{ s.cpu.next with mode := .primary }, _⟩ hbus
    rw [step_extended hrun hmode hfetch, bind_complete_error_iff, h]
    simp
  | primary =>
    generalize Bus.fetched s.cpu.regs.pc s.bus = op at hfetch hbus ⊢
    obtain ⟨opcode, bus⟩ := op
    simp only [hrun, true_and]
    by_cases hext : opcode = extensionByte
    · -- the byte that announces the extended table is in neither of the two cases
      subst hext
      have hdefined : extensionByte ∉ Instruction.undefinedOpcodes := by decide
      have hnotStop : extensionByte ≠ 0x10 := by decide
      rw [step_extension hrun hmode hfetch]
      simp [hdefined, hnotStop]
    · rw [step_primary hrun hmode hfetch hext, bind_complete_error_iff]
      exact primary_error_iff hP hbus hext

end Exec

end Lr35902
