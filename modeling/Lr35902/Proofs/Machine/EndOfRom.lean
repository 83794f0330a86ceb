import Lr35902.Proofs.Boot.Handover
import Lr35902.Proofs.Machine.Opcode
import Lr35902.Proofs.Machine.Reasons
import Lr35902.Proofs.Machine.StepKind

/-!
# The end of what was loaded

A run ends when the program counter has left the bytes that were loaded, but it looks at the program
counter only while the processor does not wait.  So there is one way to execute a byte behind the
last one that was loaded: the processor waits there with interrupts blocked, and an interrupt is
pending, which lets it go on (`Machine.executes_past_end_iff`).  A program whose last byte is the
instruction to wait does that (`Machine.not_below_extent_halt`).
-/

namespace Lr35902

/-- The steps of the run are used up. -/
def RunResult.isPaused : RunResult → Bool
  | paused _ => true
  | ended .. | failed .. => false

namespace Machine

variable {m m' : Machine} {limits : Limits} {n : Nat}

/-- A run that is paused has made all its steps. -/
theorem eq_after_of_runFor (h : m.runFor limits n = .paused m') : m' = m.after n := by
  induction n generalizing m with
  | zero =>
    cases h
    rfl
  | succ n ih =>
    rw [runFor_succ] at h
    cases hstop : m.stopReason? limits with
    | some reason =>
      rw [hstop] at h
      cases h
    | none =>
      rw [hstop] at h
      cases hstep : m.step with
      | ok k t =>
        rw [hstep] at h
        rw [after_succ, next, final_ok hstep]
        exact ih h
      | error e t =>
        rw [hstep] at h
        cases h

theorem runFor_eq_paused (h : (m.runFor limits n).isPaused) :
    m.runFor limits n = .paused (m.after n) := by
  cases hrun : m.runFor limits n with
  | paused m' => rw [eq_after_of_runFor hrun]
  | ended reason m' =>
    rw [hrun] at h
    cases h
  | failed e m' =>
    rw [hrun] at h
    cases h

/-- A machine that waits with interrupts blocked can only be woken. -/
theorem Reachable.ime_of_halted (hm : m.Reachable) (hrun : m.cpu.run = .halted)
    (hpending : m.HasPending) (h : ¬ m.Dispatches) : m.cpu.ime = .blocked := by
  have hwaiting : m.cpu.control.run ≠ .normal := by
    change m.cpu.run ≠ .normal
    rw [hrun]
    decide
  obtain ⟨hmode, hime⟩ := hm.settled hwaiting
  cases hswitch : m.cpu.ime with
  | blocked => rfl
  | pendingEnable => exact absurd hswitch hime
  | interruptible =>
    have hstopped : m.cpu.run ≠ .stopped := by
      rw [hrun]
      decide
    exact absurd ((dispatches_iff hm.wellFormed).2 ⟨hstopped, hswitch, hmode, hpending⟩) h

/-- In a run, an opcode behind the loaded bytes is executed exactly if the processor waits there
with interrupts blocked while one is pending. -/
theorem executes_past_end_iff (hm : m.Reachable) (hpaused : m.runFor limits n = .paused m')
    (hgo : m'.stopReason? limits = none) :
    (∃ a, m'.opcodeAddr? = some a ∧ Bus.extent m'.bus ≤ a.toNat) ↔
      m'.cpu.run = .halted ∧ m'.cpu.ime = .blocked ∧ m'.HasPending ∧
        Bus.extent m'.bus ≤ m'.cpu.regs.pc.toNat := by
  have hm' : m'.Reachable := by
    rw [eq_after_of_runFor hpaused]
    exact hm.after n
  have hbus := hm'.wellFormed
  constructor
  · rintro ⟨a, hopcode, hpast⟩
    obtain ⟨hnot, hrun, rfl⟩ := (opcodeAddr?_eq_some_iff hbus).1 hopcode
    obtain hnormal | ⟨hhalted, hpending⟩ := polled_run_eq_normal_iff.1 hrun
    · -- the run would have ended here
      obtain hhalted | ⟨-, hloaded⟩ := halted_or_hasInstruction hgo
      · cases hhalted.symm.trans hnormal
      · exact absurd (of_decide_eq_true hloaded) (Nat.not_lt.2 hpast)
    · exact ⟨hhalted, hm'.ime_of_halted hhalted hpending hnot, hpending, hpast⟩
  · rintro ⟨hhalted, hblocked, hpending, hpast⟩
    refine ⟨_, (opcodeAddr?_eq_some_iff hbus).2 ⟨fun h => ?_, ?_, rfl⟩, hpast⟩
    · cases hblocked.symm.trans ((dispatches_iff hbus).1 h).2.1
    · exact polled_run_eq_normal_iff.2 (.inr ⟨hhalted, hpending⟩)

/-- A cartridge whose program requests and enables an interrupt, leaves interrupts blocked and ends
with the instruction to wait. -/
def waitsAtEnd : List UInt8 :=
  List.replicate 0x100 0 ++ [0x3E, 0x01, 0xE0, 0xFF, 0xE0, 0x0F, 0x76]

/-- That program waits behind its last byte, where the run goes on. -/
theorem runFor_waitsAtEnd :
    ∃ m m' : Machine, postBoot waitsAtEnd = .ok m ∧ m.runFor {} 4 = .paused m' ∧
      m'.stopReason? {} = none ∧ m'.opcodeAddr? = some 0x107 ∧ Bus.extent m'.bus = 0x107 ∧
      m'.cpu.run = .halted ∧ m'.cpu.ime = .blocked ∧ m'.HasPending ∧ m'.cpu.regs.pc = 0x107 :=
  ⟨_, _, BootProgram.postBoot_eq (by decide +kernel), runFor_eq_paused (by decide +kernel),
    by decide +kernel⟩

/-- The theorem where that program waits. -/
theorem executes_past_end_halt :
    ∃ m m' : Machine, postBoot waitsAtEnd = .ok m ∧ m.runFor {} 4 = .paused m' ∧
      m'.stopReason? {} = none ∧
      ∃ a, m'.opcodeAddr? = some a ∧ Bus.extent m'.bus ≤ a.toNat := by
  obtain ⟨m, m', hstart, hpaused, hgo, -, hextent, hrun, hime, hpending, hpc⟩ := runFor_waitsAtEnd
  refine ⟨m, m', hstart, hpaused, hgo,
    (executes_past_end_iff (.postBoot hstart) hpaused hgo).2 ⟨hrun, hime, hpending, ?_⟩⟩
  rw [hextent, hpc]
  decide

/-- It is not true that a run executes loaded bytes only. -/
theorem not_below_extent_halt :
    ¬ ∀ (m m' : Machine) (limits : Limits) (n : Nat) (a : UInt16), m.Started →
      m.runFor limits n = .paused m' → m'.stopReason? limits = none → m'.opcodeAddr? = some a →
        a.toNat < Bus.extent m'.bus := by
  intro h
  obtain ⟨m, m', hstart, hpaused, hgo, hopcode, hextent, -⟩ := runFor_waitsAtEnd
  have hbelow := h m m' {} 4 0x107 (.postBoot hstart) hpaused hgo hopcode
  rw [hextent] at hbelow
  exact absurd hbelow (by decide)

end Machine

end Lr35902
