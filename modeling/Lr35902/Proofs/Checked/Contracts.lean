import Lr35902.Proofs.Checked.Execute
import Lr35902.Proofs.Lcd
import Lr35902.Proofs.Machine.Reachable

/-!
# No contract is broken

The display counts the cycles of a frame in 32 bits and the frames in 64 bits.  It is moved on by
the cycles that steps and dispatches return, so its place in the frame always leaves room for the
next move (`Check.advance_eq_of_reached`).

`Checked.contracts_upheld` puts this together with the processor: whatever its state and its bus, a
step and a dispatch break no contract, and neither does the display that follows them.
-/

namespace Lr35902

namespace Exec

/-- Some step or dispatch of a processor returns `n` cycles. -/
def Returns (n : Nat) : Prop :=
  ∃ (σ : Type) (_ : Bus σ) (s t : Board σ), step s = .ok n t ∨ ∃ i, dispatch i s = .ok n t

variable {σ : Type} [Bus σ] {s t : Board σ} {n : Nat}

theorem Returns.mem_durations (h : Returns n) : n ∈ Instruction.durations := by
  obtain ⟨σ, _, s, t, hstep | ⟨i, hdispatch⟩⟩ := h
  · exact (step_ok hstep).1
  · rw [(dispatch_ok hdispatch).1]
    decide

/-- What polling returns comes from a dispatch. -/
theorem returns_of_pollInterrupts (h : pollInterrupts s = .ok (some n) t) : Returns n := by
  obtain ⟨before, u, -, h⟩ := bind_eq_ok_iff.1 h
  split at h
  · cases h
  obtain ⟨pending, u, -, h⟩ := bind_eq_ok_iff.1 h
  cases pending with
  | none => cases h
  | some i =>
    dsimp only at h
    split at h
    · obtain ⟨k, v, hdispatch, h⟩ := bind_eq_ok_iff.1 h
      cases h
      exact ⟨σ, _, u, _, .inr ⟨i, hdispatch⟩⟩
    · split at h <;> cases h

theorem returns_of_tick (h : tick s = .ok n t) : Returns n := by
  obtain ⟨polled, u, hpolled, h⟩ := bind_eq_ok_iff.1 h
  cases polled with
  | some k =>
    cases h
    exact returns_of_pollInterrupts hpolled
  | none => exact ⟨σ, _, u, t, .inl h⟩

end Exec

/-- The display gets there from its start by moves of cycles that steps and dispatches return. -/
inductive LcdTimer.Reached : LcdTimer → Prop
  | start : Reached {}
  | advance {t : LcdTimer} (ht : Reached t) {n : Nat} (hn : Exec.Returns n) (m : Memory) :
      Reached (t.advance m n).1

theorem LcdTimer.Reached.counter_lt {t : LcdTimer} (ht : t.Reached) :
    t.counter < cyclesPerFrame := by
  cases ht with
  | start => decide
  | advance ht hn m => exact counter_advance_lt _ m _

/-- The displays of reachable machines are among them. -/
theorem Machine.Reachable.lcd_reached {m : Machine} (hm : m.Reachable) : m.lcd.Reached := by
  refine hm.invariant (P := (·.lcd.Reached)) (fun m hm => ?_) fun m _ ih => ?_
  · rw [hm.lcd_eq]
    exact .start
  · cases h : m.step with
    | ok n m' =>
      obtain ⟨s, htick, rfl⟩ := step_eq_ok_iff.1 h
      rw [Machine.next, final_ok h]
      exact ih.advance (Exec.returns_of_tick htick) s.bus.memory
    | error e m' =>
      obtain ⟨s, -, rfl⟩ := step_eq_error_iff.1 h
      rwa [Machine.next, final_error h]

namespace Check

variable {t : LcdTimer} {n : Nat}

/-- The timer and the memory after `cycles` more. -/
def advance (t : LcdTimer) (m : Memory) (cycles : Nat) : Except Violation (LcdTimer × Memory) := do
  if LcdTimer.isOn m then
    let sum ← fit 32 (t.counter + cycles) (t.counter + cycles)
    let t' := { t with counter := sum % LcdTimer.cyclesPerFrame }
    let ram := m.ram.set LcdTimer.lineAddr t'.line.toUInt8
    if LcdTimer.passesVisible t.line t'.line then
      let mask ← mask .vblank
      let frames ← fit 64 (t.frames + 1) (t.frames + 1)
      let requested := ram.get Interrupt.requestAddr ||| mask
      return ({ t' with frames }, { m with ram := ram.set Interrupt.requestAddr requested })
    else return (t', { m with ram })
  else return ({ t with counter := 0 }, { m with ram := m.ram.set LcdTimer.lineAddr 0 })

theorem advance_eq (hcounter : t.counter + n < 2 ^ 32) (hframes : t.frames + 1 < 2 ^ 64)
    (m : Memory) : advance t m n = .ok (t.advance m n) := by
  have hsum : fit 32 (t.counter + n) (t.counter + n) = .ok (t.counter + n) := fit_eq hcounter _
  have hcount : fit 64 (t.frames + 1) (t.frames + 1) = .ok (t.frames + 1) := fit_eq hframes _
  unfold advance LcdTimer.advance
  by_cases hon : LcdTimer.isOn m
  · rw [if_pos hon, if_pos hon, hsum, hcount]
    dsimp only
    change (if LcdTimer.passesVisible t.line (t.moved n).line then _ else _) = _
    by_cases hpasses : LcdTimer.passesVisible t.line (t.moved n).line = true
    · rw [if_pos hpasses, if_pos hpasses, LcdTimer.moved_of_passes hpasses]
      rfl
    · rw [if_neg hpasses, if_neg hpasses, LcdTimer.moved_of_not_passes hpasses]
      rfl
  · rw [if_neg hon, if_neg hon]
    rfl

theorem advance_eq_of_reached (ht : t.Reached) (hframes : t.frames < 2 ^ 64 - 24)
    (hn : Exec.Returns n) (m : Memory) : advance t m n = .ok (t.advance m n) := by
  have hcounter : t.counter < 70224 := ht.counter_lt
  have hle := Instruction.le_of_mem_durations hn.mem_durations
  exact advance_eq (by omega) (by omega) m

end Check

namespace Checked

/-- From any board, on any bus, a step and every dispatch break no contract and do what they do
without tests, as long as the count of cycles has room for them.  The same is true of the display
wherever it can get, that of a reachable machine included, and of all cycles that a step or dispatch
returns, as long as the count of frames has room. -/
theorem contracts_upheld :
    (∀ (σ : Type) [Bus σ] (s : Board σ), s.cpu.cycles < 2 ^ 64 - 24 →
      Upholds s step Exec.step ∧ ∀ i, Upholds s (dispatch i) (Exec.dispatch i)) ∧
    (∀ t : LcdTimer, t.Reached → t.frames < 2 ^ 64 - 24 → ∀ n, Exec.Returns n → ∀ m,
      Check.advance t m n = .ok (t.advance m n)) ∧
    ∀ m : Machine, m.Reachable → m.lcd.frames < 2 ^ 64 - 24 → ∀ n, Exec.Returns n → ∀ memory,
      Check.advance m.lcd memory n = .ok (m.lcd.advance memory n) := by
  refine ⟨fun σ _ s hcycles => ?_, fun t ht hframes n hn m => ?_, ?_⟩
  · exact ⟨upholds_step hcycles, upholds_dispatch hcycles⟩
  · exact Check.advance_eq_of_reached ht hframes hn m
  · intro m hm hframes n hn memory
    exact Check.advance_eq_of_reached hm.lcd_reached hframes hn memory

/-- A processor that is about to add its stack pointer to HL, with a count of cycles that has just
enough room. -/
def lateBoard : Board Memory where
  cpu := { regs := .postBoot, cycles := 2 ^ 64 - 25 }
  bus := { Memory.blank with rom := Memory.blank.rom.set 0x0100 0x39 }

/-- The theorem for that processor, for a new display, and for that of a machine which has switched
it on. -/
theorem contracts_upheld_lateBoard :
    (∃ t, step.run lateBoard = .ok (.ok 8) t ∧ t.cpu.cycles = 2 ^ 64 - 17) ∧
    (∀ v t, (dispatch .timer).run lateBoard ≠ .ok (.error v) t) ∧
    (∀ m, Check.advance {} m 8 = .ok (LcdTimer.advance {} m 8)) ∧
    ∃ m, Machine.withBoot [] (some [0x3E, 0x80, 0xE0, 0x40]) = .ok m ∧
      (m.after 2).lcd.counter = 12 ∧ ∀ memory,
        Check.advance (m.after 2).lcd memory 8 = .ok ((m.after 2).lcd.advance memory 8) := by
  have hstep : Exec.step lateBoard = .ok 8 _ := rfl
  have hreturns : Exec.Returns 8 := ⟨Memory, _, _, _, .inl hstep⟩
  have hstart : Machine.withBoot [] (some [0x3E, 0x80, 0xE0, 0x40]) = .ok _ := rfl
  obtain ⟨hprocessor, hdisplay, hmachine⟩ := contracts_upheld
  obtain ⟨hupholds, hdispatches⟩ := hprocessor Memory lateBoard (by decide)
  have hcycles := (Exec.step_ok hstep).2
  refine ⟨⟨_, ?_, hcycles⟩, (hdispatches .timer).ne_violation, ?_, _, hstart, ?_, ?_⟩
  · rw [hupholds, hstep]
  · exact hdisplay {} .start (by decide) 8 hreturns
  · decide +kernel
  · exact hmachine _ ((Machine.Reachable.withBoot hstart).after 2) (by decide +kernel) 8 hreturns

end Checked

end Lr35902
