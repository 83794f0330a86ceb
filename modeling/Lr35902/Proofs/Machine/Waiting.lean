import Lr35902.Proofs.Machine.Opcode
import Lr35902.Proofs.Machine.Reasons
import Lr35902.Proofs.Machine.StepKind

/-!
# Waiting for ever

A processor that waits for an interrupt idles until one is pending (`Machine.idles_iff`).  While it
idles nothing but the display changes the requests, so whether an interrupt will ever be pending can
be told from the state of the machine: a run that looks at the machine finds that it waits for ever
exactly if all further steps idle, and otherwise the display, within one frame, requests the
interrupt that ends the waiting (`Machine.haltedForever_iff_idles`).
-/

namespace Lr35902

namespace Machine

variable {m : Machine}

/-- The next step leaves the processor waiting: it takes four cycles and changes no register. -/
structure Idles (m : Machine) : Prop where
  step : m.step = .ok 4 m.next
  run : m.next.cpu.run = .halted
  regs : m.next.cpu.regs = m.cpu.regs

/-- The machine after four cycles in which only the display works. -/
def idled (m : Machine) : Machine :=
  { m with cpu := { m.cpu with cycles := m.cpu.cycles + 4 } }.advanceDisplay 4

/-! ### One step -/

section

variable (hm : m.bus.WellFormed) (hrun : m.cpu.run = .halted)
include hm hrun

theorem step_of_not_hasPending (h : ¬ m.HasPending) : m.step = .ok 4 m.idled := by
  have hpolled : m.polled = m.cpu := if_neg fun hwakes => h hwakes.2
  have hwaits : m.cpu.run ≠ .normal := by
    rw [hrun]
    decide
  refine step_eq_ok_iff.2 ⟨⟨{ m.cpu with cycles := m.cpu.cycles + 4 }, m.bus⟩, ?_, rfl⟩
  rw [tick_of_not_dispatches hm (mt Dispatches.hasPending h), hpolled, Exec.step_waiting hwaits]
  rfl

/-- A processor that is woken executes an instruction, and even if that makes it wait again, the
program counter has moved. -/
theorem not_idles_of_hasPending (h : m.HasPending) : ¬ m.Idles := by
  intro hidles
  by_cases hd : m.Dispatches
  · -- entering a handler takes longer
    obtain ⟨i, -, hstep⟩ := step_of_dispatches hm hd
    cases hidles.step.symm.trans hstep
  have hnormal : m.polled.run = .normal := polled_run_eq_normal_iff.2 (.inr ⟨hrun, h⟩)
  obtain ⟨hfits, hcontrol⟩ := step_control hm
  have hkind : m.stepKind = .completed .halt := by
    refine StepKind.eq_halt hfits hnormal ?_
    rw [← hcontrol]
    exact hidles.run
  rw [stepKind_of_not_dispatches hm hd] at hkind
  have hregs := hidles.regs
  rw [cpu_next, final_congr (tick_of_not_dispatches hm hd), Exec.regs_step_halt hkind,
    polled_eq_of_run hnormal] at hregs
  have hpc : m.cpu.regs.pc + 1 = m.cpu.regs.pc := congrArg RegisterFile.pc hregs
  exact absurd hpc (by simp)

/-- A processor that waits idles as long as no interrupt is pending. -/
theorem idles_iff : m.Idles ↔ ¬ m.HasPending := by
  refine ⟨fun hidles h => not_idles_of_hasPending hm hrun h hidles, fun h => ?_⟩
  have hstep := step_of_not_hasPending hm hrun h
  have hnext : m.next = m.idled := final_ok hstep
  exact ⟨by rw [hnext, hstep], by rw [hnext]; exact hrun, by rw [hnext]; rfl⟩

end

/-! ### What the display requests -/

/-- The display is on and its interrupt is enabled. -/
def VblankComes (m : Machine) : Prop :=
  LcdTimer.isOn m.memory ∧ m.peek Interrupt.enableAddr &&& Interrupt.vblank.mask ≠ 0

instance (m : Machine) : Decidable m.VblankComes := inferInstanceAs (Decidable (_ ∧ _))

theorem haltedForever_iff :
    m.haltedForever ↔ m.cpu.run = .halted ∧ ¬ m.HasPending ∧ ¬ m.VblankComes := by
  have hpending := isSome_pendingInterrupt (m := m)
  unfold haltedForever VblankComes
  rw [← hpending]
  cases LcdTimer.isOn m.memory <;> simp [and_assoc]

theorem isOn_idled : LcdTimer.isOn m.idled.memory = LcdTimer.isOn m.memory := by
  have hcontrol : m.idled.memory.ram.get LcdTimer.controlAddr =
      m.memory.ram.get LcdTimer.controlAddr :=
    m.lcd.get_advance_of_ne m.bus.memory 4 (by decide) (by decide)
  rw [LcdTimer.isOn, hcontrol, LcdTimer.isOn]

theorem peek_enable_idled : m.idled.peek Interrupt.enableAddr = m.peek Interrupt.enableAddr :=
  m.lcd.get_advance_of_ne m.bus.memory 4 (by decide) (by decide)

theorem vblankComes_idled_iff : m.idled.VblankComes ↔ m.VblankComes := by
  unfold VblankComes
  rw [isOn_idled, peek_enable_idled]

/-- What a request of the display adds to the pending interrupts. -/
theorem pending_or_vblank (requested enabled : UInt8) :
    (requested ||| Interrupt.vblank.mask) &&& enabled &&& 0x1F =
      (requested &&& enabled &&& 0x1F) ||| (enabled &&& Interrupt.vblank.mask) := by
  have hdistrib (a b c : UInt8) : (a ||| b) &&& c = (a &&& c) ||| (b &&& c) :=
    UInt8.toBitVec_inj.1 BitVec.and_or_distrib_right
  rw [hdistrib, hdistrib, UInt8.and_comm Interrupt.vblank.mask, UInt8.and_assoc enabled]
  rfl

/-- A display that is on leaves its visible lines with its interrupt pending, if it is enabled. -/
theorem hasPending_idled_of_passes (hv : m.VblankComes)
    (hpasses : LcdTimer.passesVisible m.lcd.line (m.lcd.moved 4).line = true) :
    m.idled.HasPending := by
  have hrequest : m.idled.peek Interrupt.requestAddr =
      m.peek Interrupt.requestAddr ||| Interrupt.vblank.mask :=
    m.lcd.get_request_advance_of_passes m.bus.memory 4 hv.1 hpasses
  unfold HasPending
  rw [hrequest, peek_enable_idled, pending_or_vblank, ne_eq, UInt8.or_eq_zero_iff, not_and_or]
  exact .inr hv.2

/-- Without the display no interrupt becomes pending. -/
theorem not_hasPending_idled (h : ¬ m.HasPending) (hv : ¬ m.VblankComes) :
    ¬ m.idled.HasPending := by
  unfold HasPending at h ⊢
  rw [peek_enable_idled]
  by_cases hon : LcdTimer.isOn m.memory
  · -- the display may request its interrupt, but that is disabled
    have hdisabled : m.peek Interrupt.enableAddr &&& Interrupt.vblank.mask = 0 :=
      Decidable.not_not.1 fun henabled => hv ⟨hon, henabled⟩
    have hrequest : m.idled.peek Interrupt.requestAddr = m.peek Interrupt.requestAddr ||| _ :=
      m.lcd.get_request_advance m.bus.memory 4
    rw [hrequest]
    split
    · rwa [UInt8.or_zero]
    · rwa [pending_or_vblank, hdisabled, UInt8.or_zero]
  · have hrequest : m.idled.peek Interrupt.requestAddr = m.peek Interrupt.requestAddr :=
      m.lcd.get_request_advance_of_off m.bus.memory 4 hon
    rwa [hrequest]

/-! ### All steps -/

/-- The position of the display is inside of a frame. -/
theorem Reachable.counter_lt (hm : m.Reachable) : m.lcd.counter < LcdTimer.cyclesPerFrame := by
  refine hm.invariant (P := (·.lcd.counter < LcdTimer.cyclesPerFrame)) (fun m hm => ?_)
    (fun m hm ih => ?_)
  · rw [hm.lcd_eq]
    decide
  · cases h : m.step with
    | ok n m' =>
      obtain ⟨s, -, rfl⟩ := step_eq_ok_iff.1 h
      rw [Machine.next, final_ok h]
      exact m.lcd.counter_advance_lt s.bus.memory n
    | error e m' =>
      obtain ⟨s, -, rfl⟩ := step_eq_error_iff.1 h
      rwa [Machine.next, final_error h]

/-- A machine that waits for ever idles, and so do all that follow it. -/
theorem haltedForever_next (hm : m.bus.WellFormed) (h : m.haltedForever) :
    m.Idles ∧ m.next.haltedForever := by
  obtain ⟨hrun, hpending, hvblank⟩ := haltedForever_iff.1 h
  have hnext : m.next = m.idled := final_ok (step_of_not_hasPending hm hrun hpending)
  refine ⟨(idles_iff hm hrun).2 hpending, ?_⟩
  rw [hnext]
  exact haltedForever_iff.2 ⟨hrun, not_hasPending_idled hpending hvblank,
    mt vblankComes_idled_iff.1 hvblank⟩

theorem idles_of_haltedForever (hm : m.Reachable) (h : m.haltedForever) (n : Nat) :
    (m.after n).Idles ∧ (m.after n).haltedForever := by
  induction n with
  | zero => exact ⟨(haltedForever_next hm.wellFormed h).1, h⟩
  | succ n ih =>
    have hforever := (haltedForever_next (hm.after n).wellFormed ih.2).2
    exact ⟨(haltedForever_next (hm.after (n + 1)).wellFormed hforever).1, hforever⟩

/-- A machine that waits, with a display that is at most `b` steps away from an enabled interrupt,
idles for at most that many steps until an interrupt is pending. -/
theorem exists_hasPending {b : Nat} (hm : m.Reachable) (hrun : m.cpu.run = .halted)
    (hvblank : m.VblankComes) (hb : m.lcd.untilVblank ≤ 4 * b) :
    ∃ k ≤ b, (∀ j < k, (m.after j).Idles) ∧ (m.after k).cpu.run = .halted ∧
      (m.after k).HasPending := by
  induction b generalizing m with
  | zero =>
    have hpositive := LcdTimer.untilVblank_pos hm.counter_lt
    omega
  | succ b ih =>
    by_cases hpending : m.HasPending
    · exact ⟨0, Nat.zero_le _, nofun, hrun, hpending⟩
    have hidles := (idles_iff hm.wellFormed hrun).2 hpending
    have hnext : m.next = m.idled := final_ok (step_of_not_hasPending hm.wellFormed hrun hpending)
    obtain hpasses | happroaches :=
      LcdTimer.passes_or_approaches hm.counter_lt (n := 4) (by decide)
    · -- the display requests its interrupt in this step
      refine ⟨1, Nat.le_add_left _ _, fun j hj => ?_, hidles.run, ?_⟩
      · obtain rfl := Nat.lt_one_iff.1 hj
        exact hidles
      · change m.next.HasPending
        rw [hnext]
        exact hasPending_idled_of_passes hvblank hpasses
    · have hlcd : m.next.lcd = m.lcd.moved 4 := by
        rw [hnext]
        exact m.lcd.advance_of_isOn m.bus.memory 4 hvblank.1
      have hcomes : m.next.VblankComes := by
        rw [hnext]
        exact vblankComes_idled_iff.2 hvblank
      obtain ⟨k, hk, hbefore, hthere⟩ := ih hm.next hidles.run hcomes (by rw [hlcd]; omega)
      refine ⟨k + 1, Nat.succ_le_succ hk, fun j hj => ?_, ?_⟩
      · cases j with
        | zero => exact hidles
        | succ j =>
          rw [after_succ]
          exact hbefore j (Nat.lt_of_succ_lt_succ hj)
      · rw [after_succ]
        exact hthere

/-- A reachable machine whose processor waits is found to wait for ever exactly if all its further
steps idle.  If it is not, then within a frame a step does not idle: it dispatches an interrupt, or
it wakes the processor and executes the opcode at the program counter. -/
theorem haltedForever_iff_idles (hm : m.Reachable) (hrun : m.cpu.run = .halted) :
    m.checkHaltedForever = .ok m.haltedForever ∧
    (m.haltedForever = true ↔ ∀ n, (m.after n).Idles) ∧
    (m.haltedForever = false → ∃ k < 17557, (∀ j < k, (m.after j).Idles) ∧ ¬ (m.after k).Idles ∧
      ((m.after k).Dispatches ∨ (m.after k).opcodeAddr? = some (m.after k).cpu.regs.pc)) := by
  have hends (h : m.haltedForever = false) : ∃ k < 17557, (∀ j < k, (m.after j).Idles) ∧
      (m.after k).cpu.run = .halted ∧ (m.after k).HasPending := by
    by_cases hpending : m.HasPending
    · exact ⟨0, by decide, nofun, hrun, hpending⟩
    have hvblank : m.VblankComes := by
      refine Decidable.not_not.1 fun hnot => ?_
      rw [haltedForever_iff.2 ⟨hrun, hpending, hnot⟩] at h
      cases h
    obtain ⟨k, hk, hwaits⟩ := exists_hasPending (b := 17556) hm hrun hvblank
      m.lcd.untilVblank_le
    exact ⟨k, Nat.lt_succ_of_le hk, hwaits⟩
  refine ⟨m.checkHaltedForever_eq,
    ⟨fun h n => (idles_of_haltedForever hm h n).1, fun h => ?_⟩, fun h => ?_⟩
  · refine Bool.of_not_eq_false fun hfalse => ?_
    obtain ⟨k, -, -, hhalted, hpending⟩ := hends hfalse
    exact not_idles_of_hasPending (hm.after k).wellFormed hhalted hpending (h k)
  · obtain ⟨k, hk, hbefore, hhalted, hpending⟩ := hends h
    have hbus := (hm.after k).wellFormed
    refine ⟨k, hk, hbefore, not_idles_of_hasPending hbus hhalted hpending, ?_⟩
    by_cases hd : (m.after k).Dispatches
    · exact .inl hd
    · have hnormal := polled_run_eq_normal_iff.2 (.inr ⟨hhalted, hpending⟩)
      exact .inr (opcodeAddr?_of_running hbus hd hnormal)

/-- The theorem for two programs that enable the interrupt of the display and wait: the first one
waits for ever as the display is off, and the second one, which switches it on, does not. -/
theorem haltedForever_iff_idles_vblank :
    (∃ m : Machine, m.Reachable ∧ m.cpu.run = .halted ∧ m.peek Interrupt.enableAddr = 0x81 ∧
      m.checkHaltedForever = .ok true ∧ ∀ n, (m.after n).Idles) ∧
    ∃ m : Machine, m.Reachable ∧ m.cpu.run = .halted ∧ ¬ m.HasPending ∧
      m.checkHaltedForever = .ok false ∧
      ∃ k < 17557, (∀ j < k, (m.after j).Idles) ∧ ¬ (m.after k).Idles ∧
        ((m.after k).Dispatches ∨ (m.after k).opcodeAddr? = some (m.after k).cpu.regs.pc) := by
  have hoff : withBoot [] (some [0x3E, 0x81, 0xE0, 0xFF, 0x76]) = .ok _ := rfl
  have hon : withBoot [] (some [0x3E, 0x81, 0xE0, 0xFF, 0xE0, 0x40, 0x76]) = .ok _ := rfl
  have hmoff := (Reachable.withBoot hoff).after 3
  have hmon := (Reachable.withBoot hon).after 4
  obtain ⟨hfinds, hidles, -⟩ := haltedForever_iff_idles hmoff (by decide +kernel)
  obtain ⟨hfindsNot, -, hends⟩ := haltedForever_iff_idles hmon (by decide +kernel)
  refine ⟨⟨_, hmoff, by decide +kernel, by decide +kernel, ?_, hidles.1 (by decide +kernel)⟩,
    _, hmon, by decide +kernel, by decide +kernel, ?_, hends (by decide +kernel)⟩
  · exact hfinds.trans (congrArg Except.ok (by decide +kernel))
  · exact hfindsNot.trans (congrArg Except.ok (by decide +kernel))

end Machine

end Lr35902
