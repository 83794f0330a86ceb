import Lr35902.Proofs.Machine.Polling

/-!
# Entering an interrupt handler

A machine dispatches an interrupt exactly when one is pending, interrupts are let through, and the
processor is between two instructions and has not stopped (`Machine.dispatches_iff`).  It then
enters the handler of the pending source with the lowest bit (`Machine.step_of_dispatches`):
the program counter is pushed, the request is withdrawn, and interrupts are blocked.
-/

namespace Lr35902

/-- The source that is served is the one with the lowest bit among those whose bits are set in both
registers. -/
theorem Interrupt.highestPending_eq_some_iff {requested enabled : UInt8} {i : Interrupt} :
    highestPending requested enabled = some i ↔
      Byte.testBit (requested &&& enabled) i.bit = true ∧
        ∀ j : Interrupt, j.bit < i.bit → Byte.testBit (requested &&& enabled) j.bit = false := by
  have hall : ∀ v : BitVec 8, ∀ i ∈ all,
      ((all.find? fun i => (⟨v⟩ : UInt8) &&& 0x1F &&& i.mask != 0) = some i ↔
        Byte.testBit ⟨v⟩ i.bit = true ∧
          ∀ j ∈ all, j.bit < i.bit → Byte.testBit ⟨v⟩ j.bit = false) := by
    decide +kernel
  have hmem : ∀ j : Interrupt, j ∈ all := by
    intro j
    cases j <;> decide
  rw [highestPending, hall (requested &&& enabled).toBitVec i (hmem i)]
  constructor
  · rintro ⟨hi, hlower⟩
    exact ⟨hi, fun j hj => hlower j (hmem j) hj⟩
  · rintro ⟨hi, hlower⟩
    exact ⟨hi, fun j _ hj => hlower j hj⟩

/-! ### The bus -/

namespace SystemBus

/-- The bus after the word `w` is pushed below `sp`, high byte first. -/
def pushed (b : SystemBus) (sp w : UInt16) : SystemBus :=
  (b.stored (sp - 1) (Word.high w)).stored (sp - 2) (Word.low w)

/-- The bus after the request of `i` is withdrawn. -/
def acknowledged (b : SystemBus) (i : Interrupt) : SystemBus :=
  b.poke Interrupt.requestAddr (b.memory.ram.get Interrupt.requestAddr &&& ~~~i.mask)

theorem WellFormed.pushed {b : SystemBus} (h : b.WellFormed) (sp w : UInt16) :
    (b.pushed sp w).WellFormed :=
  (WellFormed.stored h (sp - 1) (Word.high w)).stored (sp - 2) (Word.low w)

/-- The register of requests is a plain byte in memory. -/
theorem stored_request (b : SystemBus) (v : UInt8) :
    b.stored Interrupt.requestAddr v = b.poke Interrupt.requestAddr v :=
  b.stored_eq_poke v (by decide) (.inl (by decide))

end SystemBus

/-- The processor in the handler of `i`: its program counter is on the stack. -/
def Cpu.entered (cpu : Cpu) (i : Interrupt) : Cpu where
  regs := { cpu.regs with sp := cpu.regs.sp - 2, pc := 0x40 + 8 * i.bit.toUInt16 }
  ime := .blocked
  run := .normal
  mode := cpu.mode
  cycles := cpu.cycles + 20

namespace Exec

variable {cpu : Cpu} {b : SystemBus}

theorem pushWord_eq (h : b.WellFormed) (w : UInt16) :
    pushWord w ⟨cpu, b⟩ =
      .ok () ⟨{ cpu with regs := { cpu.regs with sp := cpu.regs.sp - 2 } },
        b.pushed cpu.regs.sp w⟩ := by
  have hfirst := SystemBus.write8_eq (cpu.regs.sp - 1) (Word.high w) h
  have hhalf := SystemBus.WellFormed.stored h (cpu.regs.sp - 1) (Word.high w)
  have hsecond := SystemBus.write8_eq (cpu.regs.sp - 2) (Word.low w) hhalf
  simp only [pushWord, bind_apply, regs_apply, store_apply, hfirst, hsecond, modifyRegs_apply,
    SystemBus.pushed]

/-- A dispatch pushes the program counter, and then withdraws the request. -/
theorem dispatch_eq (h : b.WellFormed) (i : Interrupt) :
    dispatch i ⟨cpu, b⟩ =
      .ok 20 ⟨cpu.entered i, (b.pushed cpu.regs.sp cpu.regs.pc).acknowledged i⟩ := by
  have hpushed := h.pushed cpu.regs.sp cpu.regs.pc
  have hview := (b.pushed cpu.regs.sp cpu.regs.pc).view_of_le
    (show SystemBus.imageEnd ≤ Interrupt.requestAddr by decide)
  simp only [dispatch, bind_apply, regs_apply, pushWord_eq h, load_apply, SystemBus.read8_eq, hview,
    store_apply, SystemBus.write8_eq _ _ hpushed, SystemBus.stored_request]
  rfl

end Exec

namespace Machine

variable {m : Machine}

/-- The source is requested and enabled. -/
def Pends (m : Machine) (i : Interrupt) : Prop :=
  Byte.testBit (m.peek Interrupt.requestAddr &&& m.peek Interrupt.enableAddr) i.bit = true

/-- The source is the one with the lowest bit among those that are requested and enabled. -/
structure First (m : Machine) (i : Interrupt) : Prop where
  pends : m.Pends i
  lowest : ∀ j : Interrupt, j.bit < i.bit → ¬ m.Pends j

theorem pendingInterrupt_eq_some_iff {i : Interrupt} :
    m.pendingInterrupt = some i ↔ m.First i := by
  rw [pendingInterrupt, Interrupt.highestPending_eq_some_iff]
  constructor
  · rintro ⟨hpends, hlowest⟩
    exact ⟨hpends, fun j hj => Bool.eq_false_iff.1 (hlowest j hj)⟩
  · rintro ⟨hpends, hlowest⟩
    exact ⟨hpends, fun j hj => Bool.eq_false_iff.2 (hlowest j hj)⟩

/-- The machine in the handler of `i`. -/
def entered (m : Machine) (i : Interrupt) : Machine :=
  { m with
    cpu := m.cpu.entered i
    bus := (m.bus.pushed m.cpu.regs.sp m.cpu.regs.pc).acknowledged i }

/-- A machine that may dispatch the pending interrupt does so. -/
theorem pollInterrupts_of_first (hm : m.bus.WellFormed) {i : Interrupt}
    (hrun : m.cpu.run ≠ .stopped) (hime : m.cpu.ime = .interruptible)
    (hmode : m.cpu.mode = .primary) (hi : m.First i) :
    Exec.pollInterrupts m.board = .ok (some 20) (m.entered i).board := by
  have hcond : m.cpu.ime.isInterruptible = true ∧ m.cpu.mode = .primary := by
    rw [hime, hmode]
    exact ⟨rfl, rfl⟩
  rw [pollInterrupts_board, if_neg hrun, pendingInterrupt_eq_some_iff.2 hi]
  simp only [if_pos hcond]
  rw [map_apply, board, Exec.dispatch_eq hm]
  rfl

/-- An interrupt is dispatched if one is pending, interrupts are let through and the processor is
between two instructions and has not stopped. -/
theorem dispatches_iff (hm : m.bus.WellFormed) :
    m.Dispatches ↔
      m.cpu.run ≠ .stopped ∧ m.cpu.ime = .interruptible ∧ m.cpu.mode = .primary ∧
        m.HasPending := by
  constructor
  · intro h
    have hpending := h.hasPending
    obtain ⟨n, s, hpoll⟩ := h
    rw [pollInterrupts_board] at hpoll
    by_cases hstopped : m.cpu.run = .stopped
    · rw [if_pos hstopped] at hpoll
      cases hpoll
    obtain ⟨i, hi⟩ := Option.isSome_iff_exists.1 (isSome_pendingInterrupt.2 hpending)
    rw [if_neg hstopped, hi] at hpoll
    by_cases hcond : m.cpu.ime.isInterruptible = true ∧ m.cpu.mode = .primary
    · exact ⟨hstopped, eq_of_beq hcond.1, hcond.2, hpending⟩
    · simp only [if_neg hcond] at hpoll
      cases hpoll
  · rintro ⟨hrun, hime, hmode, hpending⟩
    obtain ⟨i, hi⟩ := Option.isSome_iff_exists.1 (isSome_pendingInterrupt.2 hpending)
    exact ⟨_, _, pollInterrupts_of_first hm hrun hime hmode (pendingInterrupt_eq_some_iff.1 hi)⟩

/-- A step that dispatches takes 20 cycles and enters the handler of the first pending source. -/
theorem step_of_dispatches (hm : m.bus.WellFormed) (h : m.Dispatches) :
    ∃ i, m.First i ∧ m.step = .ok 20 ((m.entered i).advanceDisplay 20) := by
  obtain ⟨hrun, hime, hmode, hpending⟩ := (dispatches_iff hm).1 h
  obtain ⟨i, hi⟩ := Option.isSome_iff_exists.1 (isSome_pendingInterrupt.2 hpending)
  have hfirst := pendingInterrupt_eq_some_iff.1 hi
  refine ⟨i, hfirst, step_eq_ok_iff.2 ⟨(m.entered i).board, ?_, rfl⟩⟩
  rw [Exec.tick, bind_apply, pollInterrupts_of_first hm hrun hime hmode hfirst]
  rfl

/-- The interrupt that a machine dispatches is the first one that is pending. -/
theorem step_of_first (hm : m.bus.WellFormed) (hd : m.Dispatches) (hi : m.First i) :
    m.step = .ok 20 ((m.entered i).advanceDisplay 20) := by
  obtain ⟨j, hj, hstep⟩ := step_of_dispatches hm hd
  obtain rfl : i = j := Option.some.inj
    ((pendingInterrupt_eq_some_iff.2 hi).symm.trans (pendingInterrupt_eq_some_iff.2 hj))
  exact hstep

end Machine

end Lr35902
