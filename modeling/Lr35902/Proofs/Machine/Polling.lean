import Lr35902.Proofs.Machine.Reachable
import Lr35902.Proofs.Total

/-!
# Polling for interrupts

What the processor does before it executes: it dispatches a pending interrupt if it may, and
otherwise lets a pending interrupt end waiting (`Machine.pollInterrupts_board`).  A dispatch cannot
fail, so what a machine does next is a dispatch that succeeds (`Machine.tick_of_dispatches`) or a
step of the processor (`Machine.tick_of_not_dispatches`).
-/

namespace Lr35902

theorem Interrupt.isSome_highestPending {requested enabled : UInt8} :
    (highestPending requested enabled).isSome ↔ requested &&& enabled &&& 0x1F ≠ 0 := by
  have hall : ∀ v : BitVec 8,
      (all.find? fun i => (⟨v⟩ : UInt8) &&& 0x1F &&& i.mask != 0).isSome ↔
        (⟨v⟩ : UInt8) &&& 0x1F ≠ 0 := by
    decide +kernel
  exact hall (requested &&& enabled).toBitVec

namespace Machine

variable {m m' : Machine}

/-- The next step dispatches an interrupt. -/
def Dispatches (m : Machine) : Prop :=
  ∃ n s, Exec.pollInterrupts m.board = .ok (some n) s

/-- An interrupt is requested and enabled, whether or not it may be dispatched. -/
def HasPending (m : Machine) : Prop :=
  m.peek Interrupt.requestAddr &&& m.peek Interrupt.enableAddr &&& 0x1F ≠ 0

/-- The interrupt that is requested and enabled and comes first. -/
def pendingInterrupt (m : Machine) : Option Interrupt :=
  Interrupt.highestPending (m.peek Interrupt.requestAddr) (m.peek Interrupt.enableAddr)

theorem pendingInterrupt_board (m : Machine) :
    Exec.pendingInterrupt m.board = .ok m.pendingInterrupt m.board := by
  have hrequest := m.bus.view_of_le (show SystemBus.imageEnd ≤ Interrupt.requestAddr by decide)
  have henable := m.bus.view_of_le (show SystemBus.imageEnd ≤ Interrupt.enableAddr by decide)
  simp only [Exec.pendingInterrupt, bind_apply, Exec.load_apply, SystemBus.read8_eq, pure_apply,
    board, hrequest, henable]
  rfl

instance (m : Machine) : Decidable m.HasPending := inferInstanceAs (Decidable (_ ≠ _))

theorem isSome_pendingInterrupt : m.pendingInterrupt.isSome ↔ m.HasPending :=
  Interrupt.isSome_highestPending

/-- The processor when polling did not dispatch: a pending interrupt ends waiting. -/
def polled (m : Machine) : Cpu :=
  if m.cpu.run = .halted ∧ m.HasPending then m.cpu.wake else m.cpu

theorem polled_mode (m : Machine) : m.polled.mode = m.cpu.mode := by
  unfold polled
  split <;> rfl

theorem polled_run_eq_normal_iff :
    m.polled.run = .normal ↔ m.cpu.run = .normal ∨ m.cpu.run = .halted ∧ m.HasPending := by
  unfold polled
  by_cases h : m.cpu.run = .halted ∧ m.HasPending
  · simp [h, Cpu.wake]
  · simp [h]

/-- A processor that goes on is as it was, but that it does not wait any more. -/
theorem polled_eq_of_run (h : m.polled.run = .normal) :
    m.polled = { m.cpu with run := .normal } := by
  rw [← h]
  unfold polled
  split <;> rfl

/-- What polling does to a machine. -/
theorem pollInterrupts_board (m : Machine) :
    Exec.pollInterrupts m.board =
      if m.cpu.run = .stopped then .ok none m.board
      else match m.pendingInterrupt with
        | none => .ok none m.board
        | some i =>
          if m.cpu.ime.isInterruptible ∧ m.cpu.mode = .primary then
            (some <$> Exec.dispatch i) m.board
          else .ok none ⟨if m.cpu.run = .halted then m.cpu.wake else m.cpu, m.bus⟩ := by
  have hcpu : m.board.cpu = m.cpu := rfl
  rw [Exec.pollInterrupts, bind_apply, Exec.cpu_apply]
  simp only [hcpu]
  by_cases hstopped : m.cpu.run = .stopped
  · simp only [if_pos hstopped, pure_apply]
  simp only [if_neg hstopped, bind_apply, pendingInterrupt_board]
  cases m.pendingInterrupt with
  | none => rfl
  | some i =>
    by_cases hint : m.cpu.ime.isInterruptible ∧ m.cpu.mode = .primary
    · simp only [if_pos hint, bind_apply, map_apply, pure_apply]
    · by_cases hhalted : m.cpu.run = .halted
      · simp only [if_neg hint, if_pos hhalted]
        rfl
      · simp only [if_neg hint, if_neg hhalted]
        rfl

/-- Only a pending interrupt is dispatched. -/
theorem Dispatches.hasPending (h : m.Dispatches) : m.HasPending := by
  obtain ⟨n, s, hs⟩ := h
  rw [pollInterrupts_board] at hs
  rw [← isSome_pendingInterrupt]
  by_cases hstopped : m.cpu.run = .stopped
  · rw [if_pos hstopped] at hs
    cases hs
  rw [if_neg hstopped] at hs
  cases hp : m.pendingInterrupt with
  | none =>
    rw [hp] at hs
    cases hs
  | some i => rfl

/-- Without a dispatch, polling only ends waiting. -/
theorem pollInterrupts_of_not_dispatches (hm : m.bus.WellFormed) (h : ¬ m.Dispatches) :
    Exec.pollInterrupts m.board = .ok none ⟨m.polled, m.bus⟩ := by
  have hpending := isSome_pendingInterrupt (m := m)
  have hpoll := pollInterrupts_board m
  unfold polled
  by_cases hstopped : m.cpu.run = .stopped
  · -- a processor that has stopped is not polled at all
    rw [hpoll, if_pos hstopped]
    simp [hstopped, board]
  rw [if_neg hstopped] at hpoll
  cases hp : m.pendingInterrupt with
  | none =>
    have hpending : ¬ m.HasPending := by rw [← hpending, hp]; simp
    simp only [hp] at hpoll
    rw [hpoll]
    simp [hpending, board]
  | some i =>
    simp only [hp] at hpoll
    have hpending : m.HasPending := hpending.1 (by rw [hp]; rfl)
    simp only [hpending, and_true]
    by_cases hint : m.cpu.ime.isInterruptible ∧ m.cpu.mode = .primary
    · -- a dispatch succeeds on a bus on which all accesses do
      obtain ⟨n, s, hs, -⟩ := Exec.total_dispatch SystemBus.reliable i m.board hm
      refine absurd ⟨n, s, ?_⟩ h
      rw [hpoll, if_pos hint, map_apply, hs]
    · rw [hpoll, if_neg hint]

/-- What the processor does next if it dispatches no interrupt. -/
theorem tick_of_not_dispatches (hm : m.bus.WellFormed) (h : ¬ m.Dispatches) :
    Exec.tick m.board = Exec.step ⟨m.polled, m.bus⟩ := by
  rw [Exec.tick, bind_apply, pollInterrupts_of_not_dispatches hm h]

/-- A dispatch cannot fail. -/
theorem tick_of_dispatches (h : m.Dispatches) : ∃ n s, Exec.tick m.board = .ok n s := by
  obtain ⟨n, s, hs⟩ := h
  refine ⟨n, s, ?_⟩
  rw [Exec.tick, bind_apply, hs]
  rfl

end Machine

end Lr35902
