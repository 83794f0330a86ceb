import Lr35902.Machine.Log
import Lr35902.Proofs.Lcd.Timing
import Lr35902.Proofs.Machine.Waiting

/-!
# A machine that has stopped

A processor that has stopped fetches nothing and is not polled, so it makes no access to the bus
(`Exec.tick_of_stopped`).  All that the steps of its machine do is to let time pass
(`Machine.TimePassed`), whatever interrupts are requested: the display shows its lines and requests
its own interrupt, and nothing takes notice.
-/

namespace Lr35902

namespace Exec

variable {σ : Type} [Bus σ] {s : Board σ}

theorem pollInterrupts_of_stopped (h : s.cpu.run = .stopped) : pollInterrupts s = .ok none s := by
  simp only [pollInterrupts, bind_apply, cpu_apply, if_pos h, pure_apply]

/-- A processor that has stopped counts cycles. -/
theorem tick_of_stopped (h : s.cpu.run = .stopped) : tick s = spend 4 s := by
  have hwaiting : s.cpu.run ≠ .normal := by
    rw [h]
    decide
  rw [tick, bind_apply, pollInterrupts_of_stopped h]
  exact step_waiting hwaiting

theorem accesses_tick_of_stopped (h : s.cpu.run = .stopped) : accesses tick s = [] := by
  have htick := tick_of_stopped (s := s.recorded []) h
  rw [accesses_eq, final_ok htick]
  rfl

end Exec

namespace Machine

variable {m m' m'' : Machine} {n k : Nat}

/-- From `m` to `m'`, `n` cycles have passed and nothing has happened but what the display does. -/
structure TimePassed (n : Nat) (m m' : Machine) : Prop where
  cpu : m'.cpu = { m.cpu with cycles := m.cpu.cycles + n }
  /-- The instruction image and what there is of the boot program are as they were. -/
  bus : m'.bus = { m.bus with memory := { m.bus.memory with ram := m'.bus.memory.ram } }
  frames : m.lcd.frames ≤ m'.lcd.frames
  /-- If the display has completed a frame, it has requested its interrupt. -/
  requests : m'.peek Interrupt.requestAddr = m.peek Interrupt.requestAddr |||
    if m'.lcd.frames = m.lcd.frames then 0 else Interrupt.vblank.mask
  rest : ∀ addr, addr ≠ LcdTimer.lineAddr → addr ≠ Interrupt.requestAddr →
    m'.peek addr = m.peek addr

namespace TimePassed

theorem refl (m : Machine) : TimePassed 0 m m where
  cpu := rfl
  bus := rfl
  frames := Nat.le_refl _
  requests := by rw [if_pos rfl, UInt8.or_zero]
  rest _ _ _ := rfl

theorem trans (h : TimePassed n m m') (h' : TimePassed k m' m'') :
    TimePassed (n + k) m m'' where
  cpu := by rw [h'.cpu, h.cpu, Nat.add_assoc]
  bus := by rw [h'.bus, h.bus]
  frames := Nat.le_trans h.frames h'.frames
  requests := by
    have hframes := h.frames
    have hframes' := h'.frames
    rw [h'.requests, h.requests]
    by_cases hsame : m'.lcd.frames = m.lcd.frames
    · rw [hsame, if_pos rfl, UInt8.or_zero]
    · -- the interrupt has been requested in the first part, and a second request changes nothing
      have hmore : m''.lcd.frames ≠ m.lcd.frames := by omega
      rw [if_neg hsame, if_neg hmore, UInt8.or_assoc]
      split <;> rfl
  rest addr hline hrequest := (h'.rest addr hline hrequest).trans (h.rest addr hline hrequest)

end TimePassed

/-- What only the display has done in four cycles. -/
theorem timePassed_idled (m : Machine) : TimePassed 4 m m.idled where
  cpu := rfl
  bus := by
    have hrom := m.lcd.rom_advance m.bus.memory 4
    have hextent := m.lcd.extent_advance m.bus.memory 4
    simp only [idled, advanceDisplay]
    rw [← hrom, ← hextent]
  frames := by
    have hframes := m.lcd.frames_advance m.bus.memory 4
    change _ ≤ (m.lcd.advance m.bus.memory 4).1.frames
    omega
  requests := m.lcd.get_request_advance m.bus.memory 4
  rest _ hline hrequest := m.lcd.get_advance_of_ne m.bus.memory 4 hline hrequest

theorem step_of_stopped (h : m.cpu.run = .stopped) :
    m.step = .ok 4 m.next ∧ TimePassed 4 m m.next := by
  have hstep : m.step = .ok 4 m.idled :=
    step_eq_ok_iff.2 ⟨_, Exec.tick_of_stopped (s := m.board) h, rfl⟩
  rw [next, final_ok hstep]
  exact ⟨hstep, m.timePassed_idled⟩

/-- However many steps are made, all that they do is to let time pass. -/
theorem timePassed_after (h : m.cpu.run = .stopped) (n : Nat) :
    TimePassed (4 * n) m (m.after n) := by
  induction n with
  | zero => exact .refl m
  | succ n ih =>
    have hrun : (m.after n).cpu.run = .stopped := by rw [ih.cpu, h]
    exact ih.trans (step_of_stopped hrun).2

theorem stepKind_of_stopped (h : m.cpu.run = .stopped) : m.stepKind = .idle := by
  have hwaiting : m.board.cpu.run ≠ .normal := by
    change m.cpu.run ≠ .normal
    rw [h]
    decide
  rw [stepKind, Exec.pollInterrupts_of_stopped (s := m.board) h]
  exact Exec.stepKind_waiting hwaiting

/-- The next step succeeds and takes four cycles, in which the processor waits and leaves the bus
alone. -/
structure Rests (m : Machine) : Prop where
  step : m.step = .ok 4 m.next
  kind : m.stepKind = .idle
  accesses : Exec.accesses Exec.tick m.board = []

/-- Whatever its driver has called for, a processor that waits is between two instructions and has
no enabling of interrupts pending.  A machine whose processor has stopped rests for ever. -/
theorem low_power :
    (∀ cpu : Cpu, cpu.Driven → cpu.run ≠ .normal → cpu.mode = .primary ∧ cpu.ime ≠ .pendingEnable) ∧
    ∀ m : Machine, m.cpu.run = .stopped → ∀ n,
      (m.after n).Rests ∧ TimePassed (4 * n) m (m.after n) := by
  refine ⟨fun cpu hcpu => hcpu.settled, fun m hm n => ?_⟩
  have hpassed := timePassed_after hm n
  have hrun : (m.after n).cpu.run = .stopped := by rw [hpassed.cpu, hm]
  refine ⟨?_, hpassed⟩
  exact ⟨(step_of_stopped hrun).1, stepKind_of_stopped hrun, Exec.accesses_tick_of_stopped hrun⟩

/-- The theorem for a processor that has been told to stop while an enabling of interrupts was
pending, in a machine in which all interrupts are enabled and all but the display's are requested.
The display requests its own one in the first step. -/
theorem low_power_requested :
    let rom := (ByteSpace.filled 0).set 0 0x10
    let cpu := (final Call.step.exec ⟨.init .boot .pendingEnable, { Memory.blank with rom }⟩).cpu
    let ram := (ByteSpace.filled 0xFF).set Interrupt.requestAddr 0xFE
    let m : Machine := ⟨cpu, .ofCartridge { Memory.blank with ram } [] true, { counter := 65663 }⟩
    cpu.Driven ∧ cpu.run = .stopped ∧ cpu.mode = .primary ∧ cpu.ime ≠ .pendingEnable ∧
      (m.after 1).Rests ∧ TimePassed 4 m (m.after 1) ∧
      (m.after 1).peek Interrupt.requestAddr = 0xFF := by
  intro rom cpu ram m
  have hcpu : cpu.Driven := .call (.init .boot .pendingEnable) .step _
  have hstopped : cpu.run = .stopped := by decide +kernel
  have hwaiting : cpu.run ≠ .normal := by
    rw [hstopped]
    decide
  obtain ⟨hmode, hime⟩ := low_power.1 cpu hcpu hwaiting
  obtain ⟨hrests, hpassed⟩ := low_power.2 m hstopped 1
  have hrequest : (m.after 1).peek Interrupt.requestAddr = 0xFF := by decide +kernel
  exact ⟨hcpu, hstopped, hmode, hime, hrests, hpassed, hrequest⟩

end Machine

end Lr35902
