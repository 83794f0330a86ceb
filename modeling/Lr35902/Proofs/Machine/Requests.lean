import Lr35902.Proofs.Bus.Recorder
import Lr35902.Proofs.Lcd
import Lr35902.Proofs.Machine.Dispatch

/-!
# No request is lost or invented

Three parties write to the register of requests: the program, a dispatch that withdraws the request
it serves, and the display.  In a step in which the program does not, the register keeps all its
bits but the one of the source that is dispatched, and gains the display's bit if a frame is
completed (`Machine.dispatch_and_requests`).
-/

namespace Lr35902

namespace Machine

variable {m : Machine}

/-- In its next step the processor stores to `addr`, because an instruction does or because the
program counter is pushed there.  Withdrawing a request does not count. -/
inductive Stores (m : Machine) (addr : UInt16) : Prop
  | pushed {byte : Option UInt8} (h : m.Dispatches)
      (hmem : ⟨.write, addr, byte⟩ ∈ Exec.accesses (Exec.pushWord m.cpu.regs.pc) m.board)
  | executed {byte : Option UInt8} (h : ¬ m.Dispatches)
      (hmem : ⟨.write, addr, byte⟩ ∈ Exec.accesses Exec.step ⟨m.polled, m.bus⟩)

theorem accesses_pushWord (hm : m.bus.WellFormed) (w : UInt16) :
    Exec.accesses (Exec.pushWord w) m.board =
      [⟨.write, m.cpu.regs.sp - 1, some (Word.high w)⟩,
        ⟨.write, m.cpu.regs.sp - 2, some (Word.low w)⟩] := by
  have hfirst := SystemBus.write8_eq (m.cpu.regs.sp - 1) (Word.high w) hm
  have hhalf := SystemBus.WellFormed.stored hm (m.cpu.regs.sp - 1) (Word.high w)
  have hsecond := SystemBus.write8_eq (m.cpu.regs.sp - 2) (Word.low w) hhalf
  let half := m.bus.stored (m.cpu.regs.sp - 1) (Word.high w)
  have hfirst := Recorder.write8_of_ok (r := ⟨m.bus, []⟩) hfirst
  have hsecond := Recorder.write8_of_ok
    (r := ⟨half, [⟨.write, m.cpu.regs.sp - 1, some (Word.high w)⟩]⟩) hsecond
  simp only [Exec.accesses, Exec.pushWord, bind_apply, Exec.regs_apply, Exec.store_apply, board,
    hfirst, half, hsecond, Exec.modifyRegs_apply, Recorder.accesses, List.reverse_cons,
    List.reverse_nil, List.nil_append, List.cons_append]

/-- A dispatch stores the two halves of the program counter below the stack pointer. -/
theorem stores_iff_of_dispatches (hm : m.bus.WellFormed) (h : m.Dispatches) (addr : UInt16) :
    m.Stores addr ↔ addr = m.cpu.regs.sp - 1 ∨ addr = m.cpu.regs.sp - 2 := by
  have hpush := accesses_pushWord hm m.cpu.regs.pc
  constructor
  · rintro (⟨-, hmem⟩ | ⟨hnot, -⟩)
    · simp only [hpush, List.mem_cons, List.not_mem_nil, or_false] at hmem
      rcases hmem with hhigh | hlow
      · exact .inl (congrArg BusAccess.addr hhigh)
      · exact .inr (congrArg BusAccess.addr hlow)
    · exact absurd h hnot
  · rintro (rfl | rfl)
    · exact .pushed h (by rw [hpush]; exact List.mem_cons_self)
    · exact .pushed h (by rw [hpush]; exact List.mem_cons_of_mem _ List.mem_cons_self)

/-- The register of requests after the display has moved on. -/
theorem peek_request_advanceDisplay (m : Machine) (n : Nat) :
    (m.advanceDisplay n).peek Interrupt.requestAddr =
      m.peek Interrupt.requestAddr |||
        if (m.advanceDisplay n).lcd.frames = m.lcd.frames then 0 else 1 :=
  m.lcd.get_request_advance m.bus.memory n

/-- A dispatch withdraws the request that it serves. -/
theorem peek_request_entered (hm : m.bus.WellFormed) (h : m.Dispatches)
    (hnot : ¬ m.Stores Interrupt.requestAddr) (i : Interrupt) :
    (m.entered i).peek Interrupt.requestAddr = m.peek Interrupt.requestAddr &&& ~~~i.mask := by
  have hpush : Exec.pushWord m.cpu.regs.pc m.board = _ := Exec.pushWord_eq hm m.cpu.regs.pc
  have hkept : (m.bus.pushed m.cpu.regs.sp m.cpu.regs.pc).memory.ram.get Interrupt.requestAddr =
      m.peek Interrupt.requestAddr := by
    have hget := SystemBus.get_of_not_stored (s := m.board) (a := Interrupt.requestAddr) hm
      (by decide)
      (fun I hI => Exec.simulates_pushWord (Recorder.dataSimulation hI.toDataInvariant) _)
      (fun byte hmem => hnot (.pushed h hmem))
    rw [final_ok hpush] at hget
    exact hget
  rw [← hkept]
  exact ByteSpace.get_set_self _ _ _

/-- A step without a dispatch leaves the requests to the program and the display. -/
theorem peek_request_of_not_dispatches (hm : m.bus.WellFormed) (h : ¬ m.Dispatches)
    (hnot : ¬ m.Stores Interrupt.requestAddr) :
    m.next.peek Interrupt.requestAddr =
      m.peek Interrupt.requestAddr ||| if m.next.lcd.frames = m.lcd.frames then 0 else 1 := by
  have hkept := SystemBus.get_of_not_stored (s := ⟨m.polled, m.bus⟩) (a := Interrupt.requestAddr) hm
    (by decide)
    (fun I hI => Exec.simulates_step (Recorder.simulation hI))
    (fun byte hmem => hnot (.executed h hmem))
  have htick := tick_of_not_dispatches hm h
  cases hstep : Exec.step ⟨m.polled, m.bus⟩ with
  | ok n s =>
    rw [final_ok hstep] at hkept
    have hnext : m.next = (m.withBoard s).advanceDisplay n :=
      final_ok (step_eq_ok_iff.2 ⟨s, htick.trans hstep, rfl⟩)
    have hpeek : (m.withBoard s).peek Interrupt.requestAddr = m.peek Interrupt.requestAddr := hkept
    rw [hnext, peek_request_advanceDisplay, hpeek]
    rfl
  | error e s =>
    rw [final_error hstep] at hkept
    -- the display has not moved, so no frame is completed
    have hnext : m.next = m.withBoard s :=
      final_error (step_eq_error_iff.2 ⟨s, htick.trans hstep, rfl⟩)
    have hpeek : (m.withBoard s).peek Interrupt.requestAddr = m.peek Interrupt.requestAddr := hkept
    have hframes : (m.withBoard s).lcd.frames = m.lcd.frames := rfl
    rw [hnext, hpeek, hframes, if_pos rfl, UInt8.or_zero]

/-- A reachable machine dispatches an interrupt exactly when one is pending, interrupts are let
through and the processor is between two instructions and has not stopped.  It enters the handler of
the first pending source in 20 cycles.  Unless the processor stores to the register of requests, the
register keeps all bits but that source's and gains the display's if a frame is completed. -/
theorem dispatch_and_requests (hm : m.Reachable) :
    (m.Dispatches ↔
      m.cpu.run ≠ .stopped ∧ m.cpu.ime = .interruptible ∧ m.cpu.mode = .primary ∧
        m.HasPending) ∧
    (m.Dispatches → ∃ i, m.First i ∧ m.step = .ok 20 ((m.entered i).advanceDisplay 20) ∧
      (¬ m.Stores Interrupt.requestAddr →
        m.next.peek Interrupt.requestAddr =
          m.peek Interrupt.requestAddr &&& ~~~(1 <<< i.bit) |||
            if m.next.lcd.frames = m.lcd.frames then 0 else 1)) ∧
    (¬ m.Dispatches → ¬ m.Stores Interrupt.requestAddr →
      m.next.peek Interrupt.requestAddr =
        m.peek Interrupt.requestAddr |||
          if m.next.lcd.frames = m.lcd.frames then 0 else 1) := by
  have hbus := hm.wellFormed
  refine ⟨dispatches_iff hbus, ?_, peek_request_of_not_dispatches hbus⟩
  intro h
  obtain ⟨i, hi, hstep⟩ := step_of_dispatches hbus h
  refine ⟨i, hi, hstep, fun hnot => ?_⟩
  have hnext : m.next = (m.entered i).advanceDisplay 20 := final_ok hstep
  rw [hnext, peek_request_advanceDisplay, peek_request_entered hbus h hnot]
  rfl

/-- The theorem for a program that requests and enables both the timer and the joypad: the timer
goes first, and the other request stays. -/
theorem dispatch_and_requests_timer :
    ∃ m : Machine, m.Reachable ∧ m.Dispatches ∧ ¬ m.Stores Interrupt.requestAddr ∧
      m.peek Interrupt.requestAddr = 0x14 ∧
      m.step = .ok 20 ((m.entered .timer).advanceDisplay 20) ∧
      m.next.peek Interrupt.requestAddr = 0x10 := by
  -- load A with both bits, store it in both registers, enable interrupts, do nothing
  have hstart : withBoot [] (some [0x3E, 0x14, 0xE0, 0xFF, 0xE0, 0x0F, 0xFB, 0x00]) = .ok _ := rfl
  have hm := (Reachable.withBoot hstart).after 5
  obtain ⟨hiff, hdispatch, -⟩ := dispatch_and_requests hm
  have hd := hiff.2 (by decide +kernel)
  obtain ⟨i, hi, hstep, hrequests⟩ := hdispatch hd
  obtain rfl : Interrupt.timer = i :=
    Option.some.inj ((by decide +kernel : _ = _).symm.trans (pendingInterrupt_eq_some_iff.2 hi))
  -- the program counter is pushed at the end of memory
  have hpushed := (stores_iff_of_dispatches hm.wellFormed hd Interrupt.requestAddr).not.2
    (by decide +kernel)
  exact ⟨_, hm, hd, hpushed, by decide +kernel, hstep,
    (hrequests hpushed).trans (by decide +kernel)⟩

end Machine

end Lr35902
