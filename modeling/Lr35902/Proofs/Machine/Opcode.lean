import Lr35902.Proofs.Bus.Recorder
import Lr35902.Proofs.Machine.Polling

/-!
# Where an opcode comes from

The first byte that a step fetches is the opcode that it executes (`Machine.opcodeAddr?`).  Polling
for interrupts only moves data, so a step fetches its opcode at the program counter, unless it
dispatches an interrupt or waits (`Machine.opcodeAddr?_eq_some_iff`).
-/

namespace Lr35902

namespace Recorder

variable {σ α : Type}

/-- No byte has been fetched. -/
def NoFetch (r : Recorder σ) : Prop := ∀ a ∈ r.newest, a.kind ≠ .fetch

theorem NoFetch.record {r : Recorder σ} (hr : r.NoFetch) {kind : AccessKind}
    (hkind : kind ≠ .fetch) (addr : UInt16) (byte : α → UInt8) (access : EStateM Fault σ α) :
    (final (Recorder.record kind addr byte access) r).NoFetch := by
  obtain ⟨v, hnew⟩ := newest_record kind addr byte access r
  unfold NoFetch
  rw [hnew]
  exact List.forall_mem_cons.2 ⟨hkind, hr⟩

theorem dataInvariant_noFetch [Bus σ] : Bus.DataInvariant (NoFetch (σ := σ)) where
  read8 _ _ hr := hr.record (by decide) _ _ _
  write8 _ _ _ hr := hr.record (by decide) _ _ _

/-- Records are kept. -/
theorem invariant_suffix [Bus σ] (l : List BusAccess) :
    Bus.Invariant fun r : Recorder σ => l <:+ r.newest := by
  have hrecord : ∀ {α : Type} (kind : AccessKind) (addr : UInt16) (byte : α → UInt8)
      (access : EStateM Fault σ α) (r : Recorder σ), l <:+ r.newest →
        l <:+ (final (record kind addr byte access) r).newest := by
    intro α kind addr byte access r hr
    obtain ⟨v, hnew⟩ := newest_record kind addr byte access r
    rw [hnew]
    exact hr.trans (List.suffix_cons _ _)
  exact
    { read8 := fun _ _ => hrecord _ _ _ _ _
      write8 := fun _ _ _ => hrecord _ _ _ _ _
      fetch8 := fun _ _ => hrecord _ _ _ _ _ }

theorem suffix_execute [Bus σ] (before : Cpu) (opcode : UInt8) (s : Board (Recorder σ)) :
    s.bus.newest <:+ (final (Exec.execute before opcode) s).bus.newest := by
  have hsim := Exec.simulates_execute (simulation (invariant_suffix (σ := σ) s.bus.newest)) before
    opcode
  obtain ⟨-, -, hkept⟩ := hsim.final s.cpu (b := s.bus) ⟨rfl, List.suffix_rfl⟩
  exact hkept

/-- If no byte is fetched before the one at `addr`, that one is the first. -/
theorem find?_fetch {r : Recorder σ} {l : List BusAccess} {addr : UInt16} {v : Option UInt8}
    (hl : ∀ a ∈ l, a.kind ≠ .fetch) (h : (⟨.fetch, addr, v⟩ :: l) <:+ r.newest) :
    r.newest.reverse.find? (·.kind = .fetch) = some ⟨.fetch, addr, v⟩ := by
  obtain ⟨later, hlater⟩ := h
  have hnone : l.reverse.find? (·.kind = .fetch) = none :=
    List.find?_eq_none.2 fun a ha => by simpa using hl a (List.mem_reverse.1 ha)
  rw [← hlater, List.reverse_append, List.reverse_cons, List.append_assoc, List.find?_append, hnone]
  rfl

end Recorder

namespace Machine

variable {m : Machine}

/-- The address that the opcode of the next step is fetched from, if it executes one. -/
def opcodeAddr? (m : Machine) : Option UInt16 :=
  ((Exec.accesses Exec.tick m.board).find? (·.kind = .fetch)).map (·.addr)

/-- Polling moves data only, on a recorder as on the bus. -/
theorem pollInterrupts_recorded {v : Option Nat} {t : Board SystemBus}
    (h : Exec.pollInterrupts m.board = .ok v t) :
    ∃ l, Exec.pollInterrupts (m.board.recorded []) = .ok v (t.recorded l) ∧
      ∀ a ∈ l, a.kind ≠ .fetch := by
  have hpoll := Exec.simulates_pollInterrupts
    (Recorder.dataSimulation (Recorder.dataInvariant_noFetch (σ := SystemBus)))
  exact Recorder.ok_of_simulates hpoll (by simp [Recorder.NoFetch]) h

/-- A step that fetches no byte executes no opcode. -/
theorem opcodeAddr?_eq_none (h : (final Exec.tick (m.board.recorded [])).bus.NoFetch) :
    m.opcodeAddr? = none := by
  rw [opcodeAddr?, Exec.accesses_eq, List.find?_eq_none.2, Option.map_none]
  intro a ha
  simpa using h a (List.mem_reverse.1 ha)

theorem opcodeAddr?_of_dispatches (h : m.Dispatches) : m.opcodeAddr? = none := by
  obtain ⟨n, t, hpoll⟩ := h
  obtain ⟨l, hrecorded, hl⟩ := pollInterrupts_recorded hpoll
  refine opcodeAddr?_eq_none ?_
  rw [Exec.tick, final_bind hrecorded]
  exact hl

section

variable (hm : m.bus.WellFormed) (h : ¬ m.Dispatches)
include hm h

/-- Without a dispatch, no byte is fetched before the processor's step. -/
theorem final_tick_recorded :
    ∃ l, final Exec.tick (m.board.recorded []) =
        final Exec.step (Board.recorded ⟨m.polled, m.bus⟩ l) ∧
      ∀ a ∈ l, a.kind ≠ .fetch := by
  obtain ⟨l, hrecorded, hl⟩ := pollInterrupts_recorded (pollInterrupts_of_not_dispatches hm h)
  refine ⟨l, ?_, hl⟩
  rw [Exec.tick, final_bind hrecorded]

theorem opcodeAddr?_of_waiting (hrun : m.polled.run ≠ .normal) : m.opcodeAddr? = none := by
  obtain ⟨l, hfinal, hl⟩ := final_tick_recorded hm h
  refine opcodeAddr?_eq_none ?_
  rw [hfinal, final_congr (Exec.step_waiting hrun)]
  exact hl

/-- A step that neither dispatches nor waits fetches its opcode at the program counter. -/
theorem opcodeAddr?_of_running (hrun : m.polled.run = .normal) :
    m.opcodeAddr? = some m.cpu.regs.pc := by
  obtain ⟨l, hfinal, hl⟩ := final_tick_recorded hm h
  have hpc : m.polled.regs.pc = m.cpu.regs.pc := by
    rw [polled_eq_of_run hrun]
  let opcode := m.bus.memory.rom.get m.polled.regs.pc
  have hfetch := Recorder.fetch8_of_ok (r := ⟨m.bus, l⟩) (m.bus.fetch8_eq m.polled.regs.pc)
  have hstep := Exec.step_running (s := Board.recorded ⟨m.polled, m.bus⟩ l) hrun hfetch
  have hkept := Recorder.suffix_execute m.polled opcode
    ⟨m.polled.next, ⟨m.bus, ⟨.fetch, m.polled.regs.pc, some opcode⟩ :: l⟩⟩
  rw [opcodeAddr?, Exec.accesses_eq, hfinal, final_congr hstep, ← hpc]
  exact congrArg (Option.map BusAccess.addr) (Recorder.find?_fetch hl hkept)

end

/-- A step fetches its opcode at the program counter, unless it dispatches or waits. -/
theorem opcodeAddr?_eq_some_iff (hm : m.bus.WellFormed) {a : UInt16} :
    m.opcodeAddr? = some a ↔ ¬ m.Dispatches ∧ m.polled.run = .normal ∧ a = m.cpu.regs.pc := by
  by_cases h : m.Dispatches
  · simp [opcodeAddr?_of_dispatches h, h]
  by_cases hrun : m.polled.run = .normal
  · simp [opcodeAddr?_of_running hm h hrun, h, hrun, eq_comm]
  · simp [opcodeAddr?_of_waiting hm h hrun, hrun]

end Machine

end Lr35902
