import Lr35902.Proofs.Boot.Handover
import Lr35902.Proofs.Cycles
import Lr35902.Proofs.Lcd.Timing
import Lr35902.Proofs.Machine.Faults
import Lr35902.Proofs.Machine.Dispatch

/-!
# The two clocks of a machine

The processor counts the cycles that it has spent, and the display keeps its place in a frame.  A
step that succeeds moves both on by what it returns and one that fails moves neither, so the clocks
never drift apart (`Machine.clocks_agree`): as long as the display is on, its line and its frames
follow from the processor's count, whatever the program stores to the register of the line.
-/

namespace Lr35902

namespace Machine

variable {m m' : Machine} {n : Nat}

/-! ### The processor's clock -/

/-- A step that succeeds takes one of the durations, and the processor counts it. -/
theorem step_ok (hm : m.bus.WellFormed) (h : m.step = .ok n m') :
    n ∈ Instruction.durations ∧ m'.cpu.cycles = m.cpu.cycles + n := by
  by_cases hd : m.Dispatches
  · obtain ⟨i, -, hstep⟩ := step_of_dispatches hm hd
    cases hstep.symm.trans h
    exact ⟨by decide, rfl⟩
  · obtain ⟨s, hs, rfl⟩ := step_eq_ok_iff.1 h
    rw [tick_of_not_dispatches hm hd] at hs
    obtain ⟨hn, hcycles⟩ := Exec.step_ok hs
    have hpolled : m.polled.cycles = m.cpu.cycles := by
      unfold polled
      split <;> rfl
    rw [hpolled] at hcycles
    exact ⟨hn, hcycles⟩

/-- A step that fails moves neither clock, and changes nothing in memory. -/
theorem step_error (hm : m.Reachable) {e : Fault} (h : m.step = .error e m') :
    m'.cpu.cycles = m.cpu.cycles ∧ m'.lcd = m.lcd ∧ m'.bus = m.bus := by
  obtain ⟨-, -, -, ⟨-, -, rfl⟩ | ⟨-, -, -, rfl⟩⟩ := (step_fails_iff hm).1 h
  · exact ⟨rfl, rfl, rfl⟩
  · exact ⟨rfl, rfl, rfl⟩

/-- The cycles that the next step returns; a step that fails returns none. -/
def stepCycles (m : Machine) : Nat :=
  match m.step with
  | .ok n _ => n
  | .error .. => 0

/-- The sum of the cycles that the next `n` steps return. -/
def elapsed (m : Machine) : Nat → Nat
  | 0 => 0
  | n + 1 => m.elapsed n + (m.after n).stepCycles

theorem cycles_next (hm : m.Reachable) : m.next.cpu.cycles = m.cpu.cycles + m.stepCycles := by
  unfold stepCycles
  cases h : m.step with
  | ok n m' =>
    rw [next, final_ok h]
    exact (step_ok hm.wellFormed h).2
  | error e m' =>
    rw [next, final_error h]
    exact (step_error hm h).1

/-- The processor counts what its steps return. -/
theorem cycles_after (hm : m.Reachable) (n : Nat) :
    (m.after n).cpu.cycles = m.cpu.cycles + m.elapsed n := by
  induction n with
  | zero => rfl
  | succ n ih => rw [after, cycles_next (hm.after n), ih, elapsed, Nat.add_assoc]

/-! ### The display's clock -/

/-- If the next step gets to move the display, the display is on by then. -/
def movesDisplayOn (m : Machine) : Bool :=
  match Exec.tick m.board with
  | .ok _ s => LcdTimer.isOn s.bus.memory
  | .error .. => true

/-- The display is where it is after as many cycles as the processor has counted. -/
structure InStep (m : Machine) : Prop where
  counter : m.lcd.counter = m.cpu.cycles % 70224
  frames : m.lcd.frames = (m.cpu.cycles + 4560) / 70224
  line : (m.peek LcdTimer.lineAddr).toNat = m.cpu.cycles % 70224 / 456

/-- A display that is on stays in step when both clocks move on. -/
theorem InStep.advanceDisplay (h : m.InStep) {s : Board SystemBus}
    (hn : n ∈ Instruction.durations) (hcycles : s.cpu.cycles = m.cpu.cycles + n)
    (hon : LcdTimer.isOn s.bus.memory) : ((m.withBoard s).advanceDisplay n).InStep := by
  have hadvance := m.lcd.advance_of_isOn s.bus.memory n hon
  have hget := m.lcd.get_line_advance_of_isOn hon n
  have hlt : m.lcd.counter < LcdTimer.cyclesPerFrame := by
    rw [h.counter]
    exact Nat.mod_lt _ (by decide)
  have hle : n ≤ 65664 := by
    have hlongest : ∀ k ∈ Instruction.durations, k ≤ 65664 := by decide
    exact hlongest n hn
  have hcounter : (m.lcd.moved n).counter = s.cpu.cycles % 70224 := by
    change (m.lcd.counter + n) % 70224 = _
    rw [h.counter, Nat.mod_add_mod, hcycles]
  constructor
  · change (m.lcd.advance s.bus.memory n).1.counter = _
    rw [hadvance]
    exact hcounter
  · change (m.lcd.advance s.bus.memory n).1.frames = (s.cpu.cycles + 4560) / 70224
    -- the position is the rest of the count, so both complete the same frames
    have hframes := LcdTimer.frames_moved hlt hle
    rw [h.counter, h.frames] at hframes
    unfold LcdTimer.framesIn at hframes
    rw [hadvance, hcycles]
    omega
  · change ((m.lcd.advance s.bus.memory n).2.ram.get LcdTimer.lineAddr).toNat = _
    have hmoved : (m.lcd.moved n).counter < LcdTimer.cyclesPerFrame := Nat.mod_lt _ (by decide)
    rw [hget, LcdTimer.toNat_line hmoved, hcounter]
    rfl

theorem InStep.next (h : m.InStep) (hm : m.Reachable) (hon : m.movesDisplayOn) :
    m.next.InStep := by
  cases hstep : m.step with
  | ok n m' =>
    rw [Machine.next, final_ok hstep]
    obtain ⟨hn, hcycles⟩ := step_ok hm.wellFormed hstep
    obtain ⟨s, hs, rfl⟩ := step_eq_ok_iff.1 hstep
    simp only [movesDisplayOn, hs] at hon
    exact h.advanceDisplay hn hcycles hon
  | error e m' =>
    -- neither clock has moved, and no store was made
    rw [Machine.next, final_error hstep]
    obtain ⟨hcycles, hlcd, hbus⟩ := step_error hm hstep
    obtain ⟨hcounter, hframes, hline⟩ := h
    rw [← hcycles, ← hlcd] at hcounter hframes
    unfold peek at hline
    rw [← hcycles, ← hbus] at hline
    exact ⟨hcounter, hframes, hline⟩

theorem InStep.after (h : m.InStep) (hm : m.Reachable) :
    (∀ k < n, (m.after k).movesDisplayOn) → (m.after n).InStep := by
  induction n with
  | zero => exact fun _ => h
  | succ n ih =>
    intro hon
    have hbefore := ih fun k hk => hon k (Nat.lt_succ_of_lt hk)
    exact hbefore.next (hm.after n) (hon n (Nat.lt_succ_self n))

/-- At the cartridge's entry point both clocks are at zero. -/
theorem inStep_of_postBoot {cartridge : List UInt8} (h : postBoot cartridge = .ok m) :
    m.InStep := by
  obtain ⟨memory, hload, hstart⟩ := exists_of_bind_eq_ok h
  have hram : memory.ram = .filled 0 := by
    unfold Memory.loadRom at hload
    dsimp only at hload
    split at hload
    · cases hload
      rfl
    · cases hload
  cases hstart
  refine ⟨rfl, (by decide : 0 = (0 + 4560) / 70224), ?_⟩
  -- the register of the line is not among those that the boot program sets
  dsimp only [peek, SystemBus.ofCartridge]
  rw [hram]
  decide +kernel

/-! ### Both clocks -/

/-- After any steps from the cartridge's entry point the processor has counted the cycles that they
returned, and each of them returned one of the durations.  If the display was on whenever it was
moved, its frames and its line are those of that count. -/
theorem clocks_agree {cartridge : List UInt8} (h : postBoot cartridge = .ok m) (n : Nat) :
    (m.after n).cpu.cycles = m.elapsed n ∧
    (∀ c m', (m.after n).step = .ok c m' → c ∈ [4, 8, 12, 16, 20, 24]) ∧
    ((∀ k < n, (m.after k).movesDisplayOn) →
      (m.after n).lcd.frames = ((m.after n).cpu.cycles + 4560) / 70224 ∧
      ((m.after n).peek LcdTimer.lineAddr).toNat = (m.after n).cpu.cycles % 70224 / 456) := by
  have hm := Reachable.postBoot h
  have hzero : m.cpu.cycles = 0 := by
    obtain ⟨start, hcpu⟩ := (Started.postBoot h).cpu_eq
    rw [hcpu]
    rfl
  refine ⟨?_, ?_, ?_⟩
  · rw [cycles_after hm, hzero, Nat.zero_add]
  · intro c m' hstep
    exact (step_ok (hm.after n).wellFormed hstep).1
  · intro hon
    have hafter := (inStep_of_postBoot h).after hm hon
    exact ⟨hafter.frames, hafter.line⟩

/-- A cartridge whose program stores to the register of the line, fails at a byte that is no opcode,
and then calls itself for ever. -/
def storesLine : List UInt8 :=
  List.replicate 0x100 0 ++ [0x3E, 0x99, 0xE0, 0x44, 0xD3, 0xCD, 0x05, 0x01]

/-- The theorem for that program: the display gets to the next line after 22 steps. -/
theorem clocks_agree_storesLine :
    ∃ m, postBoot storesLine = .ok m ∧ (∀ k < 22, (m.after k).movesDisplayOn) ∧
      (m.after 22).cpu.cycles = 476 ∧ m.elapsed 22 = 476 ∧ (m.after 22).lcd.frames = 0 ∧
      ((m.after 22).peek LcdTimer.lineAddr).toNat = 1 := by
  obtain ⟨m, hstart, hon, hcount⟩ : ∃ m, postBoot storesLine = .ok m ∧
      (∀ k < 22, (m.after k).movesDisplayOn) ∧ (m.after 22).cpu.cycles = 476 :=
    ⟨_, BootProgram.postBoot_eq (by decide +kernel), by decide +kernel⟩
  obtain ⟨hcycles, -, hdisplay⟩ := clocks_agree hstart 22
  obtain ⟨hframes, hline⟩ := hdisplay hon
  rw [hcount] at hcycles hframes hline
  exact ⟨m, hstart, hon, hcount, hcycles.symm, hframes, hline⟩

end Machine

end Lr35902
