import Lr35902.Proofs.Lcd
import Mathlib.Algebra.GroupWithZero.Nat

/-!
# The timing law of the display

The display does not know for how long it has been on: it keeps its position within a frame, and
counts a frame when it finds that it has left the visible lines.  As long as no move is longer than
the visible lines (65664 cycles), this comes to the same as a division of all the cycles by the
length of a frame (`LcdTimer.frames_moved`).

So after any moves, between which the bytes in memory may have been changed at will, the line and
the frames follow from the cycles for which the display has been on (`LcdTimer.timing_law`).
-/

namespace Lr35902

namespace LcdTimer

/-! ### One move -/

section

variable {t : LcdTimer} {n : Nat}

/-- The frames that a display completes in its first `cycles` cycles.  The visible lines of a frame
end 4560 cycles before the frame does. -/
def framesIn (cycles : Nat) : Nat := (cycles + 4560) / 70224

/-- A move that is no longer than the visible lines completes the frames that its cycles add. -/
theorem frames_moved (h : t.counter < cyclesPerFrame) (hn : n ≤ 65664) :
    (t.moved n).frames + framesIn t.counter = t.frames + framesIn (t.counter + n) := by
  change t.counter < 70224 at h
  have hiff := passesVisible_moved_iff (t := t) (n := n)
  unfold framesIn
  by_cases hpasses : passesVisible t.line (t.moved n).line = true
  · have hframes := frames_of_passes hpasses
    have hcounter := hiff.1 hpasses
    omega
  · have hframes := frames_of_not_passes hpasses
    have hcounter := mt hiff.2 hpasses
    omega

/-- A move completes one frame or none. -/
theorem frames_advance (t : LcdTimer) (m : Memory) (n : Nat) :
    (t.advance m n).1.frames = t.frames ∨ (t.advance m n).1.frames = t.frames + 1 := by
  unfold advance
  split
  · unfold moved
    dsimp only
    split
    · exact .inr rfl
    · exact .inl rfl
  · exact .inl rfl

/-- The line that is shown fits in a byte. -/
theorem toNat_line (h : t.counter < cyclesPerFrame) : t.line.toUInt8.toNat = t.counter / 456 := by
  change t.counter < 70224 at h
  have hline : t.line = t.counter / 456 := rfl
  rw [hline, Nat.toUInt8_eq, UInt8.toNat_ofNat']
  omega

/-- A display that is on shows its line. -/
theorem get_line_advance_of_isOn (t : LcdTimer) {m : Memory} (hon : isOn m) (n : Nat) :
    (t.advance m n).2.ram.get lineAddr = (t.moved n).line.toUInt8 := by
  unfold advance
  rw [if_pos hon]
  dsimp only
  split
  · rw [ByteSpace.get_set_ne _ _ (by decide), ByteSpace.get_set_self]
  · exact ByteSpace.get_set_self _ _ _

/-- A display that is off shows its first line. -/
theorem get_line_advance_of_off (t : LcdTimer) {m : Memory} (hoff : ¬ isOn m) (n : Nat) :
    (t.advance m n).2.ram.get lineAddr = 0 := by
  unfold advance
  rw [if_neg hoff]
  exact ByteSpace.get_set_self _ _ _

/-- The instruction image is none of the display's business. -/
theorem rom_advance (t : LcdTimer) (m : Memory) (n : Nat) : (t.advance m n).2.rom = m.rom := by
  unfold advance
  split <;> rfl

theorem extent_advance (t : LcdTimer) (m : Memory) (n : Nat) :
    (t.advance m n).2.extent = m.extent := by
  unfold advance
  split <;> rfl

end

/-! ### Many moves -/

/-- A move of the display, and the bytes in memory when it begins. -/
structure Move where
  ram : ByteSpace
  cycles : Nat

namespace Move

/-- The display is on during the move. -/
def isOn (c : Move) : Bool := c.ram.get controlAddr &&& 0x80 != 0

/-- The memory `m` with the bytes of the move. -/
def memory (c : Move) (m : Memory) : Memory := { m with ram := c.ram }

theorem isOn_memory (c : Move) (m : Memory) : LcdTimer.isOn (c.memory m) = c.isOn := rfl

end Move

/-- A new display and a memory after the given moves, newest first.  Before each move the bytes in
memory have been changed to those of the move. -/
def afterMoves (m : Memory) : List Move → LcdTimer × Memory
  | [] => ({}, m)
  | c :: l =>
    let (t, m) := afterMoves m l
    t.advance (c.memory m) c.cycles

/-- The cycles of each stretch of moves with the display on, newest first.  The stretches are what
is left when the moves are split at those with the display off; a stretch may be empty. -/
def stretches (l : List Move) : List Nat :=
  (l.splitOnP fun c => !c.isOn).map fun s => (s.map (·.cycles)).sum

/-- The cycles since the display was switched on. -/
def cyclesOn (l : List Move) : Nat := (stretches l).headD 0

variable {m : Memory} {c : Move} {l : List Move}

theorem stretches_eq_cons (l : List Move) : stretches l = cyclesOn l :: (stretches l).tail := by
  have hne : stretches l ≠ [] := by
    unfold stretches
    rw [ne_eq, List.map_eq_nil_iff]
    exact List.splitOnP_ne_nil _ l
  unfold cyclesOn
  cases h : stretches l with
  | nil => exact absurd h hne
  | cons T rest => rfl

theorem stretches_cons_of_isOn (hon : c.isOn) :
    stretches (c :: l) = (c.cycles + cyclesOn l) :: (stretches l).tail := by
  unfold cyclesOn stretches
  rw [List.splitOnP_cons_eq_if_modifyHead, if_neg (by simp [hon])]
  cases h : l.splitOnP fun c => !c.isOn with
  | nil => exact absurd h (List.splitOnP_ne_nil _ l)
  | cons s rest => simp

theorem stretches_cons_of_off (hoff : ¬ c.isOn) : stretches (c :: l) = 0 :: stretches l := by
  unfold stretches
  rw [List.splitOnP_cons_eq_if_modifyHead, if_pos (by simp [hoff])]
  rfl

/-- The position of a display accounts for the moves that were made, newest first. -/
structure Accounts (t : LcdTimer) (l : List Move) : Prop where
  counter : t.counter = cyclesOn l % 70224
  frames : t.frames = ((stretches l).map framesIn).sum

/-- The display accounts for one more move. -/
theorem Accounts.advance {t : LcdTimer} (h : t.Accounts l) (hc : c.cycles ≤ 65664) :
    (t.advance (c.memory m) c.cycles).1.Accounts (c :: l) := by
  have hmemory := c.isOn_memory m
  by_cases hon : c.isOn
  · have hcycles : cyclesOn (c :: l) = c.cycles + cyclesOn l := by
      rw [cyclesOn, stretches_cons_of_isOn hon, List.headD_cons]
    have hlt : t.counter < cyclesPerFrame := by
      rw [h.counter]
      exact Nat.mod_lt _ (by decide)
    have hcounter : (t.moved c.cycles).counter = (t.counter + c.cycles) % 70224 := rfl
    have hmoved := frames_moved hlt hc
    have hframes := h.frames
    rw [advance_of_isOn t _ _ (hmemory.trans hon)]
    constructor
    · rw [hcounter, hcycles, h.counter, Nat.add_comm c.cycles, Nat.mod_add_mod]
    · -- the frames of the current stretch follow from its cycles, of which the position is the rest
      rw [stretches_eq_cons, List.map_cons, List.sum_cons] at hframes
      rw [stretches_cons_of_isOn hon, List.map_cons, List.sum_cons]
      rw [h.counter] at hmoved
      unfold framesIn at hmoved hframes ⊢
      omega
  · rw [advance_of_off t _ _ (by rwa [hmemory])]
    constructor
    · rw [cyclesOn, stretches_cons_of_off hon]
      rfl
    · rw [stretches_cons_of_off hon, List.map_cons, List.sum_cons, ← h.frames]
      exact (Nat.zero_add _).symm

/-- After any moves no longer than the visible lines, the display accounts for them. -/
theorem accounts_afterMoves (hl : ∀ c ∈ l, c.cycles ≤ 65664) : (afterMoves m l).1.Accounts l := by
  induction l with
  | nil => exact ⟨rfl, rfl⟩
  | cons c l ih =>
    have h := ih fun d hd => hl d (List.mem_cons_of_mem c hd)
    exact h.advance (hl c List.mem_cons_self)

theorem rom_afterMoves : (afterMoves m l).2.rom = m.rom := by
  induction l with
  | nil => rfl
  | cons c l ih =>
    rw [afterMoves, rom_advance]
    exact ih

theorem extent_afterMoves : (afterMoves m l).2.extent = m.extent := by
  induction l with
  | nil => rfl
  | cons c l ih =>
    rw [afterMoves, extent_advance]
    exact ih

/-- What is true of a display that started with the memory `m`, when the moves `l` are followed by
the move `c`. -/
structure Timed (m : Memory) (c : Move) (l : List Move) : Prop where
  /-- The move succeeds. -/
  succeeds : update c.cycles ((afterMoves m l).1, c.memory (afterMoves m l).2) =
    .ok () (afterMoves m (c :: l))
  /-- Every stretch with the display on has completed the frames that fit in it. -/
  frames : (afterMoves m (c :: l)).1.frames =
    ((stretches (c :: l)).map fun T => (T + 4560) / 70224).sum
  /-- A display that is on shows the line that follows from the cycles since it was switched on. -/
  line_of_isOn : c.isOn →
    ((afterMoves m (c :: l)).2.ram.get lineAddr).toNat = cyclesOn (c :: l) % 70224 / 456
  line_le : ((afterMoves m (c :: l)).2.ram.get lineAddr).toNat ≤ 153
  line_of_off : ¬ c.isOn → (afterMoves m (c :: l)).2.ram.get lineAddr = 0
  /-- The move completes one frame or none. -/
  once : (afterMoves m (c :: l)).1.frames = (afterMoves m l).1.frames ∨
    (afterMoves m (c :: l)).1.frames = (afterMoves m l).1.frames + 1
  /-- It requests the interrupt if it completes a frame, and leaves all other requests alone. -/
  requests : (afterMoves m (c :: l)).2.ram.get Interrupt.requestAddr =
    c.ram.get Interrupt.requestAddr |||
      if (afterMoves m (c :: l)).1.frames = (afterMoves m l).1.frames then 0 else 1
  rest : ∀ addr, addr ≠ lineAddr → addr ≠ Interrupt.requestAddr →
    (afterMoves m (c :: l)).2.ram.get addr = c.ram.get addr
  rom : (afterMoves m (c :: l)).2.rom = m.rom
  extent : (afterMoves m (c :: l)).2.extent = m.extent

/-- Moves that are no longer than the visible lines follow the timing law. -/
theorem timed (hl : ∀ d ∈ c :: l, d.cycles ≤ 65664) : Timed m c l := by
  have haccounts := accounts_afterMoves (m := m) hl
  have hon := c.isOn_memory (afterMoves m l).2
  have hline (h : c.isOn) : ((afterMoves m (c :: l)).2.ram.get lineAddr).toNat =
      cyclesOn (c :: l) % 70224 / 456 := by
    have hget := (afterMoves m l).1.get_line_advance_of_isOn (hon.trans h) c.cycles
    have hmoved := (afterMoves m l).1.advance_of_isOn _ c.cycles (hon.trans h)
    have hlt : ((afterMoves m l).1.moved c.cycles).counter < cyclesPerFrame :=
      Nat.mod_lt _ (by decide)
    rw [afterMoves, hget, toNat_line hlt, ← hmoved, ← haccounts.counter]
    rfl
  have hoff (h : ¬ c.isOn) : (afterMoves m (c :: l)).2.ram.get lineAddr = 0 :=
    (afterMoves m l).1.get_line_advance_of_off (by rwa [hon]) c.cycles
  constructor
  case succeeds => exact update_eq _ _ _
  case frames => exact haccounts.frames
  case line_of_isOn => exact hline
  case line_of_off => exact hoff
  case line_le =>
    by_cases h : c.isOn
    · rw [hline h]
      omega
    · rw [hoff h]
      decide
  case once => exact (afterMoves m l).1.frames_advance _ _
  case requests => exact (afterMoves m l).1.get_request_advance _ _
  case rest =>
    intro addr hline hrequest
    exact (afterMoves m l).1.get_advance_of_ne _ _ hline hrequest
  case rom => exact rom_afterMoves
  case extent => exact extent_afterMoves

/-- Bytes in memory with the display switched on. -/
def switchedOn : ByteSpace := (ByteSpace.filled 0).set controlAddr 0x80

/-- From the last cycle of a frame, a move that is one cycle longer than the visible lines gets to
the end of those of the next frame, but is taken for one that stays behind them. -/
theorem exists_lost_frame (m : Memory) :
    ∃ c l, (∀ d ∈ l, d.cycles ≤ 65664) ∧ c.cycles = 65665 ∧
      (afterMoves m (c :: l)).1.frames + 1 =
        ((stretches (c :: l)).map fun T => (T + 4560) / 70224).sum := by
  let c : Move := ⟨switchedOn, 65665⟩
  let l : List Move := [⟨switchedOn, 4559⟩, ⟨switchedOn, 65664⟩]
  have hon : c.isOn := by decide
  have hl : ∀ d ∈ l, d.cycles ≤ 65664 := by decide
  obtain ⟨hcounter, hframes⟩ := accounts_afterMoves (m := m) hl
  have hbefore : (afterMoves m l).1 = ⟨70223, 1⟩ :=
    LcdTimer.ext (hcounter.trans (by decide)) (hframes.trans (by decide))
  have hmoved : (afterMoves m (c :: l)).1 = (afterMoves m l).1.moved 65665 :=
    (afterMoves m l).1.advance_of_isOn _ _ ((c.isOn_memory _).trans hon)
  refine ⟨c, l, hl, rfl, ?_⟩
  rw [hmoved, hbefore]
  decide

/-- After any moves that are no longer than the visible lines, line, frames and requests follow from
the cycles with the display on, and nothing else in memory has changed.  A move that is one cycle
longer can lose a frame. -/
theorem timing_law (m : Memory) :
    (∀ c l, (∀ d ∈ c :: l, d.cycles ≤ 65664) → Timed m c l) ∧
    ∃ c l, (∀ d ∈ l, d.cycles ≤ 65664) ∧ c.cycles = 65665 ∧
      (afterMoves m (c :: l)).1.frames + 1 =
        ((stretches (c :: l)).map fun T => (T + 4560) / 70224).sum :=
  ⟨fun _ _ hl => timed hl, exists_lost_frame m⟩

/-- The theorem for a display that is switched off once: both stretches complete a frame, the second
one with its last cycle. -/
theorem timing_law_two_stretches :
    let c : Move := ⟨switchedOn, 5664⟩
    let l : List Move := [⟨switchedOn, 60000⟩, ⟨.filled 0, 24⟩, ⟨switchedOn, 65664⟩]
    (∀ d ∈ c :: l, d.cycles ≤ 65664) ∧ Timed .blank c l ∧ stretches (c :: l) = [65664, 65664] ∧
      (afterMoves .blank (c :: l)).1.frames = 2 ∧
      ((afterMoves .blank (c :: l)).2.ram.get lineAddr).toNat = 144 := by
  intro c l
  have hl : ∀ d ∈ c :: l, d.cycles ≤ 65664 := by decide
  have h := (timing_law .blank).1 c l hl
  have hstretches : stretches (c :: l) = [65664, 65664] := by decide
  refine ⟨hl, h, hstretches, ?_, ?_⟩
  · rw [h.frames, hstretches]
    rfl
  · rw [h.line_of_isOn (by decide), cyclesOn, hstretches]
    rfl

end LcdTimer

end Lr35902
