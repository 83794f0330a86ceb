import Lr35902.Lcd
import Lr35902.Proofs.Evaluation
import Lr35902.Proofs.Memory

/-!
# What the display does

The display works at fixed addresses, so moving it on cannot fail (`LcdTimer.update_eq`), and where
it gets to is a function of where it was, `LcdTimer.advance`.  That changes the line register and,
when a frame is completed, the request register, and no other byte (`LcdTimer.get_advance_of_ne`,
`LcdTimer.get_request_advance`).

As long as the display is on, it comes closer to the end of its visible lines with every move that
does not pass it (`LcdTimer.passes_or_approaches`).
-/

namespace Lr35902

namespace LcdTimer

/-- The display is switched on. -/
def isOn (m : Memory) : Bool := m.ram.get controlAddr &&& 0x80 != 0

/-- The timer moved on by `cycles`, with the display on. -/
def moved (t : LcdTimer) (cycles : Nat) : LcdTimer where
  counter := (t.counter + cycles) % cyclesPerFrame
  frames :=
    let new := (t.counter + cycles) % cyclesPerFrame / cyclesPerLine
    if passesVisible t.line new then t.frames + 1 else t.frames

/-- The timer and the memory after `cycles` more.  With the display off the timer stands still at
the start of a frame. -/
def advance (t : LcdTimer) (m : Memory) (cycles : Nat) : LcdTimer × Memory :=
  if isOn m then
    let t' := t.moved cycles
    let ram := m.ram.set lineAddr t'.line.toUInt8
    let ram :=
      if passesVisible t.line t'.line then
        ram.set Interrupt.requestAddr
          (ram.get Interrupt.requestAddr ||| Interrupt.vblank.mask)
      else ram
    (t', { m with ram })
  else ({ t with counter := 0 }, { m with ram := m.ram.set lineAddr 0 })

variable (t : LcdTimer) (m : Memory) (n : Nat)

section

variable {t n}

/-- A move that passes the end of the visible lines completes a frame. -/
theorem moved_of_passes (h : passesVisible t.line (t.moved n).line = true) :
    t.moved n = ⟨(t.counter + n) % cyclesPerFrame, t.frames + 1⟩ :=
  LcdTimer.ext rfl (if_pos h)

theorem moved_of_not_passes (h : ¬ passesVisible t.line (t.moved n).line = true) :
    t.moved n = ⟨(t.counter + n) % cyclesPerFrame, t.frames⟩ :=
  LcdTimer.ext rfl (if_neg h)

theorem frames_of_passes (h : passesVisible t.line (t.moved n).line = true) :
    (t.moved n).frames = t.frames + 1 := if_pos h

theorem frames_of_not_passes (h : ¬ passesVisible t.line (t.moved n).line = true) :
    (t.moved n).frames = t.frames := if_neg h

end

/-! ### Accesses -/

@[simp] theorem read_apply (addr : UInt16) : read addr (t, m) = .ok (m.ram.get addr) (t, m) := by
  simp only [read, onMemory, Memory.reading, Memory.read_word]

@[simp] theorem write_apply (addr : UInt16) (v : UInt8) :
    write addr v (t, m) = .ok () (t, { m with ram := m.ram.set addr v }) := by
  simp only [write, onMemory, Memory.changing, Memory.write_word]

@[simp] theorem modifyTimer_apply (f : LcdTimer → LcdTimer) :
    modifyTimer f (t, m) = .ok () (f t, m) := rfl

/-- No access of the display fails, whatever the memory is. -/
theorem update_eq : update n (t, m) = .ok () (t.advance m n) := by
  unfold update advance isOn
  rw [bind_apply, read_apply]
  dsimp only
  by_cases hoff : m.ram.get controlAddr &&& 0x80 = 0
  · rw [if_pos hoff, if_neg (by simp [hoff])]
    simp only [bind_apply, modifyTimer_apply, write_apply]
  rw [if_neg hoff, if_pos (by simp [hoff])]
  simp only [bind_apply, get_apply, modifyTimer_apply, write_apply]
  -- the line after the move is known before the frames are
  have hline : line { t with counter := (t.counter + n) % cyclesPerFrame } = (t.moved n).line := rfl
  rw [hline]
  by_cases hpasses : passesVisible t.line (t.moved n).line = true
  · rw [if_pos hpasses, if_pos hpasses]
    simp only [bind_apply, read_apply, write_apply, modifyTimer_apply, moved_of_passes hpasses]
  · rw [if_neg hpasses, if_neg hpasses, pure_apply, moved_of_not_passes hpasses]

/-! ### Memory -/

/-- All bytes but those of the line and of the requests stay. -/
theorem get_advance_of_ne {addr : UInt16} (hline : addr ≠ lineAddr)
    (hrequest : addr ≠ Interrupt.requestAddr) :
    (t.advance m n).2.ram.get addr = m.ram.get addr := by
  have hget (v : UInt8) : (m.ram.set lineAddr v).get addr = m.ram.get addr :=
    ByteSpace.get_set_ne _ v hline.symm
  unfold advance
  split
  · dsimp only
    split
    · rw [ByteSpace.get_set_ne _ _ hrequest.symm, hget]
    · exact hget _
  · exact hget 0

/-- The display requests its interrupt when it completes a frame, and at no other time. -/
theorem get_request_advance :
    (t.advance m n).2.ram.get Interrupt.requestAddr =
      m.ram.get Interrupt.requestAddr |||
        if (t.advance m n).1.frames = t.frames then 0 else Interrupt.vblank.mask := by
  have hget (v : UInt8) : (m.ram.set lineAddr v).get Interrupt.requestAddr =
      m.ram.get Interrupt.requestAddr := ByteSpace.get_set_ne _ v (by decide)
  unfold advance
  by_cases hon : isOn m
  · rw [if_pos hon]
    dsimp only
    by_cases hpasses : passesVisible t.line (t.moved n).line = true
    · rw [if_pos hpasses, ByteSpace.get_set_self, hget, frames_of_passes hpasses,
        if_neg (Nat.succ_ne_self _)]
    · rw [if_neg hpasses, hget, if_pos (frames_of_not_passes hpasses), UInt8.or_zero]
  · rw [if_neg hon, hget, if_pos rfl, UInt8.or_zero]

/-- A display that is on moves on, and requests its interrupt if it leaves its visible lines. -/
theorem advance_of_isOn (hon : isOn m) : (t.advance m n).1 = t.moved n := by
  unfold advance
  rw [if_pos hon]

/-- A display that is off stands still at the start of a frame. -/
theorem advance_of_off (hoff : ¬ isOn m) : (t.advance m n).1 = { t with counter := 0 } := by
  unfold advance
  rw [if_neg hoff]

theorem get_request_advance_of_passes (hon : isOn m)
    (hpasses : passesVisible t.line (t.moved n).line = true) :
    (t.advance m n).2.ram.get Interrupt.requestAddr =
      m.ram.get Interrupt.requestAddr ||| Interrupt.vblank.mask := by
  rw [get_request_advance, advance_of_isOn t m n hon, frames_of_passes hpasses,
    if_neg (Nat.succ_ne_self _)]

/-- A display that is off requests nothing. -/
theorem get_request_advance_of_off (hoff : ¬ isOn m) :
    (t.advance m n).2.ram.get Interrupt.requestAddr = m.ram.get Interrupt.requestAddr := by
  rw [get_request_advance, advance_of_off t m n hoff, if_pos rfl, UInt8.or_zero]

/-- The position of the display is inside of a frame. -/
theorem counter_advance_lt : (t.advance m n).1.counter < cyclesPerFrame := by
  have hpositive : 0 < cyclesPerFrame := by decide
  unfold advance
  split
  · exact Nat.mod_lt _ hpositive
  · exact hpositive

/-! ### The way to the end of the visible lines -/

/-- The cycles until the display leaves its visible lines. -/
def untilVblank : Nat :=
  let stop := visibleLines * cyclesPerLine
  if t.counter < stop then stop - t.counter else stop + cyclesPerFrame - t.counter

variable {t n}

theorem untilVblank_of_visible (h : t.counter < 65664) : t.untilVblank = 65664 - t.counter :=
  if_pos h

theorem untilVblank_of_invisible (h : 65664 ≤ t.counter) : t.untilVblank = 135888 - t.counter :=
  if_neg (Nat.not_lt.2 h)

/-- The end of the visible lines is never more than a frame away. -/
theorem untilVblank_le : t.untilVblank ≤ cyclesPerFrame := by
  change t.untilVblank ≤ 70224
  rcases Nat.lt_or_ge t.counter 65664 with h | h
  · rw [untilVblank_of_visible h]
    omega
  · rw [untilVblank_of_invisible h]
    omega

theorem untilVblank_pos (h : t.counter < cyclesPerFrame) : 0 < t.untilVblank := by
  change t.counter < 70224 at h
  rcases Nat.lt_or_ge t.counter 65664 with hvisible | hinvisible
  · rw [untilVblank_of_visible hvisible]
    omega
  · rw [untilVblank_of_invisible hinvisible]
    omega

/-- A move passes the end of the visible lines if it starts within them and ends behind them, or on
an earlier line of the next frame. -/
theorem passesVisible_moved_iff :
    passesVisible t.line (t.moved n).line = true ↔
      t.counter / 456 < 144 ∧
        ((t.counter + n) % 70224 / 456 < t.counter / 456 ∨
          144 ≤ (t.counter + n) % 70224 / 456) := by
  simp only [passesVisible, Bool.and_eq_true, Bool.or_eq_true, decide_eq_true_eq]
  rfl

/-- A move that is no longer than the invisible part of a frame passes the end of the visible lines
or comes closer to it by its length. -/
theorem passes_or_approaches (h : t.counter < cyclesPerFrame)
    (hn : n ≤ (linesPerFrame - visibleLines) * cyclesPerLine) :
    passesVisible t.line (t.moved n).line = true ∨
      (t.moved n).untilVblank + n = t.untilVblank := by
  change t.counter < 70224 at h
  change n ≤ 4560 at hn
  have hcounter : (t.moved n).counter = (t.counter + n) % 70224 := rfl
  rw [passesVisible_moved_iff]
  rcases Nat.lt_or_ge t.counter 65664 with hvisible | hinvisible
  · rcases Nat.lt_or_ge (t.counter + n) 65664 with hnext | hnext
    · -- the display stays within the visible lines
      right
      have hmod : (t.counter + n) % 70224 = t.counter + n := Nat.mod_eq_of_lt (by omega)
      rw [hmod] at hcounter
      rw [untilVblank_of_visible hvisible, untilVblank_of_visible (by rwa [hcounter]), hcounter]
      omega
    · -- it leaves them, and does not get through the invisible ones as well
      left
      omega
  · right
    rw [untilVblank_of_invisible hinvisible]
    rcases Nat.lt_or_ge (t.counter + n) 70224 with hnext | hnext
    · have hmod : (t.counter + n) % 70224 = t.counter + n := Nat.mod_eq_of_lt hnext
      rw [hmod] at hcounter
      rw [untilVblank_of_invisible (by omega), hcounter]
      omega
    · have hmod : (t.counter + n) % 70224 = t.counter + n - 70224 := by omega
      rw [hmod] at hcounter
      rw [untilVblank_of_visible (by omega), hcounter]
      omega

end LcdTimer

end Lr35902
