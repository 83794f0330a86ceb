import Lr35902.Machine.Step
import Lr35902.Proofs.Lcd
import Lr35902.Proofs.Parametric
import Lr35902.Proofs.SystemBus

/-!
# Reachable machines

A machine is *reachable* if steps, successful or not, lead to it from a start (`Machine.Reachable`).
Its bus is well-formed (`Machine.Reachable.wellFormed`), so no access to it fails.
-/

namespace Lr35902

namespace Machine

/-- The machine comes from a start by steps.  A step that fails is a step, too. -/
inductive Reachable : Machine → Prop
  | withBoot {cartridge : List UInt8} {boot : Option (List UInt8)} {m : Machine}
      (h : withBoot cartridge boot = .ok m) : Reachable m
  | postBoot {cartridge : List UInt8} {m : Machine} (h : postBoot cartridge = .ok m) : Reachable m
  | step {m m' : Machine} {n : Nat} (hm : Reachable m) (h : m.step = .ok n m') : Reachable m'
  | fault {m m' : Machine} {e : Fault} (hm : Reachable m) (h : m.step = .error e m') : Reachable m'

/-- The machine has just been started, with its boot program or without. -/
inductive Started : Machine → Prop
  | withBoot {cartridge : List UInt8} {boot : Option (List UInt8)} {m : Machine}
      (h : withBoot cartridge boot = .ok m) : Started m
  | postBoot {cartridge : List UInt8} {m : Machine} (h : postBoot cartridge = .ok m) : Started m

/-- The machine after its next step, whether that succeeds or fails. -/
def next (m : Machine) : Machine := final step m

/-- The machine after its next `n` steps. -/
def after (m : Machine) : Nat → Machine
  | 0 => m
  | n + 1 => (m.after n).next

theorem after_succ (m : Machine) (n : Nat) : m.after (n + 1) = m.next.after n := by
  induction n with
  | zero => rfl
  | succ n ih => rw [after, ih, after]

/-! ### Steps of the machine and steps of the processor -/

variable {m m' : Machine}

theorem Started.reachable (hm : m.Started) : m.Reachable := by
  cases hm with
  | withBoot h => exact .withBoot h
  | postBoot h => exact .postBoot h

theorem Reachable.next (hm : m.Reachable) : m.next.Reachable := by
  cases h : m.step with
  | ok n m' =>
    rw [Machine.next, final_ok h]
    exact hm.step h
  | error e m' =>
    rw [Machine.next, final_error h]
    exact hm.fault h

theorem Reachable.after (hm : m.Reachable) (n : Nat) : (m.after n).Reachable := by
  induction n with
  | zero => exact hm
  | succ n ih => exact ih.next

/-- What is true at a start and kept by every step is true of a reachable machine. -/
theorem Reachable.invariant {P : Machine → Prop} (start : ∀ m : Machine, m.Started → P m)
    (next : ∀ m : Machine, m.Reachable → P m → P m.next) (hm : m.Reachable) : P m := by
  induction hm with
  | withBoot h => exact start _ (.withBoot h)
  | postBoot h => exact start _ (.postBoot h)
  | @step m m' n hm h ih =>
    have hkept := next m hm ih
    rwa [Machine.next, final_ok h] at hkept
  | @fault m m' e hm h ih =>
    have hkept := next m hm ih
    rwa [Machine.next, final_error h] at hkept

/-- The machine with its processor and its bus as on the board. -/
def withBoard (m : Machine) (s : Board SystemBus) : Machine := { m with cpu := s.cpu, bus := s.bus }

/-- The machine with its display moved on by `cycles`. -/
def advanceDisplay (m : Machine) (cycles : Nat) : Machine :=
  let (lcd, memory) := m.lcd.advance m.bus.memory cycles
  { m with lcd, bus := { m.bus with memory } }

/-- Moving the display on cannot fail. -/
theorem updateDisplay_eq (m : Machine) (n : Nat) :
    updateDisplay n m = .ok () (m.advanceDisplay n) := by
  rw [updateDisplay, LcdTimer.update_eq]
  rfl

/-- A step fails only with the processor's part of it. -/
theorem step_eq (m : Machine) :
    m.step = match Exec.tick m.board with
      | .ok n s => .ok n ((m.withBoard s).advanceDisplay n)
      | .error e s => .error e (m.withBoard s) := by
  unfold step
  rw [bind_apply, onBoard]
  cases Exec.tick m.board with
  | ok n s => simp only [bind_apply, updateDisplay_eq, pure_apply, withBoard]
  | error e s => rfl

theorem step_eq_ok_iff {n : Nat} :
    m.step = .ok n m' ↔
      ∃ s, Exec.tick m.board = .ok n s ∧ m' = (m.withBoard s).advanceDisplay n := by
  rw [step_eq]
  cases Exec.tick m.board with
  | ok k s =>
    constructor
    · rintro ⟨⟩
      exact ⟨s, rfl, rfl⟩
    · rintro ⟨_, ⟨⟩, rfl⟩
      rfl
  | error e s => simp

theorem step_eq_error_iff {e : Fault} :
    m.step = .error e m' ↔ ∃ s, Exec.tick m.board = .error e s ∧ m' = m.withBoard s := by
  rw [step_eq]
  cases Exec.tick m.board with
  | ok k s => simp
  | error e s =>
    constructor
    · rintro ⟨⟩
      exact ⟨s, rfl, rfl⟩
    · rintro ⟨_, ⟨⟩, rfl⟩
      rfl

/-! ### The invariant -/

/-- A step leaves the processor as its part of the step does. -/
theorem cpu_next (m : Machine) : m.next.cpu = (final Exec.tick m.board).cpu := by
  unfold next final
  rw [step_eq]
  cases Exec.tick m.board <;> rfl

/-- A computation with a result has results on the way. -/
theorem exists_of_bind_eq_ok {ε α β : Type} {x : Except ε α} {f : α → Except ε β} {w : β}
    (h : x >>= f = .ok w) : ∃ v, x = .ok v ∧ f v = .ok w := by
  cases x with
  | ok v => exact ⟨v, rfl, h⟩
  | error e => cases h

/-- Whatever its memory is, a machine starts with the cartridge's first page at most, and with
interrupts blocked. -/
theorem eq_of_withBoot {cartridge : List UInt8} {boot : Option (List UInt8)}
    (h : withBoot cartridge boot = .ok m) :
    ∃ memory, m = ⟨.init .boot .blocked, .ofCartridge memory cartridge true, {}⟩ := by
  unfold withBoot at h
  cases boot with
  | some image =>
    obtain ⟨memory, -, hattach⟩ := exists_of_bind_eq_ok h
    obtain ⟨attached, -, hstart⟩ := exists_of_bind_eq_ok hattach
    exact ⟨attached, (Except.ok.inj hstart).symm⟩
  | none =>
    obtain ⟨memory, -, hattach⟩ := exists_of_bind_eq_ok h
    obtain ⟨attached, -, hstart⟩ := exists_of_bind_eq_ok hattach
    exact ⟨attached, (Except.ok.inj hstart).symm⟩

theorem eq_of_postBoot {cartridge : List UInt8} (h : postBoot cartridge = .ok m) :
    ∃ memory, m = ⟨.init .postBoot .blocked, .ofCartridge memory cartridge false, {}⟩ := by
  obtain ⟨loaded, -, hwritten⟩ := exists_of_bind_eq_ok h
  obtain ⟨memory, -, hstart⟩ := exists_of_bind_eq_ok hwritten
  exact ⟨memory, (Except.ok.inj hstart).symm⟩

theorem Started.cpu_eq (hm : m.Started) : ∃ start, m.cpu = .init start .blocked := by
  cases hm with
  | withBoot h =>
    obtain ⟨memory, rfl⟩ := eq_of_withBoot h
    exact ⟨.boot, rfl⟩
  | postBoot h =>
    obtain ⟨memory, rfl⟩ := eq_of_postBoot h
    exact ⟨.postBoot, rfl⟩

theorem Started.lcd_eq (hm : m.Started) : m.lcd = {} := by
  cases hm with
  | withBoot h =>
    obtain ⟨memory, rfl⟩ := eq_of_withBoot h
    rfl
  | postBoot h =>
    obtain ⟨memory, rfl⟩ := eq_of_postBoot h
    rfl

/-- The bus of a reachable machine is well-formed. -/
theorem Reachable.wellFormed (hm : Reachable m) : m.bus.WellFormed := by
  -- a reliable bus simulates itself, so whatever is reliable about it is kept by all that it does
  have htick := Exec.simulates_tick SystemBus.reliable.simulation
  induction hm with
  | withBoot h =>
    obtain ⟨memory, rfl⟩ := eq_of_withBoot h
    exact SystemBus.wellFormed_ofCartridge memory _ true
  | postBoot h =>
    obtain ⟨memory, rfl⟩ := eq_of_postBoot h
    exact SystemBus.wellFormed_ofCartridge memory _ false
  | step _ h ih =>
    obtain ⟨s, hs, rfl⟩ := step_eq_ok_iff.1 h
    exact htick.keeps_ok ih hs
  | fault _ h ih =>
    obtain ⟨s, hs, rfl⟩ := step_eq_error_iff.1 h
    exact htick.keeps_error ih hs

end Machine

end Lr35902
