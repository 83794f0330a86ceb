import Lr35902.Machine.Step

/-!
# Running the machine

A run steps the machine until it has a reason to stop (`Machine.checkStop`) or something fails.  A
program may go on for ever, so `Machine.runFor` makes a given number of steps at most and says that
the run is paused when they are used up; going on from there continues the run
(`Machine.runFor_add`).  Every step takes at least four cycles, so under a limit of cycles
`Machine.stepBound` steps are enough (`Machine.runWithin`).
-/

namespace Lr35902

/-- Why a run ended. -/
inductive StopReason where
  /-- The program counter is past the last byte that was loaded. -/
  | endOfRom
  /-- The processor has stopped for good. -/
  | stopped
  /-- The processor waits for an interrupt that cannot come. -/
  | haltedForever
  /-- The limit of cycles is reached. -/
  | cycleLimit
  /-- The limit of frames is reached. -/
  | frameLimit
deriving DecidableEq

/-- The reason's name as it appears in messages. -/
def StopReason.name : StopReason → String
  | endOfRom => "EndOfRom"
  | stopped => "Stopped"
  | haltedForever => "HaltedForever"
  | cycleLimit => "CycleLimit"
  | frameLimit => "FrameLimit"

/-- Optional bounds on a run. -/
structure Limits where
  maxCycles : Option Nat := none
  maxFrames : Option Nat := none

/-- Where a run has got to. -/
inductive RunResult where
  /-- The steps are used up. -/
  | paused (m : Machine)
  /-- The run has ended. -/
  | ended (reason : StopReason) (m : Machine)
  /-- A step has failed, or the look at the machine before it. -/
  | failed (fault : Fault) (m : Machine)

/-- The machine at that point. -/
def RunResult.machine : RunResult → Machine
  | paused m => m
  | ended _ m => m
  | failed _ m => m

namespace Machine

/-- A value has reached its limit, if there is one. -/
def reached (limit : Option Nat) (value : Nat) : Bool := limit.any (· ≤ value)

/-- Whether the processor waits for an interrupt that cannot come: none is pending, and the display,
the only source that this machine has, is off or has its interrupt disabled. -/
def checkHaltedForever (m : Machine) : Except Fault Bool :=
  if m.cpu.run ≠ .halted then return false
  else do
    let enabled ← m.memory.read Interrupt.enableAddr.toNat
    let requested ← m.memory.read Interrupt.requestAddr.toNat
    let isOn := (← m.memory.read LcdTimer.controlAddr.toNat) &&& 0x80 != 0
    let pending := (Interrupt.highestPending requested enabled).isSome
    let vblankPossible := isOn && enabled &&& Interrupt.vblank.mask != 0
    return !pending && !vblankPossible

/-- Looks for a reason to stop before the next step. -/
def checkStop (limits : Limits) (m : Machine) : Except Fault (Option StopReason) :=
  if m.cpu.run = .stopped then return some .stopped
  else if m.cpu.run = .normal ∧ ¬ m.cpu.hasInstruction m.bus then return some .endOfRom
  else do
    if ← m.checkHaltedForever then return some .haltedForever
    else if reached limits.maxCycles m.cpu.cycles then return some .cycleLimit
    else if reached limits.maxFrames m.lcd.frames then return some .frameLimit
    else return none

/-- The run of the machine, paused after `steps` steps unless it has come to an end by then. -/
def runFor (limits : Limits) : Nat → Machine → RunResult
  | 0, m => .paused m
  | steps + 1, m =>
    match m.checkStop limits with
    | .error e => .failed e m
    | .ok (some reason) => .ended reason m
    | .ok none =>
      match m.step with
      | .ok _ m' => runFor limits steps m'
      | .error e m' => .failed e m'

/-- A run may be interrupted: after a pause it goes on as if there had been none. -/
theorem runFor_add (limits : Limits) (n k : Nat) (m : Machine) :
    m.runFor limits (n + k) =
      match m.runFor limits n with
      | .paused m' => m'.runFor limits k
      | r => r := by
  induction n generalizing m with
  | zero => simp [runFor]
  | succ n ih =>
    rw [Nat.succ_add]
    cases hs : m.checkStop limits with
    | error e => simp [runFor, hs]
    | ok reason? =>
      cases reason? with
      | some reason => simp [runFor, hs]
      | none => cases hm : m.step <;> simp [runFor, hs, hm, ih]

/-- More steps than a run from `cycles` to `maxCycles` can make. -/
def stepBound (maxCycles cycles : Nat) : Nat := (maxCycles - cycles + 3) / 4 + 1

/-- The run of the machine up to a limit of cycles, and of frames if there is one. -/
def runWithin (maxCycles : Nat) (maxFrames : Option Nat) (m : Machine) : RunResult :=
  m.runFor { maxCycles := some maxCycles, maxFrames } (stepBound maxCycles m.cpu.cycles)

end Machine

end Lr35902
