import Lr35902.Bus.Recorder
import Lr35902.Event

/-!
# Keeping a log

Events are no part of the machine: which ones an operation causes is a function of the state before
it, and an operation does the same whether or not anyone keeps a log.  For each operation there is a
function that gives its events, such as `Machine.stepEvents` for `Machine.step`; what the registers
of the bus do is read off the recorded accesses.

`Machine.recordFor` makes a run with a log, and it is the same run as without
(`Machine.fst_recordFor`).
-/

namespace Lr35902

/-! ### The processor -/

/-- The events of waking the processor. -/
def Cpu.wakeEvents (cpu : Cpu) : List Event :=
  if cpu.run = .normal then [] else [.woken cpu.run cpu.regs.pc]

namespace Exec

variable {σ : Type} [Bus σ]

/-- The events of `Exec.step`. -/
def stepEvents (s : Board σ) : List Event :=
  let pc := s.cpu.regs.pc
  if s.cpu.run ≠ .normal ∨ s.cpu.mode ≠ .primary then []
  else match Bus.fetch8 pc s.bus, step s with
    | .ok opcode _, .ok _ s' =>
      match Instruction.decode opcode with
      | some .stop => [.stopped pc]
      | some .halt => [.halted pc s.cpu.ime]
      | some .di => [.interruptsBlocked s.cpu.ime]
      | some .ei => [.interruptsEnabled]
      | some .reti => [.returned s'.cpu.regs.pc]
      | _ => []
    | .ok opcode _, .error (.unknownOpcode ..) s' => [.unknownOpcode opcode pc s'.cpu.regs]
    | _, _ => []

/-- The events of `Exec.dispatch`. -/
def dispatchEvents (i : Interrupt) (s : Board σ) : List Event :=
  match dispatch i s with
  | .ok _ s' => [.dispatched i s.cpu.regs.pc s'.cpu.regs.sp]
  | .error .. => []

/-- The accesses to the bus that an action makes, up to its failure if it fails. -/
def accesses {α : Type} (act : Exec (Recorder σ) α) (s : Board σ) : List BusAccess :=
  match act ⟨s.cpu, ⟨s.bus, []⟩⟩ with
  | .ok _ s' => s'.bus.accesses
  | .error _ s' => s'.bus.accesses

end Exec

/-! ### The bus and the display -/

namespace SystemBus

/-- The events of a series of accesses to a bus. -/
def accessEvents (hidden : Nat) : Bool → List BusAccess → List Event
  | _, [] => []
  | mapped, ⟨.write, addr, some v⟩ :: rest =>
    if addr = spriteCopyAddr then
      .spriteCopy (v.toUInt16 <<< 8) :: accessEvents hidden mapped rest
    else if addr = bootOffAddr ∧ v ≠ 0 ∧ mapped then
      .bootUnmapped hidden :: accessEvents hidden false rest
    else accessEvents hidden mapped rest
  | mapped, _ :: rest => accessEvents hidden mapped rest

/-- The events of a series of accesses to the bus `b`. -/
def eventsOf (b : SystemBus) (accesses : List BusAccess) : List Event :=
  accessEvents b.cartridgeHead.length b.bootMapped accesses

/-- The events of `SystemBus.write`. -/
def writeEvents (b : SystemBus) (addr : UInt16) (v : UInt8) : List Event :=
  b.eventsOf [⟨.write, addr, some v⟩]

end SystemBus

/-- The events of `LcdTimer.update`. -/
def LcdTimer.updateEvents (t : LcdTimer) (m : Memory) (cycles : Nat) : List Event :=
  match update cycles (t, m) with
  | .ok _ (t', m') =>
    if t.frames < t'.frames then
      [.vblank t.line t'.line t'.frames (m'.ram.get Interrupt.requestAddr)]
    else []
  | .error .. => []

/-! ### The machine -/

namespace Machine

/-- The events of executing one opcode byte on the board `s`. -/
def executeEvents (s : Board SystemBus) : List Event :=
  let pc := s.cpu.regs.pc
  let executed := match Bus.fetch8 pc s.bus, Exec.step s with
    | .ok opcode _, .ok cycles s' => [Event.executed pc opcode cycles s'.cpu.regs]
    | _, _ => []
  s.bus.eventsOf (Exec.accesses Exec.step s) ++ Exec.stepEvents s ++ executed

/-- The events of the processor's part of a step. -/
def tickEvents (s : Board SystemBus) : List Event :=
  match Exec.pollInterrupts s, Exec.pendingInterrupt s with
  | .ok (some _) _, .ok (some i) _ =>
    s.bus.eventsOf (Exec.accesses (Exec.dispatch i) s) ++ Exec.dispatchEvents i s
  | .ok none s', _ =>
    (if s.cpu.run = s'.cpu.run then [] else s.cpu.wakeEvents) ++ executeEvents s'
  | _, _ => []

/-- The events of `Machine.step`. -/
def stepEvents (m : Machine) : List Event :=
  tickEvents m.board ++
    match onBoard Exec.tick m with
    | .ok cycles m' => m'.lcd.updateEvents m'.bus.memory cycles
    | .error .. => []

/-- The events of ending a run. -/
def stopEvents (m : Machine) : StopReason → List Event
  | .haltedForever =>
    match m.memory.read Interrupt.enableAddr.toNat with
    | .ok enabled => [.haltedForever (m.cpu.regs.pc - 1) enabled]
    | .error _ => []
  | _ => []

/-- The run of the machine as in `Machine.runFor`, with the events that are at least as important as
`least` added to `log`. -/
def recordFor (least : Severity) (limits : Limits) :
    Nat → Machine → Array Event → RunResult × Array Event
  | 0, m, log => (.paused m, log)
  | steps + 1, m, log =>
    match m.checkStop limits with
    | .error e => (.failed e m, log)
    | .ok (some reason) =>
      (.ended reason m, log.appendList (Event.filter least (m.stopEvents reason)))
    | .ok none =>
      let log := log.appendList (Event.filter least m.stepEvents)
      match m.step with
      | .ok _ m' => recordFor least limits steps m' log
      | .error e m' => (.failed e m', log)

/-- Keeping a log does not change the run. -/
theorem fst_recordFor (least : Severity) (limits : Limits) (steps : Nat) (m : Machine)
    (log : Array Event) : (recordFor least limits steps m log).1 = m.runFor limits steps := by
  induction steps generalizing m log with
  | zero => rfl
  | succ steps ih =>
    cases hs : m.checkStop limits with
    | error e => simp [recordFor, runFor, hs]
    | ok reason? =>
      cases reason? with
      | some reason => simp [recordFor, runFor, hs]
      | none => cases hm : m.step <;> simp [recordFor, runFor, hs, hm, ih]

end Machine

end Lr35902
