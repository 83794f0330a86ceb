import Lr35902.Event
import Lr35902.FileSystem
import Lr35902.Machine.Run

/-!
# Sessions

A `Session` is a machine that is ready to run under limits.  `RunRequest.start` makes one from what
a user asks for: files with images, and whether to skip the boot program.  When the run has ended,
`Session.finish?` gives its `RunSummary` or the `RunError` that ended it.
-/

namespace Lr35902

/-- A file that was to be read as an image. -/
structure ImageFile where
  path : String
  /-- The bytes of the file, or why it could not be read. -/
  contents : Except FileError (List UInt8)

/-- What a user asks for. -/
structure RunRequest where
  /-- The cartridge; without one only the boot program runs. -/
  cartridge : Option ImageFile := none
  /-- The boot program in place of the built-in one. -/
  boot : Option ImageFile := none
  /-- Start at the cartridge's entry point. -/
  skipBoot : Bool := false
  limits : Limits := {}

/-- Why a request could not be carried out. -/
inductive RunError where
  /-- The file that was to hold `what` could not be read. -/
  | unreadable (what path : String) (error : FileError)
  /-- There is nothing to start when the boot program is skipped. -/
  | noCartridge
  /-- The images do not fit. -/
  | loading (fault : Fault)
  /-- A step has failed. -/
  | execution (cycles : Nat) (pc : UInt16) (fault : Fault)

/-- The text of the error. -/
def RunError.message : RunError → String
  | unreadable what path error => s!"failed to read {what} '{path}': {error.message}"
  | noCartridge => "--skip-boot needs a cartridge to start"
  | loading fault => s!"failed to load the ROM image: {fault.message}"
  | execution cycles pc fault =>
    s!"execution failed after {cycles} cycles, PC=0x{Hex.word pc}: {fault.message}"

/-- Where a run ended up. -/
structure RunSummary where
  reason : StopReason
  cycles : Nat
  frames : Nat
  regs : RegisterFile

namespace RunSummary

/-- The summary in one line. -/
def line (s : RunSummary) : String :=
  s!"{s.reason.name} after {s.cycles} cycles, {s.frames} frames"

/-- The registers in one line. -/
def registerLine (s : RunSummary) : String :=
  s!"{Event.pairs s.regs} SP={Hex.word s.regs.sp} PC={Hex.word s.regs.pc}"

/-- What the program prints after the run, with or without the registers. -/
def report (s : RunSummary) (withRegisters : Bool) : String :=
  s.line ++ "\n" ++ if withRegisters then s.registerLine ++ "\n" else ""

end RunSummary

/-- A machine that runs under limits. -/
structure Session where
  machine : Machine
  limits : Limits
  /-- The size of the cartridge. -/
  cartridgeSize : Nat

namespace RunRequest

/-- The bytes of a file. -/
def bytes (what : String) (file : ImageFile) : Except RunError (List UInt8) :=
  match file.contents with
  | .ok bytes => .ok bytes
  | .error error => .error (.unreadable what file.path error)

/-- The session that the request asks for.  All files are read before the machine is built. -/
def start (r : RunRequest) : Except RunError Session := do
  let cartridge ← match r.cartridge with
    | some file => bytes "cartridge" file
    | none => if r.skipBoot then throw .noCartridge else pure []
  let boot ← r.boot.mapM (bytes "boot image")
  let built := if r.skipBoot then Machine.postBoot cartridge else Machine.withBoot cartridge boot
  match built with
  | .ok machine => return { machine, limits := r.limits, cartridgeSize := cartridge.length }
  | .error fault => throw (.loading fault)

end RunRequest

namespace Session

/-- The events of starting the session. -/
def startEvents (s : Session) : List Event := [.started s.cartridgeSize s.machine.cpu.regs.pc]

/-- The summary of a run, or its error; nothing if the run is only paused. -/
def finish? : RunResult → Option (Except RunError RunSummary)
  | .paused _ => none
  | .ended reason m =>
    some (.ok { reason, cycles := m.cpu.cycles, frames := m.lcd.frames, regs := m.cpu.regs })
  | .failed fault m => some (.error (.execution m.cpu.cycles m.cpu.regs.pc fault))

/-- The events of finishing a run. -/
def finishEvents (s : RunSummary) : List Event := [.ended s.reason s.cycles s.frames]

end Session

end Lr35902
