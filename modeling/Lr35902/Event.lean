import Lr35902.Machine.Run

/-!
# Events

An `Event` is something that a log of the machine mentions.  `Event.line` writes it in text, along
with its `Severity`, by which a log may leave out what is of no interest.
-/

namespace Lr35902

/-- The importance of an event, the most important first. -/
inductive Severity where
  | error | warn | info | debug | trace
deriving DecidableEq

namespace Severity

/-- The position in the order of importance. -/
def rank : Severity → Nat
  | error => 0
  | warn => 1
  | info => 2
  | debug => 3
  | trace => 4

/-- The name as it appears in the log. -/
def name : Severity → String
  | error => "ERROR"
  | warn => "WARN"
  | info => "INFO"
  | debug => "DEBUG"
  | trace => "TRACE"

end Severity

/-- Something that the log mentions. -/
inductive Event where
  /-- A byte without an instruction was executed. -/
  | unknownOpcode (opcode : UInt8) (addr : UInt16) (regs : RegisterFile)
  /-- A run has ended because the processor waits for ever. -/
  | haltedForever (addr : UInt16) (enabled : UInt8)
  /-- A run begins with a cartridge of `count` bytes. -/
  | started (count : Nat) (pc : UInt16)
  /-- A run has ended. -/
  | ended (reason : StopReason) (cycles frames : Nat)
  /-- STOP was executed. -/
  | stopped (addr : UInt16)
  /-- HALT was executed. -/
  | halted (addr : UInt16) (ime : InterruptState)
  /-- DI was executed. -/
  | interruptsBlocked (ime : InterruptState)
  /-- EI was executed. -/
  | interruptsEnabled
  /-- RETI was executed. -/
  | returned (pc : UInt16)
  /-- An interrupt was dispatched. -/
  | dispatched (i : Interrupt) (pc sp : UInt16)
  /-- The processor has left a waiting state. -/
  | woken (run : RunState) (pc : UInt16)
  /-- The boot program was removed and `count` bytes of the cartridge revealed. -/
  | bootUnmapped (count : Nat)
  /-- The sprite table was filled from `src`. -/
  | spriteCopy (src : UInt16)
  /-- The display has left the last visible line. -/
  | vblank (old new frames : Nat) (requested : UInt8)
  /-- An opcode byte was executed, or the processor waited. -/
  | executed (pc : UInt16) (opcode : UInt8) (cycles : Nat) (regs : RegisterFile)

namespace Event

/-- How important the event is. -/
def severity : Event → Severity
  | unknownOpcode .. => .error
  | haltedForever .. => .warn
  | started .. => .info
  | ended .. => .info
  | executed .. => .trace
  | _ => .debug

/-- The register pairs in text. -/
def pairs (g : RegisterFile) : String :=
  s!"AF={Hex.word g.af} BC={Hex.word g.bc} DE={Hex.word g.de} HL={Hex.word g.hl}"

/-- The text of the event. -/
def message : Event → String
  | unknownOpcode opcode addr g =>
    s!"unknown opcode 0x{Hex.byte opcode} at PC=0x{Hex.word addr} (SP=0x{Hex.word g.sp} " ++
      s!"AF=0x{Hex.word g.af} BC=0x{Hex.word g.bc} DE=0x{Hex.word g.de} HL=0x{Hex.word g.hl})"
  | haltedForever addr enabled =>
    s!"HALT at 0x{Hex.word addr} can never wake " ++
      s!"(IE=0x{Hex.byte enabled}, no source left to raise)"
  | started count pc => s!"Running {count} bytes of cartridge from PC=0x{Hex.word pc}"
  | ended reason cycles frames =>
    s!"Stopped ({reason.name}) after {cycles} cycles and {frames} frames"
  | stopped addr => s!"STOP at pc=0x{Hex.word addr}"
  | halted addr ime => s!"HALT at pc=0x{Hex.word addr} ({ime.name})"
  | interruptsBlocked ime => s!"DI ({ime.name} -> Blocked)"
  | interruptsEnabled => "EI, interrupts enabled after the next instruction"
  | returned pc => s!"RETI: interrupts enabled, pc=0x{Hex.word pc}"
  | dispatched i pc sp =>
    s!"interrupt {i.name}: pc=0x{Hex.word pc} -> 0x{Hex.word i.vector} sp=0x{Hex.word sp}"
  | woken run pc => s!"wake from {run.name} at pc=0x{Hex.word pc}"
  | bootUnmapped count =>
    s!"boot program unmapped, {count} cartridge bytes now visible at 0x0000"
  | spriteCopy src => s!"OAM DMA from 0x{Hex.word src}"
  | vblank old new frames requested =>
    s!"VBlank edge (LY {old}->{new}), frame {frames}, IF=0x{Hex.byte requested}"
  | executed pc opcode cycles g =>
    let gap := if cycles < 10 then "  " else " "
    s!"{Hex.word pc}: {Hex.byte opcode}{gap}{cycles}  {pairs g} SP={Hex.word g.sp}"

/-- The event as a line of the log. -/
def line (e : Event) : String := s!"{e.severity.name} {e.message}"

/-- The events that are at least as important as `least`. -/
def filter (least : Severity) (events : List Event) : List Event :=
  events.filter fun e => e.severity.rank ≤ least.rank

end Event

end Lr35902
