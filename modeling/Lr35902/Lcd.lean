import Lr35902.Interrupt
import Lr35902.Memory

/-!
# Display timing

The display draws a frame of 154 lines, 456 cycles each, of which the first 144 are visible.
Programs see the number of the current line at 0xFF44, and the display requests an interrupt when it
has left the last visible line.  `LcdTimer.update` moves the display on by a number of cycles.

The display works on the memory itself, past the registers of the bus.  Each of its accesses to the
memory can fail as any other, and leaves behind what it has changed up to then.
-/

namespace Lr35902

/-- The position of the display in time. -/
@[ext] structure LcdTimer where
  /-- The cycles since the start of the current frame. -/
  counter : Nat := 0
  /-- The frames completed, counted when the last visible line ends. -/
  frames : Nat := 0
deriving DecidableEq, Inhabited

namespace LcdTimer

/-- The display control register, whose highest bit switches the display on. -/
def controlAddr : UInt16 := 0xFF40

/-- The register that shows the current line. -/
def lineAddr : UInt16 := 0xFF44

/-- The cycles that one line takes. -/
def cyclesPerLine : Nat := 456

/-- The lines of a frame. -/
def linesPerFrame : Nat := 154

/-- The lines of a frame that are visible. -/
def visibleLines : Nat := 144

/-- The cycles that one frame takes. -/
def cyclesPerFrame : Nat := cyclesPerLine * linesPerFrame

/-- The line that is being drawn. -/
def line (t : LcdTimer) : Nat := t.counter / cyclesPerLine

/-- A move from one line to another passes the end of the visible lines.  A move to an earlier line
has passed into the next frame. -/
def passesVisible (old new : Nat) : Bool :=
  old < visibleLines && (new < old || visibleLines ≤ new)

/-- Performs an access to the memory that the display works on. -/
@[inline] def onMemory {α : Type} (access : EStateM Fault Memory α) :
    EStateM Fault (LcdTimer × Memory) α :=
  fun (t, m) => match access m with
    | .ok v m => .ok v (t, m)
    | .error e m => .error e (t, m)

/-- Reads the byte at `addr`. -/
@[inline] def read (addr : UInt16) : EStateM Fault (LcdTimer × Memory) UInt8 :=
  onMemory (Memory.reading (·.read addr.toNat))

/-- Writes the byte at `addr`. -/
@[inline] def write (addr : UInt16) (v : UInt8) : EStateM Fault (LcdTimer × Memory) Unit :=
  onMemory (Memory.changing (·.write addr.toNat v))

/-- Changes the timer. -/
@[inline] def modifyTimer (f : LcdTimer → LcdTimer) : EStateM Fault (LcdTimer × Memory) Unit :=
  modify fun (t, m) => (f t, m)

/-- Moves the display on by `cycles`.  With the display off the timer stands still at the start of a
frame. -/
def update (cycles : Nat) : EStateM Fault (LcdTimer × Memory) Unit := do
  if (← read controlAddr) &&& 0x80 = 0 then
    modifyTimer ({ · with counter := 0 })
    write lineAddr 0
  else
    let old := (← get).1.line
    modifyTimer fun t => { t with counter := (t.counter + cycles) % cyclesPerFrame }
    let new := (← get).1.line
    write lineAddr new.toUInt8
    if passesVisible old new then
      let requested ← read Interrupt.requestAddr
      write Interrupt.requestAddr (requested ||| Interrupt.vblank.mask)
      modifyTimer fun t => { t with frames := t.frames + 1 }

end LcdTimer

end Lr35902
