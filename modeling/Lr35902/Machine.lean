import Lr35902.Cpu
import Lr35902.Lcd
import Lr35902.SystemBus

/-!
# The machine

A `Machine` is the processor with the system bus and the display.  `Machine.withBoot` starts it with
a boot program in front of a cartridge, and `Machine.postBoot` starts it at the cartridge's entry
point, in the state that the boot program would have left.
-/

namespace Lr35902

/-- The processor, the bus and the display. -/
structure Machine where
  cpu : Cpu
  bus : SystemBus
  lcd : LcdTimer

namespace Machine

/-- The registers of sound, palettes, display and boot program as the boot program leaves them. -/
def postBootRegisters : List (UInt16 × UInt8) := [
  (0xFF26, 0x80), (0xFF24, 0x77), (0xFF25, 0xF3),
  (0xFF47, 0xFC), (0xFF48, 0xFF), (0xFF49, 0xFF),
  (LcdTimer.controlAddr, 0x91), (SystemBus.bootOffAddr, 0x01)]

/-- The machine at the start of its boot program, which `boot` replaces where it is given. -/
def withBoot (cartridge : List UInt8) (boot : Option (List UInt8)) : Except Fault Machine := do
  let memory ← match boot with
    | some image => Memory.withBootProgram.loadRom image 0
    | none => pure Memory.withBootProgram
  let memory ← memory.attachCartridge cartridge
  return { cpu := .init .boot .blocked
           bus := .ofCartridge memory cartridge true
           lcd := {} }

/-- The machine at the cartridge's entry point, without its boot program. -/
def postBoot (cartridge : List UInt8) : Except Fault Machine := do
  let memory ← Memory.blank.loadRom cartridge 0
  let memory ← postBootRegisters.foldlM (fun m (addr, v) => m.write addr.toNat v) memory
  return { cpu := .init .postBoot .blocked
           bus := .ofCartridge memory cartridge false
           lcd := {} }

/-- The memory behind the bus. -/
def memory (m : Machine) : Memory := m.bus.memory

/-- The byte in memory at `addr`. -/
def peek (m : Machine) (addr : UInt16) : UInt8 := m.bus.memory.ram.get addr

end Machine

end Lr35902
