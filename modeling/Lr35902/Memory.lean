import Lr35902.BootProgram
import Lr35902.Bus
import Lr35902.ByteSpace

/-!
# Memory

A `Memory` is a space of 64 KiB for loads and stores together with an image of the same size that
instructions are fetched from.  `Memory.extent` is one past the last image address that was ever
loaded.

Addresses may come from a computation, so they are natural numbers here, and one outside of the
space is a fault rather than wrapping around.
-/

namespace Lr35902

/-- The memory and the instruction image. -/
@[ext] structure Memory where
  /-- What loads and stores see. -/
  ram : ByteSpace
  /-- What instructions are fetched from. -/
  rom : ByteSpace
  /-- One past the last image address that was ever loaded. -/
  extent : Nat

namespace Memory

/-- The first address of the sprite table. -/
def spriteTable : Nat := 0xFE00

/-- The number of bytes in the sprite table. -/
def spriteTableSize : Nat := 0xA0

/-- The largest address that a request can name. -/
def lastAddress : Nat := 0xFFFFFFFFFFFFFFFF

/-- A memory of zeros with nothing loaded. -/
def blank : Memory := ⟨.filled 0, .filled 0, 0⟩

/-- A memory of zeros with the boot program loaded. -/
def withBootProgram : Memory where
  ram := .filled 0
  rom := (ByteSpace.filled 0).load 0 BootProgram.bytes
  extent := BootProgram.size

instance : Inhabited Memory := ⟨withBootProgram⟩

/-- The byte at `addr`. -/
def read (m : Memory) (addr : Nat) : Except Fault UInt8 :=
  if addr < ByteSpace.size then .ok (m.ram.get addr.toUInt16)
  else .error (.outOfBounds .memory addr ByteSpace.size)

/-- The memory with byte `v` at `addr`. -/
def write (m : Memory) (addr : Nat) (v : UInt8) : Except Fault Memory :=
  if addr < ByteSpace.size then .ok { m with ram := m.ram.set addr.toUInt16 v }
  else .error (.outOfBounds .memory addr ByteSpace.size)

/-- The image byte at `addr`. -/
def readRom (m : Memory) (addr : Nat) : Except Fault UInt8 :=
  if addr < ByteSpace.size then .ok (m.rom.get addr.toUInt16)
  else .error (.outOfBounds .rom addr ByteSpace.size)

/-- The memory with `bytes` in its image from `offset`, if they fit. -/
def loadRom (m : Memory) (bytes : List UInt8) (offset : Nat) : Except Fault Memory :=
  let stop := offset + bytes.length
  if stop ≤ ByteSpace.size then
    .ok { m with rom := m.rom.load offset bytes, extent := max m.extent stop }
  else .error (.romOverflow offset bytes.length ByteSpace.size)

/-- The memory with a cartridge behind the boot program, which keeps the cartridge's first page
hidden.  A cartridge that ends within that page changes nothing. -/
def attachCartridge (m : Memory) (cartridge : List UInt8) : Except Fault Memory :=
  if BootProgram.size ≤ cartridge.length then
    m.loadRom (cartridge.drop BootProgram.size) BootProgram.size
  else .ok m

/-- The memory with the sprite table filled from `src`.  All bytes are taken before the first one is
stored, so the two windows may overlap; a window past the end of the space is a fault. -/
def copySprites (m : Memory) (src : Nat) : Except Fault Memory :=
  if src + spriteTableSize ≤ ByteSpace.size then
    .ok { m with ram := m.ram.load spriteTable (m.ram.window src spriteTableSize) }
  else .error (.outOfBounds .memory (min (src + spriteTableSize - 1) lastAddress) ByteSpace.size)

/-! ### Memory as a bus -/

/-- An access of the bus that reads a memory. -/
def reading (access : Memory → Except Fault UInt8) : EStateM Fault Memory UInt8 :=
  fun m => match access m with
    | .ok v => .ok v m
    | .error e => .error e m

/-- An access of the bus that changes a memory, unless it fails. -/
def changing (access : Memory → Except Fault Memory) : EStateM Fault Memory Unit :=
  fun m => match access m with
    | .ok m' => .ok () m'
    | .error e => .error e m

instance : Bus Memory where
  read8 a := reading (·.read a.toNat)
  write8 a v := changing (·.write a.toNat v)
  fetch8 a := reading (·.readRom a.toNat)
  extent m := m.extent

end Memory

end Lr35902
