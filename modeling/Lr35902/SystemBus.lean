import Lr35902.Memory

/-!
# The system bus

The `SystemBus` puts two registers in front of a memory: a store to 0xFF46 copies a page into the
sprite table, and the first nonzero store to 0xFF50 removes the boot program and reveals the
cartridge's first page in the instruction image.  Loads below 0x8000 see the instruction image, so
that programs can read the cartridge's data; all other loads see the memory.
-/

namespace Lr35902

/-- A memory with the registers in front of it. -/
structure SystemBus where
  memory : Memory
  /-- The bytes of the cartridge that the boot program hides. -/
  cartridgeHead : List UInt8
  /-- The boot program is in place. -/
  bootMapped : Bool

namespace SystemBus

/-- The register that starts a copy into the sprite table. -/
def spriteCopyAddr : UInt16 := 0xFF46

/-- The register that removes the boot program. -/
def bootOffAddr : UInt16 := 0xFF50

/-- One past the last address at which loads see the instruction image. -/
def imageEnd : UInt16 := 0x8000

/-- The bus in front of `memory`, for a machine with the given cartridge. -/
def ofCartridge (memory : Memory) (cartridge : List UInt8) (bootMapped : Bool) : SystemBus where
  memory := memory
  cartridgeHead := cartridge.take BootProgram.size
  bootMapped := bootMapped

/-- Performs an access to the memory. -/
def onMemory {α : Type} (access : EStateM Fault Memory α) : EStateM Fault SystemBus α :=
  fun b => match access b.memory with
    | .ok v memory => .ok v { b with memory }
    | .error e memory => .error e { b with memory }

/-- Removes the boot program, if it is still in place. -/
def unmapBoot : EStateM Fault SystemBus Unit := do
  let b ← get
  if b.bootMapped then
    onMemory (Memory.changing (·.loadRom b.cartridgeHead 0))
    modify ({ · with bootMapped := false })

/-- Loads a byte. -/
def read (addr : UInt16) : EStateM Fault SystemBus UInt8 :=
  onMemory <| Memory.reading fun m =>
    if addr < imageEnd then m.readRom addr.toNat else m.read addr.toNat

/-- Stores a byte in memory and then does what the register at that address does, if there is
one. -/
def write (addr : UInt16) (v : UInt8) : EStateM Fault SystemBus Unit := do
  onMemory (Memory.changing (·.write addr.toNat v))
  if addr = spriteCopyAddr then
    onMemory (Memory.changing (·.copySprites (v.toNat <<< 8)))
  else if addr = bootOffAddr ∧ v ≠ 0 then
    unmapBoot

instance : Bus SystemBus where
  read8 := read
  write8 := write
  fetch8 addr := onMemory (Memory.reading (·.readRom addr.toNat))
  extent b := b.memory.extent

end SystemBus

end Lr35902
