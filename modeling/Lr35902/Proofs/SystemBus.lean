import Lr35902.Proofs.Evaluation
import Lr35902.Proofs.Memory
import Lr35902.SystemBus

/-!
# Accesses to the system bus

Loads and fetches leave the system bus alone.  Stores succeed because the bus keeps no more than a
page of the cartridge (`SystemBus.WellFormed`), which fits where the boot program was, and because a
copy into the sprite table starts at a page.  So the system bus is reliable (`SystemBus.reliable`).
-/

namespace Lr35902

namespace SystemBus

/-- The part of the cartridge that the boot program hides fits in its place. -/
def WellFormed (b : SystemBus) : Prop := b.cartridgeHead.length ≤ BootProgram.size

/-- The byte that a load sees. -/
def view (b : SystemBus) (addr : UInt16) : UInt8 :=
  if addr < imageEnd then b.memory.rom.get addr else b.memory.ram.get addr

/-- The bus with byte `v` in memory at `addr`, whatever register is there. -/
def poke (b : SystemBus) (addr : UInt16) (v : UInt8) : SystemBus :=
  { b with memory := { b.memory with ram := b.memory.ram.set addr v } }

/-- The bus with the sprite table filled from page `v`. -/
def withSprites (b : SystemBus) (v : UInt8) : SystemBus :=
  { b with memory := { b.memory with
      ram := b.memory.ram.load Memory.spriteTable
        (b.memory.ram.window (v.toNat <<< 8) Memory.spriteTableSize) } }

/-- The bus with the cartridge's first page where the boot program was, if it was. -/
def withoutBoot (b : SystemBus) : SystemBus :=
  if b.bootMapped then
    { b with
      memory := { b.memory with
        rom := b.memory.rom.load 0 b.cartridgeHead
        extent := max b.memory.extent b.cartridgeHead.length }
      bootMapped := false }
  else b

/-- The bus after byte `v` is stored at `addr`. -/
def stored (b : SystemBus) (addr : UInt16) (v : UInt8) : SystemBus :=
  if addr = spriteCopyAddr then (b.poke addr v).withSprites v
  else if addr = bootOffAddr ∧ v ≠ 0 then (b.poke addr v).withoutBoot
  else b.poke addr v

section

variable (b : SystemBus) (addr : UInt16) (v : UInt8)

theorem read8_eq : Bus.read8 addr b = .ok (b.view addr) b := by
  change onMemory (Memory.reading _) b = _
  unfold onMemory Memory.reading view
  by_cases h : addr < imageEnd
  · simp only [if_pos h, Memory.readRom_word]
  · simp only [if_neg h, Memory.read_word]

theorem fetch8_eq : Bus.fetch8 addr b = .ok (b.memory.rom.get addr) b := by
  change onMemory (Memory.reading _) b = _
  unfold onMemory Memory.reading
  simp only [Memory.readRom_word]

theorem fetched_eq : Bus.fetched addr b = (b.memory.rom.get addr, b) := by
  rw [Bus.fetched, fetch8_eq]
  rfl

/-- Outside of the image a load sees the memory. -/
theorem view_of_le {addr : UInt16} (h : imageEnd ≤ addr) : b.view addr = b.memory.ram.get addr := by
  rw [view, if_neg (UInt16.not_lt.2 h)]

theorem copySprites_page (m : Memory) :
    m.copySprites (v.toNat <<< 8) = .ok { m with
      ram := m.ram.load Memory.spriteTable
        (m.ram.window (v.toNat <<< 8) Memory.spriteTableSize) } := by
  have hv := v.toNat_lt
  have hfits : v.toNat <<< 8 + Memory.spriteTableSize ≤ ByteSpace.size := by
    rw [Nat.shiftLeft_eq, Memory.spriteTableSize, ByteSpace.size]
    omega
  rw [Memory.copySprites, if_pos hfits]

variable {b}

theorem loadRom_cartridgeHead (h : b.WellFormed) :
    b.memory.loadRom b.cartridgeHead 0 = .ok { b.memory with
      rom := b.memory.rom.load 0 b.cartridgeHead
      extent := max b.memory.extent b.cartridgeHead.length } := by
  have hfits : 0 + b.cartridgeHead.length ≤ ByteSpace.size := by
    simp only [WellFormed, BootProgram.size, ByteSpace.size] at h ⊢
    omega
  rw [Memory.loadRom, if_pos hfits, Nat.zero_add]

theorem unmapBoot_eq (h : b.WellFormed) : unmapBoot b = .ok () b.withoutBoot := by
  unfold unmapBoot withoutBoot
  rw [bind_apply, get_apply]
  by_cases hmapped : b.bootMapped
  · simp only [if_pos hmapped, bind_apply, onMemory, Memory.changing, loadRom_cartridgeHead h,
      modify_apply]
  · simp only [if_neg hmapped, pure_apply]

/-- Whatever register is at its address, a store begins in memory. -/
theorem onMemory_write (b : SystemBus) (addr : UInt16) (v : UInt8) :
    onMemory (Memory.changing (·.write addr.toNat v)) b = .ok () (b.poke addr v) := by
  simp only [onMemory, Memory.changing, Memory.write_word, poke]

theorem write8_eq (h : b.WellFormed) : Bus.write8 addr v b = .ok () (b.stored addr v) := by
  change write addr v b = _
  rw [write, bind_apply, onMemory_write]
  unfold stored
  by_cases hcopy : addr = spriteCopyAddr
  · simp only [if_pos hcopy, onMemory, Memory.changing, copySprites_page, withSprites]
  · by_cases hboot : addr = bootOffAddr ∧ v ≠ 0
    · simp only [if_neg hcopy, if_pos hboot]
      exact unmapBoot_eq h
    · simp only [if_neg hcopy, if_neg hboot, pure_apply]

/-- A store that no register reacts to succeeds on every bus and changes one byte of memory. -/
theorem write8_eq_poke (b : SystemBus) {addr : UInt16} {v : UInt8} (hcopy : addr ≠ spriteCopyAddr)
    (hboot : addr = bootOffAddr → b.bootMapped = true → v = 0) :
    Bus.write8 addr v b = .ok () (b.poke addr v) := by
  change write addr v b = _
  rw [write, bind_apply, onMemory_write]
  by_cases hregister : addr = bootOffAddr ∧ v ≠ 0
  · have hmapped : ¬ (b.poke addr v).bootMapped := fun h => hregister.2 (hboot hregister.1 h)
    simp only [if_neg hcopy, if_pos hregister, unmapBoot, bind_apply, get_apply, if_neg hmapped,
      pure_apply]
  · simp only [if_neg hcopy, if_neg hregister, pure_apply]

/-- A store to an address without a register changes one byte of memory. -/
theorem stored_eq_poke (b : SystemBus) {addr : UInt16} (v : UInt8) (hcopy : addr ≠ spriteCopyAddr)
    (hboot : addr ≠ bootOffAddr ∨ v = 0) : b.stored addr v = b.poke addr v := by
  unfold stored
  rw [if_neg hcopy, if_neg]
  rintro ⟨haddr, hv⟩
  exact hboot.elim (absurd haddr) hv

end

/-! ### The invariant -/

theorem cartridgeHead_withSprites (b : SystemBus) (v : UInt8) :
    (b.withSprites v).cartridgeHead = b.cartridgeHead := by
  simp only [withSprites]

theorem cartridgeHead_withoutBoot (b : SystemBus) :
    b.withoutBoot.cartridgeHead = b.cartridgeHead := by
  unfold withoutBoot
  split <;> rfl

theorem cartridgeHead_stored (b : SystemBus) (addr : UInt16) (v : UInt8) :
    (b.stored addr v).cartridgeHead = b.cartridgeHead := by
  unfold stored
  split
  · exact cartridgeHead_withSprites _ v
  · split
    · exact cartridgeHead_withoutBoot _
    · rfl

theorem WellFormed.stored {b : SystemBus} (h : b.WellFormed) (addr : UInt16) (v : UInt8) :
    (b.stored addr v).WellFormed := by
  rw [WellFormed, cartridgeHead_stored]
  exact h

/-- No access to a well-formed system bus fails, and all keep it so. -/
theorem reliable : Bus.Reliable WellFormed where
  read8 addr b h := ⟨_, _, b.read8_eq addr, h⟩
  write8 addr v _ h := ⟨_, write8_eq addr v h, h.stored addr v⟩
  fetch8 addr b h := ⟨_, _, b.fetch8_eq addr, h⟩

theorem wellFormed_ofCartridge (m : Memory) (cartridge : List UInt8) (mapped : Bool) :
    (ofCartridge m cartridge mapped).WellFormed := by
  rw [WellFormed, ofCartridge, List.length_take]
  exact Nat.min_le_left _ _

end SystemBus

end Lr35902
