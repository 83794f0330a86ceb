import Lr35902.Proofs.Bus.Recorder

/-!
# Copying sprites

A store to the register that copies sprites takes a page of memory, as it is with the register
already written, and changes the sprite table and the register only (`SystemBus.sprite_copy`).  The
page may be the one that holds the register, or the one that the sprite table lies in.

From 0x8000 on, memory is what loads see, so there the sprite table gets what the processor would
have loaded.  Below, loads see the instruction image, and the copy does not take that
(`SystemBus.sprite_copy_ne_load`).
-/

namespace Lr35902

namespace SystemBus

/-- Address `i` of the sprite table. -/
def spriteAddr (i : Nat) : UInt16 := (Memory.spriteTable + i).toUInt16

/-- Address `i` of page `v`. -/
def pageAddr (v : UInt8) (i : Nat) : UInt16 := (v.toNat <<< 8 + i).toUInt16

section

variable {v : UInt8} {i : Nat} {a : UInt16}

theorem toNat_spriteAddr (hi : i < Memory.spriteTableSize) :
    (spriteAddr i).toNat = Memory.spriteTable + i := by
  simp only [Memory.spriteTableSize] at hi
  simp only [spriteAddr, Memory.spriteTable, Nat.toUInt16_eq, UInt16.toNat_ofNat']
  omega

theorem toNat_pageAddr (v : UInt8) (hi : i < Memory.spriteTableSize) :
    (pageAddr v i).toNat = 256 * v.toNat + i := by
  have hv := v.toNat_lt
  simp only [Memory.spriteTableSize] at hi
  simp only [pageAddr, Nat.shiftLeft_eq, Nat.toUInt16_eq, UInt16.toNat_ofNat']
  omega

theorem inSpriteTable_spriteAddr (hi : i < Memory.spriteTableSize) :
    InSpriteTable (spriteAddr i) := by
  rw [InSpriteTable, toNat_spriteAddr hi]
  omega

theorem InSpriteTable.imageEnd_le (h : InSpriteTable a) : imageEnd ≤ a := by
  have hstart : 0xFE00 ≤ a.toNat := h.1
  simp only [UInt16.le_iff_toNat_le, imageEnd, UInt16.reduceToNat]
  omega

/-- Below page 0x80, loads see the instruction image. -/
theorem pageAddr_lt_imageEnd (hv : v < 0x80) (hi : i < Memory.spriteTableSize) :
    pageAddr v i < imageEnd := by
  simp only [UInt8.lt_iff_toNat_lt, UInt8.reduceToNat] at hv
  simp only [Memory.spriteTableSize] at hi
  simp only [UInt16.lt_iff_toNat_lt, imageEnd, UInt16.reduceToNat, toNat_pageAddr v hi]
  omega

/-- From page 0x80 on, loads see the memory. -/
theorem imageEnd_le_pageAddr (hv : 0x80 ≤ v) (hi : i < Memory.spriteTableSize) :
    imageEnd ≤ pageAddr v i := by
  simp only [UInt8.le_iff_toNat_le, UInt8.reduceToNat] at hv
  simp only [UInt16.le_iff_toNat_le, imageEnd, UInt16.reduceToNat, toNat_pageAddr v hi]
  omega

end

/-! ### The copy -/

/-- What accesses give on `before`, the bus with the register written, and on `after`, the bus with
the sprites copied as well. -/
structure SpritesCopied (v : UInt8) (before after : SystemBus) : Prop where
  /-- The sprite table holds the page as it was in memory. -/
  sprites : ∀ i < Memory.spriteTableSize, Bus.read8 (spriteAddr i) after =
    .ok (before.memory.ram.get (pageAddr v i)) after
  /-- From page 0x80 on, that is what loads from the page gave. -/
  loads : 0x80 ≤ v → ∀ i < Memory.spriteTableSize, ∃ w,
    Bus.read8 (pageAddr v i) before = .ok w before ∧ Bus.read8 (spriteAddr i) after = .ok w after
  /-- Below, loads from the page gave the instruction image, which the copy does not take. -/
  image : v < 0x80 → ∀ i < Memory.spriteTableSize,
    Bus.read8 (pageAddr v i) before = .ok (before.memory.rom.get (pageAddr v i)) before
  register : Bus.read8 spriteCopyAddr after = .ok v after

/-- Outside of the sprite table and of the register, accesses give the same on both buses. -/
structure SameOutside (b after : SystemBus) : Prop where
  read8 : ∀ a, ¬ InSpriteTable a → a ≠ spriteCopyAddr → ∃ w,
    Bus.read8 a b = .ok w b ∧ Bus.read8 a after = .ok w after
  fetch8 : ∀ a, ∃ w, Bus.fetch8 a b = .ok w b ∧ Bus.fetch8 a after = .ok w after
  extent : Bus.extent after = Bus.extent b
  bootMapped : after.bootMapped = b.bootMapped

theorem write8_spriteCopy (b : SystemBus) (v : UInt8) :
    Bus.write8 spriteCopyAddr v b = .ok () ((b.poke spriteCopyAddr v).withSprites v) := by
  change write spriteCopyAddr v b = _
  rw [write, bind_apply, onMemory_write]
  simp only [if_true, onMemory, Memory.changing, copySprites_page, withSprites]

section

variable (b : SystemBus) {v : UInt8} {i : Nat} {a : UInt16}

/-- Outside of the sprite table a load sees what it saw before a copy. -/
theorem view_withSprites (ha : ¬ InSpriteTable a) : (b.withSprites v).view a = b.view a := by
  rw [view, view, get_withSprites, if_neg ha, withSprites]

theorem view_poke_of_ne {addr : UInt16} (v : UInt8) (hne : addr ≠ a) :
    (b.poke addr v).view a = b.view a := by
  rw [view, view, poke, ByteSpace.get_set_ne _ v hne]

/-- In the sprite table a load sees the byte of the page that was in memory before the copy. -/
theorem view_withSprites_spriteAddr (hi : i < Memory.spriteTableSize) :
    (b.withSprites v).view (spriteAddr i) = b.memory.ram.get (pageAddr v i) := by
  have hin := inSpriteTable_spriteAddr hi
  rw [view_of_le _ hin.imageEnd_le, get_withSprites, if_pos hin, toNat_spriteAddr hi,
    Nat.add_sub_cancel_left, pageAddr]

end

/-- A store to the register that copies sprites succeeds on every bus.  It fills the sprite table
from memory and changes nothing besides, apart from the register. -/
theorem sprite_copy (b : SystemBus) (v : UInt8) : ∃ after,
    Bus.write8 spriteCopyAddr v b = .ok () after ∧
      SpritesCopied v (b.poke spriteCopyAddr v) after ∧ SameOutside b after := by
  have hregister : ¬ InSpriteTable spriteCopyAddr := by decide
  refine ⟨_, write8_spriteCopy b v, ?_, ?_⟩
  · constructor
    case sprites =>
      intro i hi
      rw [read8_eq, view_withSprites_spriteAddr _ hi]
    case loads =>
      intro hv i hi
      refine ⟨_, read8_eq _ _, ?_⟩
      rw [read8_eq, view_withSprites_spriteAddr _ hi, view_of_le _ (imageEnd_le_pageAddr hv hi)]
    case image =>
      intro hv i hi
      rw [read8_eq, view, if_pos (pageAddr_lt_imageEnd hv hi)]
    case register =>
      rw [read8_eq, view_withSprites _ hregister, view_of_le _ (by decide), poke,
        ByteSpace.get_set_self]
  · constructor
    case read8 =>
      intro a ha hne
      refine ⟨_, read8_eq _ _, ?_⟩
      rw [read8_eq, view_withSprites _ ha, view_poke_of_ne _ _ hne.symm]
    case fetch8 =>
      refine fun a => ⟨_, fetch8_eq _ _, ?_⟩
      rw [fetch8_eq, withSprites, poke]
    case extent =>
      change (withSprites _ v).memory.extent = b.memory.extent
      rw [withSprites, poke]
    case bootMapped => rw [withSprites, poke]

/-- With the boot program in place, a load from 0x0000 gives its first byte, but a copy of page 0
puts the zero that is in memory there at the start of the sprite table. -/
theorem sprite_copy_ne_load :
    let b := ofCartridge .withBootProgram [] true
    let before := b.poke spriteCopyAddr 0
    Bus.read8 (pageAddr 0 0) before = .ok 0x31 before ∧
      ∃ after, Bus.write8 spriteCopyAddr 0 b = .ok () after ∧
        Bus.read8 (spriteAddr 0) after = .ok 0 after := by
  refine ⟨?_, _, write8_spriteCopy _ _, ?_⟩
  · rw [read8_eq, view, if_pos (by decide), poke, ofCartridge, Memory.get_withBootProgram]
    rfl
  · rw [read8_eq, view_withSprites_spriteAddr _ (by decide), poke,
      ByteSpace.get_set_ne _ _ (by decide), ofCartridge, Memory.withBootProgram,
      ByteSpace.get_filled]

end SystemBus

end Lr35902
