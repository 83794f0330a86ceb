import Lr35902.Proofs.Evaluation
import Lr35902.Proofs.Memory
import Mathlib.Algebra.Group.Nat.Defs
import Mathlib.Data.List.Basic

/-!
# Copying sprites within a memory

The sprite table is filled from a window of the same memory, and the two may overlap.  The copy
takes all bytes of the window as they are before it (`Memory.get_withSpritesFrom`), and it is all or
nothing: either the window lies within the memory, or nothing changes and the fault names the last
address of the window (`Memory.copySprites_spec`).
-/

namespace Lr35902

namespace Memory

variable (m : Memory) (src : Nat)

/-- The memory with the sprite table filled from `src`. -/
def withSpritesFrom : Memory :=
  { m with ram := m.ram.load spriteTable (m.ram.window src spriteTableSize) }

theorem get_withSpritesFrom {a : UInt16} : (m.withSpritesFrom src).ram.get a =
    if spriteTable ≤ a.toNat ∧ a.toNat < spriteTable + spriteTableSize then
      m.ram.get (src + (a.toNat - spriteTable)).toUInt16
    else m.ram.get a :=
  ByteSpace.get_load_window _ _ (by decide)

variable {m src}

theorem copySprites_of_fits (h : src + spriteTableSize ≤ ByteSpace.size) :
    changing (·.copySprites src) m = .ok () (m.withSpritesFrom src) := by
  rw [changing, copySprites, if_pos h]
  rfl

theorem copySprites_of_not_fits (h : ¬ src + spriteTableSize ≤ ByteSpace.size) :
    changing (·.copySprites src) m =
      .error (.outOfBounds .memory (min (src + 159) lastAddress) ByteSpace.size) m := by
  rw [changing, copySprites, if_neg h]
  rfl

/-- Each byte of the table is read as the byte of the window was, wherever the window lies. -/
theorem read_withSpritesFrom (h : src + spriteTableSize ≤ ByteSpace.size) {i : Nat}
    (hi : i < spriteTableSize) :
    (m.withSpritesFrom src).read (spriteTable + i) = m.read (src + i) := by
  have hsize : spriteTable + spriteTableSize ≤ ByteSpace.size := by decide
  have hdst : spriteTable + i < ByteSpace.size := by omega
  rw [read_of_lt _ hdst, get_withSpritesFrom, ByteSpace.toNat_toUInt16 hdst,
    if_pos ⟨Nat.le_add_right _ _, Nat.add_lt_add_left hi _⟩, Nat.add_sub_cancel_left,
    read_of_lt _ (by omega)]

theorem read_withSpritesFrom_of_outside {a : Nat}
    (ha : ¬ (spriteTable ≤ a ∧ a < spriteTable + spriteTableSize)) :
    (m.withSpritesFrom src).read a = m.read a := by
  by_cases hsize : a < ByteSpace.size
  · rw [read_of_lt _ hsize, read_of_lt _ hsize, get_withSpritesFrom,
      ByteSpace.toNat_toUInt16 hsize, if_neg ha]
  · rw [read, read, if_neg hsize, if_neg hsize]

/-- For every memory and every source, the copy succeeds exactly if the 160 bytes from the source
lie within the memory.  Then each byte of the table becomes the one that the source had there before
the copy, even where the two overlap, and every other byte, the image and its extent stay.  A copy
that fails changes nothing, and its fault names the last address of the source, or the largest one
that a request can name. -/
theorem copySprites_spec (m : Memory) (src : Nat) :
    ((∃ after, changing (·.copySprites src) m = .ok () after) ↔ src + 160 ≤ 0x10000) ∧
    (∀ after, changing (·.copySprites src) m = .ok () after →
      (∀ i < 160, ∃ v, m.read (src + i) = .ok v ∧ after.read (0xFE00 + i) = .ok v) ∧
      (∀ a, ¬ (0xFE00 ≤ a ∧ a < 0xFE00 + 160) → after.read a = m.read a) ∧
      after.rom = m.rom ∧ after.extent = m.extent) ∧
    ∀ e after, changing (·.copySprites src) m = .error e after →
      after = m ∧ e = .outOfBounds .memory (min (src + 159) (2 ^ 64 - 1)) 0x10000 := by
  by_cases h : src + spriteTableSize ≤ ByteSpace.size
  · rw [copySprites_of_fits h]
    refine ⟨iff_of_true ⟨_, rfl⟩ h, ?_, nofun⟩
    intro after hok
    obtain ⟨-, rfl⟩ := EStateM.Result.ok.inj hok
    refine ⟨fun i hi => ?_, fun a ha => read_withSpritesFrom_of_outside ha,
      by rw [withSpritesFrom], by rw [withSpritesFrom]⟩
    have hsource : src + i < ByteSpace.size := by
      unfold spriteTableSize at h
      omega
    have hread := read_of_lt m hsource
    exact ⟨_, hread, (read_withSpritesFrom h hi).trans hread⟩
  · rw [copySprites_of_not_fits h]
    refine ⟨iff_of_false nofun h, nofun, ?_⟩
    rintro e after ⟨⟩
    exact ⟨rfl, rfl⟩

/-- A memory in which the bytes around the sprite table are the lower halves of their addresses. -/
def numberedMemory : Memory :=
  { blank with ram := blank.ram.load 0xFD00 ((List.range 0x300).map Nat.toUInt8) }

/-- The theorem for sources that overlap the table from below and from above, and for the largest
source. -/
theorem copySprites_spec_overlapping :
    (∃ after, changing (·.copySprites 0xFDF0) numberedMemory = .ok () after ∧
      after.read 0xFE20 = .ok 0x10 ∧ after.read 0xFEA0 = .ok 0xA0) ∧
    (∃ after, changing (·.copySprites 0xFE10) numberedMemory = .ok () after ∧
      after.read 0xFE20 = .ok 0x30 ∧ after.read 0xFEA0 = .ok 0xA0) ∧
    ¬ ∃ after, changing (·.copySprites (2 ^ 64 - 1)) numberedMemory = .ok () after := by
  have hbehind : numberedMemory.read 0xFEA0 = .ok 0xA0 := by decide +kernel
  have hcopied {src : Nat} {w : UInt8} (hfits : src + 160 ≤ 0x10000)
      (hsource : numberedMemory.read (src + 0x20) = .ok w) :
      ∃ after, changing (·.copySprites src) numberedMemory = .ok () after ∧
        after.read 0xFE20 = .ok w ∧ after.read 0xFEA0 = .ok 0xA0 := by
    obtain ⟨hsucceeds, hcopies, -⟩ := copySprites_spec numberedMemory src
    obtain ⟨after, hok⟩ := hsucceeds.2 hfits
    obtain ⟨hbytes, hothers, -, -⟩ := hcopies after hok
    obtain ⟨v, hv, hread⟩ := hbytes 0x20 (by decide)
    rw [hsource.symm.trans hv]
    exact ⟨after, hok, hread, (hothers _ (by decide)).trans hbehind⟩
  exact ⟨hcopied (by decide) (by decide +kernel), hcopied (by decide) (by decide +kernel),
    mt (copySprites_spec numberedMemory _).1.1 (by decide)⟩

end Memory

end Lr35902
