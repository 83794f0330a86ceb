import Lr35902.Byte

/-!
# The condition flags

The flags byte `F` has four conditions in its upper half; its lower half does not exist and always
reads as zero.  `Flags.toByte` writes the conditions as a byte and `Flags.ofByte` reads them back,
dropping the lower half: `Flags.ofByte_toByte`, `Flags.toByte_ofByte`.
-/

namespace Lr35902

/-- The four conditions that an instruction can leave behind. -/
@[ext] structure Flags where
  /-- The result was zero. -/
  zero : Bool := false
  /-- The last arithmetic instruction subtracted. -/
  subtract : Bool := false
  /-- There was a carry or borrow between the two halves of the result. -/
  halfCarry : Bool := false
  /-- There was a carry or borrow out of the result, or a bit was shifted out. -/
  carry : Bool := false
deriving DecidableEq, Inhabited

namespace Flags

/-- The flags byte: zero is bit 7, subtract bit 6, half-carry bit 5 and carry bit 4. -/
def toByte (f : Flags) : UInt8 :=
  (if f.zero then 0x80 else 0) ||| (if f.subtract then 0x40 else 0) |||
    (if f.halfCarry then 0x20 else 0) ||| (if f.carry then 0x10 else 0)

/-- The flags in a byte, whose lower half is dropped. -/
def ofByte (b : UInt8) : Flags where
  zero := Byte.testBit b 7
  subtract := Byte.testBit b 6
  halfCarry := Byte.testBit b 5
  carry := Byte.testBit b 4

@[simp] theorem ofByte_toByte (f : Flags) : ofByte f.toByte = f := by
  obtain ⟨z, n, h, c⟩ := f
  revert z n h c
  decide

theorem toByte_ofByte (b : UInt8) : (ofByte b).toByte = b &&& 0xF0 := by
  obtain ⟨v⟩ := b
  revert v
  decide +kernel

/-- Different flags have different bytes. -/
theorem toByte_inj {f g : Flags} : f.toByte = g.toByte ↔ f = g :=
  ⟨fun h => by rw [← ofByte_toByte f, h, ofByte_toByte], fun h => h ▸ rfl⟩

end Flags

end Lr35902
