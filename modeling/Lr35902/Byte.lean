/-!
# Bytes and words

The processor computes with bytes (`UInt8`) and words (`UInt16`), both of which wrap around.
This file relates the two and gives access to single bits.

* `Word.pack` joins two bytes into a word, high byte first, and `Word.high` and `Word.low` take
  it apart again: each direction undoes the other (`Word.high_pack`, `Word.low_pack`,
  `Word.pack_high_low`).
* `Word.signExtend` widens a byte read as a two's-complement number.
* `Byte.testBit` reads a bit and `Byte.withBit` replaces one.
-/

namespace Lr35902

namespace Word

/-- The word with the given high and low bytes. -/
def pack (hi lo : UInt8) : UInt16 := hi.toUInt16 * 256 + lo.toUInt16

/-- The high byte of a word. -/
def high (w : UInt16) : UInt8 := (w / 256).toUInt8

/-- The low byte of a word. -/
def low (w : UInt16) : UInt8 := w.toUInt8

/-- The word that a byte stands for when it is read as a number from -128 to 127. -/
def signExtend (e : UInt8) : UInt16 := if e < 0x80 then e.toUInt16 else e.toUInt16 + 0xFF00

theorem toNat_pack (hi lo : UInt8) : (pack hi lo).toNat = hi.toNat * 256 + lo.toNat := by
  have := hi.toNat_lt
  have := lo.toNat_lt
  simp only [pack, UInt16.toNat_add, UInt16.toNat_mul, UInt8.toNat_toUInt16, UInt16.reduceToNat]
  omega

theorem toNat_high (w : UInt16) : (high w).toNat = w.toNat / 256 := by
  have := w.toNat_lt
  simp only [high, UInt16.toNat_toUInt8, UInt16.toNat_div, UInt16.reduceToNat]
  omega

theorem toNat_low (w : UInt16) : (low w).toNat = w.toNat % 256 :=
  UInt16.toNat_toUInt8 w

@[simp] theorem high_pack (hi lo : UInt8) : high (pack hi lo) = hi := by
  have := lo.toNat_lt
  rw [← UInt8.toNat_inj, toNat_high, toNat_pack]
  omega

@[simp] theorem low_pack (hi lo : UInt8) : low (pack hi lo) = lo := by
  have := lo.toNat_lt
  rw [← UInt8.toNat_inj, toNat_low, toNat_pack]
  omega

@[simp] theorem pack_high_low (w : UInt16) : pack (high w) (low w) = w := by
  rw [← UInt16.toNat_inj, toNat_pack, toNat_high, toNat_low]
  omega

/-- Sign extension keeps the low byte and fills the high byte with the sign. -/
theorem toNat_signExtend (e : UInt8) :
    (signExtend e).toNat = if e.toNat < 128 then e.toNat else e.toNat + 65280 := by
  have := e.toNat_lt
  simp only [signExtend, UInt8.lt_iff_toNat_lt, UInt8.reduceToNat]
  split
  · simp
  · simp only [UInt16.toNat_add, UInt8.toNat_toUInt16, UInt16.reduceToNat]
    omega

end Word

namespace Byte

/-- The byte that holds a truth value in its lowest bit. -/
def ofBool (b : Bool) : UInt8 := if b then 1 else 0

/-- The byte that represents a signed number in two's complement. -/
def ofSigned (i : Int8) : UInt8 := i.toUInt8

/-- Bit `i` of `v`, where bit 0 is the lowest; `i` is below 8. -/
def testBit (v i : UInt8) : Bool := (v >>> i) &&& 1 != 0

/-- The byte `v` with bit `i` set or cleared; `i` is below 8. -/
def withBit (v i : UInt8) (on : Bool) : UInt8 :=
  if on then v ||| 1 <<< i else v &&& ~~~(1 <<< i)

/-- The byte with its two halves of four bits exchanged. -/
def swapNibbles (v : UInt8) : UInt8 := v <<< 4 ||| v >>> 4

end Byte

end Lr35902
