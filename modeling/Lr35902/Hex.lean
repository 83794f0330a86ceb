/-!
# Hexadecimal numerals

Addresses and bytes are written in upper-case hexadecimal: `Hex.digits` without padding,
`Hex.byte` and `Hex.word` with leading zeros up to two and four digits.  A longer number keeps all
of its digits.
-/

namespace Lr35902

namespace Hex

/-- The upper-case hexadecimal digits of `n`, without leading zeros. -/
def digits (n : Nat) : List Char := (Nat.toDigits 16 n).map Char.toUpper

/-- The numeral of `n` with leading zeros up to `width` digits. -/
def padded (width n : Nat) : String :=
  String.ofList (List.replicate (width - (digits n).length) '0' ++ digits n)

/-- The numeral of `n` after `0x`, without leading zeros. -/
def literal (n : Nat) : String := "0x" ++ String.ofList (digits n)

/-- A byte as two digits. -/
def byte (v : UInt8) : String := padded 2 v.toNat

/-- A word as four digits. -/
def word (w : UInt16) : String := padded 4 w.toNat

end Hex

end Lr35902
