/-!
# Register names

`Register` names every place that an instruction can ask for: eight byte registers, six words (of
which AF, BC, DE and HL are pairs of byte registers) and the byte in memory that HL points to.
Opcodes name registers by small fields, which `Register.ofIndex`, `Register.pairOrSp` and
`Register.pairOrAf` read.
-/

namespace Lr35902

/-- A place that an instruction reads or writes. -/
inductive Register where
  | a | b | c | d | e | f | h | l
  /-- The byte in memory whose address is in HL. -/
  | hlIndirect
  | af | bc | de | hl | sp | pc
deriving DecidableEq

namespace Register

/-- The register holds a word. -/
def isWide : Register → Bool
  | af | bc | de | hl | sp | pc => true
  | _ => false

/-- The byte operand that a three-bit field names; higher bits of `i` are ignored. -/
def ofIndex (i : UInt8) : Register :=
  match (i &&& 7).toNat with
  | 0 => b
  | 1 => c
  | 2 => d
  | 3 => e
  | 4 => h
  | 5 => l
  | 6 => hlIndirect
  | _ => a

/-- The word operand that a two-bit field names in loads and arithmetic, where 3 stands for SP. -/
def pairOrSp (i : UInt8) : Register :=
  match (i &&& 3).toNat with
  | 0 => bc
  | 1 => de
  | 2 => hl
  | _ => sp

/-- The word operand that a two-bit field names in stack instructions, where 3 stands for AF. -/
def pairOrAf (i : UInt8) : Register :=
  match (i &&& 3).toNat with
  | 0 => bc
  | 1 => de
  | 2 => hl
  | _ => af

/-- The register's name as it appears in messages. -/
def name : Register → String
  | a => "A"
  | b => "B"
  | c => "C"
  | d => "D"
  | e => "E"
  | f => "F"
  | h => "H"
  | l => "L"
  | hlIndirect => "HlIndirect"
  | af => "AF"
  | bc => "BC"
  | de => "DE"
  | hl => "HL"
  | sp => "SP"
  | pc => "PC"

theorem isWide_pairOrSp (i : UInt8) : (pairOrSp i).isWide = true := by
  unfold pairOrSp
  split <;> rfl

theorem isWide_pairOrAf (i : UInt8) : (pairOrAf i).isWide = true := by
  unfold pairOrAf
  split <;> rfl

end Register

end Lr35902
