import Lr35902.Instruction.Decode
import Lr35902.Proofs.Registers

/-!
# What the decoders give

The instructions that the primary table gives name registers of the right width
(`Instruction.wellFormed_of_decode`), and the table has an entry for all bytes but
`Instruction.undefinedOpcodes` and the one that announces the extended table
(`Instruction.decode_eq_none_iff`).
-/

namespace Lr35902

/-- The register is a byte operand. -/
def Register.IsOperand (r : Register) : Prop := r = .hlIndirect ∨ r.IsByte

/-- Byte operands and words are used as such, and no instruction copies the byte at HL to itself. -/
def Instruction.WellFormed : Instruction → Prop
  | .load dst src => dst.IsOperand ∧ src.IsOperand ∧ (dst = .hlIndirect → src ≠ .hlIndirect)
  | .loadImmediate r | .alu _ r | .inc r | .dec r => r.IsOperand
  | .loadWord r | .push r | .pop r | .incWord r | .decWord r | .addHl r => r.isWide = true
  | _ => True

instance (r : Register) : Decidable r.IsOperand := inferInstanceAs (Decidable (_ ∨ _))

instance (i : Instruction) : Decidable i.WellFormed := by
  unfold Instruction.WellFormed
  cases i <;> infer_instance

theorem Register.isOperand_ofIndex (i : UInt8) : (Register.ofIndex i).IsOperand := by
  by_cases h : Register.ofIndex i = .hlIndirect
  · exact .inl h
  · exact .inr (Register.isByte_ofIndex h)

theorem Instruction.wellFormed_of_decode {b : UInt8} {i : Instruction}
    (h : Instruction.decode b = some i) : i.WellFormed := by
  have hall : ∀ v : BitVec 8, ∀ i ∈ Instruction.decode ⟨v⟩, i.WellFormed := by decide +kernel
  exact hall b.toBitVec i h

/-- The bytes that are no opcode. -/
def Instruction.undefinedOpcodes : List UInt8 :=
  [0xD3, 0xDB, 0xDD, 0xE3, 0xE4, 0xEB, 0xEC, 0xED, 0xF4, 0xFC, 0xFD]

theorem Instruction.decode_eq_none_iff {b : UInt8} :
    Instruction.decode b = none ↔ b ∈ undefinedOpcodes ∨ b = extensionByte := by
  have hall : ∀ v : BitVec 8, Instruction.decode ⟨v⟩ = none ↔
      (⟨v⟩ : UInt8) ∈ undefinedOpcodes ∨ (⟨v⟩ : UInt8) = extensionByte := by decide +kernel
  exact hall b.toBitVec

theorem Instruction.decode_eq_stop_iff {b : UInt8} :
    Instruction.decode b = some .stop ↔ b = 0x10 := by
  have hall : ∀ v : BitVec 8, Instruction.decode ⟨v⟩ = some .stop ↔ (⟨v⟩ : UInt8) = 0x10 := by
    decide +kernel
  exact hall b.toBitVec

end Lr35902
