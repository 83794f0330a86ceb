import Lr35902.Proofs.Evaluation

/-!
# Access to registers by name

Access by name is checked, but instructions name registers of the right width only.  On these it is
a function: `RegisterFile.byte` and `RegisterFile.withByte` for byte registers and
`RegisterFile.word` and `RegisterFile.withWord` for words.
-/

namespace Lr35902

namespace Register

/-- The register holds a byte. -/
def IsByte (r : Register) : Prop := r.isWide = false ∧ r ≠ .hlIndirect

instance (r : Register) : Decidable r.IsByte := inferInstanceAs (Decidable (_ ∧ _))

theorem isWide_ofIndex (i : UInt8) : (ofIndex i).isWide = false := by
  unfold ofIndex
  split <;> rfl

theorem ofIndex_cases (i : UInt8) : ofIndex i = hlIndirect ∨ ofIndex i = b ∨ ofIndex i = c ∨
    ofIndex i = d ∨ ofIndex i = e ∨ ofIndex i = h ∨ ofIndex i = l ∨ ofIndex i = a := by
  unfold ofIndex
  split <;> decide

theorem isByte_ofIndex {i : UInt8} (h : ofIndex i ≠ .hlIndirect) : (ofIndex i).IsByte :=
  ⟨isWide_ofIndex i, h⟩

end Register

namespace RegisterFile

variable (g : RegisterFile)

/-- The byte register `r`. -/
def byte (r : Register) : UInt8 := (g.read8 r).toOption.getD 0

/-- The registers with `v` in the byte register `r`. -/
def withByte (r : Register) (v : UInt8) : RegisterFile := (g.write8 r v).toOption.getD g

/-- The word register `r`. -/
def word (r : Register) : UInt16 := (g.read16 r).toOption.getD 0

/-- The registers with `w` in the word register `r`. -/
def withWord (r : Register) (w : UInt16) : RegisterFile := (g.write16 r w).toOption.getD g

variable {g} {r : Register}

theorem read8_eq (h : r.IsByte) : g.read8 r = .ok (g.byte r) := by
  revert h
  cases r <;> first | exact fun _ => rfl | exact fun h => absurd h (by decide)

theorem write8_eq (h : r.IsByte) (v : UInt8) : g.write8 r v = .ok (g.withByte r v) := by
  revert h
  cases r <;> first | exact fun _ => rfl | exact fun h => absurd h (by decide)

theorem read16_eq (h : r.isWide = true) : g.read16 r = .ok (g.word r) := by
  cases r <;> first | rfl | exact absurd h (by decide)

theorem write16_eq (h : r.isWide = true) (w : UInt16) : g.write16 r w = .ok (g.withWord r w) := by
  cases r <;> first | rfl | exact absurd h (by decide)

end RegisterFile

namespace Exec

variable {σ : Type} {r : Register}

theorem readRegister8_eq (h : r.IsByte) :
    (readRegister8 r : Exec σ UInt8) = do return (← regs).byte r := by
  funext s
  simp [readRegister8, RegisterFile.read8_eq h, ofAccess]

theorem writeRegister8_eq (h : r.IsByte) (v : UInt8) :
    (writeRegister8 r v : Exec σ Unit) = modifyRegs (·.withByte r v) := by
  funext s
  simp [writeRegister8, RegisterFile.write8_eq h, ofAccess]

theorem readRegister16_eq (h : r.isWide = true) :
    (readRegister16 r : Exec σ UInt16) = do return (← regs).word r := by
  funext s
  simp [readRegister16, RegisterFile.read16_eq h, ofAccess]

theorem writeRegister16_eq (h : r.isWide = true) (w : UInt16) :
    (writeRegister16 r w : Exec σ Unit) = modifyRegs (·.withWord r w) := by
  funext s
  simp [writeRegister16, RegisterFile.write16_eq h, ofAccess]

variable [Bus σ]

@[simp] theorem readOperand_hlIndirect :
    (readOperand .hlIndirect : Exec σ UInt8) = (do load (← regs).hl) := rfl

@[simp] theorem writeOperand_hlIndirect (v : UInt8) :
    (writeOperand .hlIndirect v : Exec σ Unit) = (do store (← regs).hl v) := rfl

theorem readOperand_eq (h : r.IsByte) :
    (readOperand r : Exec σ UInt8) = do return (← regs).byte r := by
  rw [readOperand, if_neg h.2, readRegister8_eq h]

theorem writeOperand_eq (h : r.IsByte) (v : UInt8) :
    (writeOperand r v : Exec σ Unit) = modifyRegs (·.withByte r v) := by
  rw [writeOperand, if_neg h.2, writeRegister8_eq h]

end Exec

end Lr35902
