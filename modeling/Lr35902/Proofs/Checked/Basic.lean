import Lr35902.Proofs.Decode
import Mathlib.Algebra.Group.Nat.Defs

/-!
# Checked actions

The parts of the processor rely on each other: a routine gets only the opcodes that it is made for,
a byte register is never accessed as a word, a bit of a byte has a number below 8, and sums that are
not meant to wrap around fit in their width.  These contracts hold without being tested when the
processor runs.  A `Checked` action is an action that does test them and ends with a `Violation`
where one is broken.

`Checked.Upholds` says of a checked action that it breaks no contract from a given board and does
what the action without the tests does; a sequence upholds its contracts if its parts do
(`Checked.Upholds.bind`).
-/

namespace Lr35902

/-- How a contract is broken. -/
inductive Violation where
  /-- A register was accessed with the wrong width. -/
  | access (error : AccessError)
  /-- A routine got an opcode that it is not made for. -/
  | opcode (opcode : UInt8)
  /-- There is no case for the value of a field. -/
  | noCase (field : UInt8)
  /-- A byte has no bit with that number. -/
  | bitNumber (i : UInt8)
  /-- A carry is neither zero nor one. -/
  | carryIn (c : UInt8)
  /-- A number does not fit in `width` bits. -/
  | overflow (width n : Nat)
deriving DecidableEq

/-! ### Tests -/

namespace Check

variable {α : Type} {p : Prop} [Decidable p] {v : Violation} {width n : Nat}

/-- Passes if `p` holds. -/
def require (p : Prop) [Decidable p] (v : Violation) : Except Violation Unit :=
  if p then .ok () else .error v

/-- The value `a` of a computation whose exact result `n` has to fit in `width` bits. -/
def fit (width n : Nat) (a : α) : Except Violation α :=
  if n < 2 ^ width then .ok a else .error (.overflow width n)

/-- What stands beside the value of a field in a table of its cases. -/
def select (field : UInt8) (cases : List (UInt8 × α)) : Except Violation α :=
  match cases.lookup field with
  | some a => .ok a
  | none => .error (.noCase field)

/-- The result of an access to a register. -/
def ofAccess : Except AccessError α → Except Violation α
  | .ok a => .ok a
  | .error e => .error (.access e)

theorem require_eq (h : p) : require p v = .ok () := if_pos h

theorem fit_eq (h : n < 2 ^ width) (a : α) : fit width n a = .ok a := if_pos h

end Check

/-! ### Actions -/

/-- An action of the processor that tests its contracts. -/
abbrev Checked (σ : Type) : Type → Type := ExceptT Violation (Exec σ)

namespace Checked

variable {σ α β : Type} {s : Board σ}

/-- An action in which there is nothing to test. -/
def act (y : Exec σ α) : Checked σ α := ExceptT.lift y

/-- A test, which changes nothing. -/
def test (x : Except Violation α) : Checked σ α := ExceptT.mk (pure x)

/-- From the board `s` the checked action `x` breaks no contract, and does what `y` does. -/
def Upholds (s : Board σ) (x : Checked σ α) (y : Exec σ α) : Prop :=
  x.run s = match y s with
    | .ok v t => .ok (.ok v) t
    | .error e t => .error e t

namespace Upholds

theorem pure (v : α) : Upholds s (Pure.pure v) (Pure.pure v) := rfl

theorem act (y : Exec σ α) : Upholds s (Checked.act y) y := by
  change (Except.ok <$> y) s = _
  rw [map_apply]
  cases y s <;> rfl

theorem bind {x : Checked σ α} {y : Exec σ α} {f : α → Checked σ β} {g : α → Exec σ β}
    (hx : Upholds s x y) (hf : ∀ v t, y s = .ok v t → Upholds t (f v) (g v)) :
    Upholds s (x >>= f) (y >>= g) := by
  change (x.run >>= ExceptT.bindCont f) s = _
  unfold Upholds at hx
  rw [bind_apply, bind_apply, hx]
  cases h : y s with
  | ok v t => exact hf v t h
  | error e t => rfl

/-- A test that passes changes nothing. -/
theorem test {x : Except Violation α} {v : α} {f : α → Checked σ β} {y : Exec σ β}
    (hx : x = .ok v) (hf : Upholds s (f v) y) : Upholds s (Checked.test x >>= f) y := by
  rw [hx]
  exact hf

/-- What an action ends with that upholds its contracts is no violation. -/
theorem ne_violation {x : Checked σ α} {y : Exec σ α} (h : Upholds s x y) (v : Violation)
    (t : Board σ) : x.run s ≠ .ok (.error v) t := by
  rw [h]
  cases y s <;> simp

end Upholds

/-! ### Registers and operands -/

/-- Changes the registers, with tests. -/
def updateRegs (f : RegisterFile → Except Violation RegisterFile) : Checked σ Unit := do
  let g ← act Exec.regs
  let g ← test (f g)
  act (Exec.modifyRegs fun _ => g)

/-- Reads the byte register `r`. -/
def readRegister8 (r : Register) : Checked σ UInt8 := do
  let g ← act Exec.regs
  test (Check.ofAccess (g.read8 r))

/-- Writes the byte register `r`. -/
def writeRegister8 (r : Register) (v : UInt8) : Checked σ Unit := do
  let g ← act Exec.regs
  let g ← test (Check.ofAccess (g.write8 r v))
  act (Exec.modifyRegs fun _ => g)

/-- Reads the word register `r`. -/
def readRegister16 (r : Register) : Checked σ UInt16 := do
  let g ← act Exec.regs
  test (Check.ofAccess (g.read16 r))

/-- Writes the word register `r`. -/
def writeRegister16 (r : Register) (w : UInt16) : Checked σ Unit := do
  let g ← act Exec.regs
  let g ← test (Check.ofAccess (g.write16 r w))
  act (Exec.modifyRegs fun _ => g)

/-- Reads the byte operand `r`, a register or the byte at HL. -/
def readOperand [Bus σ] (r : Register) : Checked σ UInt8 :=
  if r = .hlIndirect then act (Exec.readOperand r) else readRegister8 r

/-- Writes the byte operand `r`, a register or the byte at HL. -/
def writeOperand [Bus σ] (r : Register) (v : UInt8) : Checked σ Unit :=
  if r = .hlIndirect then act (Exec.writeOperand r v) else writeRegister8 r v

variable {r : Register}

/-- A change of the registers upholds its contracts if its tests pass for all registers. -/
theorem upholds_updateRegs {f : RegisterFile → Except Violation RegisterFile}
    {g : RegisterFile → RegisterFile} (h : ∀ regs, f regs = .ok (g regs)) :
    Upholds s (updateRegs f) (Exec.modifyRegs g) := by
  change Upholds s _ (Exec.regs >>= fun regs => Exec.modifyRegs fun _ => g regs)
  exact (Upholds.act _).bind fun regs _ _ => .test (h regs) (.act _)

theorem upholds_readRegister8 (h : r.IsByte) :
    Upholds s (readRegister8 r) (Exec.readRegister8 r) := by
  refine (Upholds.act _).bind fun g t _ => ?_
  rw [RegisterFile.read8_eq h]
  rfl

theorem upholds_writeRegister8 (h : r.IsByte) (v : UInt8) :
    Upholds s (writeRegister8 r v) (Exec.writeRegister8 r v) := by
  refine (Upholds.act _).bind fun g t _ => ?_
  rw [RegisterFile.write8_eq h]
  rfl

theorem upholds_readRegister16 (h : r.isWide = true) :
    Upholds s (readRegister16 r) (Exec.readRegister16 r) := by
  refine (Upholds.act _).bind fun g t _ => ?_
  rw [RegisterFile.read16_eq h]
  rfl

theorem upholds_writeRegister16 (h : r.isWide = true) (w : UInt16) :
    Upholds s (writeRegister16 r w) (Exec.writeRegister16 r w) := by
  refine (Upholds.act _).bind fun g t _ => ?_
  rw [RegisterFile.write16_eq h]
  rfl

variable [Bus σ]

theorem upholds_readOperand (h : r.IsOperand) :
    Upholds s (readOperand r) (Exec.readOperand r) := by
  by_cases hl : r = .hlIndirect
  · rw [readOperand, if_pos hl]
    exact .act _
  · rw [readOperand, if_neg hl, Exec.readOperand, if_neg hl]
    exact upholds_readRegister8 (h.resolve_left hl)

theorem upholds_writeOperand (h : r.IsOperand) (v : UInt8) :
    Upholds s (writeOperand r v) (Exec.writeOperand r v) := by
  by_cases hl : r = .hlIndirect
  · rw [writeOperand, if_pos hl]
    exact .act _
  · rw [writeOperand, if_neg hl, Exec.writeOperand, if_neg hl]
    exact upholds_writeRegister8 (h.resolve_left hl) v

end Checked

end Lr35902
