import Lr35902.Flags
import Lr35902.Register

/-!
# The register file

`RegisterFile` stores seven byte registers, the flags and two words.  The pairs AF, BC, DE and HL
are views of two byte registers, high byte first, and have no storage of their own.

Access by name is checked: a byte access to a word register, or the other way round, is an
`AccessError`, and so is byte access to the operand in memory, which is no register.
-/

namespace Lr35902

/-- The registers of the processor. -/
@[ext] structure RegisterFile where
  a : UInt8 := 0
  f : Flags := {}
  b : UInt8 := 0
  c : UInt8 := 0
  d : UInt8 := 0
  e : UInt8 := 0
  h : UInt8 := 0
  l : UInt8 := 0
  /-- The stack pointer: the address of the word pushed last. -/
  sp : UInt16 := 0
  /-- The program counter: the address of the next instruction byte. -/
  pc : UInt16 := 0
deriving DecidableEq, Inhabited

/-- An access to a register that does not fit the register's width. -/
inductive AccessError where
  /-- A word register was read as a byte. -/
  | byteRead (r : Register)
  /-- A word register was written as a byte. -/
  | byteWrite (r : Register)
  /-- A byte register was read as a word. -/
  | wordRead (r : Register)
  /-- A byte register was written as a word. -/
  | wordWrite (r : Register)
  /-- The operand in memory was taken for a byte register. -/
  | indirect
deriving DecidableEq

/-- The text of the error. -/
def AccessError.message : AccessError → String
  | byteRead r => s!"8-bit read of 16-bit register {r.name}"
  | byteWrite r => s!"8-bit write of 16-bit register {r.name}"
  | wordRead r => s!"16-bit read of 8-bit register {r.name}"
  | wordWrite r => s!"16-bit write of 8-bit register {r.name}"
  | indirect => "(HL) must be resolved through memory, not the register file"

namespace RegisterFile

variable (g : RegisterFile)

/-! ### Pairs -/

/-- The accumulator and the flags byte. -/
def af : UInt16 := Word.pack g.a g.f.toByte

/-- The registers B and C. -/
def bc : UInt16 := Word.pack g.b g.c

/-- The registers D and E. -/
def de : UInt16 := Word.pack g.d g.e

/-- The registers H and L. -/
def hl : UInt16 := Word.pack g.h g.l

/-- Writes the pair AF; the lower half of the flags byte is dropped. -/
def setAf (w : UInt16) : RegisterFile := { g with a := Word.high w, f := Flags.ofByte (Word.low w) }

/-- Writes the pair BC. -/
def setBc (w : UInt16) : RegisterFile := { g with b := Word.high w, c := Word.low w }

/-- Writes the pair DE. -/
def setDe (w : UInt16) : RegisterFile := { g with d := Word.high w, e := Word.low w }

/-- Writes the pair HL. -/
def setHl (w : UInt16) : RegisterFile := { g with h := Word.high w, l := Word.low w }

@[simp] theorem bc_setBc (w : UInt16) : (g.setBc w).bc = w := Word.pack_high_low w

@[simp] theorem de_setDe (w : UInt16) : (g.setDe w).de = w := Word.pack_high_low w

@[simp] theorem hl_setHl (w : UInt16) : (g.setHl w).hl = w := Word.pack_high_low w

/-- Of a word written to AF all bits come back but the lowest four. -/
theorem af_setAf (w : UInt16) :
    (g.setAf w).af = Word.pack (Word.high w) (Word.low w &&& 0xF0) := by
  simp [af, setAf, Flags.toByte_ofByte]

/-! ### Access by name -/

/-- Reads a byte register. -/
def read8 (r : Register) : Except AccessError UInt8 :=
  match r with
  | .a => .ok g.a
  | .f => .ok g.f.toByte
  | .b => .ok g.b
  | .c => .ok g.c
  | .d => .ok g.d
  | .e => .ok g.e
  | .h => .ok g.h
  | .l => .ok g.l
  | .hlIndirect => .error .indirect
  | r => .error (.byteRead r)

/-- Writes a byte register; the lower half of the flags byte is dropped. -/
def write8 (r : Register) (v : UInt8) : Except AccessError RegisterFile :=
  match r with
  | .a => .ok { g with a := v }
  | .f => .ok { g with f := Flags.ofByte v }
  | .b => .ok { g with b := v }
  | .c => .ok { g with c := v }
  | .d => .ok { g with d := v }
  | .e => .ok { g with e := v }
  | .h => .ok { g with h := v }
  | .l => .ok { g with l := v }
  | .hlIndirect => .error .indirect
  | r => .error (.byteWrite r)

/-- Reads a word register. -/
def read16 (r : Register) : Except AccessError UInt16 :=
  match r with
  | .af => .ok g.af
  | .bc => .ok g.bc
  | .de => .ok g.de
  | .hl => .ok g.hl
  | .sp => .ok g.sp
  | .pc => .ok g.pc
  | r => .error (.wordRead r)

/-- Writes a word register, both halves at once. -/
def write16 (r : Register) (w : UInt16) : Except AccessError RegisterFile :=
  match r with
  | .af => .ok (g.setAf w)
  | .bc => .ok (g.setBc w)
  | .de => .ok (g.setDe w)
  | .hl => .ok (g.setHl w)
  | .sp => .ok { g with sp := w }
  | .pc => .ok { g with pc := w }
  | r => .error (.wordWrite r)

/-- A byte read succeeds on byte registers only. -/
theorem isOk_read8 (r : Register) : (g.read8 r).isOk = (!r.isWide && r != .hlIndirect) := by
  cases r <;> rfl

/-- A byte write succeeds on byte registers only. -/
theorem isOk_write8 (r : Register) (v : UInt8) :
    (g.write8 r v).isOk = (!r.isWide && r != .hlIndirect) := by
  cases r <;> rfl

/-- A word read succeeds on word registers only. -/
theorem isOk_read16 (r : Register) : (g.read16 r).isOk = r.isWide := by
  cases r <;> rfl

/-- A word write succeeds on word registers only. -/
theorem isOk_write16 (r : Register) (w : UInt16) : (g.write16 r w).isOk = r.isWide := by
  cases r <;> rfl

end RegisterFile

end Lr35902
