import Lr35902.Cpu.Exec
import Lr35902.Proofs.Bus.Reliable
import Lr35902.Proofs.Reference.Arithmetic

/-!
# The reference interpreter

What every opcode of the primary table does, in the layout of the table and in integers.  An opcode
byte is read as the fields `x`, its upper two bits, `y`, the next three, and `z`, the lowest three;
`y` is split again into `p`, its upper two bits, and `q`, its lowest.  There are no decoded
instructions and no machine words in between: the fields select the row, operands are numbers of
registers, values are integers, and a register or a byte of memory keeps the remainder of what is
written to it.

The interpreter drives a bus on which all accesses succeed, and reads and changes the state of the
processor on its own.  The byte 0xCB, which announces another table, has no row here.
-/

namespace Lr35902

namespace Reference

open Byte (bit)

/-! ### Registers by number -/

/-- The byte register number `i`; the operand in memory, number 6, is none. -/
def register (g : RegisterFile) (i : ℕ) : ℤ :=
  match i with
  | 0 => g.b.toNat
  | 1 => g.c.toNat
  | 2 => g.d.toNat
  | 3 => g.e.toNat
  | 4 => g.h.toNat
  | 5 => g.l.toNat
  | _ => g.a.toNat

/-- Writes the byte register number `i`. -/
def setRegister (i : ℕ) (v : ℤ) (g : RegisterFile) : RegisterFile :=
  match i with
  | 0 => { g with b := UInt8.ofInt v }
  | 1 => { g with c := UInt8.ofInt v }
  | 2 => { g with d := UInt8.ofInt v }
  | 3 => { g with e := UInt8.ofInt v }
  | 4 => { g with h := UInt8.ofInt v }
  | 5 => { g with l := UInt8.ofInt v }
  | _ => { g with a := UInt8.ofInt v }

/-- The word register number `p`: BC, DE, HL and SP. -/
def pair (g : RegisterFile) (p : ℕ) : ℤ :=
  match p with
  | 0 => 256 * g.b.toNat + g.c.toNat
  | 1 => 256 * g.d.toNat + g.e.toNat
  | 2 => 256 * g.h.toNat + g.l.toNat
  | _ => g.sp.toNat

/-- Writes the word register number `p`. -/
def setPair (p : ℕ) (w : ℤ) (g : RegisterFile) : RegisterFile :=
  match p with
  | 0 => { g with b := UInt8.ofInt (w / 256), c := UInt8.ofInt w }
  | 1 => { g with d := UInt8.ofInt (w / 256), e := UInt8.ofInt w }
  | 2 => { g with h := UInt8.ofInt (w / 256), l := UInt8.ofInt w }
  | _ => { g with sp := UInt16.ofInt w }

/-- The word that the stack instructions know by number `p`: BC, DE, HL, and the accumulator with
the flags, of which the lowest four bits are zero. -/
def stackPair (g : RegisterFile) (p : ℕ) : ℤ :=
  match p with
  | 3 =>
    256 * g.a.toNat +
      (128 * bit g.f.zero + 64 * bit g.f.subtract + 32 * bit g.f.halfCarry + 16 * bit g.f.carry)
  | p => pair g p

/-- Writes the word that the stack instructions know by number `p`. -/
def setStackPair (p : ℕ) (w : ℤ) (g : RegisterFile) : RegisterFile :=
  match p with
  | 3 =>
    { g with
      a := UInt8.ofInt (w / 256)
      f :=
        { zero := w / 128 % 2 = 1
          subtract := w / 64 % 2 = 1
          halfCarry := w / 32 % 2 = 1
          carry := w / 16 % 2 = 1 } }
  | p => setPair p w g

/-- The pair HL. -/
def hl (g : RegisterFile) : ℤ := pair g 2

/-- The condition number `y`: not zero, zero, no carry, carry. -/
def condition (f : Flags) (y : ℕ) : Bool :=
  match y with
  | 0 => !f.zero
  | 1 => f.zero
  | 2 => !f.carry
  | _ => f.carry

/-! ### The parts of instructions -/

section

variable {σ : Type}

/-- The state of the processor. -/
def cpu : Exec σ Cpu := fun s => .ok s.cpu s

/-- The registers. -/
def regs : Exec σ RegisterFile := fun s => .ok s.cpu.regs s

/-- Changes the state of the processor. -/
def modifyCpu (f : Cpu → Cpu) : Exec σ Unit := fun s => .ok () ⟨f s.cpu, s.bus⟩

/-- Changes the registers. -/
def modifyRegs (f : RegisterFile → RegisterFile) : Exec σ Unit :=
  fun s => .ok () ⟨{ s.cpu with regs := f s.cpu.regs }, s.bus⟩

@[simp] theorem cpu_apply (s : Board σ) : cpu s = .ok s.cpu s := rfl

@[simp] theorem regs_apply (s : Board σ) : regs s = .ok s.cpu.regs s := rfl

@[simp] theorem modifyCpu_apply (f : Cpu → Cpu) (s : Board σ) :
    modifyCpu f s = .ok () ⟨f s.cpu, s.bus⟩ := rfl

@[simp] theorem modifyRegs_apply (f : RegisterFile → RegisterFile) (s : Board σ) :
    modifyRegs f s = .ok () ⟨{ s.cpu with regs := f s.cpu.regs }, s.bus⟩ := rfl

end

variable {σ : Type} [Bus σ]

/-- Moves the program counter to `a`. -/
def jump (a : ℤ) : Exec σ Unit := modifyRegs ({ · with pc := UInt16.ofInt a })

/-- Fetches the next byte of the instruction. -/
def fetch : Exec σ ℤ := fun s =>
  let (v, bus) := Bus.fetched s.cpu.regs.pc s.bus
  let regs := { s.cpu.regs with pc := UInt16.ofInt (s.cpu.regs.pc.toNat + 1) }
  .ok v.toNat ⟨{ s.cpu with regs }, bus⟩

/-- Fetches a word, low byte first. -/
def fetchWord : Exec σ ℤ := do
  let lo ← fetch
  let hi ← fetch
  return 256 * hi + lo

/-- Loads the byte at `a`. -/
def load (a : ℤ) : Exec σ ℤ := fun s =>
  let (v, bus) := Bus.loaded (UInt16.ofInt a) s.bus
  .ok v.toNat { s with bus }

/-- Stores a byte at `a`. -/
def store (a v : ℤ) : Exec σ Unit := fun s =>
  .ok () { s with bus := Bus.stored (UInt16.ofInt a) (UInt8.ofInt v) s.bus }

/-- Reads the byte operand number `i`, of which number 6 is the byte at HL. -/
def operand (i : ℕ) : Exec σ ℤ := do
  if i = 6 then load (hl (← regs)) else return register (← regs) i

/-- Writes the byte operand number `i`. -/
def setOperand (i : ℕ) (v : ℤ) : Exec σ Unit := do
  if i = 6 then store (hl (← regs)) v else modifyRegs (setRegister i v)

/-- Pushes a word: the high byte goes below the stack pointer and the low byte below that. -/
def push (w : ℤ) : Exec σ Unit := do
  let g ← regs
  store (g.sp.toNat - 1) (w / 256)
  store (g.sp.toNat - 2) w
  modifyRegs ({ · with sp := UInt16.ofInt (g.sp.toNat - 2) })

/-- Pops a word, low byte first. -/
def pop : Exec σ ℤ := do
  let g ← regs
  let lo ← load g.sp.toNat
  let hi ← load (g.sp.toNat + 1)
  modifyRegs ({ · with sp := UInt16.ofInt (g.sp.toNat + 2) })
  return 256 * hi + lo

/-- Jumps to `a` and leaves the way back on the stack. -/
def enter (a : ℤ) : Exec σ Unit := do
  push (← regs).pc.toNat
  jump a

/-- Goes back to the address on the stack. -/
def leave : Exec σ Unit := do
  jump (← pop)

/-- The address that the pointer number `p` holds: BC, DE, or HL, which counts up or down. -/
def pointer (p : ℕ) : Exec σ ℤ := do
  let g ← regs
  return if p = 3 then hl g else pair g p

/-- Moves the pointer number `p` on. -/
def stepPointer (p : ℕ) : Exec σ Unit :=
  match p with
  | 2 => modifyRegs fun g => setPair 2 (hl g + 1) g
  | 3 => modifyRegs fun g => setPair 2 (hl g - 1) g
  | _ => pure ()

/-- The address in the upper page that the immediate byte gives. -/
def highImmediate : Exec σ ℤ := do
  return 0xFF00 + (← fetch)

/-- The address in the upper page that register C gives. -/
def highC : Exec σ ℤ := do
  return 0xFF00 + (← regs).c.toNat

/-- Loads the accumulator from a place in memory. -/
def loadA (place : Exec σ ℤ) (after : Exec σ Unit) (cycles : ℕ) : Exec σ ℕ := do
  let v ← load (← place)
  modifyRegs ({ · with a := UInt8.ofInt v })
  after
  return cycles

/-- Stores the accumulator at a place in memory. -/
def storeA (place : Exec σ ℤ) (after : Exec σ Unit) (cycles : ℕ) : Exec σ ℕ := do
  let a ← place
  store a (← regs).a.toNat
  after
  return cycles

/-- Sets the accumulator and the flags to a result that is computed from them. -/
def accumulate (f : ℤ → Flags → ℤ × Flags) : Exec σ Unit :=
  modifyRegs fun g =>
    let r := f g.a.toNat g.f
    { g with a := UInt8.ofInt r.1, f := r.2 }

/-- Row `y` of the adjustments of the accumulator and the flags: RLCA, RRCA, RLA, RRA, DAA, CPL, SCF
and CCF. -/
def adjust (y : ℕ) : Exec σ Unit :=
  match y with
  | 4 => accumulate decimalAdjust
  | 5 => accumulate fun a f => (255 - a, { f with subtract := true, halfCarry := true })
  | 6 => accumulate fun a f => (a, { f with subtract := false, halfCarry := false, carry := true })
  | 7 =>
    accumulate fun a f => (a, { f with subtract := false, halfCarry := false, carry := !f.carry })
  | y => accumulate fun a f => rotate y a f.carry

/-- Replaces the byte operand number `i` and the flags by a result that is computed from them. -/
def update (i : ℕ) (f : ℤ → Flags → ℤ × Flags) : Exec σ Unit := do
  let v ← operand i
  let g ← regs
  let r := f v g.f
  modifyRegs ({ · with f := r.2 })
  setOperand i r.1

/-- Adds a word to another one and sets the flags. -/
def addWord (a b : ℤ) : Exec σ ℤ := do
  let r := add16 a b
  modifyRegs ({ · with f := r.2 })
  return r.1

/-- Jumps by the signed immediate byte, if the condition holds. -/
def jumpRelative (taken : Flags → Bool) : Exec σ ℕ := do
  let e ← fetch
  if taken (← regs).f then
    jump ((← regs).pc.toNat + signed e)
    return 12
  else return 8

/-- Jumps to the immediate address, if the condition holds. -/
def jumpAbsolute (taken : Flags → Bool) : Exec σ ℕ := do
  let a ← fetchWord
  if taken (← regs).f then
    jump a
    return 16
  else return 12

/-- Calls the immediate address, if the condition holds. -/
def call (taken : Flags → Bool) : Exec σ ℕ := do
  let a ← fetchWord
  if taken (← regs).f then
    enter a
    return 24
  else return 12

/-! ### The table -/

/-- The byte is no instruction. -/
def undefined (addr : UInt16) (b : ℕ) : Exec σ ℕ :=
  throw (.unknownOpcode (UInt8.ofNat b) false addr)

/-- The rows with `x = 0`. -/
def quarter0 (addr : UInt16) (y z : ℕ) : Exec σ ℕ :=
  match z with
  | 0 =>
    match y with
    | 0 => return 4
    | 1 => do
      let a ← fetchWord
      let sp := (← regs).sp.toNat
      store a sp
      store (a + 1) (sp / 256)
      return 20
    | 2 => do
      let v ← fetch
      if v ≠ 0 then throw (.malformedStop addr (UInt8.ofInt v))
      modifyCpu ({ · with run := .stopped })
      return 4
    | 3 => jumpRelative fun _ => true
    | y => jumpRelative (condition · (y - 4))
  | 1 =>
    if y % 2 = 0 then do
      let w ← fetchWord
      modifyRegs (setPair (y / 2) w)
      return 12
    else do
      let g ← regs
      let w ← addWord (hl g) (pair g (y / 2))
      modifyRegs (setPair 2 w)
      return 8
  | 2 =>
    if y % 2 = 0 then storeA (pointer (y / 2)) (stepPointer (y / 2)) 8
    else loadA (pointer (y / 2)) (stepPointer (y / 2)) 8
  | 3 => do
    let w := pair (← regs) (y / 2)
    modifyRegs (setPair (y / 2) (if y % 2 = 0 then w + 1 else w - 1))
    return 8
  | 4 => do
    update y inc
    return if y = 6 then 12 else 4
  | 5 => do
    update y dec
    return if y = 6 then 12 else 4
  | 6 => do
    let v ← fetch
    setOperand y v
    return if y = 6 then 12 else 8
  | _ => do
    adjust y
    return 4

/-- The rows with `x = 1`. -/
def quarter1 (y z : ℕ) : Exec σ ℕ :=
  if y = 6 ∧ z = 6 then do
    modifyCpu ({ · with run := .halted })
    return 4
  else do
    let v ← operand z
    setOperand y v
    return if y = 6 ∨ z = 6 then 8 else 4

/-- The rows with `x = 2`. -/
def quarter2 (y z : ℕ) : Exec σ ℕ := do
  let v ← operand z
  accumulate fun a f => alu y a v f
  return if z = 6 then 8 else 4

/-- The rows with `x = 3`. -/
def quarter3 (addr : UInt16) (b y z : ℕ) : Exec σ ℕ :=
  match z with
  | 0 =>
    match y with
    | 4 => storeA highImmediate (pure ()) 12
    | 5 => do
      let e ← fetch
      let g ← regs
      let w ← addWord g.sp.toNat (signed e % 65536)
      modifyRegs (setPair 3 w)
      return 16
    | 6 => loadA highImmediate (pure ()) 12
    | 7 => do
      let e ← fetch
      let g ← regs
      let w ← addWord g.sp.toNat (signed e % 65536)
      modifyRegs (setPair 2 w)
      return 12
    | y => do
      if condition (← regs).f y then
        leave
        return 20
      else return 8
  | 1 =>
    match y with
    | 1 => do
      leave
      return 16
    | 3 => do
      leave
      modifyCpu ({ · with ime := .interruptible })
      return 16
    | 5 => do
      let g ← regs
      jump (hl g)
      return 4
    | 7 => do
      let g ← regs
      modifyRegs (setPair 3 (hl g))
      return 8
    | y => do
      let w ← pop
      modifyRegs (setStackPair (y / 2) w)
      return 12
  | 2 =>
    match y with
    | 4 => storeA highC (pure ()) 8
    | 5 => storeA fetchWord (pure ()) 16
    | 6 => loadA highC (pure ()) 8
    | 7 => loadA fetchWord (pure ()) 16
    | y => jumpAbsolute (condition · y)
  | 3 =>
    match y with
    | 0 => jumpAbsolute fun _ => true
    | 6 => do
      modifyCpu ({ · with ime := .blocked })
      return 4
    | 7 => do
      modifyCpu ({ · with ime := .pendingEnable })
      return 4
    | _ => undefined addr b
  | 4 => if y < 4 then call (condition · y) else undefined addr b
  | 5 =>
    if y % 2 = 0 then do
      let g ← regs
      push (stackPair g (y / 2))
      return 16
    else if y = 1 then call fun _ => true
    else undefined addr b
  | 6 => do
    let v ← fetch
    accumulate fun a f => alu y a v f
    return 8
  | _ => do
    enter (8 * y)
    return 16

/-- Carries out the instruction with the opcode `b`, which was fetched from `addr`, and returns its
cycles. -/
def execute (addr : UInt16) (b : ℕ) : Exec σ ℕ :=
  let x := b / 64
  let y := b / 8 % 8
  let z := b % 8
  match x with
  | 0 => quarter0 addr y z
  | 1 => quarter1 y z
  | 2 => quarter2 y z
  | _ => quarter3 addr b y z

/-- One instruction from the primary table.  Its cycles are counted, and an enabling of interrupts
that was pending when it began, and still is, takes effect. -/
def step : Exec σ ℕ := do
  let before ← cpu
  let b ← fetch
  let n ← execute before.regs.pc b.toNat
  modifyCpu fun cpu =>
    { cpu with
      ime :=
        if before.ime = .pendingEnable ∧ cpu.ime = .pendingEnable then .interruptible else cpu.ime
      cycles := cpu.cycles + n }
  return n

end Reference

end Lr35902
