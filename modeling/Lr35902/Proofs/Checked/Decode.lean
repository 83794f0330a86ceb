import Lr35902.Instruction.Decode
import Lr35902.Proofs.Checked.Basic
import Mathlib.Data.List.Basic

/-!
# Checked decoding

The primary table can also be read without fields: row by row, each row a list of opcodes with the
`Routine` that carries them out (`Routine.table`).  A routine trusts that it gets its own opcodes
only (`Routine.Admits`), and then reads its operands from bits of the opcode; some fields are looked
up in a table of cases that does not cover all bytes.

Decoding in this way breaks no contract, and gives the same instruction as the decoder by fields,
for every byte (`Check.decode_eq`, `Check.decodeExtended_eq`).
-/

namespace Lr35902

namespace Check

/-! ### Fields -/

/-- The byte operand that the lowest three bits of `i` name. -/
def operand (i : UInt8) : Except Violation Register :=
  select (i &&& 7) [(0, .b), (1, .c), (2, .d), (3, .e), (4, .h), (5, .l), (6, .hlIndirect), (7, .a)]

/-- The word operand that the lowest two bits of `i` name in loads and arithmetic. -/
def pairOrSp (i : UInt8) : Except Violation Register :=
  select (i &&& 3) [(0, .bc), (1, .de), (2, .hl), (3, .sp)]

/-- The word operand that the lowest two bits of `i` name in stack instructions. -/
def pairOrAf (i : UInt8) : Except Violation Register :=
  select (i &&& 3) [(0, .bc), (1, .de), (2, .hl), (3, .af)]

/-- The pointer that the lowest two bits of `i` name. -/
def pointer (i : UInt8) : Except Violation Location :=
  select (i &&& 3) [(0, .bc), (1, .de), (2, .hlIncrement), (3, .hlDecrement)]

/-- The condition that the lowest two bits of `i` name. -/
def condition (i : UInt8) : Except Violation Condition :=
  select (i &&& 3) [(0, .nz), (1, .z), (2, .nc), (3, .c)]

/-- The operation on the accumulator with the number `i`, which has to be below 8. -/
def aluOp (i : UInt8) : Except Violation AluOp :=
  select i [(0, .add), (1, .adc), (2, .sub), (3, .sbc), (4, .and), (5, .xor), (6, .or), (7, .cp)]

/-- The bits of an opcode that name an operation, a condition or a bit. -/
def middle (opcode : UInt8) : UInt8 := (opcode >>> 3) &&& 7

/-- The instruction of the extended table with the given opcode. -/
def decodeExtended (opcode : UInt8) : Except Violation ExtendedInstruction := do
  let x := opcode >>> 6
  let y := middle opcode
  let target ← operand opcode
  let op ← if x = 0 then
      select y [(0, .shift .left .wrap), (1, .shift .right .wrap), (2, .shift .left .carry),
        (3, .shift .right .carry), (4, .shift .left .zero), (5, .shift .right .sign), (6, .swap),
        (7, .shift .right .zero)]
    else select x [(1, .bit y), (2, .res y), (3, .set y)]
  return { op, target }

theorem decodeExtended_eq (b : UInt8) :
    decodeExtended b = .ok (ExtendedInstruction.decode b) := by
  have hall : ∀ v : BitVec 8, decodeExtended ⟨v⟩ = .ok (ExtendedInstruction.decode ⟨v⟩) := by
    decide +kernel
  exact hall b.toBitVec

end Check

/-! ### Routines -/

/-- The routines that carry out the primary table.  One routine carries out all opcodes of a
family. -/
inductive Routine where
  /-- A single instruction, which has no operand in its opcode. -/
  | single (i : Instruction)
  | load | loadImmediate | loadWord
  /-- A load of the accumulator from a pointer. -/
  | loadIndirect
  /-- A store of the accumulator at a pointer. -/
  | storeIndirect
  /-- An exchange with a high address that is an operand. -/
  | highImmediate
  /-- An exchange with the high address in C. -/
  | highC
  /-- An exchange with an address that is an operand. -/
  | absolute
  | alu | aluImmediate | inc | dec | incWord | decWord | addHl | rotateA
  | push | pop | jr | jp | call | ret | rst
deriving DecidableEq

namespace Routine

/-- The opcodes from `first` to `last`. -/
def opcodes (first last : Nat) : List Nat := List.range' first (last + 1 - first)

/-- The rows of the primary table.  Where an opcode is in two rows, the first one counts: the halt
lies among the loads. -/
def table : List (List Nat × Routine) := [
  ([0x00], single .nop),
  ([0x01, 0x11, 0x21, 0x31], loadWord),
  ([0x07, 0x0F, 0x17, 0x1F], rotateA),
  ([0x03, 0x13, 0x23, 0x33], incWord),
  ([0x0B, 0x1B, 0x2B, 0x3B], decWord),
  ([0x06, 0x0E, 0x16, 0x1E, 0x26, 0x2E, 0x36, 0x3E], loadImmediate),
  ([0x76], single .halt),
  (opcodes 0x40 0x7F, load),
  ([0x02, 0x12, 0x22, 0x32], storeIndirect),
  ([0x0A, 0x1A, 0x2A, 0x3A], loadIndirect),
  ([0x08], single .storeSp),
  ([0x10], single .stop),
  ([0xE0, 0xF0], highImmediate),
  ([0xE2, 0xF2], highC),
  ([0xEA, 0xFA], absolute),
  ([0xE8], single .addSp),
  ([0xF8], single .loadHlSp),
  ([0xF9], single .loadSpHl),
  ([0x18], single (.jr none)),
  ([0x20, 0x28, 0x30, 0x38], jr),
  ([0xC2, 0xCA, 0xD2, 0xDA], jp),
  ([0x09, 0x19, 0x29, 0x39], addHl),
  ([0x27], single .daa),
  ([0x2F], single .cpl),
  ([0x37], single .scf),
  ([0x3F], single .ccf),
  (opcodes 0x80 0xBF, alu),
  ([0xC6, 0xCE, 0xD6, 0xDE, 0xE6, 0xEE, 0xF6, 0xFE], aluImmediate),
  ([0x04, 0x0C, 0x14, 0x1C, 0x24, 0x2C, 0x34, 0x3C], inc),
  ([0x05, 0x0D, 0x15, 0x1D, 0x25, 0x2D, 0x35, 0x3D], dec),
  ([0xF3], single .di),
  ([0xFB], single .ei),
  ([0xC3], single (.jp none)),
  ([0xE9], single .jpHl),
  ([0xCD], single (.call none)),
  ([0xC5, 0xD5, 0xE5, 0xF5], push),
  ([0xC1, 0xD1, 0xE1, 0xF1], pop),
  ([0xC4, 0xCC, 0xD4, 0xDC], call),
  ([0xC9], single (.ret none)),
  ([0xC0, 0xC8, 0xD0, 0xD8], ret),
  ([0xD9], single .reti),
  ([0xC7, 0xCF, 0xD7, 0xDF, 0xE7, 0xEF, 0xF7, 0xFF], rst)]

/-- The routine that gets the opcode `b`, if there is one. -/
def ofOpcode (b : UInt8) : Option Routine := (table.find? (·.1.contains b.toNat)).map (·.2)

/-- The routine is made for the opcode `b`.  A routine for one instruction does not look at its
opcode. -/
def Admits (b : UInt8) : Routine → Prop
  | single _ => True
  | load => b.toNat ∈ opcodes 0x40 0x7F ∧ b ≠ 0x76
  | loadImmediate => b.toNat ∈ [0x06, 0x0E, 0x16, 0x1E, 0x26, 0x2E, 0x36, 0x3E]
  | loadWord => b.toNat ∈ [0x01, 0x11, 0x21, 0x31]
  | loadIndirect => b.toNat ∈ [0x0A, 0x1A, 0x2A, 0x3A]
  | storeIndirect => b.toNat ∈ [0x02, 0x12, 0x22, 0x32]
  | highImmediate => b.toNat ∈ [0xE0, 0xF0]
  | highC => b.toNat ∈ [0xE2, 0xF2]
  | absolute => b.toNat ∈ [0xEA, 0xFA]
  | alu => b.toNat ∈ opcodes 0x80 0xBF
  | aluImmediate => b.toNat ∈ [0xC6, 0xCE, 0xD6, 0xDE, 0xE6, 0xEE, 0xF6, 0xFE]
  | inc => b.toNat ∈ [0x04, 0x0C, 0x14, 0x1C, 0x24, 0x2C, 0x34, 0x3C]
  | dec => b.toNat ∈ [0x05, 0x0D, 0x15, 0x1D, 0x25, 0x2D, 0x35, 0x3D]
  | incWord => b.toNat ∈ [0x03, 0x13, 0x23, 0x33]
  | decWord => b.toNat ∈ [0x0B, 0x1B, 0x2B, 0x3B]
  | addHl => b.toNat ∈ [0x09, 0x19, 0x29, 0x39]
  | rotateA => b.toNat ∈ [0x07, 0x0F, 0x17, 0x1F]
  | push => b.toNat ∈ [0xC5, 0xD5, 0xE5, 0xF5]
  | pop => b.toNat ∈ [0xC1, 0xD1, 0xE1, 0xF1]
  | jr => b.toNat ∈ [0x20, 0x28, 0x30, 0x38]
  | jp => b.toNat ∈ [0xC2, 0xCA, 0xD2, 0xDA]
  | call => b.toNat ∈ [0xC4, 0xCC, 0xD4, 0xDC]
  | ret => b.toNat ∈ [0xC0, 0xC8, 0xD0, 0xD8]
  | rst => b.toNat ∈ [0xC7, 0xCF, 0xD7, 0xDF, 0xE7, 0xEF, 0xF7, 0xFF]

instance (b : UInt8) (r : Routine) : Decidable (r.Admits b) := by
  unfold Admits
  cases r <;> infer_instance

open Check in
/-- The instruction that the routine carries out at the opcode `b`. -/
def instruction (b : UInt8) : Routine → Except Violation Instruction
  | single i => .ok i
  | load => do return .load (← operand (b >>> 3)) (← operand b)
  | loadImmediate => .loadImmediate <$> operand (b >>> 3)
  | loadWord => .loadWord <$> pairOrSp (b >>> 4)
  | loadIndirect => .loadA <$> pointer (b >>> 4)
  | storeIndirect => .storeA <$> pointer (b >>> 4)
  | highImmediate => select b [(0xE0, .storeA .highImmediate), (0xF0, .loadA .highImmediate)]
  | highC => select b [(0xE2, .storeA .highC), (0xF2, .loadA .highC)]
  | absolute => select b [(0xEA, .storeA .immediate), (0xFA, .loadA .immediate)]
  | alu => do return .alu (← aluOp (middle b)) (← operand b)
  | aluImmediate => .aluImmediate <$> aluOp (middle b)
  | inc => .inc <$> operand (b >>> 3)
  | dec => .dec <$> operand (b >>> 3)
  | incWord => .incWord <$> pairOrSp (b >>> 4)
  | decWord => .decWord <$> pairOrSp (b >>> 4)
  | addHl => .addHl <$> pairOrSp (b >>> 4)
  | rotateA => select b [(0x07, .rotateA .left .wrap), (0x0F, .rotateA .right .wrap),
      (0x17, .rotateA .left .carry), (0x1F, .rotateA .right .carry)]
  | push => .push <$> pairOrAf (b >>> 4)
  | pop => .pop <$> pairOrAf (b >>> 4)
  | jr => (.jr <| some ·) <$> condition ((b >>> 3) &&& 3)
  | jp => (.jp <| some ·) <$> condition ((b >>> 3) &&& 3)
  | call => (.call <| some ·) <$> condition ((b >>> 3) &&& 3)
  | ret => (.ret <| some ·) <$> condition ((b >>> 3) &&& 3)
  | rst => .ok (.rst (b &&& 0x38).toUInt16)

/-- A routine gets the opcodes of its rows. -/
theorem mem_row_of_ofOpcode {b : UInt8} {r : Routine} (h : ofOpcode b = some r) :
    ∃ row ∈ table, b.toNat ∈ row.1 ∧ row.2 = r := by
  obtain ⟨row, hrow, rfl⟩ := Option.map_eq_some_iff.1 h
  have hcontains := List.find?_some hrow
  exact ⟨row, List.mem_of_find?_eq_some hrow, List.contains_iff_mem.1 hcontains, rfl⟩

theorem ofOpcode_halt : ofOpcode 0x76 = some (single .halt) := by decide +kernel

/-- A routine only gets opcodes that it is made for, finds a case for every field of theirs, and
carries out their instructions. -/
theorem spec_of_ofOpcode {b : UInt8} {r : Routine} (h : ofOpcode b = some r) :
    r.Admits b ∧ some <$> r.instruction b = .ok (Instruction.decode b) := by
  have hrows : ∀ row ∈ table, ∀ n ∈ row.1, n = 0x76 ∨ row.2.Admits n.toUInt8 ∧
      some <$> row.2.instruction n.toUInt8 = .ok (Instruction.decode n.toUInt8) := by
    decide +kernel
  obtain ⟨row, hrow, hb, rfl⟩ := mem_row_of_ofOpcode h
  obtain hhalt | hspec := hrows row hrow b.toNat hb
  · -- the halt is in the row of the loads, too, but its own row comes first
    obtain rfl : b = 0x76 := UInt8.toNat_inj.1 hhalt
    rw [ofOpcode_halt] at h
    rw [← Option.some.inj h]
    exact ⟨trivial, rfl⟩
  · rwa [Nat.toUInt8_eq, UInt8.ofNat_toNat] at hspec

/-- No row has an opcode without an instruction, and every other one is in some row. -/
theorem ofOpcode_eq_none_iff {b : UInt8} : ofOpcode b = none ↔ Instruction.decode b = none := by
  have hcovered : ∀ v : BitVec 8, Instruction.decode ⟨v⟩ ≠ none →
      v.toNat ∈ table.flatMap (·.1) := by decide +kernel
  constructor
  · intro h
    by_contra hdecode
    obtain ⟨row, hrow, hb⟩ := List.mem_flatMap.1 (hcovered b.toBitVec hdecode)
    have hfind := List.find?_eq_none.1 (Option.map_eq_none_iff.1 h) row hrow
    exact hfind (List.contains_iff_mem.2 hb)
  · intro h
    by_contra hsome
    obtain ⟨r, hr⟩ := Option.ne_none_iff_exists'.1 hsome
    obtain ⟨-, hinstruction⟩ := spec_of_ofOpcode hr
    rw [h] at hinstruction
    cases hi : r.instruction b with
    | ok i =>
      rw [hi] at hinstruction
      cases hinstruction
    | error v =>
      rw [hi] at hinstruction
      cases hinstruction

end Routine

namespace Check

/-- The instruction with the opcode `b`, if there is one, by the routine that gets the opcode. -/
def decode (b : UInt8) : Except Violation (Option Instruction) :=
  match Routine.ofOpcode b with
  | none => .ok none
  | some r => do
    require (r.Admits b) (.opcode b)
    some <$> r.instruction b

theorem decode_eq (b : UInt8) : decode b = .ok (Instruction.decode b) := by
  unfold decode
  cases h : Routine.ofOpcode b with
  | none => rw [Routine.ofOpcode_eq_none_iff.1 h]
  | some r =>
    obtain ⟨hadmits, hinstruction⟩ := Routine.spec_of_ofOpcode h
    rw [← hinstruction]
    dsimp only
    rw [require_eq hadmits]
    rfl

/-- The routine of the loads is not made for the halt, and the one of the rotations has no case for
another opcode. -/
example : ¬ Routine.load.Admits 0x76 ∧
    Routine.rotateA.instruction 0x27 = .error (.noCase 0x27) := by
  decide

end Check

end Lr35902
