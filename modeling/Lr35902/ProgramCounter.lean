import Lr35902.Byte

/-!
# Moving the program counter

The program counter is a word, so every move wraps around at the end of the address space.
-/

namespace Lr35902

namespace ProgramCounter

/-- The address of the first instruction after a reset. -/
def origin : UInt16 := 0

/-- The address after the byte at `pc`. -/
def next (pc : UInt16) : UInt16 := pc + 1

/-- The address at the signed distance `e` from `pc`. -/
def displace (pc : UInt16) (e : UInt8) : UInt16 := pc + Word.signExtend e

theorem toNat_next (pc : UInt16) : (next pc).toNat = (pc.toNat + 1) % 65536 := by
  simp [next, UInt16.toNat_add]

theorem toNat_displace (pc : UInt16) (e : UInt8) :
    (displace pc e).toNat =
      (pc.toNat + if e.toNat < 128 then e.toNat else e.toNat + 65280) % 65536 := by
  rw [displace, UInt16.toNat_add, Word.toNat_signExtend]

end ProgramCounter

end Lr35902
