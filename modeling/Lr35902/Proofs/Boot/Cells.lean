import Lr35902.Proofs.SystemBus

/-!
# Memory with few nonzero bytes

A memory that is zero but for a few bytes is given by a list of these, its `Cells`.  Unlike a space
of 64 KiB, such a list can be compared and written down.  Lookup and update of cells do what they do
on the space that they stand for (`Cells.get_space`, `Cells.space_set`).
-/

namespace Lr35902

/-- The bytes at some addresses of a memory that is zero at all others.  If an address is listed
more than once, the first entry counts. -/
abbrev Cells := List (UInt16 × UInt8)

namespace Cells

/-- The byte at `addr`. -/
def get : Cells → UInt16 → UInt8
  | [], _ => 0
  | (a, v) :: cells, addr => if a = addr then v else get cells addr

/-- The cells with byte `v` at `addr`.  Nothing is listed if it changes nothing. -/
def set (cells : Cells) (addr : UInt16) (v : UInt8) : Cells :=
  if cells.get addr = v then cells else (addr, v) :: cells

/-- The memory that the cells stand for. -/
def space : Cells → ByteSpace
  | [] => .filled 0
  | (a, v) :: cells => (space cells).set a v

theorem get_space (cells : Cells) (addr : UInt16) : cells.space.get addr = cells.get addr := by
  induction cells with
  | nil => exact ByteSpace.get_filled 0 addr
  | cons cell cells ih =>
    obtain ⟨a, v⟩ := cell
    rw [space, ByteSpace.get_set, ih, get]

theorem space_set (cells : Cells) (addr : UInt16) (v : UInt8) :
    (cells.set addr v).space = cells.space.set addr v := by
  unfold set
  by_cases h : cells.get addr = v
  · -- a store of the byte that is there already changes nothing
    rw [if_pos h]
    refine ByteSpace.ext_get fun a => ?_
    rw [ByteSpace.get_set, get_space]
    by_cases ha : addr = a
    · rw [if_pos ha, ← ha, h]
    · rw [if_neg ha]
  · rw [if_neg h]
    rfl

theorem get_set (cells : Cells) (a b : UInt16) (v : UInt8) :
    (cells.set a v).get b = if a = b then v else cells.get b := by
  rw [← get_space, space_set, ByteSpace.get_set, get_space]

/-- Storing a byte once more changes nothing. -/
theorem set_set_self (cells : Cells) (addr : UInt16) (v : UInt8) :
    (cells.set addr v).set addr v = cells.set addr v := by
  have hget : (cells.set addr v).get addr = v := by rw [get_set, if_pos rfl]
  rw [set, if_pos hget]

/-- The bus with the cells in memory. -/
def on (cells : Cells) (b : SystemBus) : SystemBus :=
  { b with memory := { b.memory with ram := cells.space } }

variable (cells : Cells) (b : SystemBus)

theorem view_on {addr : UInt16} (h : SystemBus.imageEnd ≤ addr) :
    (cells.on b).view addr = cells.get addr := by
  rw [SystemBus.view_of_le _ h]
  exact cells.get_space addr

theorem poke_on (addr : UInt16) (v : UInt8) :
    (cells.on b).poke addr v = (cells.set addr v).on b := by
  unfold SystemBus.poke on
  rw [space_set]

/-- Removing the boot program concerns only the image. -/
theorem withoutBoot_on : (cells.on b).withoutBoot = cells.on b.withoutBoot := by
  unfold SystemBus.withoutBoot
  by_cases hmapped : b.bootMapped
  · rw [if_pos hmapped, if_pos (show (cells.on b).bootMapped from hmapped)]
    rfl
  · rw [if_neg hmapped, if_neg (show ¬ (cells.on b).bootMapped from hmapped)]

end Cells

end Lr35902
