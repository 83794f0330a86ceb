import Lr35902.Memory
import Lr35902.Proofs.Bus.Reliable
import Mathlib.Data.List.GetD

/-!
# Memory as a bus

Every word is an address of a memory, so its accesses never fail (`Memory.reliable`), and what they
do is a function.

An image is loaded from the start of the space or, behind the boot program, without its first page;
either way a byte of it lands at its own place in the image (`ByteSpace.get_load_zero`,
`ByteSpace.get_load_drop`).  A window that is loaded into a space moves as a whole
(`ByteSpace.get_load_window`).
-/

namespace Lr35902

namespace ByteSpace

variable {addr : UInt16} {bytes : List UInt8}

/-- A byte list at the start of the space covers it from there. -/
theorem get_load_zero (s : ByteSpace) (h : bytes.length ≤ size) :
    (s.load 0 bytes).get addr = bytes.getD addr.toNat (s.get addr) := by
  rw [get_load s (by rwa [Nat.zero_add]), if_pos (Nat.zero_le _), Nat.sub_zero]

/-- A byte list without its beginning leaves what was there in its place. -/
theorem get_load_drop (s : ByteSpace) {k : Nat} (hk : k ≤ size) (h : bytes.length ≤ size) :
    (s.load k (bytes.drop k)).get addr =
      if k ≤ addr.toNat then bytes.getD addr.toNat (s.get addr) else s.get addr := by
  have hfits : k + (bytes.drop k).length ≤ size := by
    rw [List.length_drop]
    omega
  rw [get_load s hfits]
  by_cases hle : k ≤ addr.toNat
  · rw [if_pos hle, if_pos hle, List.getD_eq_getElem?_getD, List.getElem?_drop,
      Nat.add_sub_cancel' hle, List.getD_eq_getElem?_getD]
  · rw [if_neg hle, if_neg hle]

/-- The bytes of a window land in a row, and all others are unchanged. -/
theorem get_load_window (s t : ByteSpace) {start src count : Nat} (h : start + count ≤ size) :
    (s.load start (t.window src count)).get addr =
      if start ≤ addr.toNat ∧ addr.toNat < start + count then
        t.get (src + (addr.toNat - start)).toUInt16
      else s.get addr := by
  have hlength := t.length_window src count
  rw [get_load s (by rwa [hlength])]
  by_cases hin : start ≤ addr.toNat ∧ addr.toNat < start + count
  · have hindex : addr.toNat - start < count := Nat.sub_lt_left_of_lt_add hin.1 hin.2
    rw [if_pos hin.1, if_pos hin, List.getD_eq_getElem?_getD, getElem?_window _ hindex,
      Option.getD_some]
  rw [if_neg hin]
  split
  · -- the window ends before the address
    exact List.getD_eq_default _ _ (by omega)
  · rfl

theorem toNat_toUInt16 {n : Nat} (h : n < size) : n.toUInt16.toNat = n := Nat.mod_eq_of_lt h

end ByteSpace

namespace Memory

/-! ### Loading images -/

/-- The image holds the boot program and zeros behind it. -/
theorem get_withBootProgram {addr : UInt16} :
    withBootProgram.rom.get addr = BootProgram.bytes.getD addr.toNat 0 := by
  have hfits : BootProgram.bytes.length ≤ ByteSpace.size := by
    rw [BootProgram.length_bytes]
    decide
  rw [withBootProgram, ByteSpace.get_load_zero _ hfits, ByteSpace.get_filled]

section

variable (m : Memory) {cartridge : List UInt8}

/-- A cartridge that fits lands behind the boot program. -/
theorem attachCartridge_eq (hm : BootProgram.size ≤ m.extent)
    (h : cartridge.length ≤ ByteSpace.size) :
    m.attachCartridge cartridge = .ok { m with
      rom := m.rom.load BootProgram.size (cartridge.drop BootProgram.size)
      extent := max m.extent cartridge.length } := by
  rw [attachCartridge]
  by_cases hsize : BootProgram.size ≤ cartridge.length
  · have hend : BootProgram.size + (cartridge.drop BootProgram.size).length = cartridge.length := by
      rw [List.length_drop]
      exact Nat.add_sub_cancel' hsize
    rw [if_pos hsize, loadRom, hend, if_pos h]
  · have hle : cartridge.length ≤ BootProgram.size := Nat.le_of_not_le hsize
    rw [if_neg hsize, List.drop_eq_nil_of_le hle, Nat.max_eq_left (Nat.le_trans hle hm),
      ByteSpace.load]

/-- A cartridge that does not fit is refused. -/
theorem attachCartridge_of_long (h : ByteSpace.size < cartridge.length) :
    m.attachCartridge cartridge =
      .error (.romOverflow BootProgram.size (cartridge.length - BootProgram.size)
        ByteSpace.size) := by
  have hsize : BootProgram.size ≤ cartridge.length :=
    Nat.le_of_lt (Nat.lt_of_le_of_lt (by decide) h)
  have hend : ¬ BootProgram.size + (cartridge.length - BootProgram.size) ≤ ByteSpace.size := by
    rw [Nat.add_sub_cancel' hsize]
    exact Nat.not_le.2 h
  rw [attachCartridge, if_pos hsize, loadRom, List.length_drop, if_neg hend]

end

/-! ### Accesses -/

theorem read_of_lt (m : Memory) {addr : Nat} (h : addr < ByteSpace.size) :
    m.read addr = .ok (m.ram.get addr.toUInt16) := if_pos h

theorem readRom_of_lt (m : Memory) {addr : Nat} (h : addr < ByteSpace.size) :
    m.readRom addr = .ok (m.rom.get addr.toUInt16) := if_pos h

theorem read_word (m : Memory) (a : UInt16) : m.read a.toNat = .ok (m.ram.get a) := by
  rw [read, if_pos (show a.toNat < ByteSpace.size from a.toNat_lt), Nat.toUInt16_eq,
    UInt16.ofNat_toNat]

theorem write_word (m : Memory) (a : UInt16) (v : UInt8) :
    m.write a.toNat v = .ok { m with ram := m.ram.set a v } := by
  rw [write, if_pos (show a.toNat < ByteSpace.size from a.toNat_lt), Nat.toUInt16_eq,
    UInt16.ofNat_toNat]

theorem readRom_word (m : Memory) (a : UInt16) : m.readRom a.toNat = .ok (m.rom.get a) := by
  rw [readRom, if_pos (show a.toNat < ByteSpace.size from a.toNat_lt), Nat.toUInt16_eq,
    UInt16.ofNat_toNat]

theorem read8_eq (m : Memory) (a : UInt16) : Bus.read8 a m = .ok (m.ram.get a) m := by
  change reading _ m = _
  rw [reading, read_word]

theorem write8_eq (m : Memory) (a : UInt16) (v : UInt8) :
    Bus.write8 a v m = .ok () { m with ram := m.ram.set a v } := by
  change changing _ m = _
  rw [changing, write_word]

theorem fetch8_eq (m : Memory) (a : UInt16) : Bus.fetch8 a m = .ok (m.rom.get a) m := by
  change reading _ m = _
  rw [reading, readRom_word]

theorem fetched_eq (m : Memory) (a : UInt16) : Bus.fetched a m = (m.rom.get a, m) := by
  rw [Bus.fetched, fetch8_eq]
  rfl

/-- No access to a memory fails. -/
theorem reliable : Bus.Reliable fun _ : Memory => True where
  read8 a m _ := ⟨_, _, m.read8_eq a, trivial⟩
  write8 a v m _ := ⟨_, m.write8_eq a v, trivial⟩
  fetch8 a m _ := ⟨_, _, m.fetch8_eq a, trivial⟩

end Memory

end Lr35902
