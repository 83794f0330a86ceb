import Lr35902.Proofs.Boot.Course

/-!
# The boot program hands over

A machine that starts with its boot program comes to the cartridge's entry point after a fixed
number of steps and cycles, whatever the cartridge is, and is there as one that has skipped the boot
program (`Machine.handedOver_of_withBoot`).  What differs is the time that has passed, the line that
the display shows, and two bytes that the boot program leaves below its stack.
-/

namespace Lr35902

namespace BootProgram

variable {cartridge : List UInt8}

/-! ### The two starts -/

/-- The memory with a cartridge behind the boot program. -/
def attached (cartridge : List UInt8) : Memory :=
  { Memory.withBootProgram with
    rom := Memory.withBootProgram.rom.load size (cartridge.drop size)
    extent := max Memory.withBootProgram.extent cartridge.length }

/-- The memory with a cartridge and without the boot program. -/
def inserted (cartridge : List UInt8) : Memory where
  ram := Cells.space Machine.postBootRegisters.reverse
  rom := (ByteSpace.filled 0).load 0 cartridge
  extent := cartridge.length

theorem attachCartridge_eq (h : cartridge.length ≤ ByteSpace.size) :
    Memory.withBootProgram.attachCartridge cartridge = .ok (attached cartridge) :=
  Memory.withBootProgram.attachCartridge_eq (Nat.le_refl size) h

/-- The start with the boot program. -/
theorem withBoot_eq (h : cartridge.length ≤ ByteSpace.size) :
    Machine.withBoot cartridge none =
      .ok (start.machine (.ofCartridge (attached cartridge) cartridge true)) := by
  simp only [Machine.withBoot, pure_bind, attachCartridge_eq h]
  rfl

/-- The start at the cartridge's entry point. -/
theorem postBoot_eq (h : cartridge.length ≤ ByteSpace.size) :
    Machine.postBoot cartridge = .ok
      { cpu := .init .postBoot .blocked
        bus := .ofCartridge (inserted cartridge) cartridge false
        lcd := {} } := by
  have hload : Memory.blank.loadRom cartridge 0 = .ok
      { ram := .filled 0
        rom := (ByteSpace.filled 0).load 0 cartridge
        extent := cartridge.length } := by
    rw [Memory.loadRom, Nat.zero_add, if_pos h, Memory.blank, Nat.zero_max]
  simp only [Machine.postBoot, hload]
  rfl

/-! ### The instruction image -/

variable {addr : UInt16}

/-- Behind the boot program the image holds the cartridge. -/
theorem get_attached (h : cartridge.length ≤ ByteSpace.size) :
    (attached cartridge).rom.get addr =
      if size ≤ addr.toNat then cartridge.getD addr.toNat 0 else bytes.getD addr.toNat 0 := by
  rw [attached, ByteSpace.get_load_drop _ (by decide) h, Memory.get_withBootProgram]
  by_cases hsize : size ≤ addr.toNat
  · have hbehind : bytes.getD addr.toNat 0 = 0 :=
      List.getD_eq_default _ _ (by rwa [length_bytes])
    rw [if_pos hsize, if_pos hsize, hbehind]
  · rw [if_neg hsize, if_neg hsize]

/-- A cartridge does not cover the boot program. -/
theorem loaded_attached (h : cartridge.length ≤ ByteSpace.size) (mapped : Bool) :
    Loaded (.ofCartridge (attached cartridge) cartridge mapped) := by
  intro addr v hv
  obtain ⟨hlt, -⟩ := List.getElem?_eq_some_iff.1 hv
  rw [length_bytes] at hlt
  change (attached cartridge).rom.get addr = v
  rw [get_attached h, if_neg (Nat.not_le.2 hlt), List.getD_eq_getElem?_getD]
  exact congrArg (Option.getD · 0) hv

/-- Without the boot program the image is the cartridge. -/
theorem image_withoutBoot (h : cartridge.length ≤ ByteSpace.size)
    (hsize : size ≤ cartridge.length) :
    (SystemBus.ofCartridge (attached cartridge) cartridge true).withoutBoot.memory.rom =
      (inserted cartridge).rom := by
  refine ByteSpace.ext_get fun addr => ?_
  have htake : (cartridge.take size).length = size := List.length_take_of_le hsize
  have hfits : (cartridge.take size).length ≤ ByteSpace.size := by rw [htake]; decide
  change ((attached cartridge).rom.load 0 (cartridge.take size)).get addr =
    ((ByteSpace.filled 0).load 0 cartridge).get addr
  rw [ByteSpace.get_load_zero _ hfits, ByteSpace.get_load_zero _ h, ByteSpace.get_filled,
    get_attached h]
  -- the first page is put back in place of the boot program, the rest has been there before
  by_cases hpage : size ≤ addr.toNat
  · rw [if_pos hpage, List.getD_eq_default _ _ (by rwa [htake])]
  · have hlt : addr.toNat < size := Nat.lt_of_not_le hpage
    have htaken : addr.toNat < (cartridge.take size).length := by rwa [htake]
    rw [List.getD_eq_getElem _ _ htaken, List.getElem_take, List.getD_eq_getElem]

theorem extent_withoutBoot (hsize : size ≤ cartridge.length) :
    (SystemBus.ofCartridge (attached cartridge) cartridge true).withoutBoot.memory.extent =
      (inserted cartridge).extent := by
  change max (max size cartridge.length) (cartridge.take size).length = cartridge.length
  rw [List.length_take_of_le hsize, Nat.max_eq_right hsize, Nat.max_eq_left hsize]

/-! ### Memory -/

/-- The boot program leaves the same bytes in memory, and three more. -/
theorem get_handedOver (hline : addr ≠ LcdTimer.lineAddr) (hlow : addr ≠ 0xFFFC)
    (hhigh : addr ≠ 0xFFFD) :
    handedOver.cells.get addr = Cells.get Machine.postBootRegisters.reverse addr := by
  change (if SystemBus.bootOffAddr = addr then 1 else
      if LcdTimer.lineAddr = addr then 1 else
      if 0xFFFC = addr then 0xB0 else
      if 0xFFFD = addr then 0x01 else Cells.get (programmed.drop 2) addr) =
    if SystemBus.bootOffAddr = addr then 1 else Cells.get (programmed.drop 2) addr
  rw [if_neg hline.symm, if_neg hlow.symm, if_neg hhigh.symm]

end BootProgram

namespace Machine

/-- The machine `m`, which has run the boot program in front of `cartridge`, is as `m'`, which has
not, but for the cycles that have passed, the line of the display and two bytes that were on the
stack. -/
structure HandedOver (cartridge : List UInt8) (m m' : Machine) : Prop where
  unmapped : m.bus.bootMapped = false
  cpu : m.cpu = { m'.cpu with cycles := BootProgram.cycles }
  ram : ∀ addr, addr ≠ LcdTimer.lineAddr → addr ≠ 0xFFFC → addr ≠ 0xFFFD →
    m.peek addr = m'.peek addr
  image : BootProgram.size ≤ cartridge.length →
    m.bus.memory.rom = m'.bus.memory.rom ∧ m.bus.memory.extent = m'.bus.memory.extent

/-- A machine with a boot program comes to the cartridge's entry point after a number of steps and
cycles that does not depend on the cartridge, and is then as one that starts there. -/
theorem handedOver_of_withBoot {cartridge : List UInt8} (h : cartridge.length ≤ ByteSpace.size) :
    ∃ m m' m₁, withBoot cartridge none = .ok m ∧ postBoot cartridge = .ok m' ∧
      Approach BootProgram.stop BootProgram.steps BootProgram.cycles m m₁ ∧
      m₁.cpu.regs.pc = BootProgram.stop ∧ HandedOver cartridge m₁ m' := by
  let bus := SystemBus.ofCartridge (BootProgram.attached cartridge) cartridge true
  have hbus : bus.WellFormed := SystemBus.wellFormed_ofCartridge _ cartridge true
  have hrun := BootProgram.approach_stop hbus (BootProgram.loaded_attached h true)
  refine ⟨_, _, _, BootProgram.withBoot_eq h, BootProgram.postBoot_eq h, hrun, rfl, rfl, rfl,
    ?_, ?_⟩
  · intro addr hline hlow hhigh
    have hget := BootProgram.get_handedOver hline hlow hhigh
    rw [← Cells.get_space, ← Cells.get_space] at hget
    exact hget
  · intro hsize
    exact ⟨BootProgram.image_withoutBoot h hsize, BootProgram.extent_withoutBoot hsize⟩

/-- The theorem for a cartridge that does nothing but halt. -/
theorem handedOver_of_withBoot_halt :
    (List.replicate 0x101 (0x76 : UInt8)).length ≤ ByteSpace.size ∧
    ∃ m m' m₁, withBoot (List.replicate 0x101 0x76) none = .ok m ∧
      postBoot (List.replicate 0x101 0x76) = .ok m' ∧
      Approach BootProgram.stop BootProgram.steps BootProgram.cycles m m₁ ∧
      m₁.cpu.regs.pc = BootProgram.stop ∧ HandedOver (List.replicate 0x101 0x76) m₁ m' := by
  have h : (List.replicate 0x101 (0x76 : UInt8)).length ≤ ByteSpace.size := by
    rw [List.length_replicate]
    decide
  exact ⟨h, handedOver_of_withBoot h⟩

end Machine

end Lr35902
