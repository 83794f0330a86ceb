import Lr35902.Proofs.Bus.Recorder
import Lr35902.Proofs.Lcd.Timing
import Lr35902.Proofs.Machine.Reachable

/-!
# The instruction image

A machine with a boot program has three images on top of each other: the built-in boot program, the
boot image that was given in its place, and the cartridge without its first page.  The first
nonzero store to the register that removes the boot program puts the cartridge's first page on top.

Nothing else ever changes a byte of the image, whatever the machine executes and whatever is stored
to its bus (`SystemBus.Layered.performed`), so at every moment the image follows from the two lists
of bytes and from whether there has been such a store (`Machine.image_integrity`).
-/

namespace Lr35902

/-- There is a store among the accesses that removes the boot program. -/
def BusAccess.Unmaps (l : List BusAccess) : Prop :=
  ∃ v : UInt8, v ≠ 0 ∧ ⟨.write, SystemBus.bootOffAddr, some v⟩ ∈ l

theorem BusAccess.unmaps_cons_of_ne {r : BusAccess} {l : List BusAccess}
    (h : ∀ v : UInt8, v ≠ 0 → ⟨.write, SystemBus.bootOffAddr, some v⟩ ≠ r) :
    Unmaps (r :: l) ↔ Unmaps l := by
  constructor
  · rintro ⟨v, hv, hmem⟩
    exact ⟨v, hv, (List.mem_cons.1 hmem).resolve_left (h v hv)⟩
  · rintro ⟨v, hv, hmem⟩
    exact ⟨v, hv, List.mem_cons_of_mem r hmem⟩

namespace SystemBus

/-- The byte of the image while the boot program is in place: behind the first page that of the
cartridge, else that of the boot image, else that of the built-in boot program. -/
def mappedByte (cartridge : List UInt8) (boot : Option (List UInt8)) (addr : UInt16) : UInt8 :=
  let a := addr.toNat
  if 0x100 ≤ a ∧ a < cartridge.length then cartridge.getD a 0
  else if a < (boot.getD []).length then (boot.getD []).getD a 0
  else if a < 0x100 then BootProgram.bytes.getD a 0
  else 0

/-- A list over another byte shows as far as it goes. -/
theorem getD_eq_ite (bytes : List UInt8) (a : Nat) (v : UInt8) :
    bytes.getD a v = if a < bytes.length then bytes.getD a 0 else v := by
  by_cases h : a < bytes.length
  · rw [if_pos h, List.getD_eq_getElem _ _ h, List.getD_eq_getElem _ _ h]
  · rw [if_neg h, List.getD_eq_default _ _ (Nat.le_of_not_lt h)]

/-- The layers one over the other. -/
theorem mappedByte_eq (cartridge : List UInt8) (boot : Option (List UInt8)) (addr : UInt16) :
    mappedByte cartridge boot addr =
      if 0x100 ≤ addr.toNat then
        cartridge.getD addr.toNat
          ((boot.getD []).getD addr.toNat (BootProgram.bytes.getD addr.toNat 0))
      else (boot.getD []).getD addr.toNat (BootProgram.bytes.getD addr.toNat 0) := by
  have hbuiltIn := getD_eq_ite BootProgram.bytes addr.toNat 0
  have hlength : BootProgram.bytes.length = 0x100 := BootProgram.length_bytes
  rw [hlength] at hbuiltIn
  rw [getD_eq_ite cartridge, getD_eq_ite (boot.getD []), hbuiltIn, mappedByte]
  by_cases hpage : 0x100 ≤ addr.toNat
  · simp only [hpage, true_and, if_true]
  · simp only [hpage, false_and, if_false]

/-- The byte of the image.  Without the boot program the cartridge shows on the first page, as far
as it goes. -/
def imageByte (cartridge : List UInt8) (boot : Option (List UInt8)) (mapped : Bool)
    (addr : UInt16) : UInt8 :=
  if ¬ mapped ∧ addr.toNat < min cartridge.length 0x100 then cartridge.getD addr.toNat 0
  else mappedByte cartridge boot addr

theorem imageByte_mapped (cartridge : List UInt8) (boot : Option (List UInt8)) (addr : UInt16) :
    imageByte cartridge boot true addr = mappedByte cartridge boot addr :=
  if_neg fun h => h.1 rfl

/-- The bus of a machine with the given images after the accesses `l`, newest first. -/
structure Layered (cartridge : List UInt8) (boot : Option (List UInt8)) (l : List BusAccess)
    (b : SystemBus) : Prop where
  head : b.cartridgeHead = cartridge.take 0x100
  unmapped : b.bootMapped = false ↔ BusAccess.Unmaps l
  image : ∀ addr, b.memory.rom.get addr = imageByte cartridge boot b.bootMapped addr
  extent : b.memory.extent = max 0x100 (max (boot.getD []).length cartridge.length)

variable {cartridge : List UInt8} {boot : Option (List UInt8)} {l : List BusAccess} {b : SystemBus}

namespace Layered

theorem wellFormed (h : Layered cartridge boot l b) : b.WellFormed := by
  rw [WellFormed, h.head, List.length_take]
  exact Nat.min_le_left _ _

/-- Only the image and the switch of the boot program matter. -/
theorem congr (h : Layered cartridge boot l b) {l' : List BusAccess} {m : Memory}
    (hl : BusAccess.Unmaps l' ↔ BusAccess.Unmaps l) (hrom : m.rom = b.memory.rom)
    (hextent : m.extent = b.memory.extent) :
    Layered cartridge boot l' { b with memory := m } where
  head := h.head
  unmapped := h.unmapped.trans hl.symm
  image addr := by
    change m.rom.get addr = imageByte cartridge boot b.bootMapped addr
    rw [hrom]
    exact h.image addr
  extent := hextent.trans h.extent

/-- The first page of the cartridge takes the place of the boot program. -/
theorem withoutBoot (h : Layered cartridge boot l b) {l' : List BusAccess}
    (hl : BusAccess.Unmaps l') : Layered cartridge boot l' b.withoutBoot := by
  have hlength : (cartridge.take 0x100).length = min 0x100 cartridge.length := List.length_take
  unfold SystemBus.withoutBoot
  by_cases hmapped : b.bootMapped
  · rw [if_pos hmapped]
    constructor
    case head => exact h.head
    case unmapped => exact iff_of_true rfl hl
    case image =>
      intro addr
      have hfits : (cartridge.take 0x100).length ≤ ByteSpace.size := by
        rw [hlength, ByteSpace.size]
        omega
      change (b.memory.rom.load 0 b.cartridgeHead).get addr = imageByte cartridge boot false addr
      rw [h.head, ByteSpace.get_load_zero _ hfits, h.image, hmapped, imageByte_mapped, imageByte]
      -- the page covers what lies below its end, and all else shows as before
      by_cases hpage : addr.toNat < min cartridge.length 0x100
      · have htaken : addr.toNat < (cartridge.take 0x100).length := by omega
        have hshown : addr.toNat < cartridge.length := by omega
        rw [if_pos ⟨Bool.false_ne_true, hpage⟩, List.getD_eq_getElem _ _ htaken,
          List.getElem_take, List.getD_eq_getElem _ _ hshown]
      · rw [if_neg (fun hnot => hpage hnot.2), List.getD_eq_default _ _ (by omega)]
    case extent =>
      change max b.memory.extent b.cartridgeHead.length = _
      rw [h.extent, h.head, hlength]
      omega
  · rw [if_neg hmapped]
    exact { h with unmapped := iff_of_true (Bool.not_eq_true _ ▸ hmapped) hl }

/-- A store changes the image if it removes the boot program, and only then. -/
theorem stored (h : Layered cartridge boot l b) (addr : UInt16) (v : UInt8) :
    Layered cartridge boot (⟨.write, addr, some v⟩ :: l) (b.stored addr v) := by
  unfold SystemBus.stored
  by_cases hcopy : addr = spriteCopyAddr
  · rw [if_pos hcopy]
    refine h.congr (BusAccess.unmaps_cons_of_ne ?_) rfl rfl
    rintro w - ⟨⟩
    exact absurd hcopy (by decide)
  rw [if_neg hcopy]
  by_cases hboot : addr = bootOffAddr ∧ v ≠ 0
  · rw [if_pos hboot]
    obtain ⟨rfl, hv⟩ := hboot
    have hpoked : Layered cartridge boot l (b.poke bootOffAddr v) := h.congr Iff.rfl rfl rfl
    exact hpoked.withoutBoot ⟨v, hv, List.mem_cons_self⟩
  · rw [if_neg hboot]
    refine h.congr (BusAccess.unmaps_cons_of_ne ?_) rfl rfl
    rintro w hw ⟨⟩
    exact hboot ⟨rfl, hw⟩

/-- A load or a fetch leaves all as it is. -/
theorem loaded (h : Layered cartridge boot l b) {kind : AccessKind} (hkind : kind ≠ .write)
    (addr : UInt16) (v : UInt8) : Layered cartridge boot (⟨kind, addr, some v⟩ :: l) b := by
  refine h.congr (BusAccess.unmaps_cons_of_ne ?_) rfl rfl
  rintro w - ⟨⟩
  exact hkind rfl

/-- What a recorder knows of the image, after the accesses `l` that were made before. -/
theorem invariant (cartridge : List UInt8) (boot : Option (List UInt8)) (l : List BusAccess) :
    Bus.Invariant fun r : Recorder SystemBus =>
      Layered cartridge boot (r.newest ++ l) r.bus where
  read8 addr r h := by
    rw [final_ok (Recorder.read8_of_ok (r.bus.read8_eq addr))]
    exact h.loaded (by decide) addr _
  write8 addr v r h := by
    rw [final_ok (Recorder.write8_of_ok (write8_eq addr v h.wellFormed))]
    exact h.stored addr v
  fetch8 addr r h := by
    rw [final_ok (Recorder.fetch8_of_ok (r.bus.fetch8_eq addr))]
    exact h.loaded (by decide) addr _

end Layered

end SystemBus

namespace Machine

/-! ### Operations -/

/-- What can be done to a machine. -/
inductive Operation where
  /-- Its next step. -/
  | step
  /-- A store to its bus. -/
  | write (addr : UInt16) (v : UInt8)

namespace Operation

/-- The machine after the operation, whether that succeeds or fails. -/
def perform (m : Machine) : Operation → Machine
  | step => m.next
  | write addr v => { m with bus := final (Bus.write8 addr v) m.bus }

/-- The accesses to the bus that the operation makes. -/
def accesses (m : Machine) : Operation → List BusAccess
  | step => Exec.accesses Exec.tick m.board
  | write addr v => [⟨.write, addr, some v⟩]

end Operation

/-- The machine after the operations. -/
def performed (m : Machine) (ops : List Operation) : Machine := ops.foldl Operation.perform m

/-- The accesses to the bus that the operations make. -/
def recorded (m : Machine) : List Operation → List BusAccess
  | [] => []
  | op :: ops => op.accesses m ++ (op.perform m).recorded ops

variable {m : Machine} {cartridge : List UInt8} {boot : Option (List UInt8)}
  {l : List BusAccess}

/-- The bus after a step is as the processor left it, but for what the display has stored. -/
theorem bus_next (m : Machine) :
    ∃ memory, m.next.bus = { (final Exec.tick m.board).bus with memory } ∧
      memory.rom = (final Exec.tick m.board).bus.memory.rom ∧
      memory.extent = (final Exec.tick m.board).bus.memory.extent := by
  unfold next final
  rw [step_eq]
  cases Exec.tick m.board with
  | ok n s =>
    refine ⟨(m.lcd.advance s.bus.memory n).2, rfl, ?_, ?_⟩
    · exact LcdTimer.rom_advance _ _ _
    · exact LcdTimer.extent_advance _ _ _
  | error e s => exact ⟨s.bus.memory, rfl, rfl, rfl⟩

/-- An operation keeps the layers of the image. -/
theorem layered_perform (h : m.bus.Layered cartridge boot l) (op : Operation) :
    (op.perform m).bus.Layered cartridge boot ((op.accesses m).reverse ++ l) := by
  cases op with
  | step =>
    have hsimulates := Exec.simulates_tick
      (Recorder.simulation (SystemBus.Layered.invariant cartridge boot l))
    have htick := Recorder.of_simulates (s := m.board) hsimulates h
    obtain ⟨memory, hbus, hrom, hextent⟩ := m.bus_next
    change m.next.bus.Layered _ _ _
    rw [hbus]
    exact htick.congr Iff.rfl hrom hextent
  | write addr v =>
    change (final (Bus.write8 addr v) m.bus).Layered _ _ _
    rw [final_ok (SystemBus.write8_eq addr v h.wellFormed)]
    exact h.stored addr v

theorem layered_performed (h : m.bus.Layered cartridge boot l) (ops : List Operation) :
    (m.performed ops).bus.Layered cartridge boot ((m.recorded ops).reverse ++ l) := by
  induction ops generalizing m l with
  | nil => exact h
  | cons op ops ih =>
    have hperformed := ih (layered_perform h op)
    rw [← List.append_assoc, ← List.reverse_append] at hperformed
    exact hperformed

/-! ### The start -/

/-- The memory with the boot image, if there is one, over the built-in boot program. -/
def bootMemory : Option (List UInt8) → Memory
  | none => Memory.withBootProgram
  | some image =>
    { Memory.withBootProgram with
      rom := Memory.withBootProgram.rom.load 0 image
      extent := max Memory.withBootProgram.extent image.length }

theorem extent_bootMemory (boot : Option (List UInt8)) :
    (bootMemory boot).extent = max 0x100 (boot.getD []).length := by
  cases boot <;> rfl

theorem get_bootMemory (hboot : (boot.getD []).length ≤ 0x10000) (addr : UInt16) :
    (bootMemory boot).rom.get addr =
      (boot.getD []).getD addr.toNat (BootProgram.bytes.getD addr.toNat 0) := by
  cases boot with
  | none => exact Memory.get_withBootProgram
  | some image =>
    rw [← Memory.get_withBootProgram]
    exact ByteSpace.get_load_zero _ hboot

/-- A boot image that is too long is refused before the cartridge is looked at. -/
theorem withBoot_of_long_boot {image : List UInt8} (h : 0x10000 < image.length) :
    withBoot cartridge (some image) = .error (.romOverflow 0 image.length 0x10000) := by
  have hload : Memory.withBootProgram.loadRom image 0 =
      .error (.romOverflow 0 image.length 0x10000) := by
    rw [Memory.loadRom, Nat.zero_add]
    exact if_neg (Nat.not_le.2 h)
  rw [withBoot, hload]
  rfl

/-- The start with a boot image that fits. -/
theorem withBoot_eq (hboot : (boot.getD []).length ≤ 0x10000) :
    withBoot cartridge boot = (do
      let memory ← (bootMemory boot).attachCartridge cartridge
      return ⟨.init .boot .blocked, .ofCartridge memory cartridge true, {}⟩) := by
  cases boot with
  | none => rfl
  | some image =>
    have hload : Memory.withBootProgram.loadRom image 0 = .ok (bootMemory (some image)) := by
      rw [Memory.loadRom, Nat.zero_add]
      exact if_pos hboot
    rw [withBoot, hload]
    rfl

theorem withBoot_of_long_cartridge (hboot : (boot.getD []).length ≤ 0x10000)
    (h : 0x10000 < cartridge.length) :
    withBoot cartridge boot =
      .error (.romOverflow 0x100 (cartridge.length - 0x100) 0x10000) := by
  rw [withBoot_eq hboot, (bootMemory boot).attachCartridge_of_long h]
  rfl

/-- If both images fit, the machine starts with all layers in place. -/
theorem exists_layered (hboot : (boot.getD []).length ≤ 0x10000)
    (h : cartridge.length ≤ 0x10000) :
    ∃ m, withBoot cartridge boot = .ok m ∧ m.bus.Layered cartridge boot [] := by
  have hextent := extent_bootMemory boot
  have hattach := (bootMemory boot).attachCartridge_eq (hextent ▸ Nat.le_max_left _ _) h
  have hstart : withBoot cartridge boot = _ := withBoot_eq hboot
  rw [hattach] at hstart
  refine ⟨_, hstart, ?_⟩
  constructor
  case head => rfl
  case unmapped =>
    have hnone : ¬ BusAccess.Unmaps [] := by
      rintro ⟨v, -, hmem⟩
      cases hmem
    exact iff_of_false Bool.true_eq_false.mp hnone
  case extent =>
    change max (bootMemory boot).extent cartridge.length = _
    rw [hextent, Nat.max_assoc]
  case image =>
    intro addr
    change ((bootMemory boot).rom.load _ _).get addr = SystemBus.imageByte cartridge boot true addr
    rw [ByteSpace.get_load_drop _ (by decide) h, get_bootMemory hboot,
      SystemBus.imageByte_mapped, SystemBus.mappedByte_eq]
    rfl

/-! ### Every moment -/

/-- What is true of the image of the machine `m`, which has been started with the given images,
after the operations `ops`. -/
structure Imaged (cartridge : List UInt8) (boot : Option (List UInt8)) (m : Machine)
    (ops : List Operation) : Prop where
  /-- The boot program is in place until the first nonzero store to its register. -/
  unmapped : (m.performed ops).bus.bootMapped = false ↔ BusAccess.Unmaps (m.recorded ops)
  fetch8 : ∀ addr, Bus.fetch8 addr (m.performed ops).bus =
    .ok (SystemBus.imageByte cartridge boot (m.performed ops).bus.bootMapped addr)
      (m.performed ops).bus
  /-- Below 0x8000 a load sees the image, too. -/
  read8 : ∀ addr < 0x8000,
    Bus.read8 addr (m.performed ops).bus = Bus.fetch8 addr (m.performed ops).bus
  extent : Bus.extent (m.performed ops).bus =
    max 0x100 (max (boot.getD []).length cartridge.length)
  /-- Without the boot program, no operation changes the image or puts the boot program back. -/
  settled : (m.performed ops).bus.bootMapped = false → ∀ more,
    (m.performed (ops ++ more)).bus.bootMapped = false ∧
      (m.performed (ops ++ more)).bus.memory.rom = (m.performed ops).bus.memory.rom

theorem performed_append (m : Machine) (ops more : List Operation) :
    m.performed (ops ++ more) = (m.performed ops).performed more := List.foldl_append

/-- Once the boot program has been removed, it stays so, and so does the image. -/
theorem settled_of_layered (h : m.bus.Layered cartridge boot l)
    (hunmapped : m.bus.bootMapped = false) (ops : List Operation) :
    (m.performed ops).bus.bootMapped = false ∧
      (m.performed ops).bus.memory.rom = m.bus.memory.rom := by
  have hkept := layered_performed h ops
  -- the store that removed the boot program stays on record
  obtain ⟨v, hv, hmem⟩ := h.unmapped.1 hunmapped
  have hstill : (m.performed ops).bus.bootMapped = false :=
    hkept.unmapped.2 ⟨v, hv, List.mem_append_right _ hmem⟩
  refine ⟨hstill, ByteSpace.ext_get fun addr => ?_⟩
  rw [hkept.image, h.image, hstill, hunmapped]

/-- A machine that starts with all layers in place keeps them. -/
theorem imaged (h : m.bus.Layered cartridge boot []) (ops : List Operation) :
    Imaged cartridge boot m ops := by
  have hkept := layered_performed h ops
  rw [List.append_nil] at hkept
  constructor
  case unmapped =>
    rw [hkept.unmapped]
    simp only [BusAccess.Unmaps, List.mem_reverse]
  case fetch8 =>
    intro addr
    rw [SystemBus.fetch8_eq, hkept.image]
  case read8 =>
    intro addr haddr
    have hview : (m.performed ops).bus.view addr = (m.performed ops).bus.memory.rom.get addr :=
      if_pos haddr
    rw [SystemBus.fetch8_eq, SystemBus.read8_eq, hview]
  case extent => exact hkept.extent
  case settled =>
    intro hunmapped more
    rw [performed_append]
    exact settled_of_layered hkept hunmapped more

/-- A start fails exactly if an image is too long.  Otherwise, after any steps and any stores to the
bus, the image follows from the two images and from whether the boot program has been removed. -/
theorem image_integrity (cartridge : List UInt8) (boot : Option (List UInt8)) :
    ((∃ offset length, withBoot cartridge boot = .error (.romOverflow offset length 0x10000)) ↔
      0x10000 < cartridge.length ∨ 0x10000 < (boot.getD []).length) ∧
    (cartridge.length ≤ 0x10000 → (boot.getD []).length ≤ 0x10000 →
      ∃ m, withBoot cartridge boot = .ok m ∧ ∀ ops, Imaged cartridge boot m ops) := by
  refine ⟨⟨?_, ?_⟩, ?_⟩
  · rintro ⟨offset, length, hfails⟩
    refine Decidable.byContradiction fun hfits => ?_
    obtain ⟨hcartridge, hboot⟩ := not_or.1 hfits
    obtain ⟨m, hstart, -⟩ := exists_layered (Nat.le_of_not_lt hboot) (Nat.le_of_not_lt hcartridge)
    cases hstart.symm.trans hfails
  · intro hlong
    by_cases hboot : 0x10000 < (boot.getD []).length
    · cases boot with
      | none => exact absurd hboot (by decide)
      | some image => exact ⟨_, _, withBoot_of_long_boot hboot⟩
    · exact ⟨_, _, withBoot_of_long_cartridge (Nat.le_of_not_lt hboot)
        (hlong.resolve_right hboot)⟩
  · intro hcartridge hboot
    obtain ⟨m, hstart, hlayered⟩ := exists_layered hboot hcartridge
    exact ⟨m, hstart, imaged hlayered⟩

/-- A boot program that removes itself and then waits. -/
def removesItself : List UInt8 := [0x3E, 0x01, 0xE0, 0x50, 0x76]

/-- The theorem for a cartridge of two bytes behind that boot program.  Once it has removed itself
they show in its place, and behind them all of it is still there, whatever is done after that. -/
theorem image_integrity_removesItself :
    ∃ m, withBoot [0x11, 0x22] (some removesItself) = .ok m ∧
      (∀ addr, Bus.fetch8 addr (m.performed [.step]).bus =
        .ok (SystemBus.mappedByte [0x11, 0x22] (some removesItself) addr)
          (m.performed [.step]).bus) ∧
      ∀ more, (m.performed ([.step, .step] ++ more)).bus.bootMapped = false ∧
        (m.performed ([.step, .step] ++ more)).bus.memory.rom.window 0 6 =
          [0x11, 0x22, 0xE0, 0x50, 0x76, BootProgram.bytes.getD 5 0] := by
  obtain ⟨m, hstart, himaged⟩ :=
    (image_integrity [0x11, 0x22] (some removesItself)).2 (by decide) (by decide)
  obtain ⟨m', hstart', hmapped, hunmapped, hwindow⟩ : ∃ m',
      withBoot [0x11, 0x22] (some removesItself) = .ok m' ∧
      (m'.performed [.step]).bus.bootMapped = true ∧
      (m'.performed [.step, .step]).bus.bootMapped = false ∧
      (m'.performed [.step, .step]).bus.memory.rom.window 0 6 =
        [0x11, 0x22, 0xE0, 0x50, 0x76, BootProgram.bytes.getD 5 0] :=
    ⟨_, rfl, by decide +kernel⟩
  cases hstart.symm.trans hstart'
  refine ⟨m, hstart, fun addr => ?_, fun more => ?_⟩
  · rw [(himaged [.step]).fetch8, hmapped, SystemBus.imageByte_mapped]
  · obtain ⟨hstill, hrom⟩ := (himaged [.step, .step]).settled hunmapped more
    rw [hrom]
    exact ⟨hstill, hwindow⟩

end Machine

end Lr35902
