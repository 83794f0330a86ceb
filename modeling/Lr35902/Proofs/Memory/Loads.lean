import Lr35902.Proofs.Evaluation
import Lr35902.Proofs.Memory
import Mathlib.Algebra.Group.Nat.Defs

/-!
# Loading the image in pieces

The instruction image is filled by any number of calls that load bytes at an offset or attach a
cartridge, and each of them may fail.  `Memory.loads` makes such calls and keeps the `Segment` of
every one that has loaded something, the newest in front.

The calls and the image agree on all that happens (`Memory.image_of_loads`): a call fails exactly if
its segment does not fit, and then it changes nothing; a byte of the image is that of the newest
segment that covers it; the extent is the largest end of all segments; and there are only zeros
behind it.
-/

namespace Lr35902

namespace Memory

/-! ### Segments -/

/-- Bytes that were loaded in a row. -/
structure Segment where
  /-- The address of the first byte. -/
  start : Nat
  bytes : List UInt8
deriving DecidableEq

namespace Segment

/-- The address behind the last byte. -/
def stop (g : Segment) : Nat := g.start + g.bytes.length

/-- The segment's byte at address `a`, if the segment covers that. -/
def byte? (g : Segment) (a : Nat) : Option UInt8 :=
  if g.start ≤ a then g.bytes[a - g.start]? else none

theorem byte?_of_stop_le {g : Segment} {a : Nat} (h : g.stop ≤ a) : g.byte? a = none := by
  unfold stop at h
  unfold byte?
  rw [if_pos (by omega)]
  exact List.getElem?_eq_none (by omega)

end Segment

/-- The memory with the segment `g` in its image. -/
def withSegment (m : Memory) (g : Segment) : Memory :=
  { m with rom := m.rom.load g.start g.bytes, extent := max m.extent g.stop }

theorem loadRom_of_fits (m : Memory) {g : Segment} (h : g.stop ≤ ByteSpace.size) :
    m.loadRom g.bytes g.start = .ok (m.withSegment g) := if_pos h

theorem loadRom_of_not_fits (m : Memory) {g : Segment} (h : ¬ g.stop ≤ ByteSpace.size) :
    m.loadRom g.bytes g.start = .error (.romOverflow g.start g.bytes.length ByteSpace.size) :=
  if_neg h

theorem get_withSegment (m : Memory) {g : Segment} (h : g.stop ≤ ByteSpace.size) (a : UInt16) :
    (m.withSegment g).rom.get a = (g.byte? a.toNat).getD (m.rom.get a) := by
  unfold Segment.byte?
  rw [withSegment, ByteSpace.get_load _ h]
  split
  · exact List.getD_eq_getElem?_getD
  · rfl

/-! ### Calls -/

/-- A call that fills the image. -/
inductive LoadCall where
  /-- Loads bytes at an offset. -/
  | image (bytes : List UInt8) (offset : Nat)
  /-- Attaches a cartridge behind the boot program. -/
  | cartridge (bytes : List UInt8)
deriving DecidableEq

namespace LoadCall

/-- Makes the call. -/
def perform : LoadCall → EStateM Fault Memory Unit
  | image bytes offset => changing (·.loadRom bytes offset)
  | cartridge bytes => changing (·.attachCartridge bytes)

/-- What the call loads.  A cartridge that ends within its hidden page loads nothing, not even an
empty segment. -/
def segment? : LoadCall → Option Segment
  | image bytes offset => some ⟨offset, bytes⟩
  | cartridge bytes =>
    if BootProgram.size ≤ bytes.length then
      some ⟨BootProgram.size, bytes.drop BootProgram.size⟩
    else none

variable {c : LoadCall} {m : Memory} {g : Segment}

theorem perform_of_none (h : c.segment? = none) : c.perform m = .ok () m := by
  cases c with
  | image bytes offset => cases h
  | cartridge bytes =>
    have hshort : ¬ BootProgram.size ≤ bytes.length := fun hle => by simp [segment?, hle] at h
    rw [perform, changing, attachCartridge, if_neg hshort]

/-- Attaching a cartridge is loading the part of it that is not hidden. -/
theorem perform_of_some (h : c.segment? = some g) :
    c.perform m = changing (·.loadRom g.bytes g.start) m := by
  cases c with
  | image bytes offset =>
    cases h
    rfl
  | cartridge bytes =>
    by_cases hlong : BootProgram.size ≤ bytes.length
    · rw [segment?, if_pos hlong] at h
      cases h
      rw [perform, changing, attachCartridge, if_pos hlong]
      rfl
    · rw [segment?, if_neg hlong] at h
      cases h

theorem perform_of_fits (hc : c.segment? = some g) (h : g.stop ≤ ByteSpace.size) :
    c.perform m = .ok () (m.withSegment g) := by
  rw [perform_of_some hc, changing, loadRom_of_fits m h]

theorem perform_of_not_fits (hc : c.segment? = some g) (h : ¬ g.stop ≤ ByteSpace.size) :
    c.perform m = .error (.romOverflow g.start g.bytes.length ByteSpace.size) m := by
  rw [perform_of_some hc, changing, loadRom_of_not_fits m h]

/-- A call succeeds exactly if what it loads fits. -/
theorem perform_succeeds_iff :
    (∃ m', c.perform m = .ok () m') ↔ ∀ g ∈ c.segment?, g.stop ≤ ByteSpace.size := by
  cases hc : c.segment? with
  | none => exact ⟨fun _ => nofun, fun _ => ⟨m, perform_of_none hc⟩⟩
  | some g =>
    constructor
    · rintro ⟨m', hok⟩ _ ⟨⟩
      refine Decidable.byContradiction fun h => ?_
      rw [perform_of_not_fits hc h] at hok
      cases hok
    · exact fun h => ⟨_, perform_of_fits hc (h g rfl)⟩

theorem image_succeeds_iff {bytes : List UInt8} {offset : Nat} :
    (∃ m', (image bytes offset).perform m = .ok () m') ↔
      offset + bytes.length ≤ ByteSpace.size := by
  simp only [perform_succeeds_iff, segment?, Option.mem_some_iff, forall_eq', Segment.stop]

theorem cartridge_succeeds_iff {bytes : List UInt8} :
    (∃ m', (cartridge bytes).perform m = .ok () m') ↔ bytes.length ≤ ByteSpace.size := by
  rw [perform_succeeds_iff, segment?]
  split
  · next hlong =>
    simp only [Option.mem_some_iff, forall_eq', Segment.stop, List.length_drop,
      Nat.add_sub_cancel' hlong]
  · next hshort =>
    have hsize : BootProgram.size ≤ ByteSpace.size := by decide
    exact iff_of_true nofun (by omega)

/-- A call that fails changes nothing. -/
theorem eq_of_perform_error {e : Fault} {m' : Memory} (h : c.perform m = .error e m') :
    m' = m := by
  cases hc : c.segment? with
  | none =>
    rw [perform_of_none hc] at h
    cases h
  | some g =>
    rw [perform_of_some hc, changing] at h
    split at h
    · cases h
    · cases h
      rfl

end LoadCall

/-! ### Sequences of calls -/

/-- A memory and the segments that were loaded into it, the newest in front. -/
structure LoadRecord where
  memory : Memory
  segments : List Segment

namespace LoadRecord

/-- Makes the call and, if it succeeds, keeps its segment. -/
def call (r : LoadRecord) (c : LoadCall) : LoadRecord :=
  match c.perform r.memory with
  | .ok _ m => ⟨m, c.segment?.toList ++ r.segments⟩
  | .error _ m => ⟨m, r.segments⟩

/-- The memory comes from `start` by loading the segments. -/
structure Explains (start : Memory) (r : LoadRecord) : Prop where
  rom : ∀ a, r.memory.rom.get a =
    (r.segments.findSome? (·.byte? a.toNat)).getD (start.rom.get a)
  extent : (r.segments.map Segment.stop ++ [start.extent]).max? = some r.memory.extent
  ram : r.memory.ram = start.ram

variable {start : Memory} {r : LoadRecord}

theorem explains_start (start : Memory) : Explains start ⟨start, []⟩ := ⟨fun _ => rfl, rfl, rfl⟩

/-- A segment that fits is loaded over the older ones. -/
theorem Explains.withSegment (hr : Explains start r) {g : Segment} (h : g.stop ≤ ByteSpace.size) :
    Explains start ⟨r.memory.withSegment g, g :: r.segments⟩ where
  rom a := by
    rw [get_withSegment _ h, hr.rom a, List.findSome?_cons]
    cases g.byte? a.toNat <;> rfl
  extent := by
    rw [List.map_cons, List.cons_append, List.max?_cons, hr.extent]
    exact congrArg some (Nat.max_comm _ _)
  ram := hr.ram

/-- Every call keeps the segments in accordance with the memory. -/
theorem Explains.call (hr : Explains start r) (c : LoadCall) : Explains start (r.call c) := by
  unfold LoadRecord.call
  cases hc : c.segment? with
  | none =>
    rw [LoadCall.perform_of_none hc]
    exact hr
  | some g =>
    by_cases h : g.stop ≤ ByteSpace.size
    · rw [LoadCall.perform_of_fits hc h]
      exact hr.withSegment h
    · rw [LoadCall.perform_of_not_fits hc h]
      exact hr

theorem Explains.calls (hr : Explains start r) (calls : List LoadCall) :
    Explains start (calls.foldl LoadRecord.call r) := by
  induction calls generalizing r with
  | nil => exact hr
  | cons c calls ih => exact ih (hr.call c)

/-- No segment covers an address behind the extent, so what is there is as it was. -/
theorem Explains.get_of_extent_le (hr : Explains start r) {a : UInt16}
    (h : r.memory.extent ≤ a.toNat) :
    r.memory.rom.get a = start.rom.get a ∧ start.extent ≤ a.toNat := by
  obtain ⟨-, hmax⟩ := List.max?_eq_some_iff.1 hr.extent
  have hnone : r.segments.findSome? (·.byte? a.toNat) = none := by
    refine List.findSome?_eq_none_iff.2 fun g hg => Segment.byte?_of_stop_le ?_
    have hstop := hmax g.stop (List.mem_append_left _ (List.mem_map_of_mem hg))
    exact Nat.le_trans hstop h
  rw [hr.rom a, hnone]
  have hstart := hmax start.extent (List.mem_append_right _ (List.mem_singleton_self _))
  exact ⟨rfl, Nat.le_trans hstart h⟩

end LoadRecord

/-- Makes the calls one after another, whether they succeed or fail. -/
def loads (start : Memory) (calls : List LoadCall) : LoadRecord :=
  calls.foldl LoadRecord.call ⟨start, []⟩

theorem loads_explains (start : Memory) (calls : List LoadCall) :
    LoadRecord.Explains start (loads start calls) :=
  (LoadRecord.explains_start start).calls calls

/-! ### The image -/

/-- The boot program fills the image up to its extent. -/
theorem get_withBootProgram_of_extent_le {a : UInt16} (h : withBootProgram.extent ≤ a.toNat) :
    withBootProgram.rom.get a = 0 := by
  have hlength : BootProgram.bytes.length ≤ a.toNat := by
    rw [BootProgram.length_bytes]
    exact h
  rw [get_withBootProgram, List.getD_eq_default _ _ hlength]

theorem readRom_succeeds_iff {m : Memory} {a : Nat} :
    (∃ v, m.readRom a = .ok v) ↔ a < ByteSpace.size := by
  unfold readRom
  split <;> simp [*]

/-- After any calls on a memory with the boot program or on a blank one, whether they succeeded or
failed: the next bytes are loaded exactly if they fit, and the next cartridge is attached exactly if
it is not too long; a call that fails changes nothing; the image has a byte at all addresses of the
space, and no others; each of them is that of the last segment that covers it, or else the one at
the start; the extent is the maximum of the ends of all segments and of the extent at the start; the
bytes from the extent on are zero; and what loads and stores see is as it was. -/
theorem image_of_loads {start : Memory} (hstart : start = withBootProgram ∨ start = blank)
    (calls : List LoadCall) :
    let r := loads start calls
    (∀ bytes offset, (∃ m', (LoadCall.image bytes offset).perform r.memory = .ok () m') ↔
      offset + bytes.length ≤ 0x10000) ∧
    (∀ bytes, (∃ m', (LoadCall.cartridge bytes).perform r.memory = .ok () m') ↔
      bytes.length ≤ 0x10000) ∧
    (∀ (c : LoadCall) e m', c.perform r.memory = .error e m' → m' = r.memory) ∧
    (∀ a, (∃ v, r.memory.readRom a = .ok v) ↔ a < 0x10000) ∧
    (∀ a < 0x10000, r.memory.readRom a =
      (r.segments.findSome? (·.byte? a)).elim (start.readRom a) .ok) ∧
    (r.segments.map Segment.stop ++ [start.extent]).max? = some r.memory.extent ∧
    (∀ a < 0x10000, r.memory.extent ≤ a → r.memory.readRom a = .ok 0) ∧
    r.memory.ram = start.ram := by
  intro r
  have hr : LoadRecord.Explains start r := loads_explains start calls
  refine ⟨fun _ _ => LoadCall.image_succeeds_iff, fun _ => LoadCall.cartridge_succeeds_iff,
    fun _ _ _ => LoadCall.eq_of_perform_error, fun _ => readRom_succeeds_iff, fun a ha => ?_,
    hr.extent, fun a ha hextent => ?_, hr.ram⟩
  · rw [readRom_of_lt _ ha, readRom_of_lt _ ha, hr.rom, ByteSpace.toNat_toUInt16 ha]
    cases r.segments.findSome? (·.byte? a) <;> rfl
  · rw [← ByteSpace.toNat_toUInt16 ha] at hextent
    obtain ⟨hget, hbehind⟩ := hr.get_of_extent_le hextent
    rw [readRom_of_lt _ ha, hget]
    obtain rfl | rfl := hstart
    · rw [get_withBootProgram_of_extent_le hbehind]
    · rw [blank, ByteSpace.get_filled]

/-- A load over a part of another one, two that do not fit, a cartridge that is hidden and an empty
load. -/
def overlappingLoads : List LoadCall := [
  .image [1, 2, 3] 0x0200, .image [9] 0x0201, .image [7, 7] 0xFFFF, .image [7] (2 ^ 64 - 1),
  .cartridge (List.replicate 0xFF 7), .image [] 0x0400]

/-- The theorem for those loads. -/
theorem image_of_loads_overlapping :
    let m := (loads withBootProgram overlappingLoads).memory
    m.readRom 0x0200 = .ok 1 ∧ m.readRom 0x0201 = .ok 9 ∧ m.readRom 0x0202 = .ok 3 ∧
      m.extent = 0x0400 ∧ m.readRom 0xFFFF = .ok 0 := by
  intro m
  have hsegments : (loads withBootProgram overlappingLoads).segments =
      [⟨0x0400, []⟩, ⟨0x0201, [9]⟩, ⟨0x0200, [1, 2, 3]⟩] := by decide +kernel
  obtain ⟨-, -, -, -, hread, hextent, hzero, -⟩ :=
    image_of_loads (.inl rfl) overlappingLoads
  rw [hsegments] at hread hextent
  have hend : m.extent = 0x0400 := (Option.some.inj hextent).symm
  refine ⟨hread _ (by decide), hread _ (by decide), hread _ (by decide), hend, ?_⟩
  exact hzero _ (by decide) (by rw [hend]; decide)

end Memory

end Lr35902
