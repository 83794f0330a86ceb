import Lr35902.Machine.Log
import Lr35902.Proofs.Parametric
import Lr35902.Proofs.SystemBus
import Mathlib.Data.List.GetD

/-!
# What recorded accesses tell

A recorder does what the bus behind it does, and keeps what all its accesses keep
(`Recorder.simulation`).  So an action on a recorder is the action on the bus with a record of its
accesses, and what the accesses keep is true of the bus after the action together with that record,
whether the action succeeds or fails (`Recorder.of_simulates`).

For the system bus this says that a byte outside of the sprite table is as before an action that
has made no store to its address (`SystemBus.get_of_not_stored`).
-/

namespace Lr35902

variable {σ τ α : Type}

/-- Every load and every store keeps `I`, whether it succeeds or not. -/
structure Bus.DataInvariant [Bus σ] (I : σ → Prop) : Prop where
  read8 : ∀ addr b, I b → I (final (Bus.read8 addr) b)
  write8 : ∀ addr v b, I b → I (final (Bus.write8 addr v) b)

/-- Every access keeps `I`. -/
structure Bus.Invariant [Bus σ] (I : σ → Prop) : Prop extends Bus.DataInvariant I where
  fetch8 : ∀ addr b, I b → I (final (Bus.fetch8 addr) b)

/-- The board with a recorder in front of its bus, which holds the records `l`. -/
def Board.recorded (s : Board σ) (l : List BusAccess) : Board (Recorder σ) := ⟨s.cpu, ⟨s.bus, l⟩⟩

/-- The accesses of an action are those that its recorder holds in the end. -/
theorem Exec.accesses_eq (x : Exec (Recorder σ) α) (s : Board σ) :
    accesses x s = (final x (s.recorded [])).bus.newest.reverse := by
  unfold accesses final Board.recorded
  cases x ⟨s.cpu, ⟨s.bus, []⟩⟩ <;> rfl

namespace Recorder

/-- The recorder stands in front of `b` and is in `I`. -/
def Before (I : Recorder σ → Prop) (r : Recorder σ) (b : σ) : Prop := r.bus = b ∧ I r

/-- An access adds one record, whether it succeeds or fails. -/
theorem newest_record (kind : AccessKind) (addr : UInt16) (byte : α → UInt8)
    (access : EStateM Fault σ α) (r : Recorder σ) :
    ∃ v, (final (record kind addr byte access) r).newest = ⟨kind, addr, v⟩ :: r.newest := by
  cases h : access r.bus with
  | ok v b => exact ⟨some (byte v), by rw [final_ok (record_of_ok h)]⟩
  | error e b => exact ⟨none, by rw [final_error (record_of_error h)]⟩

variable {I : Recorder σ → Prop}

theorem simulates_record {kind : AccessKind} {addr : UInt16} {byte : α → UInt8}
    {access : EStateM Fault σ α} (h : ∀ r, I r → I (final (record kind addr byte access) r)) :
    Exec.Simulates (Before I) Eq (Exec.onBus (record kind addr byte access))
      (Exec.onBus access) := by
  rintro cpu r _ ⟨rfl, hr⟩
  have hkept := h r hr
  rw [Exec.onBus_apply, Exec.onBus_apply]
  cases haccess : access r.bus with
  | ok v b =>
    rw [final_ok (record_of_ok haccess)] at hkept
    rw [record_of_ok haccess]
    exact .ok rfl ⟨rfl, hkept⟩
  | error e b =>
    rw [final_error (record_of_error haccess)] at hkept
    rw [record_of_error haccess]
    exact .error ⟨rfl, hkept⟩

/-- A recorder does what the bus behind it does, and keeps what its accesses keep. -/
theorem dataSimulation [Bus σ] (hI : Bus.DataInvariant I) : Bus.DataSimulation (Before I) where
  load addr := simulates_record (hI.read8 addr)
  store addr v := simulates_record (hI.write8 addr v)

theorem simulation [Bus σ] (hI : Bus.Invariant I) : Bus.Simulation (Before I) where
  toDataSimulation := dataSimulation hI.toDataInvariant
  fetch := Exec.simulates_fetch fun addr => simulates_record (hI.fetch8 addr)

/-- Whatever the accesses are, a recorder does what the bus behind it does. -/
theorem transparent [Bus σ] : Bus.Simulation (Before fun _ : Recorder σ => True) :=
  simulation
    { read8 := fun _ _ _ => trivial
      write8 := fun _ _ _ _ => trivial
      fetch8 := fun _ _ _ => trivial }

section

variable {x : Exec (Recorder σ) α} {y : Exec σ α} {s t : Board σ}
  (h : Exec.Simulates (Before I) Eq x y)
include h

/-- What all accesses keep is true of the bus after an action and of the record of it. -/
theorem of_simulates (hs : I ⟨s.bus, []⟩) :
    I ⟨(final y s).bus, (Exec.accesses x s).reverse⟩ := by
  obtain ⟨-, hbus, hkept⟩ := h.final s.cpu (b := ⟨s.bus, []⟩) ⟨rfl, hs⟩
  rw [Exec.accesses_eq, List.reverse_reverse]
  change _ = (final y s).bus at hbus
  rw [← hbus]
  exact hkept

/-- An action that succeeds on the bus succeeds on a recorder in front of it. -/
theorem ok_of_simulates {l : List BusAccess} (hs : I ⟨s.bus, l⟩) {v : α} (hy : y s = .ok v t) :
    ∃ l', x (s.recorded l) = .ok v (t.recorded l') ∧ I ⟨t.bus, l'⟩ := by
  have hxy := h s.cpu ⟨s.bus, l⟩ s.bus ⟨rfl, hs⟩
  change Outcome.Related _ _ (x (s.recorded l)) (y s) at hxy
  rw [hy] at hxy
  generalize x (s.recorded l) = r at hxy ⊢
  cases hxy with
  | ok value bus =>
    obtain ⟨rfl, hkept⟩ := bus
    subst value
    exact ⟨_, rfl, hkept⟩

end

/-! ### Records of single accesses -/

section

variable [Bus σ] {r : Recorder σ} {addr : UInt16} {v : UInt8} {b : σ}

theorem read8_of_ok (h : Bus.read8 addr r.bus = .ok v b) :
    Bus.read8 addr r = .ok v ⟨b, ⟨.read, addr, some v⟩ :: r.newest⟩ :=
  record_of_ok h

theorem write8_of_ok (h : Bus.write8 addr v r.bus = .ok () b) :
    Bus.write8 addr v r = .ok () ⟨b, ⟨.write, addr, some v⟩ :: r.newest⟩ :=
  record_of_ok h

theorem fetch8_of_ok (h : Bus.fetch8 addr r.bus = .ok v b) :
    Bus.fetch8 addr r = .ok v ⟨b, ⟨.fetch, addr, some v⟩ :: r.newest⟩ :=
  record_of_ok h

end

end Recorder

/-! ### The system bus -/

namespace SystemBus

/-- The address lies in the sprite table. -/
def InSpriteTable (addr : UInt16) : Prop :=
  Memory.spriteTable ≤ addr.toNat ∧ addr.toNat < Memory.spriteTable + Memory.spriteTableSize

instance (addr : UInt16) : Decidable (InSpriteTable addr) := inferInstanceAs (Decidable (_ ∧ _))

/-- A copy changes the sprite table only, whose bytes become those that the page held before. -/
theorem get_withSprites (b : SystemBus) (v : UInt8) (a : UInt16) :
    (b.withSprites v).memory.ram.get a =
      if InSpriteTable a then
        b.memory.ram.get (v.toNat <<< 8 + (a.toNat - Memory.spriteTable)).toUInt16
      else b.memory.ram.get a := by
  rw [withSprites, ByteSpace.get_load_window _ _ (by decide)]
  rfl

/-- A store changes the byte at its address, and at most the sprite table besides. -/
theorem get_stored_of_ne (b : SystemBus) {addr a : UInt16} (v : UInt8) (hne : addr ≠ a)
    (ha : ¬ InSpriteTable a) : (b.stored addr v).memory.ram.get a = b.memory.ram.get a := by
  have hpoke : (b.poke addr v).memory.ram.get a = b.memory.ram.get a :=
    ByteSpace.get_set_ne _ v hne
  unfold stored
  split
  · rw [get_withSprites, if_neg ha, hpoke]
  · split
    · unfold withoutBoot
      split
      · exact hpoke
      · exact hpoke
    · exact hpoke

/-- The bus is well-formed, and the byte at `a` is `v` unless a store to `a` has been recorded. -/
def Holds (a : UInt16) (v : UInt8) (r : Recorder SystemBus) : Prop :=
  r.bus.WellFormed ∧
    ((∀ byte, ⟨.write, a, byte⟩ ∉ r.newest) → r.bus.memory.ram.get a = v)

theorem invariant_holds {a : UInt16} (ha : ¬ InSpriteTable a) (v : UInt8) :
    Bus.Invariant (Holds a v) where
  read8 addr r := by
    rintro ⟨hwf, hget⟩
    rw [final_ok (Recorder.read8_of_ok (r.bus.read8_eq addr))]
    exact ⟨hwf, fun hnew => hget fun byte hmem => hnew byte (List.mem_cons_of_mem _ hmem)⟩
  write8 addr w r := by
    rintro ⟨hwf, hget⟩
    rw [final_ok (Recorder.write8_of_ok (write8_eq addr w hwf))]
    refine ⟨WellFormed.stored hwf addr w, fun hnew => ?_⟩
    have hne : addr ≠ a := by
      rintro rfl
      exact hnew _ List.mem_cons_self
    rw [get_stored_of_ne r.bus w hne ha]
    exact hget fun byte hmem => hnew byte (List.mem_cons_of_mem _ hmem)
  fetch8 addr r := by
    rintro ⟨hwf, hget⟩
    rw [final_ok (Recorder.fetch8_of_ok (r.bus.fetch8_eq addr))]
    exact ⟨hwf, fun hnew => hget fun byte hmem => hnew byte (List.mem_cons_of_mem _ hmem)⟩

/-- A byte outside of the sprite table is as before an action that makes no store to its address. -/
theorem get_of_not_stored {x : Exec (Recorder SystemBus) α} {y : Exec SystemBus α}
    {s : Board SystemBus} {a : UInt16} (hs : s.bus.WellFormed) (ha : ¬ InSpriteTable a)
    (hxy : ∀ I, Bus.Invariant I → Exec.Simulates (Recorder.Before I) Eq x y)
    (hnot : ∀ byte, ⟨.write, a, byte⟩ ∉ Exec.accesses x s) :
    (final y s).bus.memory.ram.get a = s.bus.memory.ram.get a := by
  have hI := invariant_holds ha (s.bus.memory.ram.get a)
  have hholds := Recorder.of_simulates (hxy _ hI) ⟨hs, fun _ => rfl⟩
  exact hholds.2 fun byte hmem => hnot byte (List.mem_reverse.1 hmem)

end SystemBus

end Lr35902
