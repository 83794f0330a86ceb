import Lr35902.Proofs.Bus.Recorder

/-!
# The system bus as a memory

To most accesses a system bus is the memory behind it (`BusAccess.Plain`): only loads from the
instruction image, stores to the register that copies sprites, and the store that removes the boot
program are not.

So a processor that keeps to plain accesses cannot tell one from the other.  Whatever its driver
calls for, in whatever order (`Call`), it gives the same replies on both, and after each call its
state is the same and so is the memory (`Board.course_onSystemBus`).  The processor on the memory
simulates the one on the bus until the record of accesses holds one that is not plain, from where it
does not come back (`SystemBus.simulationUnless`).
-/

namespace Lr35902

/-! ### Plain accesses -/

/-- The access does to a system bus what it does to the memory behind it.  `mapped` tells whether
the boot program is in place: if it is not, it cannot be removed again. -/
structure BusAccess.Plain (mapped : Bool) (a : BusAccess) : Prop where
  image : a.kind = .read → SystemBus.imageEnd ≤ a.addr
  copy : a.kind = .write → a.addr ≠ SystemBus.spriteCopyAddr
  bootOff : a.kind = .write → a.addr = SystemBus.bootOffAddr → mapped = true → a.byte = some 0

instance (mapped : Bool) (a : BusAccess) : Decidable (a.Plain mapped) :=
  decidable_of_iff ((a.kind = .read → SystemBus.imageEnd ≤ a.addr) ∧
      (a.kind = .write → a.addr ≠ SystemBus.spriteCopyAddr) ∧
      (a.kind = .write → a.addr = SystemBus.bootOffAddr → mapped = true → a.byte = some 0))
    ⟨fun ⟨h₁, h₂, h₃⟩ => ⟨h₁, h₂, h₃⟩, fun ⟨h₁, h₂, h₃⟩ => ⟨h₁, h₂, h₃⟩⟩

namespace Recorder

variable {σ α : Type} {mapped : Bool}

/-- An access that is not plain has been recorded. -/
def Escaped (mapped : Bool) (r : Recorder σ) : Prop := ∃ a ∈ r.newest, ¬ a.Plain mapped

/-- Records are kept, so an escape is for ever. -/
theorem Escaped.record {r : Recorder σ} (hr : r.Escaped mapped) (kind : AccessKind)
    (addr : UInt16) (byte : α → UInt8) (access : EStateM Fault σ α) :
    (final (Recorder.record kind addr byte access) r).Escaped mapped := by
  obtain ⟨a, ha, hplain⟩ := hr
  obtain ⟨v, hnew⟩ := newest_record kind addr byte access r
  exact ⟨a, hnew ▸ List.mem_cons_of_mem _ ha, hplain⟩

/-- An access that is not plain, whether it succeeds or fails, is an escape. -/
theorem escaped_record {kind : AccessKind} {addr : UInt16} {byte : α → UInt8}
    (hsome : ∀ v, ¬ (⟨kind, addr, some (byte v)⟩ : BusAccess).Plain mapped)
    (hnone : ¬ (⟨kind, addr, none⟩ : BusAccess).Plain mapped) (access : EStateM Fault σ α)
    (r : Recorder σ) : (final (Recorder.record kind addr byte access) r).Escaped mapped := by
  cases h : access r.bus with
  | ok v b =>
    rw [final_ok (record_of_ok h)]
    exact ⟨_, List.mem_cons_self, hsome v⟩
  | error e b =>
    rw [final_error (record_of_error h)]
    exact ⟨_, List.mem_cons_self, hnone⟩

end Recorder

theorem Exec.final_onBus {σ α : Type} (access : EStateM Fault σ α) (s : Board σ) :
    (final (onBus access) s).bus = final access s.bus := by
  unfold final
  rw [onBus_apply]
  cases access s.bus <;> rfl

namespace SystemBus

variable {α : Type} {head : List UInt8} {mapped : Bool}

/-- The recorder is in front of a system bus in front of the memory. -/
def InFront (head : List UInt8) (mapped : Bool) (r : Recorder SystemBus) (m : Memory) : Prop :=
  r.bus = ⟨m, head, mapped⟩

section

variable {kind : AccessKind} {addr : UInt16} {byte : α → UInt8} {access : EStateM Fault SystemBus α}
  {plain : EStateM Fault Memory α}

/-- An access that is the same to the bus and to the memory behind it is simulated. -/
theorem unless_record_of_plain
    (h : ∀ m, ∃ v m', access ⟨m, head, mapped⟩ = .ok v ⟨m', head, mapped⟩ ∧ plain m = .ok v m') :
    Exec.SimulatesUnless (Recorder.Escaped mapped) (InFront head mapped)
      (Exec.onBus (Recorder.record kind addr byte access)) (Exec.onBus plain) where
  stays s hs := by
    rw [Exec.final_onBus]
    exact hs.record kind addr byte access
  related cpu r m hr := by
    obtain ⟨v, m', haccess, hplain⟩ := h m
    rw [← hr] at haccess
    rw [Exec.onBus_apply, Exec.onBus_apply, Recorder.record_of_ok haccess, hplain]
    exact .inr (.ok rfl rfl)

/-- About an access that is not plain nothing is said. -/
theorem unless_record_of_not_plain
    (hsome : ∀ v, ¬ (⟨kind, addr, some (byte v)⟩ : BusAccess).Plain mapped)
    (hnone : ¬ (⟨kind, addr, none⟩ : BusAccess).Plain mapped) :
    Exec.SimulatesUnless (Recorder.Escaped mapped) (InFront head mapped)
      (Exec.onBus (Recorder.record kind addr byte access)) (Exec.onBus plain) where
  stays s hs := by
    rw [Exec.final_onBus]
    exact hs.record kind addr byte access
  related cpu r m _ := by
    rw [Exec.final_onBus]
    exact .inl (Recorder.escaped_record hsome hnone access r)

end

/-- A processor on a memory does what it does on a system bus in front of that memory, until it
makes an access that is not plain. -/
theorem simulationUnless (head : List UInt8) (mapped : Bool) :
    Bus.SimulationUnless (Recorder.Escaped mapped) (InFront head mapped) where
  load addr := by
    by_cases himage : imageEnd ≤ addr
    · refine unless_record_of_plain fun m => ⟨_, m, read8_eq _ addr, ?_⟩
      rw [view_of_le _ himage]
      exact m.read8_eq addr
    · exact unless_record_of_not_plain (fun _ h => himage (h.image rfl)) fun h =>
        himage (h.image rfl)
  store addr v := by
    by_cases hcopy : addr = spriteCopyAddr
    · exact unless_record_of_not_plain (fun _ h => h.copy rfl hcopy) fun h => h.copy rfl hcopy
    by_cases hboot : addr = bootOffAddr → mapped = true → v = 0
    · exact unless_record_of_plain fun m =>
        ⟨(), _, write8_eq_poke ⟨m, head, mapped⟩ hcopy hboot, m.write8_eq addr v⟩
    · refine unless_record_of_not_plain (fun _ h => hboot fun haddr hmapped => ?_) fun h => ?_
      · exact Option.some.inj (h.bootOff rfl haddr hmapped)
      · exact hboot fun haddr hmapped => nomatch h.bootOff rfl haddr hmapped
  fetch := Exec.unless_fetch fun addr =>
    unless_record_of_plain fun m => ⟨_, m, fetch8_eq _ addr, m.fetch8_eq addr⟩

end SystemBus

/-! ### Calls -/

/-- What the driver of a processor calls for. -/
inductive Call where
  | step
  | pendingInterrupt
  | dispatch (i : Interrupt)
  | wake

/-- What the processor gives back. -/
inductive Reply where
  | cycles (n : Nat)
  | pending (i : Option Interrupt)
  | done
deriving DecidableEq

/-- The action that is called for. -/
def Call.exec {σ : Type} [Bus σ] : Call → Exec σ Reply
  | step => return .cycles (← Exec.step)
  | pendingInterrupt => return .pending (← Exec.pendingInterrupt)
  | dispatch i => return .cycles (← Exec.dispatch i)
  | wake => do
    Exec.wake
    return .done

namespace Board

section

variable {σ : Type} [Bus σ]

/-- The replies to the calls, or the faults in their place, each with the board after that call.  A
call that fails leaves a board for the next one. -/
def course (s : Board σ) : List Call → List (Except Fault Reply × Board σ)
  | [] => []
  | c :: calls =>
    match c.exec s with
    | .ok v t => (.ok v, t) :: t.course calls
    | .error e t => (.error e, t) :: t.course calls

/-- The accesses to the bus that the calls make. -/
def accesses (s : Board σ) : List Call → List BusAccess
  | [] => []
  | c :: calls => Exec.accesses c.exec s ++ (final c.exec s).accesses calls

end

/-- The processor on a system bus in front of the memory. -/
def onSystemBus (s : Board Memory) (head : List UInt8) (mapped : Bool) : Board SystemBus :=
  ⟨s.cpu, ⟨s.bus, head, mapped⟩⟩

end Board

namespace Call

section

variable {σ τ : Type} [Bus σ] [Bus τ] {E : σ → Prop} {B : σ → τ → Prop}

theorem unless_exec (hB : Bus.SimulationUnless E B) (c : Call) :
    Exec.SimulatesUnless E B (c.exec : Exec σ Reply) (c.exec : Exec τ Reply) := by
  cases c with
  | step => exact (Exec.unless_step hB).bind fun _ => .pure
  | pendingInterrupt =>
    exact (Exec.unless_pendingInterrupt hB.toDataSimulationUnless).bind fun _ => .pure
  | dispatch i => exact (Exec.unless_dispatch hB.toDataSimulationUnless i).bind fun _ => .pure
  | wake => exact Exec.SimulatesUnless.next (.modifyCpu _) .pure

theorem simulates_exec (hB : Bus.Simulation B) (c : Call) :
    Exec.Simulates B Eq (c.exec : Exec σ Reply) (c.exec : Exec τ Reply) :=
  Exec.simulates_iff.2 (unless_exec hB.toUnless c)

end

variable {head : List UInt8} {mapped : Bool} {s : Board Memory}

/-- A call with plain accesses only does the same on the bus and on the memory. -/
theorem exec_onSystemBus (c : Call)
    (h : ∀ a ∈ Exec.accesses c.exec (s.onSystemBus head mapped), a.Plain mapped) :
    (c.exec : Exec SystemBus Reply) (s.onSystemBus head mapped) =
      match (c.exec : Exec Memory Reply) s with
      | .ok v t => .ok v (t.onSystemBus head mapped)
      | .error e t => .error e (t.onSystemBus head mapped) := by
  -- the recorder stands between the two: it does what the bus does, and what the memory does
  have hbus := simulates_exec (Recorder.transparent (σ := SystemBus)) c s.cpu
    ⟨⟨s.bus, head, mapped⟩, []⟩ ⟨s.bus, head, mapped⟩ ⟨rfl, trivial⟩
  have hmemory := (unless_exec (SystemBus.simulationUnless head mapped) c).related s.cpu
    ⟨⟨s.bus, head, mapped⟩, []⟩ s.bus rfl
  obtain ⟨a, ha, hplain⟩ | hmemory := hmemory
  · rw [Exec.accesses_eq] at h
    exact absurd (h a (List.mem_reverse.2 ha)) hplain
  unfold Board.onSystemBus
  generalize (c.exec : Exec (Recorder SystemBus) Reply) _ = recorded at hbus hmemory
  generalize (c.exec : Exec SystemBus Reply) _ = onBus at hbus ⊢
  generalize (c.exec : Exec Memory Reply) _ = onMemory at hmemory ⊢
  cases hmemory with
  | ok value bus =>
    cases hbus with
    | ok value' bus' => rw [← value, ← value', ← bus'.1, bus]
  | error bus =>
    cases hbus with
    | error bus' => rw [← bus'.1, bus]

end Call

namespace Board

/-- Whatever a driver calls for, as long as the processor on the system bus makes plain accesses
only, it gives the same replies as on the memory alone, and after each call it is in the same state,
with the same memory behind the bus.  No plain access removes the boot program, so `mapped` tells of
all the accesses whether it is in place. -/
theorem course_onSystemBus (s : Board Memory) (head : List UInt8) (mapped : Bool)
    (calls : List Call)
    (h : ∀ a ∈ (s.onSystemBus head mapped).accesses calls, a.Plain mapped) :
    (s.onSystemBus head mapped).course calls =
      (s.course calls).map fun (reply, t) => (reply, t.onSystemBus head mapped) := by
  induction calls generalizing s with
  | nil => rfl
  | cons c calls ih =>
    rw [accesses, List.forall_mem_append] at h
    obtain ⟨hfirst, hlater⟩ := h
    have hexec := c.exec_onSystemBus hfirst
    rw [course, course]
    cases hs : (c.exec : Exec Memory Reply) s with
    | ok v t =>
      rw [hs] at hexec
      rw [final_ok hexec] at hlater
      rw [hexec, List.map_cons, ← ih t hlater]
    | error e t =>
      rw [hs] at hexec
      rw [final_error hexec] at hlater
      rw [hexec, List.map_cons, ← ih t hlater]

/-- A program that stores its stack pointer, of which the high byte is zero, across the address of
the register that removes the boot program, and waits.  The handler of the display's interrupt
starts with an opcode that does not exist. -/
def straddling : Board Memory where
  cpu := { regs := { sp := 0x0012, pc := ProgramCounter.origin } }
  bus := { Memory.blank with
    rom := (ByteSpace.filled 0).load 0 ([0x08, 0x4F, 0xFF, 0x76] ++ List.replicate 60 0 ++ [0xD3]) }

/-- The theorem for that program, with the boot program in place. -/
theorem course_onSystemBus_straddling :
    let calls : List Call := [.step, .step, .wake, .dispatch .vblank, .step, .pendingInterrupt]
    (∀ a ∈ (straddling.onSystemBus [0x31] true).accesses calls, a.Plain true) ∧
      ⟨.write, SystemBus.bootOffAddr, some 0⟩ ∈
        (straddling.onSystemBus [0x31] true).accesses calls ∧
      (straddling.onSystemBus [0x31] true).course calls =
        (straddling.course calls).map (fun (reply, t) => (reply, t.onSystemBus [0x31] true)) ∧
      (straddling.course calls).map (·.1.toOption) =
        [some (.cycles 20), some (.cycles 4), some .done, some (.cycles 20), none,
          some (.pending none)] := by
  intro calls
  have h : ∀ a ∈ (straddling.onSystemBus [0x31] true).accesses calls, a.Plain true := by
    decide +kernel
  exact ⟨h, by decide +kernel, course_onSystemBus straddling [0x31] true calls h,
    by decide +kernel⟩

end Board

end Lr35902
