import Lr35902.Proofs.Evaluation

/-!
# Simulation of actions

Two actions, on buses of possibly different kinds, *simulate* each other if from the same processor
and related buses they leave the same processor and related buses, and either both return related
values or both fail with the same fault (`Exec.Simulates`).  Simulation is built up along the
structure of actions: an action that does one thing after the other simulates another one that does
so if their parts do (`Exec.Simulates.bind`).

Where one of two buses does more than the other at some addresses, the actions simulate each other
only as long as they keep away from there.  In `Exec.SimulatesUnless` the first bus may *escape*,
that is, come into a state that no access leads out of.  From then on nothing is said.
-/

namespace Lr35902

variable {σ τ α β : Type}

/-- Two outcomes that cannot be told apart but for the buses and the values. -/
inductive Outcome.Related (B : σ → τ → Prop) (V : α → β → Prop) :
    EStateM.Result Fault (Board σ) α → EStateM.Result Fault (Board τ) β → Prop
  | ok {cpu : Cpu} {b : σ} {c : τ} {v : α} {w : β} (value : V v w) (bus : B b c) :
      Related B V (.ok v ⟨cpu, b⟩) (.ok w ⟨cpu, c⟩)
  | error {cpu : Cpu} {b : σ} {c : τ} {e : Fault} (bus : B b c) :
      Related B V (.error e ⟨cpu, b⟩) (.error e ⟨cpu, c⟩)

/-- The same bus, in a state in `P`. -/
def Same (P : σ → Prop) (b c : σ) : Prop := b = c ∧ P b

namespace Exec

/-- The actions do the same to the processor, on buses that are related by `B` and stay so, and
return values that are related by `V`. -/
def Simulates (B : σ → τ → Prop) (V : α → β → Prop) (x : Exec σ α) (y : Exec τ β) : Prop :=
  ∀ cpu b c, B b c → Outcome.Related B V (x ⟨cpu, b⟩) (y ⟨cpu, c⟩)

namespace Simulates

variable {γ δ : Type} {B : σ → τ → Prop} {V : α → β → Prop} {W : γ → δ → Prop}

theorem bind {x : Exec σ α} {y : Exec τ β} {f : α → Exec σ γ} {g : β → Exec τ δ}
    (h : Simulates B V x y) (hf : ∀ v w, V v w → Simulates B W (f v) (g w)) :
    Simulates B W (x >>= f) (y >>= g) := by
  intro cpu b c hb
  have hxy := h cpu b c hb
  change Outcome.Related B W (EStateM.bind x f ⟨cpu, b⟩) (EStateM.bind y g ⟨cpu, c⟩)
  unfold EStateM.bind
  generalize x ⟨cpu, b⟩ = r at hxy ⊢
  generalize y ⟨cpu, c⟩ = s at hxy ⊢
  cases hxy with
  | ok value bus => exact hf _ _ value _ _ _ bus
  | error bus => exact .error bus

theorem pure {v : α} {w : β} (h : V v w) :
    Simulates B V (Pure.pure v : Exec σ α) (Pure.pure w : Exec τ β) :=
  fun _ _ _ hb => .ok h hb

/-- A weaker relation of the values will do. -/
theorem mono {W : α → β → Prop} {x : Exec σ α} {y : Exec τ β} (h : Simulates B V x y)
    (hVW : ∀ v w, V v w → W v w) : Simulates B W x y := by
  intro cpu b c hb
  have hxy := h cpu b c hb
  generalize x ⟨cpu, b⟩ = r at hxy ⊢
  generalize y ⟨cpu, c⟩ = s at hxy ⊢
  cases hxy with
  | ok value bus => exact .ok (hVW _ _ value) bus
  | error bus => exact .error bus

theorem throw (e : Fault) :
    Simulates B V (MonadExcept.throw e : Exec σ α) (MonadExcept.throw e : Exec τ β) :=
  fun _ _ _ hb => .error hb

/-- The registers are read alike, so what follows may use the same ones. -/
theorem bindRegs {f : RegisterFile → Exec σ α} {g : RegisterFile → Exec τ β}
    (h : ∀ r, Simulates B V (f r) (g r)) :
    Simulates B V (Exec.regs >>= f) (Exec.regs >>= g) :=
  fun cpu b c hb => h cpu.regs cpu b c hb

/-- Actions without a value, one after the other. -/
theorem next {x : Exec σ Unit} {y : Exec τ Unit} {f : Unit → Exec σ α} {g : Unit → Exec τ β}
    (h : Simulates B Eq x y) (hf : Simulates B V (f ()) (g ())) :
    Simulates B V (x >>= f) (y >>= g) :=
  h.bind fun _ _ _ => hf

theorem modifyCpu {f g : Cpu → Cpu} (h : ∀ cpu, f cpu = g cpu) :
    Simulates B Eq (Exec.modifyCpu f : Exec σ Unit) (Exec.modifyCpu g : Exec τ Unit) :=
  fun cpu b c hb => by
    rw [Exec.modifyCpu, Exec.modifyCpu, h cpu]
    exact .ok rfl hb

theorem modifyRegs {f g : RegisterFile → RegisterFile} (h : ∀ r, f r = g r) :
    Simulates B Eq (Exec.modifyRegs f : Exec σ Unit) (Exec.modifyRegs g : Exec τ Unit) :=
  modifyCpu fun cpu => by rw [h cpu.regs]

/-- Two actions that simulate each other leave the same processor and related buses. -/
theorem final {x : Exec σ α} {y : Exec τ β} (h : Simulates B V x y) (cpu : Cpu) {b : σ} {c : τ}
    (hb : B b c) :
    (final x ⟨cpu, b⟩).cpu = (final y ⟨cpu, c⟩).cpu ∧
      B (final x ⟨cpu, b⟩).bus (final y ⟨cpu, c⟩).bus := by
  have hxy := h cpu b c hb
  unfold Lr35902.final
  generalize x ⟨cpu, b⟩ = r at hxy ⊢
  generalize y ⟨cpu, c⟩ = s at hxy ⊢
  cases hxy with
  | ok _ bus => exact ⟨rfl, bus⟩
  | error bus => exact ⟨rfl, bus⟩

end Simulates

/-! ### Simulation until the bus escapes -/

/-- The actions return the same value and do the same to the processor, on buses that are related by
`B` and stay so, unless the first bus escapes to `E`, from where it does not come back. -/
structure SimulatesUnless (E : σ → Prop) (B : σ → τ → Prop) (x : Exec σ α) (y : Exec τ α) :
    Prop where
  stays : ∀ s, E s.bus → E (final x s).bus
  related : ∀ cpu b c, B b c →
    E (final x ⟨cpu, b⟩).bus ∨ Outcome.Related B Eq (x ⟨cpu, b⟩) (y ⟨cpu, c⟩)

/-- Simulation is simulation without an escape. -/
theorem simulates_iff {B : σ → τ → Prop} {x : Exec σ α} {y : Exec τ α} :
    Simulates B Eq x y ↔ SimulatesUnless (fun _ => False) B x y :=
  ⟨fun h => ⟨fun _ => id, fun cpu b c hb => .inr (h cpu b c hb)⟩,
    fun h cpu b c hb => (h.related cpu b c hb).resolve_left id⟩

namespace SimulatesUnless

variable {γ : Type} {E : σ → Prop} {B : σ → τ → Prop}

theorem bind {x : Exec σ α} {y : Exec τ α} {f : α → Exec σ γ} {g : α → Exec τ γ}
    (h : SimulatesUnless E B x y) (hf : ∀ v, SimulatesUnless E B (f v) (g v)) :
    SimulatesUnless E B (x >>= f) (y >>= g) := by
  -- once the bus has escaped in the first part, it stays away in the second one
  have hlater (s : Board σ) (hE : E (Lr35902.final x s).bus) :
      E (Lr35902.final (x >>= f) s).bus := by
    unfold Lr35902.final at hE ⊢
    rw [bind_apply]
    cases hx : x s with
    | ok v t =>
      rw [hx] at hE
      exact (hf v).stays t hE
    | error e t =>
      rw [hx] at hE
      exact hE
  refine ⟨fun s hs => hlater s (h.stays s hs), fun cpu b c hb => ?_⟩
  obtain hE | hxy := h.related cpu b c hb
  · exact .inl (hlater _ hE)
  unfold Lr35902.final
  rw [bind_apply, bind_apply]
  generalize x ⟨cpu, b⟩ = r at hxy ⊢
  generalize y ⟨cpu, c⟩ = s at hxy ⊢
  cases hxy with
  | ok value bus =>
    subst value
    exact (hf _).related _ _ _ bus
  | error bus => exact .inr (.error bus)

theorem pure {v : α} : SimulatesUnless E B (Pure.pure v : Exec σ α) (Pure.pure v : Exec τ α) :=
  ⟨fun _ hs => hs, fun _ _ _ hb => .inr (.ok rfl hb)⟩

theorem throw (e : Fault) :
    SimulatesUnless E B (MonadExcept.throw e : Exec σ α) (MonadExcept.throw e : Exec τ α) :=
  ⟨fun _ hs => hs, fun _ _ _ hb => .inr (.error hb)⟩

theorem bindRegs {f : RegisterFile → Exec σ α} {g : RegisterFile → Exec τ α}
    (h : ∀ r, SimulatesUnless E B (f r) (g r)) :
    SimulatesUnless E B (Exec.regs >>= f) (Exec.regs >>= g) :=
  ⟨fun s hs => (h s.cpu.regs).stays s hs, fun cpu b c hb => (h cpu.regs).related cpu b c hb⟩

/-- The processor is read alike, so what follows may use the same one. -/
theorem bindCpu {f : Cpu → Exec σ α} {g : Cpu → Exec τ α}
    (h : ∀ p, SimulatesUnless E B (f p) (g p)) :
    SimulatesUnless E B (Exec.cpu >>= f) (Exec.cpu >>= g) :=
  ⟨fun s hs => (h s.cpu).stays s hs, fun cpu b c hb => (h cpu).related cpu b c hb⟩

theorem next {x : Exec σ Unit} {y : Exec τ Unit} {f : Unit → Exec σ α} {g : Unit → Exec τ α}
    (h : SimulatesUnless E B x y) (hf : SimulatesUnless E B (f ()) (g ())) :
    SimulatesUnless E B (x >>= f) (y >>= g) :=
  h.bind fun _ => hf

theorem modifyCpu (f : Cpu → Cpu) :
    SimulatesUnless E B (Exec.modifyCpu f : Exec σ Unit) (Exec.modifyCpu f : Exec τ Unit) :=
  ⟨fun _ hs => hs, fun _ _ _ hb => .inr (.ok rfl hb)⟩

theorem modifyRegs (f : RegisterFile → RegisterFile) :
    SimulatesUnless E B (Exec.modifyRegs f : Exec σ Unit) (Exec.modifyRegs f : Exec τ Unit) :=
  modifyCpu _

end SimulatesUnless

end Exec

end Lr35902
