import Lr35902.Bus

/-!
# Reliable buses

A set of states of a bus is *reliable* if every access in one of them succeeds and leads to another
one (`Bus.Reliable`).  On such states an access is a function, which gives the byte that is moved
and the next state: `Bus.loaded`, `Bus.stored` and `Bus.fetched`.
-/

namespace Lr35902

namespace Bus

variable {σ : Type} [Bus σ]

/-- The value and the state that an access leaves, whether it succeeds or not; a failed access has
the default value. -/
def outcome {α : Type} [Inhabited α] : EStateM.Result Fault σ α → α × σ
  | .ok v b => (v, b)
  | .error _ b => (default, b)

/-- The byte that a load gives, and the bus after it. -/
def loaded (addr : UInt16) (b : σ) : UInt8 × σ := outcome (Bus.read8 addr b)

/-- The bus after a store. -/
def stored (addr : UInt16) (v : UInt8) (b : σ) : σ := (outcome (Bus.write8 addr v b)).2

/-- The byte that a fetch gives, and the bus after it. -/
def fetched (addr : UInt16) (b : σ) : UInt8 × σ := outcome (Bus.fetch8 addr b)

/-- No access fails, however many are made from a state in `P`. -/
structure Reliable (P : σ → Prop) : Prop where
  read8 : ∀ addr b, P b → ∃ v b', Bus.read8 addr b = .ok v b' ∧ P b'
  write8 : ∀ addr v b, P b → ∃ b', Bus.write8 addr v b = .ok () b' ∧ P b'
  fetch8 : ∀ addr b, P b → ∃ v b', Bus.fetch8 addr b = .ok v b' ∧ P b'

namespace Reliable

variable {P : σ → Prop}

theorem read8_eq (hP : Reliable P) {b : σ} (hb : P b) (addr : UInt16) :
    Bus.read8 addr b = .ok (loaded addr b).1 (loaded addr b).2 ∧ P (loaded addr b).2 := by
  obtain ⟨v, b', h, hb'⟩ := hP.read8 addr b hb
  rw [loaded, h]
  exact ⟨rfl, hb'⟩

theorem write8_eq (hP : Reliable P) {b : σ} (hb : P b) (addr : UInt16) (v : UInt8) :
    Bus.write8 addr v b = .ok () (stored addr v b) ∧ P (stored addr v b) := by
  obtain ⟨b', h, hb'⟩ := hP.write8 addr v b hb
  rw [stored, h]
  exact ⟨rfl, hb'⟩

theorem fetch8_eq (hP : Reliable P) {b : σ} (hb : P b) (addr : UInt16) :
    Bus.fetch8 addr b = .ok (fetched addr b).1 (fetched addr b).2 ∧ P (fetched addr b).2 := by
  obtain ⟨v, b', h, hb'⟩ := hP.fetch8 addr b hb
  rw [fetched, h]
  exact ⟨rfl, hb'⟩

end Reliable

end Bus

end Lr35902
