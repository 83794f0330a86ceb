import Lr35902.Cpu.Exec

/-!
# Evaluating actions

What an action of the processor does to a given board.  The equations for the parts of an action are
simplification rules, so that an action on a board reduces to the outcomes of its bus accesses.
-/

namespace Lr35902

/-- The processor with one more byte of the instruction fetched. -/
def Cpu.next (cpu : Cpu) : Cpu :=
  { cpu with regs := { cpu.regs with pc := ProgramCounter.next cpu.regs.pc } }

/-! ### Sequences -/

section

variable {ε ρ α β : Type}

@[simp] theorem bind_apply (x : EStateM ε ρ α) (f : α → EStateM ε ρ β) (s : ρ) :
    (x >>= f) s = match x s with
      | .ok v t => f v t
      | .error e t => .error e t := by
  change EStateM.bind x f s = _
  unfold EStateM.bind
  cases x s <;> rfl

/-- A sequence succeeds if its parts do. -/
theorem bind_eq_ok_iff {x : EStateM ε ρ α} {f : α → EStateM ε ρ β} {s t : ρ} {w : β} :
    (x >>= f) s = .ok w t ↔ ∃ v u, x s = .ok v u ∧ f v u = .ok w t := by
  rw [bind_apply]
  cases x s with
  | ok v u =>
    constructor
    · exact fun h => ⟨v, u, rfl, h⟩
    · rintro ⟨_, _, ⟨⟩, h⟩
      exact h
  | error e u => simp

/-- A sequence fails where one of its parts does. -/
theorem bind_eq_error_iff {x : EStateM ε ρ α} {f : α → EStateM ε ρ β} {s t : ρ} {e : ε} :
    (x >>= f) s = .error e t ↔ x s = .error e t ∨ ∃ v u, x s = .ok v u ∧ f v u = .error e t := by
  rw [bind_apply]
  cases x s with
  | ok v u =>
    constructor
    · exact fun h => .inr ⟨v, u, rfl, h⟩
    · rintro (⟨⟨⟩⟩ | ⟨_, _, ⟨⟩, h⟩)
      exact h
  | error e u => simp

@[simp] theorem map_apply (f : α → β) (x : EStateM ε ρ α) (s : ρ) :
    (f <$> x) s = match x s with
      | .ok v t => .ok (f v) t
      | .error e t => .error e t := by
  change EStateM.map f x s = _
  unfold EStateM.map
  cases x s <;> rfl

/-- The state that a computation leaves, whether it succeeds or fails. -/
def final (x : EStateM ε ρ α) (s : ρ) : ρ :=
  match x s with
  | .ok _ t => t
  | .error _ t => t

theorem final_ok {x : EStateM ε ρ α} {s t : ρ} {v : α} (h : x s = .ok v t) : final x s = t := by
  rw [final, h]

theorem final_error {x : EStateM ε ρ α} {s t : ρ} {e : ε} (h : x s = .error e t) :
    final x s = t := by
  rw [final, h]

theorem final_congr {x y : EStateM ε ρ α} {s t : ρ} (h : x s = y t) : final x s = final y t := by
  rw [final, final, h]

/-- A sequence leaves what its second part leaves, once the first one has succeeded. -/
theorem final_bind {x : EStateM ε ρ α} {f : α → EStateM ε ρ β} {s t : ρ} {v : α}
    (h : x s = .ok v t) : final (x >>= f) s = final (f v) t := by
  unfold final
  rw [bind_apply, h]

/-- What a computation leaves does not depend on what is made of its value. -/
theorem final_bind_pure (x : EStateM ε ρ α) (f : α → β) (s : ρ) :
    final (x >>= fun v => pure (f v)) s = final x s := by
  unfold final
  rw [bind_apply]
  cases x s <;> rfl

@[simp] theorem pure_apply (v : α) (s : ρ) : (pure v : EStateM ε ρ α) s = .ok v s := rfl

@[simp] theorem get_apply (s : ρ) : (get : EStateM ε ρ ρ) s = .ok s s := rfl

@[simp] theorem modify_apply (f : ρ → ρ) (s : ρ) :
    (modify f : EStateM ε ρ PUnit) s = .ok () (f s) := rfl

end

namespace Exec

variable {σ α : Type}

/-! ### The processor -/

@[simp] theorem cpu_apply (s : Board σ) : cpu s = .ok s.cpu s := rfl

@[simp] theorem regs_apply (s : Board σ) : regs s = .ok s.cpu.regs s := rfl

/-- The registers do not change between two reads of them. -/
theorem regs_bind_regs (f : RegisterFile → RegisterFile → Exec σ α) :
    (regs >>= fun g => regs >>= f g) = regs >>= fun g => f g g := rfl

@[simp] theorem modifyCpu_apply (f : Cpu → Cpu) (s : Board σ) :
    modifyCpu f s = .ok () { s with cpu := f s.cpu } := rfl

@[simp] theorem modifyRegs_apply (f : RegisterFile → RegisterFile) (s : Board σ) :
    modifyRegs f s = .ok () { s with cpu := { s.cpu with regs := f s.cpu.regs } } := rfl

@[simp] theorem setFlags_apply (f : Flags) (s : Board σ) :
    setFlags f s = .ok () { s with cpu := { s.cpu with regs := { s.cpu.regs with f } } } := rfl

@[simp] theorem spend_apply (n : Nat) (s : Board σ) :
    spend n s = .ok n { s with cpu := { s.cpu with cycles := s.cpu.cycles + n } } := rfl

/-! ### The bus -/

theorem onBus_apply (access : EStateM Fault σ α) (s : Board σ) :
    onBus access s = match access s.bus with
      | .ok v bus => .ok v { s with bus }
      | .error e bus => .error e { s with bus } := rfl

variable [Bus σ]

@[simp] theorem load_apply (addr : UInt16) (s : Board σ) :
    load addr s = match Bus.read8 addr s.bus with
      | .ok v bus => .ok v { s with bus }
      | .error e bus => .error e { s with bus } := by
  rw [load, onBus_apply]
  cases Bus.read8 addr s.bus <;> rfl

@[simp] theorem store_apply (addr : UInt16) (v : UInt8) (s : Board σ) :
    store addr v s = match Bus.write8 addr v s.bus with
      | .ok _ bus => .ok () { s with bus }
      | .error e bus => .error e { s with bus } := by
  rw [store, onBus_apply]
  cases Bus.write8 addr v s.bus <;> rfl

@[simp] theorem fetch_apply (s : Board σ) :
    fetch s = match Bus.fetch8 s.cpu.regs.pc s.bus with
      | .ok v bus => .ok v ⟨s.cpu.next, bus⟩
      | .error e bus => .error e { s with bus } := by
  simp only [fetch, bind_apply, regs_apply, onBus_apply]
  cases Bus.fetch8 s.cpu.regs.pc s.bus <;> rfl

end Exec

end Lr35902
