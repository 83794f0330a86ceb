import Lr35902.Proofs.Machine.Polling

/-!
# Runs up to an address

A machine *approaches* an address as long as it steps without a fault, without dispatching an
interrupt and without having got there (`Machine.Approach`).  Such runs can be put together
(`Machine.Approach.trans`), and there is only one that ends at the address
(`Machine.Approach.unique`).
-/

namespace Lr35902

namespace Machine

/-- From `m`, `n` steps that take `c` cycles together lead to `m'`.  None of them fails or
dispatches an interrupt, and none begins at the address `stop`. -/
inductive Approach (stop : UInt16) : Nat → Nat → Machine → Machine → Prop
  | refl (m : Machine) : Approach stop 0 0 m m
  | step {m m' m'' : Machine} {n c d : Nat} (hpc : m.cpu.regs.pc ≠ stop)
      (hquiet : ¬ m.Dispatches) (hstep : m.step = .ok c m') (h : Approach stop n d m' m'') :
      Approach stop (n + 1) (c + d) m m''

namespace Approach

variable {stop : UInt16} {m m' m'' : Machine} {n k c d : Nat}

theorem single (hpc : m.cpu.regs.pc ≠ stop) (hquiet : ¬ m.Dispatches) (hstep : m.step = .ok c m') :
    Approach stop 1 c m m' :=
  .step hpc hquiet hstep (.refl m')

theorem trans (h : Approach stop n c m m') (h' : Approach stop k d m' m'') :
    Approach stop (n + k) (c + d) m m'' := by
  induction h with
  | refl m => simpa only [Nat.zero_add] using h'
  | step hpc hquiet hstep _ ih =>
    have hrun := Approach.step hpc hquiet hstep (ih h')
    rwa [Nat.add_right_comm, ← Nat.add_assoc] at hrun

/-- A machine gets to an address for the first time in one way at most. -/
theorem unique (h : Approach stop n c m m') (hm' : m'.cpu.regs.pc = stop)
    (h' : Approach stop k d m m'') (hm'' : m''.cpu.regs.pc = stop) :
    n = k ∧ c = d ∧ m' = m'' := by
  induction h generalizing k d with
  | refl m =>
    cases h' with
    | refl => exact ⟨rfl, rfl, rfl⟩
    | step hpc => exact absurd hm' hpc
  | step hpc _ hstep _ ih =>
    cases h' with
    | refl => exact absurd hm'' hpc
    | step _ _ hstep' h' =>
      -- both runs make the same first step
      rw [hstep] at hstep'
      cases hstep'
      obtain ⟨rfl, rfl, rfl⟩ := ih hm' h'
      exact ⟨rfl, rfl, rfl⟩

end Approach

end Machine

end Lr35902
