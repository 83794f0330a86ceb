import Lr35902.Proofs.Machine.StepKind

/-!
# When interrupts are let through

A dispatch needs to be let through by the program.  Of the steps since a machine was started, the
ones that count are those after the last dispatch and the last instruction that blocked interrupts
(`StepKind.since`).  Among them there is a return from an interrupt handler, or an instruction that
enables interrupts and a whole instruction after it (`StepKind.LetThrough`).  Bytes that announce an
extended opcode, and steps that fail, are not whole instructions.

The interrupt switch keeps track of this (`StepKind.Accounts.step`), over all histories of a machine
(`Machine.enable_latency`).
-/

namespace Lr35902

namespace StepKind

/-- After the step no interrupt is let through, whatever was done before. -/
def blocks (k : StepKind) : Bool := k = .dispatch ∨ k = .completed .di

/-- The step completes an instruction. -/
def isWhole : StepKind → Bool
  | completed _ | completedExtended _ => true
  | dispatch | idle | extension | failed => false

/-- Of a list of steps, newest first, those since interrupts were last blocked. -/
def since (l : List StepKind) : List StepKind := l.takeWhile fun k => !k.blocks

/-- Interrupts are let through after the given steps, newest first. -/
def LetThrough (l : List StepKind) : Prop :=
  .completed .reti ∈ since l ∨ ∃ k : StepKind, k.isWhole ∧ [k, .completed .ei].Sublist (since l)

variable {k : StepKind} {l : List StepKind}

theorem since_cons (h : k.blocks = false) : since (k :: l) = k :: since l := by
  rw [since, List.takeWhile_cons, if_pos (by rw [h]; rfl)]
  rfl

theorem LetThrough.cons (h : LetThrough l) (hk : k.blocks = false) : LetThrough (k :: l) := by
  unfold LetThrough
  rw [since_cons hk]
  obtain hreti | ⟨w, hwhole, hsub⟩ := h
  · exact .inl (List.mem_cons_of_mem _ hreti)
  · exact .inr ⟨w, hwhole, hsub.cons k⟩

/-- A whole instruction after one that enables interrupts. -/
theorem LetThrough.of_isWhole (h : .completed .ei ∈ since l) (hwhole : k.isWhole)
    (hk : k.blocks = false) : LetThrough (k :: l) := by
  refine .inr ⟨k, hwhole, ?_⟩
  rw [since_cons hk]
  exact (List.singleton_sublist.2 h).cons_cons k

/-- The interrupt switch accounts for the steps that were made, newest first. -/
structure Accounts (l : List StepKind) (ime : InterruptState) : Prop where
  interruptible : ime = .interruptible → LetThrough l
  pendingEnable : ime = .pendingEnable → .completed .ei ∈ since l

namespace Accounts

variable {ime : InterruptState} {c : Control}

theorem blocked (l : List StepKind) : Accounts l .blocked where
  interruptible hime := by cases hime
  pendingEnable hime := by cases hime

/-- A step that blocks nothing takes nothing away. -/
theorem cons (h : Accounts l ime) (hk : k.blocks = false) : Accounts (k :: l) ime where
  interruptible hime := (h.interruptible hime).cons hk
  pendingEnable hime := by
    rw [since_cons hk]
    exact List.mem_cons_of_mem _ (h.pendingEnable hime)

/-- The end of a whole instruction, where the switch was moved to `c.ime` by the instruction. -/
theorem completed (h : Accounts l ime) (hk : k.blocks = false) (hwhole : k.isWhole)
    (hne : ime ≠ .pendingEnable → Accounts (k :: l) c.ime) :
    Accounts (k :: l) (c.completed ime).ime := by
  by_cases hpending : ime = .pendingEnable
  · -- whatever the instruction does, interrupts are enabled by an earlier one
    refine ⟨fun _ => .of_isWhole (h.pendingEnable hpending) hwhole hk, fun hime => ?_⟩
    exact absurd hime (Control.ime_completed_ne c hpending)
  · rw [Control.completed_of_ne c hpending]
    exact hne hpending

/-- The switch accounts for one more step. -/
theorem step (h : Accounts l c.ime) : Accounts (k :: l) (k.control c).ime := by
  cases k with
  | dispatch => exact .blocked _
  | idle => exact h.cons rfl
  | failed => exact h.cons rfl
  | extension => exact h.cons rfl
  | completedExtended i => exact h.completed rfl rfl fun _ => h.cons rfl
  | completed i =>
    by_cases hdi : i = .di
    · subst hdi
      have hime : (control c (.completed .di)).ime = .blocked := by
        simp only [control, Control.completed]
        split <;> rfl
      rw [hime]
      exact .blocked _
    have hk : blocks (.completed i) = false := by simp [blocks, hdi]
    refine h.completed hk rfl fun _ => ?_
    by_cases hreti : i = .reti
    · subst hreti
      refine ⟨fun _ => .inl ?_, fun hime => ?_⟩
      · rw [since_cons hk]
        exact List.mem_cons_self
      · cases hime
    by_cases hei : i = .ei
    · subst hei
      refine ⟨fun hime => ?_, fun _ => ?_⟩
      · cases hime
      · rw [since_cons hk]
        exact List.mem_cons_self
    rw [Instruction.ime_control c hdi hei hreti]
    exact h.cons hk

end Accounts

end StepKind

namespace Machine

variable {m : Machine}

/-- What the next `n` steps of the machine come to, newest first. -/
def history (m : Machine) : Nat → List StepKind
  | 0 => []
  | n + 1 => (m.after n).stepKind :: m.history n

/-- At any time the interrupt switch accounts for all steps since the start. -/
theorem Started.accounts (hm : m.Started) (n : Nat) :
    StepKind.Accounts (m.history n) (m.after n).cpu.ime := by
  induction n with
  | zero =>
    obtain ⟨start, hcpu⟩ := hm.cpu_eq
    rw [after, hcpu]
    exact .blocked []
  | succ n ih =>
    rw [after, history, ime_next (hm.reachable.after n).wellFormed]
    refine .step ?_
    change StepKind.Accounts _ (m.after n).polled.ime
    rwa [polled_ime]

/-- After an instruction that enables interrupts, where no enabling was pending, the next step does
not dispatch. -/
theorem not_dispatches_of_ei (hm : m.bus.WellFormed) (hkind : m.stepKind = .completed .ei)
    (hime : m.cpu.ime ≠ .pendingEnable) (hnext : m.next.bus.WellFormed) : ¬ m.next.Dispatches := by
  intro h
  have hinterruptible := ((dispatches_iff hnext).1 h).2.1
  rw [ime_next hm, hkind] at hinterruptible
  change (Control.completed m.polled.ime _).ime = _ at hinterruptible
  rw [polled_ime, Control.completed_of_ne _ hime] at hinterruptible
  cases hinterruptible

/-- After a byte that announces an extended opcode, the next step executes that opcode. -/
theorem stepKind_next_of_extension (hm : m.bus.WellFormed) (hkind : m.stepKind = .extension)
    (hnext : m.next.bus.WellFormed) : ∃ i, m.next.stepKind = .completedExtended i := by
  obtain ⟨hfits, hcontrol⟩ := step_control hm
  rw [hkind] at hfits hcontrol
  have hrun : m.next.polled.run = .normal :=
    polled_run_eq_normal_iff.2 (.inl ((congrArg Control.run hcontrol).trans hfits.1))
  have hmode : m.next.polled.mode = .extended :=
    (polled_mode m.next).trans (congrArg Control.mode hcontrol)
  exact StepKind.eq_completedExtended (step_control hnext).1 hrun hmode

/-- In the course of a machine from its start, an interrupt is dispatched only if it is let through
by the steps since interrupts were last blocked.  The step after an instruction that enables
interrupts does not dispatch, unless an enabling was pending before, and the step after a byte that
announces an extended opcode does not dispatch but executes that opcode. -/
theorem enable_latency (hm : m.Started) (n : Nat) :
    ((m.after n).Dispatches → StepKind.LetThrough (m.history n)) ∧
    ((m.after n).stepKind = .completed .ei → (m.after n).cpu.ime ≠ .pendingEnable →
      ¬ (m.after (n + 1)).Dispatches) ∧
    ((m.after n).stepKind = .extension →
      ¬ (m.after (n + 1)).Dispatches ∧
        ∃ i, (m.after (n + 1)).stepKind = .completedExtended i) := by
  have hbus := (hm.reachable.after n).wellFormed
  have hnext := (hm.reachable.after (n + 1)).wellFormed
  refine ⟨fun h => ?_, fun hkind hime => ?_, fun hkind => ?_⟩
  · have hime := ((dispatches_iff hbus).1 h).2.1
    exact (hm.accounts n).interruptible hime
  · exact not_dispatches_of_ei hbus hkind hime hnext
  · obtain ⟨i, hi⟩ := stepKind_next_of_extension hbus hkind hnext
    refine ⟨fun h => ?_, i, hi⟩
    cases hi.symm.trans (stepKind_of_dispatches h)

/-- The theorem for a program that requests and enables the timer, enables interrupts and goes on
with an extended instruction: the timer is dispatched after that instruction, not within it. -/
theorem enable_latency_extended :
    ∃ m : Machine, m.Started ∧
      (m.after 3).stepKind = .completed .ei ∧ ¬ (m.after 4).Dispatches ∧
      (m.after 4).stepKind = .extension ∧ ¬ (m.after 5).Dispatches ∧
      (m.after 6).Dispatches ∧ StepKind.LetThrough (m.history 6) := by
  have hstart : withBoot [] (some [0x3E, 0x04, 0xE0, 0xFF, 0xE0, 0x0F, 0xFB, 0xCB, 0x00]) =
    .ok _ := rfl
  have hm := Started.withBoot hstart
  refine ⟨_, hm, by decide +kernel,
    (enable_latency hm 3).2.1 (by decide +kernel) (by decide +kernel), by decide +kernel,
    ((enable_latency hm 4).2.2 (by decide +kernel)).1, ?_, (enable_latency hm 6).1 ?_⟩
  all_goals exact stepKind_eq_dispatch_iff.1 (by decide +kernel)

end Machine

end Lr35902
