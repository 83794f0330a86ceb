import Lr35902.Proofs.Bus.Recorder

/-!
# Scripts of bus accesses

What the processor asks of its bus depends on nothing but its own state and the bytes that the bus
has moved for it.  A `Script` says so for one action: either it is done, or it asks for an access
and goes on as the byte that is moved decides.

An action on a recorder follows its script if the accesses that it leaves are a `Script.Transcript`
of it: all that the script asks for, or an initial part whose last access failed (`Exec.Follows`).
Scripts are put together along the structure of actions, from one access at a time
(`Exec.follows_access`).  Whatever bytes the rest of a transcript would have moved, the script would
have gone on from there (`Script.Transcript.requests_eq`).
-/

namespace Lr35902

/-- What the processor asks of its bus. -/
structure BusRequest where
  kind : AccessKind
  addr : UInt16
deriving DecidableEq

namespace BusAccess

/-- What was asked for. -/
def request (a : BusAccess) : BusRequest := ⟨a.kind, a.addr⟩

/-- The access succeeded. -/
def Answered (a : BusAccess) : Prop := a.byte ≠ none

instance (a : BusAccess) : Decidable a.Answered := inferInstanceAs (Decidable (_ ≠ _))

end BusAccess

/-- The bytes that the accesses have moved. -/
def movedBytes (l : List BusAccess) : List UInt8 := l.filterMap (·.byte)

/-- The accesses are all that is asked for, and none of them failed. -/
structure Complete (l : List BusAccess) (rs : List BusRequest) : Prop where
  answered : ∀ a ∈ l, a.Answered
  requests : l.map (·.request) = rs

/-- The last access failed, and the accesses are those that are asked for up to it. -/
structure Cut (l : List BusAccess) (rs : List BusRequest) : Prop where
  last : ∃ before a, l = before ++ [a] ∧ (∀ b ∈ before, b.Answered) ∧ ¬ a.Answered
  requests : l.map (·.request) <+: rs

/-- What an action asks of the bus.  The byte that an access moves decides how it goes on. -/
inductive Script where
  | done
  | ask (r : BusRequest) (next : UInt8 → Script)

namespace Script

/-- Asks for one access after the other, whatever bytes are moved. -/
def ofList : List BusRequest → Script
  | [] => done
  | r :: rs => ask r fun _ => ofList rs

/-- All that the script asks for, if the accesses move the given bytes. -/
def requests : Script → (ℕ → UInt8) → List BusRequest
  | done, _ => []
  | ask r next, moved => r :: (next (moved 0)).requests fun i => moved (i + 1)

@[simp] theorem requests_ofList (rs : List BusRequest) (moved : ℕ → UInt8) :
    (ofList rs).requests moved = rs := by
  induction rs generalizing moved with
  | nil => rfl
  | cons r rs ih => exact congrArg (r :: ·) (ih _)

/-- The accesses follow the script, to its end or up to one that fails. -/
inductive Transcript : Script → List BusAccess → Bool → Prop
  | done : Transcript done [] true
  | moved {r : BusRequest} {next : UInt8 → Script} {l : List BusAccess} {complete : Bool}
      (v : UInt8) (rest : Transcript (next v) l complete) :
      Transcript (ask r next) (⟨r.kind, r.addr, some v⟩ :: l) complete
  | failed {r : BusRequest} {next : UInt8 → Script} :
      Transcript (ask r next) [⟨r.kind, r.addr, none⟩] false

/-- The accesses have moved the first ones of the given bytes. -/
def Moved (moved : ℕ → UInt8) (l : List BusAccess) : Prop :=
  ∀ (i : ℕ) (v : UInt8), (movedBytes l)[i]? = some v → moved i = v

namespace Transcript

variable {S : Script} {l : List BusAccess} {complete : Bool} {moved : ℕ → UInt8}

/-- A transcript is what the script asks for, given the bytes that were moved and, if it was cut,
any further ones. -/
theorem requests_eq (h : Transcript S l complete) (hl : Moved moved l) :
    if complete then Complete l (S.requests moved) else Cut l (S.requests moved) := by
  induction h generalizing moved with
  | done => exact ⟨List.forall_mem_nil _, rfl⟩
  | @moved r next l complete v rest ih =>
    have hfirst : moved 0 = v := hl 0 v rfl
    have hlater : Moved (fun i => moved (i + 1)) l := fun i w hw => hl (i + 1) w hw
    have hrest := ih hlater
    rw [requests, hfirst]
    cases complete with
    | true =>
      exact ⟨List.forall_mem_cons.2 ⟨nofun, hrest.answered⟩, congrArg (r :: ·) hrest.requests⟩
    | false =>
      obtain ⟨before, a, rfl, hbefore, ha⟩ := hrest.last
      exact ⟨⟨_ :: before, a, rfl, List.forall_mem_cons.2 ⟨nofun, hbefore⟩, ha⟩,
        List.cons_prefix_cons.2 ⟨rfl, hrest.requests⟩⟩
  | @failed r next =>
    exact ⟨⟨[], _, rfl, List.forall_mem_nil _, fun h => h rfl⟩,
      List.cons_prefix_cons.2 ⟨rfl, List.nil_prefix⟩⟩

/-- As far as two accounts of a script have moved the same bytes, they have asked for the same. -/
theorem requests_prefix {l' : List BusAccess} {complete' : Bool} (h : Transcript S l complete)
    (h' : Transcript S l' complete') (hmoved : movedBytes l <+: movedBytes l') :
    l.map (·.request) <+: l'.map (·.request) := by
  induction h generalizing l' with
  | done => exact List.nil_prefix
  | @moved r next l complete v rest ih =>
    cases h' with
    | moved v' rest' =>
      obtain ⟨rfl, hrest⟩ := List.cons_prefix_cons.1 hmoved
      exact List.cons_prefix_cons.2 ⟨rfl, ih rest' hrest⟩
    | failed => exact absurd (List.prefix_nil.1 hmoved) (List.cons_ne_nil _ _)
  | @failed r next =>
    cases h' with
    | moved v' rest' => exact List.cons_prefix_cons.2 ⟨rfl, List.nil_prefix⟩
    | failed => exact List.prefix_rfl

end Transcript

end Script

namespace Exec

open Script

variable {σ α β : Type}

/-! ### Actions with a script -/

/-- From `s` the action follows the script, to its end if it succeeds. -/
def Follows (x : Exec (Recorder σ) α) (S : Script) (s : Board (Recorder σ)) : Prop :=
  ∃ l complete, S.Transcript l complete ∧ (final x s).bus.newest = l.reverse ++ s.bus.newest ∧
    ∀ v t, x s = .ok v t → complete = true

section

variable {x : Exec (Recorder σ) α} {S : Script} {s : Board (Recorder σ)}

/-- An action that leaves the bus alone asks for nothing. -/
theorem follows_done (h : (final x s).bus = s.bus) : Follows x .done s :=
  ⟨[], true, .done, by rw [h]; rfl, fun _ _ _ => rfl⟩

/-- Only what an action does counts, and only what the bus has recorded. -/
theorem Follows.congr {y : Exec (Recorder σ) α} {t : Board (Recorder σ)} (h : Follows y S t)
    (hxy : x s = y t) (hst : s.bus = t.bus) : Follows x S s := by
  unfold Follows
  rw [final_congr hxy, hxy, hst]
  exact h

/-- What leaves the bus alone may follow. -/
theorem Follows.bind {f : α → Exec (Recorder σ) β} (h : Follows x S s)
    (hf : ∀ v t, (final (f v) t).bus = t.bus) : Follows (x >>= f) S s := by
  obtain ⟨l, complete, hl, hnew, hok⟩ := h
  refine ⟨l, complete, hl, ?_, fun w u hu => ?_⟩
  · rw [← hnew]
    cases hx : x s with
    | ok v t => rw [final_bind hx, hf, final_ok hx]
    | error e t =>
      rw [final_error hx, final_error]
      exact bind_eq_error_iff.2 (.inl hx)
  · obtain ⟨v, t, hx, -⟩ := bind_eq_ok_iff.1 hu
    exact hok v t hx

end

theorem follows_regs {f : RegisterFile → Exec (Recorder σ) α} {S : Script} {s : Board (Recorder σ)}
    (h : Follows (f s.cpu.regs) S s) : Follows (regs >>= f) S s :=
  h.congr rfl rfl

theorem follows_modifyCpu {change : Cpu → Cpu} {f : Unit → Exec (Recorder σ) α} {S : Script}
    {s : Board (Recorder σ)} (h : Follows (f ()) S ⟨change s.cpu, s.bus⟩) :
    Follows (modifyCpu change >>= f) S s :=
  h.congr rfl rfl

theorem follows_modifyRegs {change : RegisterFile → RegisterFile} {f : Unit → Exec (Recorder σ) α}
    {S : Script} {s : Board (Recorder σ)}
    (h : Follows (f ()) S ⟨{ s.cpu with regs := change s.cpu.regs }, s.bus⟩) :
    Follows (modifyRegs change >>= f) S s :=
  follows_modifyCpu h

/-- An access asks for itself, and then what follows is asked for. -/
theorem follows_record {γ : Type} {kind : AccessKind} {addr : UInt16} {byte : γ → UInt8}
    {access : EStateM Fault σ γ} {f : γ → Exec (Recorder σ) α} {next : UInt8 → Script}
    {s : Board (Recorder σ)} (h : ∀ v b, Follows (f v) (next (byte v)) ⟨s.cpu, b⟩) :
    Follows (onBus (Recorder.record kind addr byte access) >>= f) (.ask ⟨kind, addr⟩ next) s := by
  cases haccess : access s.bus.bus with
  | ok v b =>
    have hx : onBus (Recorder.record kind addr byte access) s =
        .ok v ⟨s.cpu, ⟨b, ⟨kind, addr, some (byte v)⟩ :: s.bus.newest⟩⟩ := by
      rw [onBus_apply, Recorder.record_of_ok haccess]
    obtain ⟨l, complete, hl, hnew, hok⟩ := h v ⟨b, ⟨kind, addr, some (byte v)⟩ :: s.bus.newest⟩
    refine ⟨_ :: l, complete, .moved (byte v) hl, ?_, fun w t ht => ?_⟩
    · rw [final_bind hx, hnew, List.reverse_cons, List.append_assoc]
      rfl
    · rw [bind_apply, hx] at ht
      exact hok w t ht
  | error e b =>
    have hx : onBus (Recorder.record kind addr byte access) s =
        .error e ⟨s.cpu, ⟨b, ⟨kind, addr, none⟩ :: s.bus.newest⟩⟩ := by
      rw [onBus_apply, Recorder.record_of_error haccess]
    have hfails := bind_eq_error_iff.2 (.inl hx : _ ∨ ∃ v u, _ ∧ f v u = _)
    refine ⟨[_], false, .failed, ?_, fun w t ht => ?_⟩
    · rw [final_error hfails]
      rfl
    · rw [hfails] at ht
      cases ht

variable [Bus σ] {s : Board (Recorder σ)}

theorem follows_load {addr : UInt16} {f : UInt8 → Exec (Recorder σ) α} {next : UInt8 → Script}
    (h : ∀ v b, Follows (f v) (next v) ⟨s.cpu, b⟩) :
    Follows (load addr >>= f) (.ask ⟨.read, addr⟩ next) s :=
  follows_record h

theorem follows_store {addr : UInt16} {v : UInt8} {f : Unit → Exec (Recorder σ) α} {S : Script}
    (h : ∀ b, Follows (f ()) S ⟨s.cpu, b⟩) :
    Follows (store addr v >>= f) (.ask ⟨.write, addr⟩ fun _ => S) s :=
  follows_record fun _ b => h b

/-- A fetch that succeeds moves the program counter on. -/
theorem follows_fetch {f : UInt8 → Exec (Recorder σ) α} {next : UInt8 → Script}
    (h : ∀ v b, Follows (f v) (next v) ⟨s.cpu.next, b⟩) :
    Follows (fetch >>= f) (.ask ⟨.fetch, s.cpu.regs.pc⟩ next) s := by
  simp only [fetch, bind_assoc, pure_bind]
  exact Follows.congr (follows_record fun v b => (h v b).congr rfl rfl) rfl rfl

end Exec

/-! ### Data -/

/-- What an access to data asks for. -/
def DataAccess.requests (g : RegisterFile) : DataAccess → List BusRequest
  | none => []
  | load a => [⟨.read, a⟩]
  | store a _ => [⟨.write, a⟩]
  | update a _ => [⟨.read, a⟩, ⟨.write, a⟩]
  | push _ => [⟨.write, g.sp - 1⟩, ⟨.write, g.sp - 2⟩]
  | pop => [⟨.read, g.sp⟩, ⟨.read, g.sp + 1⟩]
  | storeWord a _ => [⟨.write, a⟩, ⟨.write, a + 1⟩]

namespace Exec

variable {σ : Type} [Bus σ] {s : Board (Recorder σ)}

theorem follows_access (a : DataAccess) :
    Follows (access a) (.ofList (a.requests s.cpu.regs)) s := by
  cases a with
  | none => exact follows_done rfl
  | load a => exact follows_load fun v b => follows_done rfl
  | store a v => exact follows_store fun b => follows_done rfl
  | update a f =>
    refine follows_load fun v b => follows_regs (follows_modifyRegs ?_)
    exact follows_store fun b => follows_done rfl
  | push w =>
    refine Follows.bind (follows_regs ?_) fun _ _ => rfl
    exact follows_store fun b => follows_store fun b => follows_done rfl
  | pop =>
    refine follows_regs ?_
    exact follows_load fun lo b => follows_load fun hi b => follows_done rfl
  | storeWord a w => exact follows_store fun b => follows_store fun b => follows_done rfl

theorem follows_perform (p : Plan) :
    Follows (perform p) (.ofList (p.access.requests s.cpu.regs)) s :=
  (follows_access p.access).bind fun _ _ => rfl

end Exec

end Lr35902
