import Lr35902.Memory
import Lr35902.Proofs.Bus.Reliable
import Lr35902.Proofs.Plan
import Lr35902.Proofs.Step

/-!
# What a failed step leaves behind

Accesses to a bus may fail.  The *memory* of a bus is anything that only a successful store changes
(`Bus.Keeps`).  A step or a dispatch that fails has used up the bytes that it fetched, and most
often that is all: the registers, the interrupt switch, the run state, the cycles and the memory are
as before (`Board.Untouched`).  It is not all where a later access fails after an earlier one has
left its mark:

* an instruction that replaces the byte at HL sets the flags before it stores the byte;
* a word is stored in two halves, of which the second may fail;
* a dispatch has pushed the program counter before it withdraws the request.

These are all the exceptions (`Exec.untouched_iff_not_torn`).
-/

namespace Lr35902

variable {σ M : Type} [Bus σ]

/-- What `mem` shows of the bus is changed by successful stores only. -/
structure Bus.Keeps (mem : σ → M) : Prop where
  read8 : ∀ addr b, mem (Bus.loaded addr b).2 = mem b
  fetch8 : ∀ addr b, mem (Bus.fetched addr b).2 = mem b
  write8 : ∀ {addr v b e b'}, Bus.write8 addr v b = .error e b' → mem b' = mem b

/-- From `s` to `t` only the program counter and the table of the next opcode may have changed. -/
structure Board.Untouched (mem : σ → M) (s t : Board σ) : Prop where
  regs : { t.cpu.regs with pc := s.cpu.regs.pc } = s.cpu.regs
  ime : t.cpu.ime = s.cpu.ime
  run : t.cpu.run = s.cpu.run
  cycles : t.cpu.cycles = s.cpu.cycles
  memory : mem t.bus = mem s.bus

/-- The first of two stores changes the memory and the second one fails. -/
def Bus.HalfStored (mem : σ → M) (b : σ) (addr : UInt16) (v : UInt8) (addr' : UInt16)
    (v' : UInt8) : Prop :=
  ∃ half e after, Bus.write8 addr v b = .ok () half ∧ Bus.write8 addr' v' half = .error e after ∧
    mem half ≠ mem b

/-- The access fails after it has changed the flags or the memory. -/
def DataAccess.Torn (mem : σ → M) (s : Board σ) : DataAccess → Prop
  | .update addr f =>
    ∃ v b e after, Bus.read8 addr s.bus = .ok v b ∧
      Bus.write8 addr (f v s.cpu.regs.f).1 b = .error e after ∧
        (f v s.cpu.regs.f).2 ≠ s.cpu.regs.f
  | .push w =>
    Bus.HalfStored mem s.bus (s.cpu.regs.sp - 1) (Word.high w) (s.cpu.regs.sp - 2) (Word.low w)
  | .storeWord addr w => Bus.HalfStored mem s.bus addr (Word.low w) (addr + 1) (Word.high w)
  | _ => False

namespace Exec

variable {mem : σ → M} {s t : Board σ} {e : Fault}

/-! ### Single accesses -/

section

variable (hmem : Bus.Keeps mem)
include hmem

theorem load_ok {addr : UInt16} {v : UInt8} (h : load addr s = .ok v t) :
    Bus.read8 addr s.bus = .ok v t.bus ∧ t.cpu = s.cpu ∧ mem t.bus = mem s.bus := by
  have hkeeps := hmem.read8 addr s.bus
  rw [load_apply] at h
  rw [Bus.loaded] at hkeeps
  cases hread : Bus.read8 addr s.bus with
  | ok w b =>
    rw [hread] at h hkeeps
    cases h
    exact ⟨rfl, rfl, hkeeps⟩
  | error e b =>
    rw [hread] at h
    cases h

theorem load_error {addr : UInt16} (h : load addr s = .error e t) :
    (∃ b, Bus.read8 addr s.bus = .error e b) ∧ t.cpu = s.cpu ∧ mem t.bus = mem s.bus := by
  have hkeeps := hmem.read8 addr s.bus
  rw [load_apply] at h
  rw [Bus.loaded] at hkeeps
  cases hread : Bus.read8 addr s.bus with
  | ok w b =>
    rw [hread] at h
    cases h
  | error e b =>
    rw [hread] at h hkeeps
    cases h
    exact ⟨⟨b, rfl⟩, rfl, hkeeps⟩

theorem store_error {addr : UInt16} {v : UInt8} (h : store addr v s = .error e t) :
    (∃ b, Bus.write8 addr v s.bus = .error e b) ∧ t.cpu = s.cpu ∧ mem t.bus = mem s.bus := by
  rw [store_apply] at h
  cases hwrite : Bus.write8 addr v s.bus with
  | ok w b =>
    rw [hwrite] at h
    cases h
  | error e b =>
    rw [hwrite] at h
    cases h
    exact ⟨⟨b, rfl⟩, rfl, hmem.write8 hwrite⟩

omit hmem in
theorem store_ok {addr : UInt16} {v : UInt8} (h : store addr v s = .ok () t) :
    Bus.write8 addr v s.bus = .ok () t.bus ∧ t.cpu = s.cpu := by
  rw [store_apply] at h
  cases hwrite : Bus.write8 addr v s.bus with
  | ok w b =>
    rw [hwrite] at h
    cases h
    exact ⟨rfl, rfl⟩
  | error e b =>
    rw [hwrite] at h
    cases h

theorem fetch_ok {v : UInt8} (h : fetch s = .ok v t) :
    t.cpu = s.cpu.next ∧ mem t.bus = mem s.bus := by
  have hkeeps := hmem.fetch8 s.cpu.regs.pc s.bus
  rw [fetch_apply] at h
  rw [Bus.fetched] at hkeeps
  cases hread : Bus.fetch8 s.cpu.regs.pc s.bus with
  | ok w b =>
    rw [hread] at h hkeeps
    cases h
    exact ⟨rfl, hkeeps⟩
  | error e b =>
    rw [hread] at h
    cases h

theorem fetch_error (h : fetch s = .error e t) : t.cpu = s.cpu ∧ mem t.bus = mem s.bus := by
  have hkeeps := hmem.fetch8 s.cpu.regs.pc s.bus
  rw [fetch_apply] at h
  rw [Bus.fetched] at hkeeps
  cases hread : Bus.fetch8 s.cpu.regs.pc s.bus with
  | ok w b =>
    rw [hread] at h
    cases h
  | error e b =>
    rw [hread] at h hkeeps
    cases h
    exact ⟨rfl, hkeeps⟩

/-! ### Accesses to data -/

/-- Two stores that fail have changed the memory if they are torn. -/
theorem stores_error {α : Type} {addr addr' : UInt16} {v v' : UInt8} (x : Exec σ α)
    (hx : ∀ u, x u ≠ .error e t)
    (h : (store addr v >>= fun _ => store addr' v' >>= fun _ => x) s = .error e t) :
    t.cpu = s.cpu ∧ (mem t.bus = mem s.bus ↔ ¬ Bus.HalfStored mem s.bus addr v addr' v') := by
  rcases bind_eq_error_iff.1 h with hfirst | ⟨⟨⟩, u, hfirst, hrest⟩
  · -- the first store changes nothing, as it is the one that fails
    obtain ⟨⟨b, hwrite⟩, hcpu, hkept⟩ := store_error hmem hfirst
    refine ⟨hcpu, iff_of_true hkept ?_⟩
    rintro ⟨half, e, after, hok, -⟩
    rw [hwrite] at hok
    cases hok
  · -- the second store fails, so the memory is what the first one has made of it
    obtain ⟨hok, hcpu⟩ := store_ok hfirst
    rcases bind_eq_error_iff.1 hrest with hsecond | ⟨-, w, -, hend⟩
    · obtain ⟨⟨b, hwrite⟩, hcpu', hkept⟩ := store_error hmem hsecond
      refine ⟨hcpu'.trans hcpu, ?_⟩
      rw [hkept]
      constructor
      · rintro hsame ⟨half, e, after, hok', -, hne⟩
        rw [hok] at hok'
        cases hok'
        exact hne hsame
      · intro hnot
        exact Classical.byContradiction fun hne => hnot ⟨u.bus, e, b, hok, hwrite, hne⟩
    · exact absurd hend (hx w)

theorem pushWord_error {w : UInt16} (h : pushWord w s = .error e t) :
    t.cpu = s.cpu ∧ (mem t.bus = mem s.bus ↔ ¬ (DataAccess.push w).Torn mem s) :=
  stores_error hmem (modifyRegs ({ · with sp := s.cpu.regs.sp - 2 })) (fun _ => nofun) h

theorem popWord_error (h : popWord s = .error e t) : t.cpu = s.cpu ∧ mem t.bus = mem s.bus := by
  rw [popWord, bind_apply, regs_apply] at h
  rcases bind_eq_error_iff.1 h with hlow | ⟨lo, u, hlow, hrest⟩
  · exact (load_error hmem hlow).2
  · obtain ⟨-, hcpu, hkept⟩ := load_ok hmem hlow
    rcases bind_eq_error_iff.1 hrest with hhigh | ⟨hi, w, -, ⟨⟩⟩
    obtain ⟨-, hcpu', hkept'⟩ := load_error hmem hhigh
    exact ⟨hcpu'.trans hcpu, hkept'.trans hkept⟩

/-- A replacement of a byte that fails has changed the flags if it is torn, and never the memory. -/
theorem update_error {addr : UInt16} {f : UInt8 → Flags → UInt8 × Flags}
    (h : access (.update addr f) s = .error e t) :
    t.cpu = { s.cpu with regs := { s.cpu.regs with f := t.cpu.regs.f } } ∧
      mem t.bus = mem s.bus ∧
        (t.cpu.regs.f = s.cpu.regs.f ↔ ¬ (DataAccess.update addr f).Torn mem s) := by
  rcases bind_eq_error_iff.1 h with hload | ⟨v, u, hload, hrest⟩
  · obtain ⟨⟨b, hread⟩, hcpu, hkept⟩ := load_error hmem hload
    refine ⟨by rw [hcpu], hkept, iff_of_true (by rw [hcpu]) ?_⟩
    rintro ⟨v, b', e', after, hok, -⟩
    rw [hread] at hok
    cases hok
  · obtain ⟨hok, hcpu, hkept⟩ := load_ok hmem hload
    obtain ⟨cpu, bus⟩ := u
    obtain rfl : cpu = s.cpu := hcpu
    -- the flags are set by now, and only the store can still fail
    have hset : (store addr (f v s.cpu.regs.f).1 >>= fun _ => pure (0 : UInt16))
        ⟨{ s.cpu with regs := { s.cpu.regs with f := (f v s.cpu.regs.f).2 } }, bus⟩ =
          .error e t := hrest
    rcases bind_eq_error_iff.1 hset with hstore | ⟨-, w, -, ⟨⟩⟩
    obtain ⟨⟨after, hwrite⟩, hcpu', hkept'⟩ := store_error hmem hstore
    refine ⟨by rw [hcpu'], hkept'.trans hkept, ?_⟩
    rw [hcpu']
    constructor
    · rintro hsame ⟨v', b, e', after', hok', -, hne⟩
      rw [hok] at hok'
      cases hok'
      exact hne hsame
    · intro hnot
      exact Classical.byContradiction fun hne => hnot ⟨v, bus, e, after, hok, hwrite, hne⟩

/-- An access that fails has changed the flags or the memory if it is torn, and nothing else. -/
theorem access_error {a : DataAccess} (h : access a s = .error e t) :
    t.cpu = { s.cpu with regs := { s.cpu.regs with f := t.cpu.regs.f } } ∧
      (t.cpu.regs.f = s.cpu.regs.f ∧ mem t.bus = mem s.bus ↔ ¬ a.Torn mem s) := by
  cases a with
  | none => cases h
  | load addr =>
    rcases bind_eq_error_iff.1 h with hload | ⟨v, u, -, ⟨⟩⟩
    obtain ⟨-, hcpu, hkept⟩ := load_error hmem hload
    exact ⟨by rw [hcpu], iff_of_true ⟨by rw [hcpu], hkept⟩ not_false⟩
  | store addr v =>
    rcases bind_eq_error_iff.1 h with hstore | ⟨-, u, -, ⟨⟩⟩
    obtain ⟨-, hcpu, hkept⟩ := store_error hmem hstore
    exact ⟨by rw [hcpu], iff_of_true ⟨by rw [hcpu], hkept⟩ not_false⟩
  | update addr f =>
    obtain ⟨hcpu, hkept, hflags⟩ := update_error hmem h
    exact ⟨hcpu, by rw [← hflags]; exact and_iff_left hkept⟩
  | push w =>
    rcases bind_eq_error_iff.1 h with hpush | ⟨-, u, -, ⟨⟩⟩
    obtain ⟨hcpu, hkept⟩ := pushWord_error hmem hpush
    exact ⟨by rw [hcpu], by rw [← hkept, hcpu]; exact and_iff_right rfl⟩
  | pop =>
    obtain ⟨hcpu, hkept⟩ := popWord_error hmem h
    exact ⟨by rw [hcpu], iff_of_true ⟨by rw [hcpu], hkept⟩ not_false⟩
  | storeWord addr w =>
    obtain ⟨hcpu, hkept⟩ := stores_error hmem (pure 0 : Exec σ UInt16) (fun _ => nofun) h
    refine ⟨by rw [hcpu], ?_⟩
    rw [DataAccess.Torn, ← hkept, hcpu]
    exact and_iff_right rfl

omit hmem in
/-- Carrying out a plan fails where its access does. -/
theorem perform_error {p : Plan} (h : perform p s = .error e t) :
    access p.access s = .error e t := by
  rcases bind_eq_error_iff.1 h with haccess | ⟨w, u, -, ⟨⟩⟩
  exact haccess

end

/-! ### Fetching -/

/-- From `s`, `n` bytes are fetched, which leads to `t`. -/
inductive Fetches : Nat → Board σ → Board σ → Prop
  | zero (s : Board σ) : Fetches 0 s s
  | succ {n : Nat} {s t u : Board σ} {v : UInt8} (hst : Fetches n s t) (h : fetch t = .ok v u) :
      Fetches (n + 1) s u

section

variable (hmem : Bus.Keeps mem)
include hmem

/-- Fetching moves the program counter on and does nothing else. -/
theorem Fetches.kept {n : Nat} (h : Fetches n s t) :
    t.cpu = { s.cpu with regs := { s.cpu.regs with pc := s.cpu.regs.pc + UInt16.ofNat n } } ∧
      mem t.bus = mem s.bus := by
  induction h with
  | zero s => exact ⟨by simp, rfl⟩
  | succ _ hfetch ih =>
    obtain ⟨hcpu, hkept⟩ := ih
    obtain ⟨hnext, hkept'⟩ := fetch_ok hmem hfetch
    refine ⟨?_, hkept'.trans hkept⟩
    rw [hnext, hcpu]
    simp only [Cpu.next, ProgramCounter.next, UInt16.ofNat_add, UInt16.add_assoc]
    rfl

omit hmem in
theorem fetches_of_fetchImmediate {k : Immediate} {imm : UInt16} {n : Nat} {r : Board σ}
    (hr : Fetches n r s) (h : fetchImmediate k s = .ok imm t) : ∃ m, Fetches m r t := by
  cases k with
  | none =>
    cases h
    exact ⟨n, hr⟩
  | byte =>
    obtain ⟨v, u, hfetch, ⟨⟩⟩ := bind_eq_ok_iff.1 h
    exact ⟨n + 1, hr.succ hfetch⟩
  | word =>
    obtain ⟨lo, u, hlow, hrest⟩ := bind_eq_ok_iff.1 h
    obtain ⟨hi, w, hhigh, ⟨⟩⟩ := bind_eq_ok_iff.1 hrest
    exact ⟨n + 2, (hr.succ hlow).succ hhigh⟩

/-- Where the immediate bytes cannot all be fetched, those before the failure are. -/
theorem fetchImmediate_error {k : Immediate} {n : Nat} {r : Board σ} (hr : Fetches n r s)
    (h : fetchImmediate k s = .error e t) :
    ∃ m u, Fetches m r u ∧ t.cpu = u.cpu ∧ mem t.bus = mem u.bus := by
  cases k with
  | none => cases h
  | byte =>
    rcases bind_eq_error_iff.1 h with hfetch | ⟨v, u, -, ⟨⟩⟩
    exact ⟨n, s, hr, fetch_error hmem hfetch⟩
  | word =>
    rcases bind_eq_error_iff.1 h with hlow | ⟨lo, u, hlow, hrest⟩
    · exact ⟨n, s, hr, fetch_error hmem hlow⟩
    · rcases bind_eq_error_iff.1 hrest with hhigh | ⟨hi, w, -, ⟨⟩⟩
      exact ⟨n + 1, u, hr.succ hlow, fetch_error hmem hhigh⟩

end

/-! ### Steps and dispatches -/

/-- The opcode's instruction fails in an access that has changed the flags or the memory before. -/
def TornPrimary (mem : σ → M) (addr : UInt16) (opcode : UInt8) (s : Board σ) : Prop :=
  ∃ i imm t p, Instruction.decode opcode = some i ∧ fetchImmediate i.immediate s = .ok imm t ∧
    i.plan addr t.cpu.regs imm = .ok p ∧ p.access.Torn mem t

/-- Whether an instruction is torn depends on its access. -/
theorem tornPrimary_iff {addr : UInt16} {opcode : UInt8} {i : Instruction} {imm : UInt16}
    (hdecode : Instruction.decode opcode = some i)
    (himm : fetchImmediate i.immediate s = .ok imm t) :
    TornPrimary mem addr opcode s ↔
      ∃ p, i.plan addr t.cpu.regs imm = .ok p ∧ p.access.Torn mem t := by
  constructor
  · rintro ⟨j, imm', u, p, hj, hok, hp⟩
    rw [hdecode] at hj
    cases hj
    rw [himm] at hok
    cases hok
    exact ⟨p, hp⟩
  · rintro ⟨p, hp⟩
    exact ⟨i, imm, t, p, hdecode, himm, hp⟩

/-- The step fails in an access that has changed the flags or the memory before. -/
def TornStep (mem : σ → M) (s : Board σ) : Prop :=
  s.cpu.run = .normal ∧ ∃ opcode t, fetch s = .ok opcode t ∧
    match s.cpu.mode with
    | .primary => TornPrimary mem s.cpu.regs.pc opcode t
    | .extended => ((ExtendedInstruction.decode opcode).plan t.cpu.regs).access.Torn mem t

/-- The dispatch fails after it has pushed the program counter, or half of it. -/
def TornDispatch (mem : σ → M) (s : Board σ) : Prop :=
  (DataAccess.push s.cpu.regs.pc).Torn mem s ∨ ∃ t, pushWord s.cpu.regs.pc s = .ok () t

section

variable (hmem : Bus.Keeps mem)
include hmem

/-- What a failure has changed, if it came after `n` bytes were fetched. -/
theorem Fetches.untouched_iff {n : Nat} {u : Board σ} (hu : Fetches n s u)
    (ht : t.cpu = { u.cpu with
      regs := { u.cpu.regs with f := t.cpu.regs.f }
      mode := t.cpu.mode }) :
    t.cpu = { s.cpu with
        regs := { s.cpu.regs with pc := s.cpu.regs.pc + UInt16.ofNat n, f := t.cpu.regs.f }
        mode := t.cpu.mode } ∧
      (s.Untouched mem t ↔ t.cpu.regs.f = u.cpu.regs.f ∧ mem t.bus = mem u.bus) := by
  obtain ⟨hcpu, hkept⟩ := hu.kept hmem
  rw [hcpu] at ht
  refine ⟨ht, ?_⟩
  rw [hkept, hcpu]
  have hregs : { t.cpu.regs with pc := s.cpu.regs.pc } = { s.cpu.regs with f := t.cpu.regs.f } := by
    rw [ht]
  constructor
  · intro h
    refine ⟨?_, h.memory⟩
    have hf := congrArg RegisterFile.f h.regs
    exact hf
  · rintro ⟨hf, hm⟩
    refine ⟨?_, by rw [ht], by rw [ht], by rw [ht], hm⟩
    rw [hregs, hf]

/-- Of a plan only the access can fail, and a fault in its place is raised before anything is
done. -/
theorem performPlanned_error {q : Except Fault Plan} (h : performPlanned q s = .error e t) :
    t.cpu = { s.cpu with regs := { s.cpu.regs with f := t.cpu.regs.f } } ∧
      (t.cpu.regs.f = s.cpu.regs.f ∧ mem t.bus = mem s.bus ↔
        ¬ ∃ p, q = .ok p ∧ p.access.Torn mem s) := by
  cases q with
  | error e' =>
    cases h
    refine ⟨rfl, iff_of_true ⟨rfl, rfl⟩ ?_⟩
    rintro ⟨p, hp, -⟩
    cases hp
  | ok p =>
    obtain ⟨hcpu, hiff⟩ := access_error hmem (perform_error h)
    refine ⟨hcpu, hiff.trans (not_congr ?_)⟩
    constructor
    · exact fun htorn => ⟨p, rfl, htorn⟩
    · rintro ⟨p', ⟨⟩, htorn⟩
      exact htorn

/-- Where carrying out an opcode fails, and what it has changed by then. -/
theorem primary_error {addr : UInt16} {opcode : UInt8} {n : Nat} {r : Board σ}
    (hr : Fetches n r s) (h : primary addr opcode s = .error e t) :
    ∃ m u, Fetches m r u ∧
      t.cpu = { u.cpu with regs := { u.cpu.regs with f := t.cpu.regs.f }, mode := t.cpu.mode } ∧
        (t.cpu.regs.f = u.cpu.regs.f ∧ mem t.bus = mem u.bus ↔
          ¬ TornPrimary mem addr opcode s) := by
  unfold primary at h
  cases hdecode : Instruction.decode opcode with
  | none =>
    -- a byte that is no opcode is a fault before anything is done
    rw [hdecode] at h
    cases h
    refine ⟨n, s, hr, rfl, iff_of_true ⟨rfl, rfl⟩ ?_⟩
    rintro ⟨i, imm, u, p, hi, -⟩
    rw [hdecode] at hi
    cases hi
  | some i =>
    simp only [hdecode] at h
    rw [instruction_eq (Instruction.wellFormed_of_decode hdecode)] at h
    rcases bind_eq_error_iff.1 h with himm | ⟨imm, u, himm, hrest⟩
    · -- an immediate byte is missing, so there is no plan that could be torn
      obtain ⟨m, u, hu, hcpu, hkept⟩ := fetchImmediate_error hmem hr himm
      refine ⟨m, u, hu, by rw [hcpu], iff_of_true ⟨by rw [hcpu], hkept⟩ ?_⟩
      rintro ⟨j, imm, w, p, hj, hok, -⟩
      rw [hdecode] at hj
      cases hj
      rw [himm] at hok
      cases hok
    · obtain ⟨m, hu⟩ := fetches_of_fetchImmediate hr himm
      rw [bind_apply, regs_apply] at hrest
      obtain ⟨hcpu, hiff⟩ := performPlanned_error hmem hrest
      rw [tornPrimary_iff hdecode himm]
      exact ⟨m, u, hu, by rw [hcpu], hiff⟩

omit hmem in
theorem tornStep_iff (hrun : s.cpu.run = .normal) {opcode : UInt8} (hfetch : fetch s = .ok opcode t)
    (mem : σ → M) :
    TornStep mem s ↔ match s.cpu.mode with
      | .primary => TornPrimary mem s.cpu.regs.pc opcode t
      | .extended => ((ExtendedInstruction.decode opcode).plan t.cpu.regs).access.Torn mem t := by
  constructor
  · rintro ⟨-, opcode', u, hok, htorn⟩
    rw [hfetch] at hok
    cases hok
    exact htorn
  · exact fun htorn => ⟨hrun, opcode, t, hfetch, htorn⟩

omit hmem in
/-- An access depends on the registers and the bus only. -/
theorem torn_iff_of_regs {a : DataAccess} {cpu cpu' : Cpu} {b : σ}
    (h : cpu'.regs = cpu.regs) : a.Torn mem ⟨cpu', b⟩ ↔ a.Torn mem ⟨cpu, b⟩ := by
  cases a <;> simp only [DataAccess.Torn, h]

theorem extended_error {opcode : UInt8}
    (h : extendedInstruction (ExtendedInstruction.decode opcode) s = .error e t) :
    t.cpu = { s.cpu with regs := { s.cpu.regs with f := t.cpu.regs.f } } ∧
      (t.cpu.regs.f = s.cpu.regs.f ∧ mem t.bus = mem s.bus ↔
        ¬ ((ExtendedInstruction.decode opcode).plan s.cpu.regs).access.Torn mem s) := by
  rw [extendedInstruction_eq (Register.isOperand_ofIndex opcode), bind_apply, regs_apply] at h
  exact access_error hmem (perform_error h)

/-- Where a step fails, and what it has changed by then. -/
theorem step_error (h : step s = .error e t) :
    ∃ n u, Fetches n s u ∧
      t.cpu = { u.cpu with regs := { u.cpu.regs with f := t.cpu.regs.f }, mode := t.cpu.mode } ∧
        (t.cpu.regs.f = u.cpu.regs.f ∧ mem t.bus = mem u.bus ↔ ¬ TornStep mem s) := by
  by_cases hwaiting : s.cpu.run ≠ .normal
  · rw [step_waiting hwaiting] at h
    cases h
  have hrun : s.cpu.run = .normal := Decidable.not_not.1 hwaiting
  cases hfetch : Bus.fetch8 s.cpu.regs.pc s.bus with
  | error e' bus =>
    -- without an opcode nothing is executed, let alone torn
    have hfails : fetch s = .error e' { s with bus } := by rw [fetch_apply, hfetch]
    obtain ⟨-, hkept⟩ := fetch_error hmem hfails
    rw [step_fetch_error hrun hfetch] at h
    cases h
    refine ⟨0, s, .zero s, rfl, iff_of_true ⟨rfl, hkept⟩ ?_⟩
    rintro ⟨-, opcode, u, hok, -⟩
    rw [hfails] at hok
    cases hok
  | ok opcode bus =>
    have hfetches : fetch s = .ok opcode ⟨s.cpu.next, bus⟩ := by rw [fetch_apply, hfetch]
    have hone : Fetches 1 s ⟨s.cpu.next, bus⟩ := (Fetches.zero s).succ hfetches
    have htorn := tornStep_iff hrun hfetches mem
    cases hmode : s.cpu.mode with
    | primary =>
      rw [htorn, hmode]
      by_cases hext : opcode = extensionByte
      · subst hext
        rw [step_extension hrun hmode hfetch] at h
        cases h
      · rw [step_primary hrun hmode hfetch hext, bind_complete_error_iff] at h
        exact primary_error hmem hone h
    | extended =>
      rw [htorn, hmode]
      rw [step_extended hrun hmode hfetch, bind_complete_error_iff] at h
      obtain ⟨hcpu, hiff⟩ := extended_error hmem h
      refine ⟨1, _, hone, ?_, ?_⟩
      · rw [hcpu]
      · rw [← torn_iff_of_regs rfl]
        exact hiff

omit hmem in
theorem pushWord_ok {w : UInt16} (h : pushWord w s = .ok () t) :
    t.cpu = { s.cpu with regs := { s.cpu.regs with sp := s.cpu.regs.sp - 2 } } := by
  rw [pushWord, bind_apply, regs_apply] at h
  obtain ⟨⟨⟩, u, hhigh, hrest⟩ := bind_eq_ok_iff.1 h
  obtain ⟨⟨⟩, v, hlow, ⟨⟩⟩ := bind_eq_ok_iff.1 hrest
  rw [(store_ok hlow).2, (store_ok hhigh).2]

omit hmem [Bus σ] in
/-- A stack pointer that has moved is not as it was. -/
theorem not_untouched_of_sp (h : t.cpu.regs.sp = s.cpu.regs.sp - 2) : ¬ s.Untouched mem t := by
  intro huntouched
  have hsp := congrArg RegisterFile.sp huntouched.regs
  simp only [h] at hsp
  have hnat := congrArg UInt16.toNat hsp
  have hlt := s.cpu.regs.sp.toNat_lt
  simp only [UInt16.toNat_sub, UInt16.reduceToNat] at hnat
  omega

/-- Where a dispatch fails, and what it has changed by then. -/
theorem dispatch_error {i : Interrupt} (h : dispatch i s = .error e t) :
    (s.Untouched mem t ↔ ¬ TornDispatch mem s) ∧
      t.cpu = { s.cpu with regs := { s.cpu.regs with sp := t.cpu.regs.sp } } := by
  rw [dispatch, bind_apply, regs_apply] at h
  rcases bind_eq_error_iff.1 h with hpush | ⟨⟨⟩, u, hpush, hrest⟩
  · -- the push fails, after half of it at most
    obtain ⟨hcpu, hiff⟩ := pushWord_error hmem hpush
    refine ⟨?_, by rw [hcpu]⟩
    constructor
    · rintro huntouched (htorn | ⟨u, hok⟩)
      · exact hiff.1 huntouched.memory htorn
      · rw [hpush] at hok
        cases hok
    · intro hnot
      have hkept := hiff.2 fun htorn => hnot (.inl htorn)
      exact ⟨by rw [hcpu], by rw [hcpu], by rw [hcpu], by rw [hcpu], hkept⟩
  · -- the push has moved the stack pointer, and no access to the requests moves it back
    have hcpu : t.cpu = u.cpu := by
      rcases bind_eq_error_iff.1 hrest with hload | ⟨requested, v, hload, hrest⟩
      · exact (load_error hmem hload).2.1
      · rcases bind_eq_error_iff.1 hrest with hstore | ⟨⟨⟩, w, -, ⟨⟩⟩
        exact (store_error hmem hstore).2.1.trans (load_ok hmem hload).2.1
    rw [pushWord_ok hpush] at hcpu
    refine ⟨iff_of_false (not_untouched_of_sp ?_) (not_not_intro (.inr ⟨u, hpush⟩)), ?_⟩
    · rw [hcpu]
    · rw [hcpu]

end

/-- A step or a dispatch that fails leaves the registers, the interrupt switch, the run state, the
cycles and the memory as they were if and only if it is not torn.  In any case the program counter
is past the bytes that were fetched, a step has changed nothing of the processor but the flags, and
a dispatch nothing but the stack pointer. -/
theorem untouched_iff_not_torn (hmem : Bus.Keeps mem) (s t : Board σ) (e : Fault) :
    (step s = .error e t →
      (s.Untouched mem t ↔ ¬ TornStep mem s) ∧
        ∃ n u, Fetches n s u ∧
          t.cpu = { s.cpu with
            regs := { s.cpu.regs with pc := s.cpu.regs.pc + UInt16.ofNat n, f := t.cpu.regs.f }
            mode := t.cpu.mode }) ∧
      ∀ i, dispatch i s = .error e t →
        (s.Untouched mem t ↔ ¬ TornDispatch mem s) ∧
          t.cpu = { s.cpu with regs := { s.cpu.regs with sp := t.cpu.regs.sp } } := by
  constructor
  · intro h
    obtain ⟨n, u, hu, hcpu, hiff⟩ := step_error hmem h
    obtain ⟨hcpu, huntouched⟩ := hu.untouched_iff hmem hcpu
    exact ⟨huntouched.trans hiff, n, u, hu, hcpu⟩
  · exact fun i h => dispatch_error hmem h

end Exec

/-! ### A memory with a locked byte -/

/-- A memory in which one byte cannot be stored. -/
structure LockedMemory where
  memory : Memory
  locked : UInt16

namespace LockedMemory

instance : Bus LockedMemory where
  read8 addr b := .ok (b.memory.ram.get addr) b
  write8 addr v b :=
    if addr = b.locked then .error (.outOfBounds .memory addr.toNat ByteSpace.size) b
    else .ok () { b with memory := { b.memory with ram := b.memory.ram.set addr v } }
  fetch8 addr b := .ok (b.memory.rom.get addr) b
  extent b := b.memory.extent

theorem keeps_memory : Bus.Keeps LockedMemory.memory where
  read8 _ _ := rfl
  fetch8 _ _ := rfl
  write8 {addr v b e b'} h := by
    change (if addr = b.locked then _ else _) = _ at h
    split at h <;> cases h
    rfl

/-- Before a step that increments the locked byte, with the zero flag set. -/
def beforeIncrement : Board LockedMemory where
  cpu := { regs := { f := { zero := true }, h := 0xC0 } }
  bus := ⟨{ Memory.blank with rom := (ByteSpace.filled 0).set 0 0x34 }, 0xC000⟩

/-- The theorem at a step that increments the locked byte. -/
theorem untouched_iff_not_torn_increment :
    ∃ t, Exec.step beforeIncrement = .error (.outOfBounds .memory 0xC000 0x10000) t ∧
      (beforeIncrement.Untouched LockedMemory.memory t ↔
        ¬ Exec.TornStep LockedMemory.memory beforeIncrement) :=
  ⟨_, rfl, ((Exec.untouched_iff_not_torn keeps_memory _ _ _).1 rfl).1⟩

/-- A failed increment of the locked byte has cleared the zero flag. -/
theorem not_untouched_increment :
    ∃ t, Exec.step beforeIncrement = .error (.outOfBounds .memory 0xC000 0x10000) t ∧
      ¬ beforeIncrement.Untouched LockedMemory.memory t := by
  refine ⟨_, rfl, fun h => ?_⟩
  have hzero := congrArg (fun g => g.f.zero) h.regs
  exact absurd hzero (by decide)

end LockedMemory

end Lr35902
