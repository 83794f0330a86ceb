import Lr35902.Proofs.Atomicity
import Lr35902.Proofs.Bus.Script

/-!
# The order of bus accesses

A step fetches the bytes of one instruction, from the program counter upwards, and then accesses
data at most twice.  How many bytes it fetches depends on the opcode and its table alone
(`Cpu.fetchCount`), also where a branch is not taken, and there are few ways to access data twice
(`DataRequests`).

`Cpu.script` is the script of a step.  A step that succeeds makes all the accesses of its script,
and one that fails makes them up to the one that failed (`Exec.bus_discipline`).
-/

namespace Lr35902

/-! ### The script of a step -/

/-- The number of immediate bytes. -/
def Immediate.count : Immediate → ℕ
  | none => 0
  | byte => 1
  | word => 2

/-- Fetches the immediate bytes, and goes on with the processor and the word that they give. -/
def Immediate.script (cpu : Cpu) (next : Cpu → UInt16 → Script) : Immediate → Script
  | none => next cpu 0
  | byte => .ask ⟨.fetch, cpu.regs.pc⟩ fun v => next cpu.next v.toUInt16
  | word =>
    .ask ⟨.fetch, cpu.regs.pc⟩ fun lo =>
      .ask ⟨.fetch, cpu.next.regs.pc⟩ fun hi => next cpu.next.next (Word.pack hi lo)

/-- What an instruction asks for once its immediate bytes are fetched. -/
def Instruction.dataRequests (addr : UInt16) (g : RegisterFile) (imm : UInt16) (i : Instruction) :
    List BusRequest :=
  match i.plan addr g imm with
  | .ok p => p.access.requests g
  | .error _ => []

namespace Cpu

/-- What a step asks for after its opcode. -/
def executeScript (before : Cpu) (opcode : UInt8) : Script :=
  match before.mode with
  | .primary =>
    match Instruction.decode opcode with
    | some i =>
      i.immediate.script before.next fun cpu imm =>
        .ofList (i.dataRequests before.regs.pc cpu.regs imm)
    | none => .done
  | .extended =>
    .ofList (((ExtendedInstruction.decode opcode).plan before.next.regs).access.requests
      before.next.regs)

/-- What a step asks for. -/
def script (cpu : Cpu) : Script :=
  if cpu.run ≠ .normal then .done else .ask ⟨.fetch, cpu.regs.pc⟩ cpu.executeScript

end Cpu

namespace Exec

variable {σ : Type} [Bus σ] {s : Board (Recorder σ)}

theorem follows_planned (i : Instruction) (addr imm : UInt16) (s : Board (Recorder σ)) :
    Follows (do let g ← regs; performPlanned (i.plan addr g imm))
      (.ofList (i.dataRequests addr s.cpu.regs imm)) s := by
  refine follows_regs ?_
  unfold Instruction.dataRequests
  cases i.plan addr s.cpu.regs imm with
  | ok p => exact follows_perform p
  | error e => exact follows_done rfl

theorem follows_instruction {i : Instruction} (hi : i.WellFormed) (addr : UInt16) :
    Follows (instruction addr i)
      (i.immediate.script s.cpu fun cpu imm => .ofList (i.dataRequests addr cpu.regs imm)) s := by
  rw [instruction_eq hi]
  cases i.immediate with
  | none => exact follows_planned i addr 0 s
  | byte =>
    rw [fetchImmediate_byte_bind]
    exact follows_fetch fun v b => follows_planned i addr v.toUInt16 ⟨s.cpu.next, b⟩
  | word =>
    simp only [fetchImmediate_word_bind, fetchWord, bind_assoc, pure_bind]
    refine follows_fetch fun lo b => ?_
    exact follows_fetch (s := ⟨s.cpu.next, b⟩) fun hi b =>
      follows_planned i addr (Word.pack hi lo) ⟨s.cpu.next.next, b⟩

theorem follows_extendedInstruction {i : ExtendedInstruction} (hi : i.target.IsOperand) :
    Follows (extendedInstruction i)
      (.ofList ((i.plan s.cpu.regs).access.requests s.cpu.regs)) s := by
  rw [extendedInstruction_eq hi]
  exact follows_regs (follows_perform _)

omit [Bus σ] in
theorem final_complete_bus (ime : InterruptState) (n : ℕ) (t : Board (Recorder σ)) :
    (final (complete ime n) t).bus = t.bus := by
  unfold complete
  split <;> rfl

theorem follows_execute (before : Cpu) (opcode : UInt8) (b : Recorder σ) :
    Follows (execute before opcode) (before.executeScript opcode) ⟨before.next, b⟩ := by
  unfold execute Cpu.executeScript
  cases before.mode with
  | primary =>
    dsimp only
    split
    · rename_i hext
      have hnone : Instruction.decode opcode = none :=
        Instruction.decode_eq_none_iff.2 (.inr hext)
      rw [hnone]
      exact follows_done rfl
    · refine Follows.bind ?_ (final_complete_bus before.ime)
      unfold primary
      cases hi : Instruction.decode opcode with
      | none => exact follows_done rfl
      | some i =>
        have hwf := Instruction.wellFormed_of_decode hi
        exact follows_instruction (s := ⟨before.next, b⟩) hwf before.regs.pc
  | extended =>
    dsimp only
    -- the primary table is back in place before the instruction is carried out
    refine follows_modifyCpu (Follows.bind ?_ (final_complete_bus before.ime))
    have hi : (ExtendedInstruction.decode opcode).target.IsOperand :=
      Register.isOperand_ofIndex opcode
    generalize ExtendedInstruction.decode opcode = i at hi ⊢
    exact follows_extendedInstruction (s := ⟨{ before.next with mode := .primary }, b⟩) hi

/-- A step on a recorder follows the script of the processor. -/
theorem follows_step (s : Board (Recorder σ)) : Follows step s.cpu.script s := by
  unfold Cpu.script
  split
  · rename_i hwaiting
    exact (follows_done rfl : Follows (spend Cpu.idleCycles) .done s).congr (step_waiting hwaiting)
      rfl
  · rename_i hrunning
    exact (follows_fetch fun opcode b => follows_execute s.cpu opcode b).congr
      (step_eq_fetch_bind (Decidable.not_not.1 hrunning)) rfl

end Exec

/-! ### Ways to access data -/

/-- The fetches of bytes from `pc` upwards. -/
def fetches (pc : UInt16) : ℕ → List BusRequest
  | 0 => []
  | k + 1 => ⟨.fetch, pc⟩ :: fetches (pc + 1) k

/-- What may be asked of data, given the registers and the addresses at which a word may be stored
that does not go to the stack. -/
inductive DataRequests (g : RegisterFile) (words : UInt16 → Prop) : List BusRequest → Prop
  | none : DataRequests g words []
  | load (a : UInt16) : DataRequests g words [⟨.read, a⟩]
  | store (a : UInt16) : DataRequests g words [⟨.write, a⟩]
  /-- The byte at HL is replaced. -/
  | update : DataRequests g words [⟨.read, g.hl⟩, ⟨.write, g.hl⟩]
  | push : DataRequests g words [⟨.write, g.sp - 1⟩, ⟨.write, g.sp - 2⟩]
  | pop : DataRequests g words [⟨.read, g.sp⟩, ⟨.read, g.sp + 1⟩]
  | storeWord {a : UInt16} (h : words a) : DataRequests g words [⟨.write, a⟩, ⟨.write, a + 1⟩]

theorem DataRequests.mono {g g' : RegisterFile} {words words' : UInt16 → Prop}
    {rs : List BusRequest} (h : DataRequests g words rs) (hsp : g.sp = g'.sp) (hhl : g.hl = g'.hl)
    (hwords : ∀ a, words a → words' a) : DataRequests g' words' rs := by
  cases h with
  | none => exact .none
  | load a => exact .load a
  | store a => exact .store a
  | update =>
    rw [hhl]
    exact .update
  | push =>
    rw [hsp]
    exact .push
  | pop =>
    rw [hsp]
    exact .pop
  | storeWord h => exact .storeWord (hwords _ h)

namespace Plan

variable (g : RegisterFile) (r : Register) (m n : ℕ) (words : UInt16 → Prop)

theorem dataRequests_reading (use : UInt8 → RegisterFile → RegisterFile) :
    DataRequests g words ((reading g r m n use).access.requests g) := by
  unfold reading
  split
  · exact .load g.hl
  · exact .none

theorem dataRequests_writing (v : UInt8) :
    DataRequests g words ((writing g r v m n).access.requests g) := by
  unfold writing
  split
  · exact .store g.hl
  · exact .none

theorem dataRequests_updating (f : UInt8 → Flags → UInt8 × Flags) :
    DataRequests g words ((updating g r m n f).access.requests g) := by
  unfold updating
  split
  · exact .update
  · exact .none

/-- A jump does not access data, whether it is made or not. -/
theorem access_jumping (cond : Option Condition) (target : UInt16) :
    (jumping g cond target m n).access = .none := by
  unfold jumping
  split <;> rfl

end Plan

/-- The condition of a branch. -/
def Instruction.condition : Instruction → Option Condition
  | jr cond | jp cond | call cond | ret cond => cond
  | _ => none

namespace Instruction

variable (i : Instruction) (addr imm : UInt16) (g : RegisterFile)

/-- One instruction only stores a word that does not go to the stack. -/
theorem dataRequests_plan :
    DataRequests g (fun a => i = .storeSp ∧ a = imm) (i.dataRequests addr g imm) := by
  unfold dataRequests
  cases i
  case stop =>
    by_cases hzero : imm.toUInt8 ≠ 0
    · simp only [plan, if_pos hzero]
      exact .none
    · simp only [plan, if_neg hzero]
      exact .none
  case storeSp => exact .storeWord ⟨rfl, rfl⟩
  case load dst src =>
    simp only [plan]
    split
    · exact Plan.dataRequests_writing g dst 4 8 _ _
    · exact Plan.dataRequests_reading g src 4 8 _ _
  case loadImmediate dst => exact Plan.dataRequests_writing g dst 8 12 _ _
  case alu op src => exact Plan.dataRequests_reading g src 4 8 _ _
  case inc dst => exact Plan.dataRequests_updating g dst 4 12 _ _
  case dec dst => exact Plan.dataRequests_updating g dst 4 12 _ _
  case loadA src => exact .load _
  case storeA dst => exact .store _
  case push src => exact .push
  case pop dst => exact .pop
  case reti => exact .pop
  case rst target => exact .push
  case jr cond =>
    simp only [plan, Plan.access_jumping]
    exact .none
  case jp cond =>
    simp only [plan, Plan.access_jumping]
    exact .none
  case call cond =>
    simp only [plan]
    split
    · exact .push
    · exact .none
  case ret cond =>
    cases cond with
    | none => exact .pop
    | some cond =>
      simp only [plan]
      split
      · exact .pop
      · exact .none
  all_goals exact .none

variable {i addr imm g}

/-- A branch that is not taken does not access data. -/
theorem dataRequests_of_untaken {cond : Condition} (hcond : i.condition = some cond)
    (hf : cond.holds g.f = false) : i.dataRequests addr g imm = [] := by
  unfold dataRequests
  cases i
  case jr =>
    simp only [plan, Plan.access_jumping]
    rfl
  case jp =>
    simp only [plan, Plan.access_jumping]
    rfl
  case call =>
    cases hcond
    simp only [plan, Option.all_some, hf, Bool.false_eq_true, if_false]
    rfl
  case ret =>
    cases hcond
    simp only [plan, Option.all_some, hf, Bool.false_eq_true, if_false]
    rfl
  all_goals cases hcond

end Instruction

theorem ExtendedInstruction.dataRequests_plan (i : ExtendedInstruction) (g : RegisterFile)
    (words : UInt16 → Prop) : DataRequests g words ((i.plan g).access.requests g) := by
  obtain ⟨op, target⟩ := i
  cases op with
  | bit n => exact Plan.dataRequests_reading g target 4 8 words _
  | shift dir fill => exact Plan.dataRequests_updating g target 4 12 words _
  | swap => exact Plan.dataRequests_updating g target 4 12 words _
  | res n => exact Plan.dataRequests_updating g target 4 12 words _
  | set n => exact Plan.dataRequests_updating g target 4 12 words _

/-! ### What a step asks for -/

namespace Immediate

/-- The processor after the immediate bytes. -/
def after (cpu : Cpu) : Immediate → Cpu
  | none => cpu
  | byte => cpu.next
  | word => cpu.next.next

/-- The word that the immediate bytes give. -/
def value (moved : ℕ → UInt8) : Immediate → UInt16
  | none => 0
  | byte => (moved 0).toUInt16
  | word => Word.pack (moved 1) (moved 0)

theorem requests_script (k : Immediate) (cpu : Cpu) (data : Cpu → UInt16 → List BusRequest)
    (moved : ℕ → UInt8) :
    (k.script cpu fun cpu imm => .ofList (data cpu imm)).requests moved =
      fetches cpu.regs.pc k.count ++ data (k.after cpu) (k.value moved) := by
  cases k <;> simp only [script, Script.requests, Script.requests_ofList] <;> rfl

variable (k : Immediate) (cpu : Cpu)

theorem sp_after : (k.after cpu).regs.sp = cpu.regs.sp := by cases k <;> rfl

theorem hl_after : (k.after cpu).regs.hl = cpu.regs.hl := by cases k <;> rfl

theorem f_after : (k.after cpu).regs.f = cpu.regs.f := by cases k <;> rfl

end Immediate

namespace Cpu

/-- The number of bytes that a step fetches. -/
def fetchCount (run : RunState) (mode : DecodeMode) (opcode : UInt8) : ℕ :=
  if run ≠ .normal then 0
  else match mode with
    | .primary => ((Instruction.decode opcode).elim 0 fun i => i.immediate.count) + 1
    | .extended => 1

/-- The opcode is that of a branch whose condition does not hold. -/
def Untaken (cpu : Cpu) (opcode : UInt8) : Prop :=
  cpu.mode = .primary ∧ ∃ i cond, Instruction.decode opcode = some i ∧ i.condition = some cond ∧
    cond.holds cpu.regs.f = false

/-- The bytes are those of the instruction that stores SP at the address `a`. -/
def StoresSpAt (cpu : Cpu) (moved : ℕ → UInt8) (a : UInt16) : Prop :=
  cpu.mode = .primary ∧ moved 0 = 0x08 ∧ a = Word.pack (moved 2) (moved 1)

theorem fetchCount_eq_zero_iff (run : RunState) (mode : DecodeMode) (opcode : UInt8) :
    fetchCount run mode opcode = 0 ↔ run ≠ .normal := by
  unfold fetchCount
  split
  · exact iff_of_true rfl ‹_›
  · refine iff_of_false ?_ ‹_›
    cases mode <;> simp

theorem fetchCount_le (run : RunState) (mode : DecodeMode) (opcode : UInt8) :
    fetchCount run mode opcode ≤ 3 := by
  have hcount (k : Immediate) : k.count ≤ 2 := by cases k <;> decide
  unfold fetchCount
  split
  · exact Nat.zero_le 3
  · cases mode with
    | extended => exact Nat.le_add_left 1 2
    | primary =>
      cases Instruction.decode opcode with
      | none => exact Nat.le_add_left 1 2
      | some i => exact Nat.succ_le_succ (hcount i.immediate)

theorem eq_storeSp {opcode : UInt8} (h : Instruction.decode opcode = some .storeSp) :
    opcode = 0x08 := by
  have hall : ∀ v : BitVec 8, Instruction.decode ⟨v⟩ = some .storeSp → (⟨v⟩ : UInt8) = 0x08 := by
    decide +kernel
  exact hall opcode.toBitVec h

/-- A step fetches its bytes first, and then asks for data in one of the usual ways. -/
theorem requests_script (cpu : Cpu) (moved : ℕ → UInt8) :
    ∃ data, cpu.script.requests moved =
        fetches cpu.regs.pc (fetchCount cpu.run cpu.mode (moved 0)) ++ data ∧
      DataRequests cpu.regs (cpu.StoresSpAt moved) data ∧
      (cpu.Untaken (moved 0) → data = []) := by
  unfold script fetchCount
  split
  · exact ⟨[], rfl, .none, fun _ => rfl⟩
  unfold executeScript
  rw [Script.requests]
  cases hmode : cpu.mode with
  | extended =>
    refine ⟨_, congrArg _ (Script.requests_ofList _ _), ?_, fun h => ?_⟩
    · exact (ExtendedInstruction.dataRequests_plan _ _ _).mono rfl rfl fun _ => id
    · exact absurd (hmode.symm.trans h.1) (by decide)
  | primary =>
    cases hi : Instruction.decode (moved 0) with
    | none =>
      refine ⟨[], rfl, .none, fun _ => rfl⟩
    | some i =>
      have hscript := i.immediate.requests_script cpu.next
        (fun after imm => i.dataRequests cpu.regs.pc after.regs imm) fun n => moved (n + 1)
      refine ⟨_, congrArg (_ :: ·) hscript, ?_, ?_⟩
      · refine (i.dataRequests_plan cpu.regs.pc _ _).mono (Immediate.sp_after _ _)
          (Immediate.hl_after _ _) ?_
        rintro a ⟨rfl, rfl⟩
        exact ⟨hmode, eq_storeSp hi, rfl⟩
      · rintro ⟨-, j, cond, hj, hcond, hf⟩
        rw [hi] at hj
        cases hj
        refine Instruction.dataRequests_of_untaken hcond ?_
        rw [Immediate.f_after]
        exact hf

end Cpu

/-! ### What a step does -/

namespace Exec

variable {σ : Type} [Bus σ]

/-- The accesses of a step are a transcript of its script, and a complete one if it succeeds. -/
theorem transcript_step (s : Board σ) :
    ∃ complete, s.cpu.script.Transcript (accesses step s) complete ∧
      ∀ n t, (step s : EStateM.Result Fault (Board σ) ℕ) = .ok n t → complete = true := by
  obtain ⟨l, complete, hl, hnew, hok⟩ := follows_step (s.recorded [])
  refine ⟨complete, ?_, fun n t ht => ?_⟩
  · rw [accesses_eq, hnew, List.reverse_append, List.reverse_reverse]
    exact hl
  · obtain ⟨l', hrecorded, -⟩ :=
      Recorder.ok_of_simulates (simulates_step Recorder.transparent) trivial ht
    exact hok n _ hrecorded

/-- The order of the accesses of a step.  Whatever bytes are moved, it asks for the bytes of one
instruction, and then for data in one of the usual ways, or not at all where a branch is not taken.
It makes all accesses that it asks for, or fails with the last one that it makes.  On another bus
that moves the same bytes for it up to there, it makes the same accesses first. -/
theorem bus_discipline (s : Board σ) :
    let cpu := s.cpu
    let l := accesses step s
    (∀ moved : ℕ → UInt8,
      let k := Cpu.fetchCount cpu.run cpu.mode (moved 0)
      let rs := cpu.script.requests moved
      (k = 0 ↔ cpu.run ≠ .normal) ∧ k ≤ 3 ∧
      (∃ data, rs = fetches cpu.regs.pc k ++ data ∧
        DataRequests cpu.regs (cpu.StoresSpAt moved) data ∧ (cpu.Untaken (moved 0) → data = [])) ∧
      (Script.Moved moved l →
        match (step s : EStateM.Result Fault (Board σ) ℕ) with
        | .ok _ _ => Complete l rs
        | .error _ _ => Complete l rs ∨ Cut l rs)) ∧
    ∀ {τ : Type} [Bus τ] (t : Board τ), t.cpu = cpu →
      movedBytes l <+: movedBytes (accesses step t) →
      l.map (·.request) <+: (accesses step t).map (·.request) := by
  intro cpu l
  obtain ⟨complete, hl, hok⟩ := transcript_step s
  refine ⟨fun moved => ⟨Cpu.fetchCount_eq_zero_iff _ _ _, Cpu.fetchCount_le _ _ _,
    cpu.requests_script moved, fun hmoved => ?_⟩, fun t ht hmoved => ?_⟩
  · have hrequests := hl.requests_eq hmoved
    cases hstep : (step s : EStateM.Result Fault (Board σ) ℕ) with
    | ok n t =>
      rw [hok n t hstep] at hrequests
      exact hrequests
    | error e t =>
      cases complete with
      | true => exact .inl hrequests
      | false => exact .inr hrequests
  · obtain ⟨complete', hl', -⟩ := transcript_step t
    rw [ht] at hl'
    exact hl.requests_prefix hl' hmoved

end Exec

/-- Before a step that pushes BC, where the second byte of the stack is locked. -/
def LockedMemory.beforePush : Board LockedMemory where
  cpu := { regs := { sp := 0xC002 } }
  bus := ⟨{ Memory.blank with rom := (ByteSpace.filled 0).set 0 0xC5 }, 0xC000⟩

/-- The theorem at that step, which fails with its second store. -/
theorem Exec.bus_discipline_push :
    let s := LockedMemory.beforePush
    let l := accesses step s
    let moved : ℕ → UInt8 := fun i => if i = 0 then 0xC5 else 0
    let rs : List BusRequest := [⟨.fetch, 0⟩, ⟨.write, 0xC001⟩, ⟨.write, 0xC000⟩]
    Script.Moved moved l ∧ s.cpu.script.requests moved = rs ∧ Cut l rs ∧ l.length = 3 ∧
      ∃ t : Board Memory, t.cpu = s.cpu ∧ movedBytes l <+: movedBytes (accesses step t) ∧
        l.map (·.request) <+: (accesses step t).map (·.request) := by
  intro s l moved rs
  have hbytes : movedBytes l = [0xC5, 0x00] := by decide +kernel
  have hmoved : Script.Moved moved l := by
    unfold Script.Moved
    rw [hbytes]
    rintro (_ | _ | i) v ⟨⟩ <;> rfl
  have hrequests : s.cpu.script.requests moved = rs := by decide +kernel
  have hfailed : ¬ ∀ a ∈ l, a.Answered := by decide +kernel
  obtain ⟨hall, hagree⟩ := bus_discipline s
  obtain ⟨-, -, -, hmade⟩ := hall moved
  replace hmade := hmade hmoved
  have hcut : Cut l rs := by
    rw [← hrequests]
    cases hstep : (step s : EStateM.Result Fault (Board LockedMemory) ℕ) with
    | ok n u =>
      rw [hstep] at hmade
      exact absurd hmade.answered hfailed
    | error e u =>
      rw [hstep] at hmade
      exact hmade.resolve_left fun h => hfailed h.answered
  let t : Board Memory := ⟨s.cpu, s.bus.memory⟩
  have hprefix : movedBytes l <+: movedBytes (accesses step t) := by decide +kernel
  exact ⟨hmoved, hrequests, hcut, by decide +kernel, t, rfl, hprefix, hagree t rfl hprefix⟩

end Lr35902
