import Lr35902.Proofs.Evaluation
import Lr35902.Proofs.Memory

/-!
# The stack

Pushing and popping words are calls (`StackCall`), which may be made in any order.  In a
well-bracketed sequence of calls every push has a pop that takes its word back
(`StackCall.WellBracketed`).

The stack pointer is a word and wraps around, so the stack may lie anywhere in memory, across the
end of the address space as well, and may fill all of it.  As long as it is not more than full, a
memory answers calls as an unbounded list would (`Exec.performCalls_eq`), so in a well-bracketed
sequence every pop returns the word of its own push, and nothing but the bytes below the stack
pointer has changed in the end (`Exec.stack_discipline`).
-/

namespace Lr35902

/-- A call of one of the two operations of the stack. -/
inductive StackCall where
  | push (w : UInt16)
  | pop
deriving DecidableEq

namespace StackCall

/-! ### Sequences of calls -/

/-- The number of words that are outstanding after the calls, if `n` words are before them.  A pop
must find a word. -/
def outstanding : List StackCall → Nat → Option Nat
  | [], n => some n
  | push _ :: calls, n => outstanding calls (n + 1)
  | pop :: calls, n + 1 => outstanding calls n
  | pop :: _, 0 => none

/-- Every pop finds a word, and no word is left over. -/
def WellBracketed (calls : List StackCall) : Prop := outstanding calls 0 = some 0

instance (calls : List StackCall) : Decidable (WellBracketed calls) :=
  inferInstanceAs (Decidable (_ = _))

/-- The largest number of words that are outstanding at any time, if `n` are at first. -/
def depth : List StackCall → Nat → Nat
  | [], n => n
  | push _ :: calls, n => depth calls (n + 1)
  | pop :: calls, n => max n (depth calls (n - 1))

/-- What the calls are answered if the words `held` are outstanding, the last one in front. -/
def answers : List StackCall → List UInt16 → List (Option UInt16)
  | [], _ => []
  | push w :: calls, held => none :: answers calls (w :: held)
  | pop :: calls, held => held.head? :: answers calls held.tail

/-- The words that are outstanding after the calls, if the words `held` are before them. -/
def left : List StackCall → List UInt16 → List UInt16
  | [], held => held
  | push w :: calls, held => left calls (w :: held)
  | pop :: calls, held => left calls held.tail

variable (calls rest : List StackCall) (held : List UInt16)

theorem le_depth (n : Nat) : n ≤ depth calls n := by
  induction calls generalizing n with
  | nil => exact Nat.le_refl n
  | cons c calls ih =>
    cases c with
    | push w => exact Nat.le_of_succ_le (ih (n + 1))
    | pop => exact Nat.le_max_left n _

theorem outstanding_append (n : Nat) :
    outstanding (calls ++ rest) n = (outstanding calls n).bind (outstanding rest) := by
  induction calls generalizing n with
  | nil => rfl
  | cons c calls ih =>
    cases c with
    | push w => exact ih (n + 1)
    | pop =>
      cases n with
      | zero => rfl
      | succ n => exact ih n

theorem length_answers : (answers calls held).length = calls.length := by
  induction calls generalizing held with
  | nil => rfl
  | cons c calls ih => cases c <;> simp [answers, ih]

theorem answers_append :
    answers (calls ++ rest) held = answers calls held ++ answers rest (left calls held) := by
  induction calls generalizing held with
  | nil => rfl
  | cons c calls ih => cases c <;> simp [answers, left, ih]

variable {calls rest held}

/-- Calls that find their own words leave those alone that lie behind. -/
theorem exists_left_append (own held : List UInt16) {n : Nat}
    (h : outstanding calls own.length = some n) :
    ∃ own', own'.length = n ∧ left calls (own ++ held) = own' ++ held := by
  induction calls generalizing own with
  | nil => exact ⟨own, Option.some.inj h, rfl⟩
  | cons c calls ih =>
    cases c with
    | push w => exact ih (w :: own) h
    | pop =>
      cases own with
      | nil => cases h
      | cons w own => exact ih own h

/-- Well-bracketed calls leave no words and take none. -/
theorem WellBracketed.left_eq (h : WellBracketed calls) : left calls held = held := by
  obtain ⟨own, hown, hleft⟩ := exists_left_append [] held h
  rw [List.length_eq_zero_iff.1 hown] at hleft
  exact hleft

/-! ### Matching pushes -/

/-- Words that lie behind stay outstanding. -/
theorem outstanding_add {n m : Nat} (h : outstanding calls n = some m) (k : Nat) :
    outstanding calls (n + k) = some (m + k) := by
  induction calls generalizing n with
  | nil => exact congrArg (fun i => some (i + k)) (Option.some.inj h)
  | cons c calls ih =>
    cases c with
    | push w =>
      rw [outstanding, Nat.add_right_comm]
      exact ih h
    | pop =>
      cases n with
      | zero => cases h
      | succ n =>
        rw [Nat.add_right_comm, outstanding]
        exact ih h

/-- The pop at position `i` takes back the word `w`: its push lies before it, and the calls in
between are well-bracketed. -/
def PopMatches (calls : List StackCall) (i : Nat) (w : UInt16) : Prop :=
  ∃ before inside after, calls = before ++ push w :: (inside ++ pop :: after) ∧
    WellBracketed inside ∧ i = before.length + 1 + inside.length

/-- The last word that is outstanding comes from a push after which the calls are
well-bracketed. -/
theorem exists_open_push {n : Nat} (h : outstanding calls 0 = some (n + 1)) :
    ∃ before w inside, calls = before ++ push w :: inside ∧ WellBracketed inside ∧
      outstanding before 0 = some n := by
  induction hlength : calls.length using Nat.strongRecOn generalizing calls n with
  | ind length ih =>
    subst hlength
    obtain rfl | ⟨calls, c, rfl⟩ := calls.eq_nil_or_concat
    · cases h
    rw [List.concat_eq_append, outstanding_append, Option.bind_eq_some_iff] at h
    obtain ⟨m, hm, hc⟩ := h
    cases c with
    | push w =>
      cases hc
      exact ⟨calls, w, [], by simp, rfl, hm⟩
    | pop =>
      -- the pop has taken back a push, and the one before that is still open
      cases m with
      | zero => cases hc
      | succ m =>
        cases hc
        obtain ⟨before, w, inside, rfl, hinside, hbefore⟩ := ih _ (by simp) hm rfl
        obtain ⟨before', w', inside', rfl, hinside', hbefore'⟩ := ih _ (by simp) hbefore rfl
        refine ⟨before', w', inside' ++ push w :: (inside ++ [pop]), by simp, ?_, hbefore'⟩
        have hpushed := outstanding_add hinside 1
        rw [WellBracketed, outstanding_append, hinside', Option.bind_some, outstanding,
          outstanding_append, hpushed]
        rfl

/-- Every pop of a well-bracketed sequence has its push. -/
theorem WellBracketed.exists_popMatches (h : WellBracketed calls) {i : Nat}
    (hi : calls[i]? = some pop) : ∃ w, PopMatches calls i w := by
  obtain ⟨hlt, hget⟩ := List.getElem?_eq_some_iff.1 hi
  have hsplit : calls = calls.take i ++ pop :: calls.drop (i + 1) := by
    rw [← hget, ← List.drop_eq_getElem_cons hlt, List.take_append_drop]
  rw [WellBracketed, hsplit, outstanding_append, Option.bind_eq_some_iff] at h
  obtain ⟨m, hm, hpop⟩ := h
  cases m with
  | zero => cases hpop
  | succ m =>
    obtain ⟨before, w, inside, htake, hinside, -⟩ := exists_open_push hm
    refine ⟨w, before, inside, calls.drop (i + 1), ?_, hinside, ?_⟩
    · rw [← List.cons_append, ← List.append_assoc, ← htake]
      exact hsplit
    · have hlength := congrArg List.length htake
      simp only [List.length_take, List.length_append, List.length_cons] at hlength
      omega

/-- A pop is answered with the word of the push that it matches. -/
theorem PopMatches.getElem?_answers {i : Nat} {w : UInt16} (h : PopMatches calls i w) :
    (answers calls held)[i]? = some (some w) := by
  obtain ⟨before, inside, after, rfl, hinside, rfl⟩ := h
  have hanswers : answers (before ++ push w :: (inside ++ pop :: after)) held =
      (answers before held ++ [none] ++ answers inside (w :: left before held)) ++
        some w :: answers after (left before held) := by
    simp only [answers_append, answers, hinside.left_eq, List.head?_cons, List.tail_cons,
      List.append_assoc, List.cons_append, List.nil_append]
  have hlength : (answers before held ++ [none] ++ answers inside (w :: left before held)).length =
      before.length + 1 + inside.length := by
    simp only [List.length_append, length_answers, List.length_singleton]
  rw [hanswers, ← hlength, List.getElem?_append_right (Nat.le_refl _), Nat.sub_self]
  rfl

/-! ### Calls on a bus -/

variable {σ : Type} [Bus σ]

/-- Makes the call, and returns the word that a pop loads. -/
def exec : StackCall → Exec σ (Option UInt16)
  | push w => do
    Exec.pushWord w
    return none
  | pop => return some (← Exec.popWord)

end StackCall

/-- Makes the calls one after the other, and returns their answers. -/
def Exec.performCalls {σ : Type} [Bus σ] : List StackCall → Exec σ (List (Option UInt16))
  | [] => return []
  | c :: calls => do
    let answer ← c.exec
    return answer :: (← performCalls calls)

/-! ### The stack in memory -/

namespace ByteSpace

/-- The words lie in a row from address `sp`, low bytes first. -/
def HoldsWords (ram : ByteSpace) (sp : UInt16) : List UInt16 → Prop
  | [] => True
  | w :: held =>
    ram.get sp = Word.low w ∧ ram.get (sp + 1) = Word.high w ∧ ram.HoldsWords (sp + 2) held

/-- The words are not touched by a store behind them. -/
theorem HoldsWords.set {ram : ByteSpace} {sp : UInt16} {held : List UInt16}
    (h : ram.HoldsWords sp held) {addr : UInt16} (haddr : 2 * held.length ≤ (addr - sp).toNat)
    (v : UInt8) : (ram.set addr v).HoldsWords sp held := by
  induction held generalizing sp with
  | nil => trivial
  | cons w held ih =>
    obtain ⟨hlow, hhigh, hrest⟩ := h
    have hsp := sp.toNat_lt
    have ha := addr.toNat_lt
    simp only [List.length_cons, UInt16.toNat_sub] at haddr
    have hne : addr ≠ sp := by
      rintro rfl
      omega
    have hne' : addr ≠ sp + 1 := by
      rintro rfl
      simp only [UInt16.toNat_add, UInt16.reduceToNat] at haddr
      omega
    refine ⟨by rw [get_set_ne _ _ hne, hlow], by rw [get_set_ne _ _ hne', hhigh], ih hrest ?_⟩
    simp only [UInt16.toNat_sub, UInt16.toNat_add, UInt16.reduceToNat]
    omega

/-- The space after the word `w` is pushed below `sp`, high byte first. -/
def pushed (ram : ByteSpace) (sp w : UInt16) : ByteSpace :=
  (ram.set (sp - 1) (Word.high w)).set (sp - 2) (Word.low w)

/-- A pushed word lies in front of the words that were there, if there is room for it. -/
theorem HoldsWords.pushed {ram : ByteSpace} {sp : UInt16} {held : List UInt16}
    (h : ram.HoldsWords sp held) (hroom : held.length < 32768) (w : UInt16) :
    (ram.pushed sp w).HoldsWords (sp - 2) (w :: held) := by
  have hsp := sp.toNat_lt
  have hnext : sp - 2 + 1 = sp - 1 := by
    rw [← UInt16.toNat_inj]
    simp only [UInt16.toNat_sub, UInt16.toNat_add, UInt16.reduceToNat]
    omega
  have hne : sp - 2 ≠ sp - 1 := by
    intro heq
    have := congrArg UInt16.toNat heq
    simp only [UInt16.toNat_sub, UInt16.reduceToNat] at this
    omega
  have hfirst : 2 * held.length ≤ (sp - 1 - sp).toNat := by
    simp only [UInt16.toNat_sub, UInt16.reduceToNat]
    omega
  have hsecond : 2 * held.length ≤ (sp - 2 - sp).toNat := by
    simp only [UInt16.toNat_sub, UInt16.reduceToNat]
    omega
  refine ⟨get_set_self _ _ _, ?_, ?_⟩
  · rw [hnext, ByteSpace.pushed, get_set_ne _ _ hne, get_set_self]
  · rw [UInt16.sub_add_cancel]
    exact (h.set hfirst _).set hsecond _

/-- A push changes the two bytes below `sp`. -/
theorem get_pushed_of_ne (ram : ByteSpace) {sp addr : UInt16} (w : UInt16) (h₁ : sp - 1 ≠ addr)
    (h₂ : sp - 2 ≠ addr) : (ram.pushed sp w).get addr = ram.get addr := by
  rw [pushed, get_set_ne _ _ h₂, get_set_ne _ _ h₁]

end ByteSpace

/-- The words `held` are outstanding on a stack that grows down from `base`. -/
structure Board.Stacked (base : UInt16) (held : List UInt16) (s : Board Memory) : Prop where
  sp : s.cpu.regs.sp + 2 * UInt16.ofNat held.length = base
  words : s.bus.ram.HoldsWords s.cpu.regs.sp held

/-- From `s` to `t` nothing has changed but the stack pointer and the room for `n` words below
`base`. -/
structure Board.OnlyStack (base : UInt16) (n : Nat) (s t : Board Memory) : Prop where
  cpu : { t.cpu with regs := { t.cpu.regs with sp := s.cpu.regs.sp } } = s.cpu
  ram : ∀ addr, 2 * n ≤ (base - 1 - addr).toNat → t.bus.ram.get addr = s.bus.ram.get addr
  rom : t.bus.rom = s.bus.rom
  extent : t.bus.extent = s.bus.extent

namespace Board.OnlyStack

variable {base : UInt16} {n k : Nat} {s t u : Board Memory}

theorem refl (base : UInt16) (n : Nat) (s : Board Memory) : OnlyStack base n s s :=
  ⟨rfl, fun _ _ => rfl, rfl, rfl⟩

theorem mono (h : OnlyStack base n s t) (hn : n ≤ k) : OnlyStack base k s t :=
  ⟨h.cpu, fun addr haddr => h.ram addr (by omega), h.rom, h.extent⟩

theorem trans (hst : OnlyStack base n s t) (htu : OnlyStack base n t u) : OnlyStack base n s u where
  cpu := by
    rw [← hst.cpu, ← htu.cpu]
  ram addr haddr := (htu.ram addr haddr).trans (hst.ram addr haddr)
  rom := htu.rom.trans hst.rom
  extent := htu.extent.trans hst.extent

end Board.OnlyStack

namespace Exec

variable {base : UInt16} {held : List UInt16} {s : Board Memory}

/-! ### One call -/

/-- The board after the word `w` is pushed. -/
theorem pushWord_memory (s : Board Memory) (w : UInt16) :
    pushWord w s = .ok ()
      ⟨{ s.cpu with regs := { s.cpu.regs with sp := s.cpu.regs.sp - 2 } },
        { s.bus with ram := s.bus.ram.pushed s.cpu.regs.sp w }⟩ := by
  simp only [pushWord, bind_apply, regs_apply, store_apply, Memory.write8_eq, modifyRegs_apply,
    ByteSpace.pushed]

/-- The word that is popped, and the board after that. -/
theorem popWord_memory (s : Board Memory) :
    popWord s = .ok
      (Word.pack (s.bus.ram.get (s.cpu.regs.sp + 1)) (s.bus.ram.get s.cpu.regs.sp))
      { s with cpu := { s.cpu with regs := { s.cpu.regs with sp := s.cpu.regs.sp + 2 } } } := by
  simp only [popWord, bind_apply, regs_apply, load_apply, Memory.read8_eq, modifyRegs_apply,
    pure_apply]

/-- A stack that is not full has room for one more word. -/
theorem push_stacked (h : s.Stacked base held) (hroom : held.length < 32768) (w : UInt16) :
    ∃ t, (StackCall.push w).exec s = .ok none t ∧ t.Stacked base (w :: held) ∧
      s.OnlyStack base (held.length + 1) t := by
  have hexec : (StackCall.push w).exec s = .ok none
      ⟨{ s.cpu with regs := { s.cpu.regs with sp := s.cpu.regs.sp - 2 } },
        { s.bus with ram := s.bus.ram.pushed s.cpu.regs.sp w }⟩ := by
    rw [StackCall.exec, bind_apply, pushWord_memory]
    rfl
  refine ⟨_, hexec, ⟨?_, h.words.pushed hroom w⟩, ⟨rfl, fun addr haddr => ?_, rfl, rfl⟩⟩
  · rw [← h.sp, ← UInt16.toNat_inj]
    simp only [List.length_cons, UInt16.toNat_sub, UInt16.toNat_add, UInt16.toNat_mul,
      UInt16.toNat_ofNat', UInt16.reduceToNat]
    omega
  · have hbase := congrArg UInt16.toNat h.sp
    have hsp := s.cpu.regs.sp.toNat_lt
    simp only [UInt16.toNat_add, UInt16.toNat_mul, UInt16.toNat_ofNat', UInt16.reduceToNat] at hbase
    simp only [UInt16.toNat_sub, UInt16.reduceToNat] at haddr
    refine ByteSpace.get_pushed_of_ne _ w ?_ ?_
    · rintro rfl
      simp only [UInt16.toNat_sub, UInt16.reduceToNat] at haddr
      omega
    · rintro rfl
      simp only [UInt16.toNat_sub, UInt16.reduceToNat] at haddr
      omega

/-- The last word that was pushed is the first one that is popped. -/
theorem pop_stacked {w : UInt16} (h : s.Stacked base (w :: held)) :
    ∃ t, StackCall.pop.exec s = .ok (some w) t ∧ t.Stacked base held ∧ s.OnlyStack base 0 t := by
  obtain ⟨hlow, hhigh, hrest⟩ := h.words
  have hexec : StackCall.pop.exec s = .ok (some w)
      { s with cpu := { s.cpu with regs := { s.cpu.regs with sp := s.cpu.regs.sp + 2 } } } := by
    rw [StackCall.exec, bind_apply, popWord_memory, hlow, hhigh, Word.pack_high_low]
    rfl
  refine ⟨_, hexec, ⟨?_, hrest⟩, ⟨rfl, fun _ _ => rfl, rfl, rfl⟩⟩
  rw [← h.sp, ← UInt16.toNat_inj]
  simp only [List.length_cons, UInt16.toNat_add, UInt16.toNat_mul, UInt16.toNat_ofNat',
    UInt16.reduceToNat]
  omega

/-! ### Sequences of calls -/

/-- A stack in memory that is never more than full answers calls as a list does, and changes only
the room for the words. -/
theorem performCalls_eq {calls : List StackCall} {n : Nat} (h : s.Stacked base held)
    (hcalls : StackCall.outstanding calls held.length = some n)
    (hdepth : StackCall.depth calls held.length ≤ 32768) :
    ∃ t, performCalls calls s = .ok (StackCall.answers calls held) t ∧
      t.Stacked base (StackCall.left calls held) ∧
        s.OnlyStack base (StackCall.depth calls held.length) t := by
  induction calls generalizing held s with
  | nil => exact ⟨s, rfl, h, .refl _ _ s⟩
  | cons c calls ih =>
    cases c with
    | push w =>
      have hdeeper : held.length + 1 ≤ StackCall.depth calls (held.length + 1) :=
        StackCall.le_depth calls _
      have hdepth : StackCall.depth calls (held.length + 1) ≤ 32768 := hdepth
      obtain ⟨t, hexec, ht, hst⟩ := push_stacked h (by omega) w
      obtain ⟨u, hcalls, hu, htu⟩ := ih ht hcalls hdepth
      refine ⟨u, ?_, hu, (hst.mono hdeeper).trans htu⟩
      simp only [performCalls, bind_apply, hexec, hcalls, pure_apply, StackCall.answers]
    | pop =>
      cases held with
      | nil => cases hcalls
      | cons w held =>
        have hle : StackCall.depth calls held.length ≤
            StackCall.depth (.pop :: calls) (held.length + 1) := Nat.le_max_right _ _
        obtain ⟨t, hexec, ht, hst⟩ := pop_stacked h
        obtain ⟨u, hcalls, hu, htu⟩ := ih ht hcalls (Nat.le_trans hle hdepth)
        refine ⟨u, ?_, hu, (hst.mono (Nat.zero_le _)).trans (htu.mono hle)⟩
        simp only [performCalls, bind_apply, hexec, hcalls, pure_apply, StackCall.answers,
          List.head?_cons, List.tail_cons]

/-- In a well-bracketed sequence of calls, in which no more than 32768 words are outstanding at any
time, every pop returns the word of the push that it matches.  In the end the processor is as
before, and so is the memory but for the room of the words. -/
theorem stack_discipline (s : Board Memory) {calls : List StackCall}
    (hcalls : StackCall.WellBracketed calls) (hdepth : StackCall.depth calls 0 ≤ 32768) :
    ∃ answers t, performCalls calls s = .ok answers t ∧ answers.length = calls.length ∧
      (∀ i, calls[i]? = some .pop →
        ∃ w, StackCall.PopMatches calls i w ∧ answers[i]? = some (some w)) ∧
      t.cpu = s.cpu ∧ t.bus.rom = s.bus.rom ∧ t.bus.extent = s.bus.extent ∧
      ∀ addr, 2 * StackCall.depth calls 0 ≤ (s.cpu.regs.sp - 1 - addr).toNat →
        t.bus.ram.get addr = s.bus.ram.get addr := by
  have hempty : s.Stacked s.cpu.regs.sp [] := ⟨by simp, trivial⟩
  obtain ⟨t, hperform, ht, hst⟩ := performCalls_eq hempty hcalls hdepth
  refine ⟨_, t, hperform, StackCall.length_answers calls [], fun i hi => ?_, ?_, hst.rom,
    hst.extent, hst.ram⟩
  · obtain ⟨w, hw⟩ := hcalls.exists_popMatches hi
    exact ⟨w, hw, hw.getElem?_answers⟩
  · have hsp := ht.sp
    have hzero : 2 * UInt16.ofNat 0 = 0 := rfl
    rw [hcalls.left_eq, List.length_nil, hzero, UInt16.add_zero] at hsp
    rw [← hst.cpu, ← hsp]

/-- The theorem for words that are pushed across the end of the address space. -/
theorem stack_discipline_wrapping :
    let calls : List StackCall := [.push 0x1234, .push 0xABCD, .pop, .push 0x5678, .pop, .pop]
    let s : Board Memory := ⟨{ regs := { sp := 0x0003 } }, .withBootProgram⟩
    StackCall.WellBracketed calls ∧ StackCall.depth calls 0 = 2 ∧
      ∃ answers t, performCalls calls s = .ok answers t ∧
        (∀ i, calls[i]? = some .pop →
          ∃ w, StackCall.PopMatches calls i w ∧ answers[i]? = some (some w)) ∧
        t.cpu = s.cpu ∧ t.bus.rom = s.bus.rom ∧
        ∀ addr, 4 ≤ (0x0003 - 1 - addr).toNat → t.bus.ram.get addr = s.bus.ram.get addr := by
  intro calls s
  have hcalls : StackCall.WellBracketed calls := by decide
  have hdepth : StackCall.depth calls 0 ≤ 32768 := by decide
  obtain ⟨answers, t, hperform, -, hanswers, hcpu, hrom, -, hram⟩ :=
    stack_discipline s hcalls hdepth
  exact ⟨hcalls, rfl, answers, t, hperform, hanswers, hcpu, hrom, hram⟩

end Exec

end Lr35902
