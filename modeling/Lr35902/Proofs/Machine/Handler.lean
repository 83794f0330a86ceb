import Lr35902.Proofs.Lcd.Timing
import Lr35902.Proofs.Machine.Requests

/-!
# Handlers that return at once

A dispatch pushes the program counter, and the instruction that returns from a handler pops it.  In
between, the display moves on and further requests may come in.  If the stack lies in storage, that
is, in memory without a register that the machine itself changes or reacts to (`IsStorage`), the
word that comes back is the one that was pushed.

So an interrupt whose handler does nothing but return is not noticed by the program that it
interrupts (`Machine.handler_transparent`), but for the time that it takes, the request that it
withdraws and what it leaves below the stack pointer.
-/

namespace Lr35902

/-- What is stored at the address is loaded from there later: it is outside of the instruction
image, and neither the bus nor the display nor a dispatch does anything with it. -/
structure IsStorage (addr : UInt16) : Prop where
  image : SystemBus.imageEnd ≤ addr
  request : addr ≠ Interrupt.requestAddr
  line : addr ≠ LcdTimer.lineAddr
  copy : addr ≠ SystemBus.spriteCopyAddr
  bootOff : addr ≠ SystemBus.bootOffAddr

instance (addr : UInt16) : Decidable (IsStorage addr) :=
  decidable_of_iff (SystemBus.imageEnd ≤ addr ∧ addr ≠ Interrupt.requestAddr ∧
      addr ≠ LcdTimer.lineAddr ∧ addr ≠ SystemBus.spriteCopyAddr ∧ addr ≠ SystemBus.bootOffAddr)
    ⟨fun ⟨h₁, h₂, h₃, h₄, h₅⟩ => ⟨h₁, h₂, h₃, h₄, h₅⟩,
      fun ⟨h₁, h₂, h₃, h₄, h₅⟩ => ⟨h₁, h₂, h₃, h₄, h₅⟩⟩

/-! ### The word on the stack -/

namespace SystemBus

variable {b : SystemBus} {addr sp : UInt16}

/-- The word that a pop from `sp` loads. -/
def word (b : SystemBus) (sp : UInt16) : UInt16 := Word.pack (b.view (sp + 1)) (b.view sp)

/-- In storage a pushed word is two bytes of memory. -/
theorem pushed_eq_poke (hhigh : IsStorage (sp - 1)) (hlow : IsStorage (sp - 2)) (w : UInt16) :
    b.pushed sp w = (b.poke (sp - 1) (Word.high w)).poke (sp - 2) (Word.low w) := by
  rw [pushed, stored_eq_poke _ _ hhigh.copy (.inl hhigh.bootOff),
    stored_eq_poke _ _ hlow.copy (.inl hlow.bootOff)]

/-- In storage a word that is pushed can be popped. -/
theorem word_pushed (hhigh : IsStorage (sp - 1)) (hlow : IsStorage (sp - 2)) (w : UInt16) :
    (b.pushed sp w).word (sp - 2) = w := by
  have hnext : sp - 2 + 1 = sp - 1 := by grind
  have hne : sp - 2 ≠ sp - 1 := by simp
  rw [pushed_eq_poke hhigh hlow, word, hnext, view_of_le _ hhigh.image, view_of_le _ hlow.image]
  simp only [poke, ByteSpace.get_set_self, ByteSpace.get_set_ne _ _ hne, Word.pack_high_low]

/-- A push into storage changes nothing but the two bytes of the word. -/
theorem get_pushed_of_ne (hhigh : IsStorage (sp - 1)) (hlow : IsStorage (sp - 2)) (w : UInt16)
    (hne : addr ≠ sp - 1) (hne' : addr ≠ sp - 2) :
    (b.pushed sp w).memory.ram.get addr = b.memory.ram.get addr := by
  rw [pushed_eq_poke hhigh hlow]
  simp only [poke, ByteSpace.get_set_ne _ _ hne.symm, ByteSpace.get_set_ne _ _ hne'.symm]

theorem get_acknowledged_of_ne (i : Interrupt) (hne : addr ≠ Interrupt.requestAddr) :
    (b.acknowledged i).memory.ram.get addr = b.memory.ram.get addr :=
  ByteSpace.get_set_ne _ _ hne.symm

end SystemBus

/-! ### The step that returns -/

/-- The processor after it has returned from a handler to `pc`. -/
def Cpu.returned (cpu : Cpu) (pc : UInt16) : Cpu :=
  { cpu with
    regs := { cpu.regs with sp := cpu.regs.sp + 2, pc }
    ime := .interruptible
    cycles := cpu.cycles + 16 }

/-- To enter a handler and to return from it takes 36 cycles, ends waiting, and does nothing else to
a processor that lets interrupts through. -/
theorem Cpu.returned_entered (cpu : Cpu) (i : Interrupt) :
    (cpu.entered i).returned cpu.regs.pc =
      { cpu with ime := .interruptible, run := .normal, cycles := cpu.cycles + 36 } := by
  have hsp : cpu.regs.sp - 2 + 2 = cpu.regs.sp := by simp
  simp only [returned, entered, hsp, Nat.add_assoc, Nat.reduceAdd]

/-- The instruction that returns from a handler pops the program counter and lets interrupts
through at once. -/
theorem Exec.step_reti {s : Board SystemBus} (hrun : s.cpu.run = .normal)
    (hmode : s.cpu.mode = .primary) (hime : s.cpu.ime = .blocked)
    (hcode : s.bus.memory.rom.get s.cpu.regs.pc = 0xD9) :
    step s = .ok 16 ⟨s.cpu.returned (s.bus.word s.cpu.regs.sp), s.bus⟩ := by
  have hfetch := s.bus.fetch8_eq s.cpu.regs.pc
  rw [hcode] at hfetch
  have hdecode : Instruction.decode 0xD9 = some .reti := rfl
  have hnext : s.cpu.ime ≠ .pendingEnable := by rw [hime]; decide
  rw [step_primary hrun hmode hfetch (by decide), bind_apply, primary, hdecode]
  simp only [instruction, returnToCaller, popWord, jump, bind_apply, regs_apply, load_apply,
    SystemBus.read8_eq, modifyRegs_apply, modifyCpu_apply, pure_apply, complete, if_neg hnext,
    spend_apply]
  rfl

namespace Machine

variable {m : Machine} {addr : UInt16} {i : Interrupt}

/-- The machine after it has returned from a handler, with the display where it was. -/
def returned (m : Machine) : Machine :=
  { m with cpu := m.cpu.returned (m.bus.word m.cpu.regs.sp) }

/-- While interrupts are blocked, returning from a handler is not put off by another interrupt. -/
theorem step_of_reti (hm : m.bus.WellFormed) (hrun : m.cpu.run = .normal)
    (hmode : m.cpu.mode = .primary) (hime : m.cpu.ime = .blocked)
    (hcode : m.memory.rom.get m.cpu.regs.pc = 0xD9) :
    m.step = .ok 16 (m.returned.advanceDisplay 16) := by
  have hnot : ¬ m.Dispatches := by
    rw [dispatches_iff hm, hime]
    rintro ⟨-, hblocked, -⟩
    cases hblocked
  have hpolled : m.polled = m.cpu := if_neg fun hwaits => by
    rw [hrun] at hwaits
    cases hwaits.1
  refine step_eq_ok_iff.2 ⟨m.returned.board, ?_, rfl⟩
  rw [tick_of_not_dispatches hm hnot, hpolled]
  exact Exec.step_reti hrun hmode hime hcode

/-! ### From the dispatch to the return -/

theorem peek_advanceDisplay_of_ne (m : Machine) (n : Nat) (hline : addr ≠ LcdTimer.lineAddr)
    (hrequest : addr ≠ Interrupt.requestAddr) : (m.advanceDisplay n).peek addr = m.peek addr :=
  m.lcd.get_advance_of_ne m.bus.memory n hline hrequest

theorem rom_advanceDisplay (m : Machine) (n : Nat) :
    (m.advanceDisplay n).memory.rom = m.memory.rom :=
  m.lcd.rom_advance m.bus.memory n

section

variable (hhigh : IsStorage (m.cpu.regs.sp - 1)) (hlow : IsStorage (m.cpu.regs.sp - 2))
include hhigh hlow

theorem rom_entered (i : Interrupt) : (m.entered i).memory.rom = m.memory.rom := by
  have hpushed := SystemBus.pushed_eq_poke (b := m.bus) hhigh hlow m.cpu.regs.pc
  simp only [entered, memory, SystemBus.acknowledged, hpushed, SystemBus.poke]

theorem peek_entered_of_ne (i : Interrupt) (hrequest : addr ≠ Interrupt.requestAddr)
    (hne : addr ≠ m.cpu.regs.sp - 1) (hne' : addr ≠ m.cpu.regs.sp - 2) :
    (m.entered i).peek addr = m.peek addr :=
  (SystemBus.get_acknowledged_of_ne i hrequest).trans
    (SystemBus.get_pushed_of_ne hhigh hlow _ hne hne')

/-- Neither the dispatch itself nor the display touches the word that was pushed. -/
theorem word_entered (i : Interrupt) (n : Nat) :
    ((m.entered i).advanceDisplay n).bus.word (m.cpu.regs.sp - 2) = m.cpu.regs.pc := by
  have hkept {addr : UInt16} (h : IsStorage addr) :
      ((m.entered i).advanceDisplay n).bus.view addr =
        (m.bus.pushed m.cpu.regs.sp m.cpu.regs.pc).view addr := by
    rw [SystemBus.view_of_le _ h.image, SystemBus.view_of_le _ h.image]
    exact (peek_advanceDisplay_of_ne _ n h.line h.request).trans
      (SystemBus.get_acknowledged_of_ne i h.request)
  have hnext : m.cpu.regs.sp - 2 + 1 = m.cpu.regs.sp - 1 := by grind
  have hword := SystemBus.word_pushed (b := m.bus) hhigh hlow m.cpu.regs.pc
  rw [SystemBus.word, hnext] at hword ⊢
  rw [hkept hhigh, hkept hlow, hword]

end

/-- Two chances to set a bit set it if either of them does. -/
theorem or_ite_zero_one (p q : Prop) [Decidable p] [Decidable q] :
    ((if p then 0 else 1) ||| if q then 0 else 1 : UInt8) = if p ∧ q then 0 else 1 := by
  by_cases hp : p <;> by_cases hq : q <;> simp [hp, hq]

/-- A reachable machine that dispatches an interrupt whose handler returns at once is back after two
steps and 36 cycles, if the stack lies in storage.  The processor is as it was, but that it does not
wait any more.  In memory only the two bytes below the stack pointer, the line of the display and
the requests may have changed: the one that was served is withdrawn, and the display has made its
own if it has completed a frame in either step. -/
theorem handler_transparent (hm : m.Reachable) (hd : m.Dispatches) (hi : m.First i)
    (hcode : m.memory.rom.get i.vector = 0xD9) (hhigh : IsStorage (m.cpu.regs.sp - 1))
    (hlow : IsStorage (m.cpu.regs.sp - 2)) :
    ∃ m₁ m₂ : Machine, m.step = .ok 20 m₁ ∧ m₁.step = .ok 16 m₂ ∧
      m₂.cpu = { m.cpu with
        ime := .interruptible, run := .normal, mode := .primary, cycles := m.cpu.cycles + 36 } ∧
      m₂.memory.rom = m.memory.rom ∧
      (∀ addr, addr ≠ m.cpu.regs.sp - 1 → addr ≠ m.cpu.regs.sp - 2 →
        addr ≠ Interrupt.requestAddr → addr ≠ LcdTimer.lineAddr → m₂.peek addr = m.peek addr) ∧
      m₂.peek Interrupt.requestAddr = m.peek Interrupt.requestAddr &&& ~~~(1 <<< i.bit) |||
        if m₁.lcd.frames = m.lcd.frames ∧ m₂.lcd.frames = m₁.lcd.frames then 0 else 1 := by
  have hbus := hm.wellFormed
  have hmode := ((dispatches_iff hbus).1 hd).2.2.1
  have hfirst := step_of_first hbus hd hi
  have hbus₁ := (hm.step hfirst).wellFormed
  -- the handler is entered with interrupts blocked, so the next step returns from it
  have hcode₁ : ((m.entered i).advanceDisplay 20).memory.rom.get i.vector = 0xD9 := by
    rw [rom_advanceDisplay, rom_entered hhigh hlow, hcode]
  have hsecond := step_of_reti hbus₁ rfl hmode rfl hcode₁
  refine ⟨_, _, hfirst, hsecond, ?_, ?_, ?_, ?_⟩
  · have hword : ((m.entered i).advanceDisplay 20).bus.word (m.cpu.entered i).regs.sp = _ :=
      word_entered hhigh hlow i 20
    have hcpu := m.cpu.returned_entered i
    rw [← hword] at hcpu
    exact hcpu.trans (by rw [← hmode])
  · rw [rom_advanceDisplay]
    exact (rom_advanceDisplay _ 20).trans (rom_entered hhigh hlow i)
  · intro addr hne hne' hrequest hline
    rw [peek_advanceDisplay_of_ne _ _ hline hrequest]
    exact (peek_advanceDisplay_of_ne _ _ hline hrequest).trans
      (peek_entered_of_ne hhigh hlow i hrequest hne hne')
  · have hnot : ¬ m.Stores Interrupt.requestAddr := by
      rw [stores_iff_of_dispatches hbus hd]
      exact fun hstores => hstores.elim hhigh.request.symm hlow.request.symm
    have hrequest : (m.entered i).peek Interrupt.requestAddr = _ :=
      peek_request_entered hbus hd hnot i
    have hreturned : ((m.entered i).advanceDisplay 20).returned.peek Interrupt.requestAddr = _ :=
      (peek_request_advanceDisplay _ 20).trans (congrArg (· ||| _) hrequest)
    rw [peek_request_advanceDisplay, hreturned, UInt8.or_assoc, or_ite_zero_one]
    rfl

/-- A boot program that requests and enables the timer and the joypad, enables interrupts and does
nothing, with a handler of the timer that returns at once. -/
def returnsAtOnce : List UInt8 :=
  [0x3E, 0x14, 0xE0, 0xFF, 0xE0, 0x0F, 0xFB, 0x00] ++ List.replicate 72 0 ++ [0xD9]

/-- The theorem for that program, whose stack pointer is at its start, so that the word on the stack
covers the register that enables interrupts. -/
theorem handler_transparent_timer :
    ∃ m m₁ m₂ : Machine, m.Reachable ∧ m.Dispatches ∧ m.First .timer ∧
      m.memory.rom.get Interrupt.timer.vector = 0xD9 ∧ IsStorage (m.cpu.regs.sp - 1) ∧
      IsStorage (m.cpu.regs.sp - 2) ∧ m.cpu.regs.sp - 1 = Interrupt.enableAddr ∧
      m.step = .ok 20 m₁ ∧ m₁.step = .ok 16 m₂ ∧ m₂.cpu.regs = m.cpu.regs ∧
      m₂.peek Interrupt.requestAddr = 0x10 := by
  have hstart : withBoot [] (some returnsAtOnce) = .ok _ := rfl
  have hm := (Reachable.withBoot hstart).after 5
  have hd := (dispatches_iff hm.wellFormed).2 (by decide +kernel)
  obtain ⟨i, hi, -⟩ := step_of_dispatches hm.wellFormed hd
  obtain rfl : Interrupt.timer = i :=
    Option.some.inj ((by decide +kernel : _ = _).symm.trans (pendingInterrupt_eq_some_iff.2 hi))
  obtain ⟨m₁, m₂, hfirst, hsecond, hcpu, -, -, hrequest⟩ := handler_transparent hm hd hi
    (by decide +kernel) (by decide +kernel) (by decide +kernel)
  obtain rfl := final_ok hfirst
  obtain rfl := final_ok hsecond
  exact ⟨_, _, _, hm, hd, hi, by decide +kernel, by decide +kernel, by decide +kernel,
    by decide +kernel, hfirst, hsecond, by rw [hcpu],
    hrequest.trans (by decide +kernel)⟩

end Machine

end Lr35902
