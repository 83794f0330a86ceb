import Lr35902.Proofs.Boot.Cells
import Lr35902.Proofs.Machine.Approach
import Lr35902.Proofs.Plan
import Lr35902.Proofs.Step

/-!
# Sketches of a machine that runs its boot program

While a machine runs its boot program, most of it does not matter: the cartridge is hidden, and few
bytes in memory are nonzero.  A `Sketch` is what is left of the machine.  A step of the sketch is
computed as long as the program keeps to itself: it fetches no byte of the cartridge, loads nothing
from it, uses no register of the bus, and no interrupt comes up.  Every machine that the sketch
stands for then makes the same step (`Sketch.approach_of_run?`).
-/

namespace Lr35902

namespace LcdTimer

variable {t : LcdTimer} {n : Nat}

/-- Within the visible lines of a frame no visible line is passed for good. -/
theorem not_passesVisible (h : t.counter + n < visibleLines * cyclesPerLine) :
    ¬ passesVisible t.line ((t.counter + n) / cyclesPerLine) = true := by
  have hnew : (t.counter + n) / cyclesPerLine < visibleLines :=
    (Nat.div_lt_iff_lt_mul (by decide)).2 h
  have hle : t.line ≤ (t.counter + n) / cyclesPerLine :=
    Nat.div_le_div_right (Nat.le_add_right _ n)
  simp only [passesVisible, Bool.and_eq_true, Bool.or_eq_true, decide_eq_true_eq]
  omega

/-- Within the visible lines of a frame the display only counts. -/
theorem moved_of_visible (h : t.counter + n < visibleLines * cyclesPerLine) :
    t.moved n = { t with counter := t.counter + n } := by
  have hframe : visibleLines * cyclesPerLine ≤ cyclesPerFrame := by decide
  have hmod : (t.counter + n) % cyclesPerFrame = t.counter + n :=
    Nat.mod_eq_of_lt (Nat.lt_of_lt_of_le h hframe)
  simp only [moved, hmod, if_neg (not_passesVisible h)]

end LcdTimer

namespace BootProgram

/-- The byte of the boot program at `addr`, if `addr` is inside the program. -/
def byteAt? (addr : UInt16) : Option UInt8 := bytes[addr.toNat]?

/-- The boot program is in the instruction image of the bus. -/
def Loaded (b : SystemBus) : Prop := ∀ addr v, byteAt? addr = some v → b.memory.rom.get addr = v

/-- The address behind the program, where cartridges start. -/
def stop : UInt16 := 0x0100

end BootProgram

/-- A machine that runs its boot program, without the parts that do not matter to it. -/
structure Sketch where
  cpu : Cpu
  cells : Cells := []
  lcd : LcdTimer := {}
deriving DecidableEq

namespace Sketch

open BootProgram

/-! ### Parts of a step -/

/-- The immediate bytes of an instruction. -/
def fetchImmediate? : Immediate → Cpu → Option (UInt16 × Cpu)
  | .none, cpu => some (0, cpu)
  | .byte, cpu => do
    let v ← byteAt? cpu.regs.pc
    return (v.toUInt16, cpu.next)
  | .word, cpu => do
    let lo ← byteAt? cpu.regs.pc
    let hi ← byteAt? cpu.next.regs.pc
    return (Word.pack hi lo, cpu.next.next)

/-- Storing at `addr` is no more than storing. -/
def IsPlain (addr : UInt16) : Prop := addr ≠ SystemBus.spriteCopyAddr ∧ addr ≠ SystemBus.bootOffAddr

instance (addr : UInt16) : Decidable (IsPlain addr) := inferInstanceAs (Decidable (_ ∧ _))

/-- The access to the data of an instruction. -/
def access? : DataAccess → Cpu → Cells → Option (UInt16 × Cpu × Cells)
  | .none, cpu, cells => some (0, cpu, cells)
  | .store a v, cpu, cells => if IsPlain a then some (0, cpu, cells.set a v) else none
  | .push w, cpu, cells =>
    let sp := cpu.regs.sp
    if IsPlain (sp - 1) ∧ IsPlain (sp - 2) then
      some (0, { cpu with regs.sp := sp - 2 },
        (cells.set (sp - 1) (Word.high w)).set (sp - 2) (Word.low w))
    else none
  | .pop, cpu, cells =>
    let sp := cpu.regs.sp
    if SystemBus.imageEnd ≤ sp ∧ SystemBus.imageEnd ≤ sp + 1 then
      some (Word.pack (cells.get (sp + 1)) (cells.get sp), { cpu with regs.sp := sp + 2 }, cells)
    else none
  | _, _, _ => none

/-- What remains of an instruction once its plan is made. -/
def perform? (p : Plan) (cpu : Cpu) (cells : Cells) : Option (Nat × Cpu × Cells) := do
  let (w, cpu, cells) ← access? p.access cpu cells
  let cpu := p.finish w cpu
  return (p.cycles, { cpu with cycles := cpu.cycles + p.cycles }, cells)

/-- The processor's part of a step. -/
def execute? (cpu : Cpu) (cells : Cells) : Option (Nat × Cpu × Cells) := do
  let opcode ← byteAt? cpu.regs.pc
  match cpu.mode with
  | .primary =>
    if opcode = extensionByte then
      let n := Cpu.extensionCycles
      return (n, { cpu.next with mode := .extended, cycles := cpu.cycles + n }, cells)
    let i ← Instruction.decode opcode
    let (imm, cpu') ← fetchImmediate? i.immediate cpu.next
    match i.plan cpu.regs.pc cpu'.regs imm with
    | .ok p => perform? p cpu' cells
    | .error _ => none
  | .extended =>
    let cpu := { cpu.next with mode := .primary }
    perform? ((ExtendedInstruction.decode opcode).plan cpu.regs) cpu cells

theorem execute?_primary {cpu cpu' : Cpu} {cells : Cells} {opcode : UInt8} {i : Instruction}
    {imm : UInt16} {p : Plan} (hmode : cpu.mode = .primary)
    (hopcode : byteAt? cpu.regs.pc = some opcode) (hext : opcode ≠ extensionByte)
    (hdecode : Instruction.decode opcode = some i)
    (himm : fetchImmediate? i.immediate cpu.next = some (imm, cpu'))
    (hplan : i.plan cpu.regs.pc cpu'.regs imm = .ok p) :
    execute? cpu cells = perform? p cpu' cells := by
  simp only [execute?, hopcode, hmode, if_neg hext, hdecode, himm, hplan, Option.bind_eq_bind,
    Option.bind_some]

/-- The display's part of a step of `n` cycles. -/
def advance? (s : Sketch) (n : Nat) : Option Sketch :=
  if s.cells.get LcdTimer.controlAddr &&& 0x80 != 0 then
    let lcd := s.lcd.moved n
    if LcdTimer.passesVisible s.lcd.line lcd.line then none
    else some { s with lcd, cells := s.cells.set LcdTimer.lineAddr lcd.line.toUInt8 }
  else some { s with lcd.counter := 0, cells := s.cells.set LcdTimer.lineAddr 0 }

/-- The processor executes, and nothing is pending. -/
def IsQuiet (s : Sketch) : Prop :=
  s.cpu.run = .normal ∧ s.cpu.ime = .blocked ∧
    s.cells.get Interrupt.requestAddr &&& s.cells.get Interrupt.enableAddr &&& 0x1F = 0

instance (s : Sketch) : Decidable s.IsQuiet := inferInstanceAs (Decidable (_ ∧ _))

/-- A step, with the cycles that it takes. -/
def next? (s : Sketch) : Option (Nat × Sketch) :=
  if s.IsQuiet then do
    let (n, cpu, cells) ← execute? s.cpu s.cells
    let s' ← advance? { s with cpu, cells } n
    return (n, s')
  else none

/-- A run of the given number of steps, with the cycles that it takes. -/
def run? : Nat → Sketch → Option (Nat × Sketch)
  | 0, s => some (0, s)
  | k + 1, s => do
    let (n, s') ← s.next?
    let (n', s'') ← run? k s'
    return (n + n', s'')

/-! ### Runs of sketches -/

section

variable {s t u : Sketch} {j k n c : Nat}

theorem run?_zero (s : Sketch) : s.run? 0 = some (0, s) := rfl

theorem run?_succ (h : s.next? = some (n, t)) (h' : t.run? k = some (c, u)) :
    s.run? (k + 1) = some (n + c, u) := by
  rw [run?, h]
  simp only [Option.bind_eq_bind, Option.bind_some, h']
  rfl

/-- Runs one after the other are a run. -/
theorem run?_add (h : s.run? j = some (n, t)) (h' : t.run? k = some (c, u)) :
    s.run? (j + k) = some (n + c, u) := by
  induction j generalizing s n with
  | zero =>
    cases h
    rw [Nat.zero_add, Nat.zero_add, h']
  | succ j ih =>
    obtain ⟨⟨n₁, s₁⟩, hnext, h⟩ := Option.bind_eq_some_iff.1 h
    obtain ⟨⟨n₂, s₂⟩, hrun, h⟩ := Option.bind_eq_some_iff.1 h
    cases h
    rw [Nat.add_right_comm, Nat.add_assoc n₁]
    exact run?_succ hnext (ih hrun)

/-- Within the visible lines the display counts and shows its line. -/
theorem advance?_visible (hon : (s.cells.get LcdTimer.controlAddr &&& 0x80 != 0) = true)
    (h : s.lcd.counter + n < LcdTimer.visibleLines * LcdTimer.cyclesPerLine) :
    s.advance? n = some { s with
      lcd.counter := s.lcd.counter + n
      cells := s.cells.set LcdTimer.lineAddr
        ((s.lcd.counter + n) / LcdTimer.cyclesPerLine).toUInt8 } := by
  have hpasses : ¬ LcdTimer.passesVisible s.lcd.line
      ({ s.lcd with counter := s.lcd.counter + n } : LcdTimer).line = true :=
    LcdTimer.not_passesVisible h
  rw [advance?, if_pos hon]
  simp only [LcdTimer.moved_of_visible h]
  rw [if_neg hpasses]
  rfl

/-- A sketch with the display off and all of memory zero. -/
def ofCpu (cpu : Cpu) : Sketch := { cpu }

/-- As long as the display is off and all of memory is zero, only the processor matters. -/
theorem next?_ofCpu {cpu cpu' : Cpu} (hrun : cpu.run = .normal) (hime : cpu.ime = .blocked)
    (h : execute? cpu [] = some (n, cpu', [])) : (ofCpu cpu).next? = some (n, ofCpu cpu') := by
  have hpending : (0 : UInt8) &&& 0 &&& 0x1F = 0 := by decide
  have hquiet : (ofCpu cpu).IsQuiet := ⟨hrun, hime, hpending⟩
  have hoff : ¬ ((0 : UInt8) &&& 0x80 != 0) = true := by decide
  have hdark : advance? (ofCpu cpu') n = some (ofCpu cpu') := if_neg hoff
  have hexecute : execute? (ofCpu cpu).cpu (ofCpu cpu).cells = some (n, cpu', []) := h
  rw [next?, if_pos hquiet, hexecute]
  simp only [Option.bind_eq_bind, Option.bind_some]
  exact congrArg (Option.bind · _) hdark

theorem run?_ofCpu {cpu cpu' : Cpu} (hrun : cpu.run = .normal) (hime : cpu.ime = .blocked)
    (h : execute? cpu [] = some (n, cpu', [])) (h' : (ofCpu cpu').run? k = some (c, u)) :
    (ofCpu cpu).run? (k + 1) = some (n + c, u) :=
  run?_succ (next?_ofCpu hrun hime h) h'

end

/-! ### Machines make the steps of their sketches -/

/-- The machine with the sketch filled in, where everything else is on the bus `b`. -/
def machine (s : Sketch) (b : SystemBus) : Machine where
  cpu := s.cpu
  bus := s.cells.on b
  lcd := s.lcd

variable {b : SystemBus} {cpu cpu' : Cpu} {cells cells' : Cells} {w : UInt16} {n : Nat}

theorem fetch8_on (hload : Loaded b) {opcode : UInt8} (h : byteAt? cpu.regs.pc = some opcode) :
    Bus.fetch8 cpu.regs.pc (cells.on b) = .ok opcode (cells.on b) := by
  rw [SystemBus.fetch8_eq]
  exact congrArg (EStateM.Result.ok · _) (hload cpu.regs.pc opcode h)

theorem fetch_on (hb : Loaded b) {v : UInt8} (h : byteAt? cpu.regs.pc = some v) :
    Exec.fetch ⟨cpu, cells.on b⟩ = .ok v ⟨cpu.next, cells.on b⟩ := by
  rw [Exec.fetch_apply, fetch8_on hb h]

theorem fetchImmediate_on (hb : Loaded b) {k : Immediate}
    (h : fetchImmediate? k cpu = some (w, cpu')) :
    Exec.fetchImmediate k ⟨cpu, cells.on b⟩ = .ok w ⟨cpu', cells.on b⟩ := by
  cases k with
  | none =>
    cases h
    rfl
  | byte =>
    obtain ⟨v, hv, h⟩ := Option.bind_eq_some_iff.1 h
    cases h
    simp only [Exec.fetchImmediate, bind_apply, fetch_on hb hv, pure_apply]
  | word =>
    obtain ⟨lo, hlo, h⟩ := Option.bind_eq_some_iff.1 h
    obtain ⟨hi, hhi, h⟩ := Option.bind_eq_some_iff.1 h
    cases h
    simp only [Exec.fetchImmediate, Exec.fetchWord, bind_apply, fetch_on hb hlo, fetch_on hb hhi,
      pure_apply]

theorem load_on {addr : UInt16} (h : SystemBus.imageEnd ≤ addr) :
    Exec.load addr ⟨cpu, cells.on b⟩ = .ok (cells.get addr) ⟨cpu, cells.on b⟩ := by
  rw [Exec.load_apply, SystemBus.read8_eq, Cells.view_on cells b h]

theorem store_on (hb : b.WellFormed) {addr : UInt16} (h : IsPlain addr) (v : UInt8) :
    Exec.store addr v ⟨cpu, cells.on b⟩ = .ok () ⟨cpu, (cells.set addr v).on b⟩ := by
  have hon : (cells.on b).WellFormed := hb
  rw [Exec.store_apply, SystemBus.write8_eq addr v hon,
    SystemBus.stored_eq_poke _ v h.1 (.inl h.2), Cells.poke_on]

/-- A store that removes the boot program. -/
theorem store_bootOff_on (hb : b.WellFormed) {v : UInt8} (hv : v ≠ 0) :
    Exec.store SystemBus.bootOffAddr v ⟨cpu, cells.on b⟩ =
      .ok () ⟨cpu, (cells.set SystemBus.bootOffAddr v).on b.withoutBoot⟩ := by
  have hon : (cells.on b).WellFormed := hb
  have hstored : (cells.on b).stored SystemBus.bootOffAddr v =
      ((cells.on b).poke SystemBus.bootOffAddr v).withoutBoot := by
    rw [SystemBus.stored, if_neg (by decide), if_pos ⟨rfl, hv⟩]
  rw [Exec.store_apply, SystemBus.write8_eq _ v hon, hstored, Cells.poke_on, Cells.withoutBoot_on]

theorem access_on (hb : b.WellFormed) {a : DataAccess}
    (h : access? a cpu cells = some (w, cpu', cells')) :
    Exec.access a ⟨cpu, cells.on b⟩ = .ok w ⟨cpu', cells'.on b⟩ := by
  cases a with
  | none =>
    cases h
    rfl
  | store a v =>
    obtain ⟨ha, h⟩ := Option.ite_none_right_eq_some.1 h
    cases h
    simp only [Exec.access, bind_apply, store_on hb ha, pure_apply]
  | push w =>
    obtain ⟨⟨hhigh, hlow⟩, h⟩ := Option.ite_none_right_eq_some.1 h
    cases h
    simp only [Exec.access, Exec.pushWord, bind_apply, Exec.regs_apply, store_on hb hhigh,
      store_on hb hlow, Exec.modifyRegs_apply, pure_apply]
  | pop =>
    obtain ⟨⟨hlow, hhigh⟩, h⟩ := Option.ite_none_right_eq_some.1 h
    cases h
    simp only [Exec.access, Exec.popWord, bind_apply, Exec.regs_apply, load_on hlow,
      load_on hhigh, Exec.modifyRegs_apply, pure_apply]
  | load => cases h
  | update => cases h
  | storeWord => cases h

/-- Ending an instruction while interrupts are blocked only counts its cycles. -/
theorem complete_blocked (n : Nat) :
    (Exec.complete .blocked n : Exec SystemBus Nat) = Exec.spend n := by
  rw [Exec.complete, if_neg (by decide)]

theorem perform_on (hb : b.WellFormed) {p : Plan}
    (h : perform? p cpu cells = some (n, cpu', cells')) :
    (Exec.perform p >>= Exec.complete .blocked) ⟨cpu, cells.on b⟩ =
      .ok n ⟨cpu', cells'.on b⟩ := by
  obtain ⟨⟨w, cpu₁, cells₁⟩, haccess, h⟩ := Option.bind_eq_some_iff.1 h
  cases h
  simp only [Exec.perform, bind_apply, access_on hb haccess, Exec.modifyCpu_apply, pure_apply,
    complete_blocked, Exec.spend_apply]

/-- A step inside the program carries out the plan of the instruction there. -/
theorem step_on (hload : Loaded b) {opcode : UInt8} {i : Instruction} {p : Plan}
    (hrun : cpu.run = .normal) (hime : cpu.ime = .blocked) (hmode : cpu.mode = .primary)
    (hopcode : byteAt? cpu.regs.pc = some opcode) (hext : opcode ≠ extensionByte)
    (hdecode : Instruction.decode opcode = some i)
    (himm : fetchImmediate? i.immediate cpu.next = some (w, cpu'))
    (hplan : i.plan cpu.regs.pc cpu'.regs w = .ok p) :
    Exec.step ⟨cpu, cells.on b⟩ =
      (Exec.perform p >>= Exec.complete .blocked) ⟨cpu', cells.on b⟩ := by
  rw [Exec.step_primary hrun hmode (fetch8_on hload hopcode) hext, Exec.primary, hdecode, hime]
  simp only [Exec.instruction_eq (Instruction.wellFormed_of_decode hdecode), bind_assoc]
  rw [bind_apply, fetchImmediate_on hload himm]
  simp only
  rw [bind_apply, Exec.regs_apply]
  simp only [hplan, Exec.performPlanned]

theorem execute_on (hb : b.WellFormed) (hload : Loaded b) (hrun : cpu.run = .normal)
    (hime : cpu.ime = .blocked) (h : execute? cpu cells = some (n, cpu', cells')) :
    Exec.step ⟨cpu, cells.on b⟩ = .ok n ⟨cpu', cells'.on b⟩ := by
  obtain ⟨opcode, hopcode, h⟩ := Option.bind_eq_some_iff.1 h
  cases hmode : cpu.mode with
  | primary =>
    simp only [hmode] at h
    by_cases hext : opcode = extensionByte
    · -- the byte that announces the extended table is a step of its own
      rw [if_pos hext] at h
      cases h
      rw [hext] at hopcode
      rw [Exec.step_extension hrun hmode (fetch8_on hload hopcode)]
      rfl
    · rw [if_neg hext] at h
      obtain ⟨i, hdecode, h⟩ := Option.bind_eq_some_iff.1 h
      obtain ⟨⟨imm, cpu₁⟩, himm, h⟩ := Option.bind_eq_some_iff.1 h
      cases hplan : i.plan cpu.regs.pc cpu₁.regs imm with
      | ok p =>
        simp only [hplan] at h
        rw [step_on hload hrun hime hmode hopcode hext hdecode himm hplan]
        exact perform_on hb h
      | error e =>
        simp only [hplan] at h
        cases h
  | extended =>
    simp only [hmode] at h
    rw [Exec.step_extended hrun hmode (fetch8_on hload hopcode), hime,
      Exec.extendedInstruction_eq (Register.isOperand_ofIndex opcode), bind_assoc, bind_apply,
      Exec.regs_apply]
    exact perform_on hb h

theorem advance_on {s s' : Sketch} (b : SystemBus) (h : s.advance? n = some s') :
    (s.machine b).advanceDisplay n = s'.machine b := by
  have hon : LcdTimer.isOn (s.machine b).bus.memory =
      (s.cells.get LcdTimer.controlAddr &&& 0x80 != 0) := by
    rw [← Cells.get_space]
    rfl
  unfold Machine.advanceDisplay LcdTimer.advance
  rw [hon]
  unfold advance? at h
  by_cases hlcd : (s.cells.get LcdTimer.controlAddr &&& 0x80 != 0) = true
  · rw [if_pos hlcd] at h ⊢
    obtain ⟨hvisible, h⟩ := Option.ite_none_left_eq_some.1 h
    cases h
    have hvisible : ¬ LcdTimer.passesVisible (s.machine b).lcd.line
        ((s.machine b).lcd.moved n).line = true := hvisible
    simp only [if_neg hvisible]
    simp only [machine, Cells.on, Cells.space_set]
  · rw [if_neg hlcd] at h ⊢
    cases h
    simp only [machine, Cells.on, Cells.space_set]

/-- Nothing is pending in a machine if nothing is in its sketch. -/
theorem not_hasPending {s : Sketch} (h : s.IsQuiet) : ¬ (s.machine b).HasPending := by
  obtain ⟨-, -, hpending⟩ := h
  have hpeek (addr : UInt16) : (s.machine b).peek addr = s.cells.get addr := s.cells.get_space addr
  rw [Machine.HasPending, hpeek, hpeek, hpending]
  exact not_not_intro rfl

/-- A sketch that makes a step is inside the boot program. -/
theorem ne_stop_of_execute? (h : execute? cpu cells = some (n, cpu', cells')) :
    cpu.regs.pc ≠ stop := by
  intro hstop
  obtain ⟨opcode, hopcode, -⟩ := Option.bind_eq_some_iff.1 h
  -- the program ends right before this address
  have houtside : byteAt? stop = none := by decide +kernel
  rw [hstop, houtside] at hopcode
  cases hopcode

/-- A step of the processor is a step of the machine. -/
theorem approach_of_step {s : Sketch} {t : Board SystemBus} (hb : b.WellFormed)
    (hquiet : s.IsQuiet) (hpc : s.cpu.regs.pc ≠ stop)
    (hstep : Exec.step ⟨s.cpu, s.cells.on b⟩ = .ok n t) :
    Machine.Approach stop 1 n (s.machine b) (((s.machine b).withBoard t).advanceDisplay n) := by
  have hpending : ¬ (s.machine b).HasPending := not_hasPending hquiet
  have hdispatches : ¬ (s.machine b).Dispatches := fun hd => hpending hd.hasPending
  have hpolled : (s.machine b).polled = s.cpu := if_neg fun hhalted => hpending hhalted.2
  have htick : Exec.tick (s.machine b).board = .ok n t := by
    rw [Machine.tick_of_not_dispatches hb hdispatches, hpolled]
    exact hstep
  exact .single hpc hdispatches (Machine.step_eq_ok_iff.2 ⟨t, htick, rfl⟩)

/-- A machine makes the step of its sketch. -/
theorem approach_of_next? {s s' : Sketch} (hb : b.WellFormed) (hload : Loaded b)
    (h : s.next? = some (n, s')) :
    Machine.Approach stop 1 n (s.machine b) (s'.machine b) := by
  obtain ⟨hquiet, h⟩ := Option.ite_none_right_eq_some.1 h
  obtain ⟨⟨k, cpu, cells⟩, hexecute, h⟩ := Option.bind_eq_some_iff.1 h
  obtain ⟨t, hadvance, h⟩ := Option.bind_eq_some_iff.1 h
  cases h
  rw [← advance_on b hadvance]
  exact approach_of_step hb hquiet (ne_stop_of_execute? hexecute)
    (execute_on hb hload hquiet.1 hquiet.2.1 hexecute)

/-- A machine makes the run of its sketch. -/
theorem approach_of_run? {s s' : Sketch} {k : Nat} (hb : b.WellFormed) (hload : Loaded b)
    (h : s.run? k = some (n, s')) :
    Machine.Approach stop k n (s.machine b) (s'.machine b) := by
  induction k generalizing s n with
  | zero =>
    cases h
    exact .refl _
  | succ k ih =>
    obtain ⟨⟨c, t⟩, hnext, h⟩ := Option.bind_eq_some_iff.1 h
    obtain ⟨⟨d, u⟩, hrun, h⟩ := Option.bind_eq_some_iff.1 h
    cases h
    rw [Nat.add_comm k 1]
    exact (approach_of_next? hb hload hnext).trans (ih hrun)

end Sketch

end Lr35902
