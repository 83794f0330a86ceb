import Lr35902.Proofs.Bus.Reliable
import Lr35902.Proofs.Plan
import Lr35902.Proofs.Simulation
import Lr35902.Proofs.Step

/-!
# The processor on related buses

The processor knows its bus only through accesses.  If a relation between two buses is kept by all
accesses (`Bus.Simulation`), it is kept by all that the processor does, and the processor does the
same on both (`Exec.simulates_step`, `Exec.simulates_tick`).

If some accesses make the first bus escape and the others keep the relation
(`Bus.SimulationUnless`), this is so as long as the processor makes none of the former
(`Exec.unless_step`, `Exec.unless_dispatch`, `Exec.unless_tick`).  All is proved for this case, and
follows for the other one, in which no bus escapes.
-/

namespace Lr35902

variable {σ τ : Type} [Bus σ] [Bus τ]

/-- On related buses a load or a store moves the same byte, or fails with the same fault, and leaves
related buses. -/
structure Bus.DataSimulation (B : σ → τ → Prop) : Prop where
  load : ∀ addr, Exec.Simulates B Eq (Exec.load addr) (Exec.load addr)
  store : ∀ addr v, Exec.Simulates B Eq (Exec.store addr v) (Exec.store addr v)

/-- The same for all accesses. -/
structure Bus.Simulation (B : σ → τ → Prop) : Prop extends Bus.DataSimulation B where
  fetch : Exec.Simulates B Eq Exec.fetch Exec.fetch

/-- The same for loads and stores, unless they make the first bus escape to `E`. -/
structure Bus.DataSimulationUnless (E : σ → Prop) (B : σ → τ → Prop) : Prop where
  load : ∀ addr, Exec.SimulatesUnless E B (Exec.load addr) (Exec.load addr)
  store : ∀ addr v, Exec.SimulatesUnless E B (Exec.store addr v) (Exec.store addr v)

/-- And for all accesses. -/
structure Bus.SimulationUnless (E : σ → Prop) (B : σ → τ → Prop) : Prop extends
    Bus.DataSimulationUnless E B where
  fetch : Exec.SimulatesUnless E B Exec.fetch Exec.fetch

theorem Bus.DataSimulation.toUnless {B : σ → τ → Prop} (hB : Bus.DataSimulation B) :
    Bus.DataSimulationUnless (fun _ => False) B where
  load addr := Exec.simulates_iff.1 (hB.load addr)
  store addr v := Exec.simulates_iff.1 (hB.store addr v)

theorem Bus.Simulation.toUnless {B : σ → τ → Prop} (hB : Bus.Simulation B) :
    Bus.SimulationUnless (fun _ => False) B where
  toDataSimulationUnless := hB.toDataSimulation.toUnless
  fetch := Exec.simulates_iff.1 hB.fetch

namespace Exec

variable {E : σ → Prop} {B : σ → τ → Prop}

/-- Fetching is simulated if fetching from any address is. -/
theorem unless_fetch
    (h : ∀ addr, SimulatesUnless E B (onBus (Bus.fetch8 addr)) (onBus (Bus.fetch8 addr))) :
    SimulatesUnless E B fetch fetch :=
  .bindRegs fun g => (h g.pc).bind fun _ => SimulatesUnless.next (.modifyRegs _) .pure

section

variable (hB : Bus.DataSimulationUnless E B)
include hB

/-! ### Data -/

theorem unless_pushWord (w : UInt16) : SimulatesUnless E B (pushWord w) (pushWord w) :=
  .bindRegs fun g => (hB.store (g.sp - 1) (Word.high w)).next
    ((hB.store (g.sp - 2) (Word.low w)).next (.modifyRegs _))

theorem unless_popWord : SimulatesUnless E B popWord popWord := by
  refine .bindRegs fun g => (hB.load g.sp).bind fun lo => ?_
  refine (hB.load (g.sp + 1)).bind fun hi => ?_
  exact SimulatesUnless.next (.modifyRegs _) .pure

theorem unless_access (a : DataAccess) : SimulatesUnless E B (access a) (access a) := by
  cases a with
  | none => exact .pure
  | load a => exact (hB.load a).bind fun v => .pure
  | store a v => exact (hB.store a v).next .pure
  | update a f =>
    refine (hB.load a).bind fun v => ?_
    refine .bindRegs fun g => SimulatesUnless.next (.modifyRegs _) ?_
    exact (hB.store a _).next .pure
  | push w => exact (unless_pushWord hB w).next .pure
  | pop => exact unless_popWord hB
  | storeWord a w => exact (hB.store a _).next ((hB.store (a + 1) _).next .pure)

theorem unless_perform (p : Plan) : SimulatesUnless E B (perform p) (perform p) :=
  (unless_access hB p.access).bind fun _ => SimulatesUnless.next (.modifyCpu _) .pure

theorem unless_extendedInstruction (b : UInt8) :
    SimulatesUnless E B (extendedInstruction (ExtendedInstruction.decode b))
      (extendedInstruction (ExtendedInstruction.decode b)) := by
  have hi := Register.isOperand_ofIndex b
  rw [extendedInstruction_eq hi, extendedInstruction_eq hi]
  exact .bindRegs fun g => unless_perform hB _

end

omit [Bus σ] [Bus τ] in
theorem unless_spend (n : Nat) : SimulatesUnless E B (spend n) (spend n) :=
  SimulatesUnless.next (.modifyCpu _) .pure

omit [Bus σ] [Bus τ] in
theorem unless_complete (ime : InterruptState) (n : Nat) :
    SimulatesUnless E B (complete ime n) (complete ime n) := by
  unfold complete
  split
  · exact SimulatesUnless.next (.modifyCpu _) (unless_spend n)
  · exact unless_spend n

/-! ### Interrupts -/

section

variable (hB : Bus.DataSimulationUnless E B)
include hB

theorem unless_pendingInterrupt :
    SimulatesUnless E B (pendingInterrupt : Exec σ _) (pendingInterrupt : Exec τ _) :=
  (hB.load Interrupt.requestAddr).bind fun _ =>
    (hB.load Interrupt.enableAddr).bind fun _ => .pure

theorem unless_dispatch (i : Interrupt) : SimulatesUnless E B (dispatch i) (dispatch i) := by
  refine .bindRegs fun g => (unless_pushWord hB g.pc).next ?_
  refine (hB.load Interrupt.requestAddr).bind fun requested => ?_
  refine (hB.store Interrupt.requestAddr _).next ?_
  refine SimulatesUnless.next (.modifyRegs _) ?_
  exact SimulatesUnless.next (.modifyCpu _) (unless_spend _)

theorem unless_pollInterrupts :
    SimulatesUnless E B (pollInterrupts : Exec σ _) (pollInterrupts : Exec τ _) := by
  refine .bindCpu fun before => ?_
  split
  · exact .pure
  refine (unless_pendingInterrupt hB).bind fun pending => ?_
  cases pending with
  | none => exact .pure
  | some i =>
    dsimp only
    split
    · exact (unless_dispatch hB i).bind fun n => .pure
    · split
      · exact SimulatesUnless.next (.modifyCpu _) .pure
      · exact .pure

end

/-! ### Instructions and steps -/

section

variable (hB : Bus.SimulationUnless E B)
include hB

theorem unless_fetchImmediate (k : Immediate) :
    SimulatesUnless E B (fetchImmediate k) (fetchImmediate k) := by
  cases k with
  | none => exact .pure
  | byte => exact hB.fetch.bind fun v => .pure
  | word => exact hB.fetch.bind fun lo => hB.fetch.bind fun hi => .pure

theorem unless_instruction {i : Instruction} (hi : i.WellFormed) (addr : UInt16) :
    SimulatesUnless E B (instruction addr i) (instruction addr i) := by
  rw [instruction_eq hi, instruction_eq hi]
  refine (unless_fetchImmediate hB i.immediate).bind fun imm => .bindRegs fun g => ?_
  cases i.plan addr g imm with
  | ok p => exact unless_perform hB.toDataSimulationUnless p
  | error e => exact .throw e

theorem unless_primary (addr : UInt16) (b : UInt8) :
    SimulatesUnless E B (primary addr b) (primary addr b) := by
  unfold primary
  cases h : Instruction.decode b with
  | some i => exact unless_instruction hB (Instruction.wellFormed_of_decode h) addr
  | none => exact .throw _

/-- What a step does with the opcode that it has fetched. -/
theorem unless_execute (before : Cpu) (opcode : UInt8) :
    SimulatesUnless E B (execute before opcode : Exec σ Nat)
      (execute before opcode : Exec τ Nat) := by
  unfold execute
  cases before.mode with
  | primary =>
    dsimp only
    split
    · exact SimulatesUnless.next (.modifyCpu _) (unless_spend _)
    · exact (unless_primary hB before.regs.pc opcode).bind fun n => unless_complete before.ime n
  | extended =>
    refine SimulatesUnless.next (.modifyCpu _) ?_
    exact (unless_extendedInstruction hB.toDataSimulationUnless opcode).bind fun n =>
      unless_complete before.ime n

theorem unless_step : SimulatesUnless E B (step : Exec σ Nat) (step : Exec τ Nat) := by
  refine .bindCpu fun before => ?_
  split
  · exact unless_spend _
  exact hB.fetch.bind fun opcode => unless_execute hB before opcode

theorem unless_tick : SimulatesUnless E B (tick : Exec σ Nat) (tick : Exec τ Nat) := by
  refine (unless_pollInterrupts hB.toDataSimulationUnless).bind fun cycles => ?_
  cases cycles with
  | some n => exact .pure
  | none => exact unless_step hB

end

/-! ### Without an escape -/

theorem simulates_fetch
    (h : ∀ addr, Simulates B Eq (onBus (Bus.fetch8 addr)) (onBus (Bus.fetch8 addr))) :
    Simulates B Eq fetch fetch :=
  simulates_iff.2 (unless_fetch fun addr => simulates_iff.1 (h addr))

section

variable (hB : Bus.DataSimulation B)
include hB

theorem simulates_pushWord (w : UInt16) : Simulates B Eq (pushWord w) (pushWord w) :=
  simulates_iff.2 (unless_pushWord hB.toUnless w)

theorem simulates_pollInterrupts :
    Simulates B Eq (pollInterrupts : Exec σ _) (pollInterrupts : Exec τ _) :=
  simulates_iff.2 (unless_pollInterrupts hB.toUnless)

end

variable (hB : Bus.Simulation B)
include hB

theorem simulates_execute (before : Cpu) (opcode : UInt8) :
    Simulates B Eq (execute before opcode : Exec σ Nat) (execute before opcode : Exec τ Nat) :=
  simulates_iff.2 (unless_execute hB.toUnless before opcode)

theorem simulates_step : Simulates B Eq (step : Exec σ Nat) (step : Exec τ Nat) :=
  simulates_iff.2 (unless_step hB.toUnless)

theorem simulates_tick : Simulates B Eq (tick : Exec σ Nat) (tick : Exec τ Nat) :=
  simulates_iff.2 (unless_tick hB.toUnless)

end Exec

/-! ### What the processor keeps -/

section

variable {α : Type} {P : σ → Prop}

/-- A reliable bus is related to itself, where it stays in the set. -/
theorem Bus.Reliable.simulation (hP : Bus.Reliable P) : Bus.Simulation (Same P) where
  load addr := by
    rintro cpu b _ ⟨rfl, hb⟩
    obtain ⟨h, hb'⟩ := hP.read8_eq hb addr
    rw [Exec.load_apply, h]
    exact .ok rfl ⟨rfl, hb'⟩
  store addr v := by
    rintro cpu b _ ⟨rfl, hb⟩
    obtain ⟨h, hb'⟩ := hP.write8_eq hb addr v
    rw [Exec.store_apply, h]
    exact .ok rfl ⟨rfl, hb'⟩
  fetch := by
    rintro cpu b _ ⟨rfl, hb⟩
    obtain ⟨h, hb'⟩ := hP.fetch8_eq hb cpu.regs.pc
    rw [Exec.fetch_apply, h]
    exact .ok rfl ⟨rfl, hb'⟩

omit [Bus σ] in
/-- An action that does the same on the same bus in `P` leaves the bus in `P` when it succeeds. -/
theorem Exec.Simulates.keeps_ok {x : Exec σ α} (hx : Exec.Simulates (Same P) Eq x x) {s t : Board σ}
    (hs : P s.bus) {v : α} (h : x s = .ok v t) : P t.bus := by
  have hrel := hx s.cpu s.bus s.bus ⟨rfl, hs⟩
  rw [h] at hrel
  cases hrel with
  | ok _ bus => exact bus.2

omit [Bus σ] in
/-- And when it fails. -/
theorem Exec.Simulates.keeps_error {x : Exec σ α} (hx : Exec.Simulates (Same P) Eq x x)
    {s t : Board σ} (hs : P s.bus) {e : Fault} (h : x s = .error e t) : P t.bus := by
  have hrel := hx s.cpu s.bus s.bus ⟨rfl, hs⟩
  rw [h] at hrel
  cases hrel with
  | error bus => exact bus.2

end

end Lr35902
