import Lr35902.Proofs.Boot.Loops

/-!
# The course of the boot program

The boot program from its first instruction to its last: two loops with a few instructions before
and between them, the programming of sound and display, a long row of bytes that do nothing, and the
store that removes the program.  The row is crossed by induction, in which the display moves on to
its second line.  A machine with any cartridge runs the whole program in the same number of steps
and cycles (`BootProgram.approach_stop`).
-/

namespace Lr35902

namespace BootProgram

open Sketch

/-- The start of the program. -/
def start : Sketch := ofCpu (.init .boot .blocked)

/-! ### Straight-line parts -/

theorem run?_start :
    start.run? 3 = some (28, ofCpu (looping { zero := true } 0 0x0007 0x9FFF 28)) := by
  decide +kernel

theorem run?_between :
    (ofCpu (looping { zero := true, halfCarry := true } 0 0x000C 0x7FFF 229400)).run? 2 =
      some (20, ofCpu (looping { zero := true, halfCarry := true } 0xA0 0x0011 0xFE00 229420)) := by
  decide +kernel

/-- The bytes in memory once all registers are programmed, but for the line of the display. -/
def programmed : Cells := [
  (0xFFFC, 0xB0), (0xFFFD, 0x01),
  (0xFF40, 0x91), (0xFF49, 0xFF), (0xFF48, 0xFF), (0xFF47, 0xFC),
  (0xFF25, 0xF3), (0xFF24, 0x77), (0xFF26, 0x80)]

/-- Behind `j` of the bytes that do nothing.  The display has been on for `100 + 4 * j` cycles. -/
def sliding (j : Nat) : Sketch where
  cpu :=
    { regs := { RegisterFile.postBoot with pc := UInt16.ofNat (opening.length + j) }
      cycles := 233516 + 4 * j }
  cells := programmed.set LcdTimer.lineAddr ((100 + 4 * j) / 456).toUInt8
  lcd := { counter := 100 + 4 * j }

theorem run?_program :
    (ofCpu (looping { zero := true, subtract := true } 0 0x0015 0xFEA0 233256)).run? 24 =
      some (260, sliding 0) := by
  decide +kernel

variable {j : Nat}

theorem byteAt?_padding (h : j < 181) :
    byteAt? (UInt16.ofNat (opening.length + j)) = some 0 := by
  have hopening : opening.length = 71 := rfl
  have hclosing : closing.length = 4 := rfl
  have haddr : (UInt16.ofNat (opening.length + j)).toNat = opening.length + j :=
    UInt16.toNat_ofNat_of_lt' (by rw [hopening]; simp only [UInt16.size]; omega)
  have hlength : j < size - opening.length - closing.length := by
    rw [hopening, hclosing, size]
    omega
  rw [byteAt?, haddr, bytes, List.append_assoc, List.getElem?_append_right (Nat.le_add_right _ j),
    Nat.add_sub_cancel_left, List.getElem?_append_left (by rwa [List.length_replicate]),
    List.getElem?_replicate, if_pos hlength]

/-- Nothing but the display moves on. -/
theorem execute?_nop {cpu : Cpu} {cells : Cells} (hmode : cpu.mode = .primary)
    (hnop : byteAt? cpu.regs.pc = some 0) :
    execute? cpu cells = some (4, { cpu.next with cycles := cpu.cycles + 4 }, cells) := by
  have hdecode : Instruction.decode 0 = some .nop := by decide
  rw [execute?_primary hmode hnop (by decide) hdecode rfl rfl]
  rfl

theorem get_sliding {addr : UInt16} (h : LcdTimer.lineAddr ≠ addr) :
    (sliding j).cells.get addr = programmed.get addr := by
  change (programmed.set _ _).get addr = _
  rw [Cells.get_set, if_neg h]

/-- The display moves to its second line on the way and stays there. -/
theorem set_line_sliding (h : j < 181) :
    (sliding j).cells.set LcdTimer.lineAddr ((100 + 4 * (j + 1)) / 456).toUInt8 =
      (sliding (j + 1)).cells := by
  have hlines : (100 + 4 * j) / 456 = 0 ∨
      (100 + 4 * j) / 456 = 1 ∧ (100 + 4 * (j + 1)) / 456 = 1 := by omega
  change (programmed.set LcdTimer.lineAddr ((100 + 4 * j) / 456).toUInt8).set _ _ =
    programmed.set LcdTimer.lineAddr ((100 + 4 * (j + 1)) / 456).toUInt8
  rcases hlines with hfirst | ⟨hsecond, hnext⟩
  · -- the number of the first line is not listed among the cells, as it is zero
    rw [hfirst]
    rfl
  · rw [hsecond, hnext]
    exact Cells.set_set_self programmed _ _

theorem next?_sliding (h : j < 181) : (sliding j).next? = some (4, sliding (j + 1)) := by
  have hquiet : (sliding j).IsQuiet := by
    refine ⟨rfl, rfl, ?_⟩
    rw [get_sliding (by decide), get_sliding (by decide)]
    decide
  have hnop : execute? (sliding j).cpu (sliding j).cells = _ := execute?_nop rfl (byteAt?_padding h)
  have hon : ((sliding j).cells.get LcdTimer.controlAddr &&& 0x80 != 0) = true := by
    rw [get_sliding (by decide)]
    decide
  have hvisible : (sliding j).lcd.counter + 4 < LcdTimer.visibleLines * LcdTimer.cyclesPerLine := by
    change 100 + 4 * j + 4 < 144 * 456
    omega
  -- the processor moves on by a byte and four cycles, and the display by as many
  have hpc : ProgramCounter.next (sliding j).cpu.regs.pc = (sliding (j + 1)).cpu.regs.pc :=
    (UInt16.ofNat_add (opening.length + j) 1).symm
  have hcpu : { (sliding j).cpu.next with cycles := (sliding j).cpu.cycles + 4 } =
      (sliding (j + 1)).cpu :=
    congrArg (fun pc => Cpu.mk { RegisterFile.postBoot with pc } .blocked .normal .primary _) hpc
  let t : Sketch := { sliding j with cpu := (sliding (j + 1)).cpu }
  have hadvance : t.advance? 4 = some (sliding (j + 1)) :=
    (advance?_visible (s := t) hon hvisible).trans
      (congrArg (fun cells => some (Sketch.mk _ cells _)) (set_line_sliding h))
  rw [hcpu] at hnop
  rw [next?, if_pos hquiet, hnop]
  simp only [Option.bind_eq_bind, Option.bind_some]
  exact congrArg (Option.bind · _) hadvance

theorem run?_padding {k : Nat} (h : j + k ≤ 181) :
    (sliding j).run? k = some (4 * k, sliding (j + k)) := by
  induction k generalizing j with
  | zero => exact run?_zero _
  | succ k ih =>
    have hrun := run?_succ (next?_sliding (j := j) (by omega)) (ih (j := j + 1) (by omega))
    rw [show 4 + 4 * k = 4 * (k + 1) by omega, show j + 1 + k = j + (k + 1) by omega] at hrun
    exact hrun

/-- At the store that removes the program. -/
def leaving : Sketch where
  cpu := { regs := { RegisterFile.postBoot with pc := 0x00FE }, cycles := 234248 }
  cells := (LcdTimer.lineAddr, 1) :: programmed
  lcd := { counter := 832 }

theorem run?_load : (sliding 181).run? 1 = some (8, leaving) := by decide +kernel

/-- The program runs up to its last instruction. -/
theorem run?_leaving : start.run? 33459 = some (234248, leaving) := by
  have hclear : (ofCpu (looping { zero := true } 0 0x0007 0x9FFF 28)).run? 32768 =
      some (229372, ofCpu (looping { zero := true, halfCarry := true } 0 0x000C 0x7FFF 229400)) :=
    run?_clear (k := 0x1FFF) rfl (by decide) rfl
  have hsprites :
      (ofCpu (looping { zero := true, halfCarry := true } 0xA0 0x0011 0xFE00 229420)).run? 480 =
        some (3836, ofCpu (looping { zero := true, subtract := true } 0 0x0015 0xFEA0 233256)) :=
    run?_clearSprites (k := 0x9F) rfl rfl rfl
  -- the two loops with what comes before, between and behind them
  have hpadding := run?_padding (j := 0) (k := 181) (by decide)
  rw [Nat.zero_add] at hpadding
  have hrun := run?_add run?_start (run?_add hclear (run?_add run?_between (run?_add hsprites
    (run?_add run?_program (run?_add hpadding run?_load)))))
  exact hrun

/-! ### The end of the program -/

/-- The cycles that the program takes. -/
def cycles : Nat := 234260

/-- The steps that the program takes. -/
def steps : Nat := 33460

/-- Behind the program. -/
def handedOver : Sketch where
  cpu := { regs := .postBoot, cycles }
  cells := (SystemBus.bootOffAddr, 1) :: (LcdTimer.lineAddr, 1) :: programmed
  lcd := { counter := 844 }

variable {bus : SystemBus}

theorem approach_handedOver (hb : bus.WellFormed) (hload : Loaded bus) :
    Machine.Approach stop 1 12 (leaving.machine bus) (handedOver.machine bus.withoutBoot) := by
  have hquiet : leaving.IsQuiet := by decide
  have hopcode : byteAt? leaving.cpu.regs.pc = some 0xE0 := by decide +kernel
  have hdecode : Instruction.decode 0xE0 = some (.storeA .highImmediate) := by decide
  have himm : fetchImmediate? (Instruction.storeA .highImmediate).immediate leaving.cpu.next =
      some (0x0050, { leaving.cpu with regs := .postBoot }) := by decide +kernel
  have hplan : (Instruction.storeA .highImmediate).plan 0x00FE .postBoot 0x0050 =
      .ok ⟨.store SystemBus.bootOffAddr 1, fun _ => Plan.onRegs id, 12⟩ := rfl
  have hcells : leaving.cells.set SystemBus.bootOffAddr 1 = handedOver.cells := by decide
  have hstep : Exec.step ⟨leaving.cpu, leaving.cells.on bus⟩ =
      .ok 12 ⟨handedOver.cpu, handedOver.cells.on bus.withoutBoot⟩ := by
    -- the sketch makes no step here, as the store is to a register of the bus
    rw [step_on hload rfl rfl rfl hopcode (by decide) hdecode himm hplan]
    have hone : (1 : UInt8) ≠ 0 := by decide
    simp only [bind_apply, Exec.perform, Exec.access, store_bootOff_on hb hone, hcells]
    rfl
  have hadvance : advance? { handedOver with lcd := leaving.lcd } 12 = some handedOver := by
    decide +kernel
  rw [← advance_on bus.withoutBoot hadvance]
  exact approach_of_step hb hquiet (by decide) hstep

/-- A machine runs the whole program. -/
theorem approach_stop (hb : bus.WellFormed) (hload : Loaded bus) :
    Machine.Approach stop steps cycles (start.machine bus) (handedOver.machine bus.withoutBoot) :=
  (approach_of_run? hb hload run?_leaving).trans (approach_handedOver hb hload)

end BootProgram

end Lr35902
