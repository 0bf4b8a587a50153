import Rv32iPipeline.Proofs.Board
import Rv32iPipeline.Proofs.ResetButton

/-!
# `Rv32iPipeline.Proofs.ButtonRestart`: what a press of `BTNC` leaves behind

While `BTNC` is held, `clk_50` is low and the core stands still. `DMEM` runs on `CLK` and sees the
bus request of the instruction in EX at every edge. The first edge after the press clocks the core,
with `s_reset` high, and the falling edge behind it ends the reset.

So a press of any length is one core cycle with `RST` high (`run_press`). The core gets one edge of
reset, never two, and `press_restarts_iff` says when that is enough.
-/

set_option autoImplicit false

namespace Rv32iPipeline

open CpuTop Clocked

/-! ### The core -/

/-- One edge with `RST` high leaves the core out of reset exactly when there was no halt, and
the `IMEM` register takes word 0. -/
theorem CpuTop.step_reset_eq_iff (imem : InstructionMemory) (s : CpuTop) (d : Word) :
    s.step imem (CpuInput.reset d)
        = outOfReset imem (s.step imem (CpuInput.reset d)).registers ↔
      s.haltSig = false ∧ s.nextFetch imem true = (imem.at 0#32, 0#32) := by
  rw [CpuInput.reset, step_reset]
  constructor
  · intro h
    exact ⟨congrArg CpuTop.haltSig h,
      Prod.ext (congrArg CpuTop.ir h) (congrArg CpuTop.pcUsed h)⟩
  · rintro ⟨hh, hfetch⟩
    rw [hh, hfetch]
    rfl

/-- With no trap behind EX and no halt, an edge with `RST` high fetches word 0 unless there is a
load-use stall. A trap in EX does not hinder it. -/
theorem CpuTop.nextFetch_reset {imem : InstructionMemory} {s : CpuTop} (hh : s.haltSig = false)
    (hmem : s.exMemQ.trap = false) (hwb : s.memWbQ.trap = false) :
    s.nextFetch imem true = if s.stall then (s.ir, s.pcUsed) else (imem.at 0#32, 0#32) := by
  have hpc : s.pc true = 0#32 := rfl
  cases hs : s.stall with
  | true => simp [nextFetch, stallIfId_eq, hs, hazard_eq, flush_of_stall hs]
  | false =>
      cases htrap : s.idExQ.trap with
      -- the flush of the trap goes before its freeze
      | true => simp [nextFetch, stallIfId_eq, hs, hazard_eq, flush, htrap, hpc]
      | false => simp [nextFetch, stallIfId_eq, hs, freeze, hh, hmem, hwb, htrap, hpc]

namespace McuWrapper

variable {imem : InstructionMemory} {w : McuWrapper} {inp : ℕ → BoardInput} {p : ℕ}

/-- During the press only `DMEM` is clocked, and all of its edges do what the first one does. -/
theorem run_held (hwf : w.system.cpu.Wf) (hclk : w.clk50 = true) (h : Press inp p) {j : ℕ}
    (hj : j < p) : w.run imem inp (j + 1)
      = ⟨{ w.system with dmem := w.system.nextDmem }, false, true, w.leds, w.rSseg⟩ := by
  induction j with
  | zero =>
      show w.step imem (inp 0) = _
      simp [step, rises, falls, nextClk50, hclk, h.high 0 hj]
  | succ j ih =>
      rw [run_succ, ih (Nat.lt_of_succ_lt hj)]
      simp [step, rises, falls, nextClk50, h.high (j + 1) hj, System.nextDmem_twice hwf]

/-- A press of any length is one core cycle with `RST` high. -/
theorem run_press (hwf : w.system.cpu.Wf) (hclk : w.clk50 = true) (hp : 1 ≤ p)
    (h : Press inp p) :
    w.run imem inp (p + 1) =
      { system := w.system.lateStep imem
          ⟨true, (inp p).switches.setWidth 32, (inp p).btns.setWidth 32⟩
        clk50 := true
        sReset := true
        leds := if w.system.enables.ledsWe then w.system.cpu.bus.dataOut.setWidth 16 else w.leds
        rSseg :=
          if w.system.enables.ssegWe then w.system.cpu.bus.dataOut.setWidth 16 else w.rSseg } := by
  obtain ⟨j, rfl⟩ := Nat.exists_eq_add_of_le' hp
  rw [run_succ, run_held hwf hclk h (Nat.lt_succ_self j)]
  simp only [step, rises, falls, nextClk50, h.low, coreEdge, System.nextDmem_twice hwf,
    Bool.false_eq_true, if_false, Bool.not_false, Bool.and_self, Bool.true_and, Bool.false_and,
    if_true]
  rfl

end McuWrapper

open McuWrapper

/-- **What a press of the reset button leaves behind.** The core is reachable, with no trap behind
EX, and `clk_50` is high. One edge behind a press of any length the core is out of reset exactly
when it was not halted, and not in a load-use stall, or the stall kept word 0 by chance. Whether or
not, the store in EX is performed once, the instruction in EX/MEM has written its register, and
nothing else has changed on the devices and in the register file. -/
theorem press_restarts_iff (imem : InstructionMemory) {w : McuWrapper}
    (hr : CpuTop.Reachable imem w.system.cpu) (hmem : w.system.cpu.exMemQ.trap = false)
    (hwb : w.system.cpu.memWbQ.trap = false) (hclk : w.clk50 = true) {inp : ℕ → BoardInput}
    {p : ℕ} (hp : 1 ≤ p) (h : Press inp p) :
    let w' := w.run imem inp (p + 1)
    (w'.system.cpu = outOfReset imem w'.system.cpu.registers ↔
        w.system.cpu.haltSig = false ∧ (w.system.cpu.stall = false ∨
          (w.system.cpu.ir = imem.at 0#32 ∧ w.system.cpu.pcUsed = 0#32))) ∧
      w'.clk50 = true ∧
      w'.devices = w.system.cpu.bus.write.foldl Devices.write w.devices ∧
      w'.system.cpu.registers
        = w.system.cpu.nextRegisters w.system.lateDataIn DontCare.zero := by
  intro w'
  have hrun : w' = _ := run_press hr.wf hclk hp h
  have hcpu : w'.system.cpu
      = w.system.cpu.step imem (CpuInput.reset w.system.lateDataIn) := by
    rw [hrun]
    rfl
  refine ⟨?_, by rw [hrun], devices_of_request (by rw [hrun]; rfl) (by rw [hrun]) (by rw [hrun]),
    by rw [hcpu]; rfl⟩
  rw [hcpu, step_reset_eq_iff]
  refine and_congr_right fun hh => ?_
  rw [nextFetch_reset hh hmem hwb]
  cases hs : w.system.cpu.stall <;> simp

/-- `sw x2, 0x20(x3)` everywhere, with `x3 = 0x11000000`, and a press of three edges with the first
store in EX: the program restarts, and the LEDs show the low half of `x2`. -/
theorem press_restarts_iff_leds :
    let imem : InstructionMemory := fun _ => 0x0221A023#32
    let regs : Registers := fun r => if r = 3#5 then 0x11000000#32 else 0x00003F60#32
    let start : McuWrapper := ⟨⟨outOfReset imem regs, ⟨.none, 0#32⟩, ⟨fun _ => 0#32, 0#32⟩⟩,
      true, false, 0#16, 0#16⟩
    let idle : ℕ → BoardInput := fun _ => ⟨false, 0#4, 0#16⟩
    let inp : ℕ → BoardInput := fun j => ⟨decide (j < 3), 0#4, 0#16⟩
    let w := start.run imem idle 4
    let w' := w.run imem inp 4
    w'.system.cpu = outOfReset imem w'.system.cpu.registers ∧ w'.leds = 0x3F60#16 := by
  intro imem regs start idle inp w w'
  have hreach : CpuTop.Reachable imem w.system.cpu :=
    (@observed_reachable imem start (CpuTop.reachable_outOfReset imem regs) rfl idle
      (fun _ => rfl) 2).1
  have hpress : Press inp 3 := ⟨fun j hj => decide_eq_true hj, rfl⟩
  obtain ⟨hiff, -, hdev, -⟩ := press_restarts_iff imem hreach (by decide +kernel)
    (by decide +kernel) (by decide +kernel) (by decide : 1 ≤ 3) hpress
  exact ⟨hiff.mpr (by decide +kernel), (congrArg Devices.leds hdev).trans (by decide +kernel)⟩

end Rv32iPipeline
