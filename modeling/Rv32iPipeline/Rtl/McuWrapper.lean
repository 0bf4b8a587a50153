import Rv32iPipeline.Rtl.System

/-!
# `Rv32iPipeline.Rtl.McuWrapper`: `MCU_WRAPPER.sv`

The wrapper divides `CLK` by two. The core and `Interconnect` run on `clk_50`, `DMEM` runs on
`CLK`. One step of the model is one rising edge of `CLK`. It clocks `DMEM` and toggles
`clk_50` (`BTNC` forces it low). A rising `clk_50` clocks the core, which then samples `DMEM`
behind its edge. A falling `clk_50` samples `BTNC` into `s_reset`.

The seven-segment driver reads `r_SSEG` and drives pins only. `Rtl.Board` puts it beside this model.
-/

set_option autoImplicit false

namespace Rv32iPipeline

/-- The flops of the wrapper. -/
@[ext] structure McuWrapper where
  system : System
  clk50 : Bool
  sReset : Bool
  leds : BitVec 16
  rSseg : BitVec 16

/-- The board pins at one rising edge of `CLK`. -/
structure BoardInput where
  btnc : Bool
  btns : BitVec 4
  switches : BitVec 16

namespace McuWrapper

/-- `clk_50` after a rising edge of `CLK`. -/
def nextClk50 (w : McuWrapper) (btnc : Bool) : Bool := if btnc then false else !w.clk50

/-- This edge of `CLK` raises `clk_50`. -/
def rises (w : McuWrapper) (btnc : Bool) : Bool := !w.clk50 && w.nextClk50 btnc

/-- This edge of `CLK` lowers `clk_50`. -/
def falls (w : McuWrapper) (btnc : Bool) : Bool := w.clk50 && !w.nextClk50 btnc

/-- The core and `Interconnect` at a rising edge of `clk_50`, with `DMEM` behind its own edge. -/
def coreEdge (imem : InstructionMemory) (w : McuWrapper) (i : BoardInput) : System :=
  -- `clk_50` rises behind the edge of `CLK` that has clocked `DMEM`
  let s : System := { w.system with dmem := w.system.nextDmem }
  { s with
      cpu := s.cpu.step imem ⟨w.sReset, s.dataIn, DontCare.zero⟩
      interconnect := s.nextInterconnect (i.switches.setWidth 32) (i.btns.setWidth 32) }

/-- One rising edge of `CLK`. -/
def step (imem : InstructionMemory) (w : McuWrapper) (i : BoardInput) : McuWrapper where
  system :=
    if w.rises i.btnc then w.coreEdge imem i else { w.system with dmem := w.system.nextDmem }
  clk50 := w.nextClk50 i.btnc
  -- `BTNC` is sampled by the falling edge that it may have caused
  sReset := if w.falls i.btnc then i.btnc else w.sReset
  leds :=
    if w.rises i.btnc && w.system.enables.ledsWe then w.system.cpu.bus.dataOut.setWidth 16
    else w.leds
  rSseg :=
    if w.rises i.btnc && w.system.enables.ssegWe then w.system.cpu.bus.dataOut.setWidth 16
    else w.rSseg

/-- The run of the wrapper. -/
def run (imem : InstructionMemory) (w : McuWrapper) (inp : ℕ → BoardInput) (n : ℕ) : McuWrapper :=
  Clocked.run (step imem) w inp n

end McuWrapper

end Rv32iPipeline
