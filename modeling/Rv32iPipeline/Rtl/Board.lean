import Rv32iPipeline.Rtl.McuWrapper
import Rv32iPipeline.Rtl.SevSegDisp

/-!
# `Rv32iPipeline.Rtl.Board`: `MCU_WRAPPER.sv` with its display

`SSG_DISP` runs on `CLK` beside the rest of the wrapper. It reads `r_SSEG` and `s_reset` and drives
the cathodes and anodes, and nothing reads it.
-/

set_option autoImplicit false

namespace Rv32iPipeline

/-- The flops of the wrapper and of its display. -/
@[ext] structure Board where
  mcu : McuWrapper
  display : CathodeDriver

namespace Board

/-- The pins of `SSG_DISP`: `MODE` is tied to decimal. -/
def displayInput (w : McuWrapper) : DisplayInput := ⟨true, w.sReset, w.rSseg⟩

/-- One rising edge of `CLK`. `s_reset` and `r_SSEG` change behind the edges of `clk_50`, which
follow those of `CLK`: the display takes their values of before. -/
def step (imem : InstructionMemory) (b : Board) (i : BoardInput) : Board where
  mcu := b.mcu.step imem i
  display := SevSegDisp.step b.display (displayInput b.mcu)

/-- The run of the board. -/
def run (imem : InstructionMemory) (b : Board) (inp : ℕ → BoardInput) (n : ℕ) : Board :=
  Clocked.run (step imem) b inp n

end Board

end Rv32iPipeline
