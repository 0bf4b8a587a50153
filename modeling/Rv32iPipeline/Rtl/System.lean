import Rv32iPipeline.Clocked.Run
import Rv32iPipeline.Rtl.CpuTop
import Rv32iPipeline.Rtl.Memory

/-!
# `Rv32iPipeline.Rtl.System`: the core with its data bus

`System` is `CPU_TOP`, `Interconnect` and `DMEM` on one clock, wired as in
`riscv_test_CPU_TOP_tb.sv`. `DATA_IN` of the core is `IOBUS_in`: the formatter of `DMEM` sees
the bus pins of the instruction in EX, and the read region is the registered one.
-/

set_option autoImplicit false

namespace Rv32iPipeline

/-- The flops of the system. -/
@[ext] structure System where
  cpu : CpuTop
  interconnect : Interconnect
  dmem : Dmem

/-- The input pins of the system in one cycle. -/
structure SystemInput where
  rst : Bool
  switches : Word
  buttons : Word

namespace System

/-- The enables of the bus request in EX. -/
def enables (s : System) : Enables :=
  Interconnect.enables s.cpu.bus.dataAddress s.cpu.bus.iobusWe s.cpu.bus.iobusRden

/-- `DATA_IN` of the core. -/
def dataIn (s : System) : Word :=
  s.interconnect.iobusIn (s.dmem.dataOut s.cpu.bus.dataAddress s.cpu.bus.memData)

/-- `DMEM` after a rising edge of its clock. -/
def nextDmem (s : System) : Dmem :=
  s.dmem.step s.enables.dmemWe s.enables.dmemRden s.cpu.bus.dataAddress s.cpu.bus.dataOut
    s.cpu.bus.memData

/-- `Interconnect` after a rising edge of its clock. -/
def nextInterconnect (s : System) (switches buttons : Word) : Interconnect :=
  s.interconnect.step s.cpu.bus.dataAddress s.cpu.bus.iobusRden switches buttons

/-- One rising edge of `CLK`, with every `'X` read as 0. -/
def step (imem : InstructionMemory) (s : System) (i : SystemInput) : System where
  cpu := s.cpu.step imem ⟨i.rst, s.dataIn, DontCare.zero⟩
  interconnect := s.nextInterconnect i.switches i.buttons
  dmem := s.nextDmem

/-- The run of the system. -/
def run (imem : InstructionMemory) (s : System) (inp : ℕ → SystemInput) (c : ℕ) : System :=
  Clocked.run (step imem) s inp c

/-- The register write of the current cycle. -/
def regWrite (s : System) : List (BitVec 5 × Word) := s.cpu.regWrite s.dataIn DontCare.zero

end System

end Rv32iPipeline
