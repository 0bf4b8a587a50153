import Rv32iPipeline.Clocked.While
import Rv32iPipeline.Rtl.System

/-!
# `Rv32iPipeline.Rtl.TestBench`: `riscv_test_CPU_TOP_tb.sv`, and a part of `MCU_WRAPPER_tb.sv`

`riscv_test_CPU_TOP_tb` resets the core, clocks it until the program stores to `tohost`, the core
halts or the watchdog runs out, and prints a verdict. One iteration of its loop is a rising edge of
`CLK`, and the checks are behind that edge. Both checks are made in every iteration, so a store to
`tohost` and `halt_sig` may be seen in the same one.

`MCU_WRAPPER_tb` does not look at `halt_sig`. It takes the program for done when `PC` repeats for
`PARK_HOLD` core cycles. Of that test bench only this test is modelled, `ParkDetector`.
-/

set_option autoImplicit false

namespace Rv32iPipeline

/-- The device under test and the variables of the test bench. -/
structure TestBench where
  dut : System
  cycleI : ℕ
  tohostSeen : Bool
  haltSeen : Bool
  timedOut : Bool
  tohostData : Word

/-- What the test bench prints at its end, with the values in the message. -/
inductive Verdict where
  | pass
  | failCase (case : BitVec 31) (tohost : Word)
  | failHalt
  | failNoStore (cycles : ℕ) (pc : Word) (haltSig : Bool)
  deriving DecidableEq

namespace TestBench

/-- `RESET_CYCLES`. -/
def resetCycles : ℕ := 8

/-- `WATCHDOG`. -/
def watchdog : ℕ := 200000

/-- `TOHOST_ADDR`. -/
def tohostAddr : Word := 0x00003F80#32

/-- The pins: switches and buttons are tied to 0. -/
def pins (rst : Bool) : SystemInput := ⟨rst, 0#32, 0#32⟩

/-- The test bench after `RST` is released. -/
def release (imem : InstructionMemory) (s : System) : TestBench where
  dut := s.run imem (fun _ => pins true) resetCycles
  cycleI := 0
  tohostSeen := false
  haltSeen := false
  timedOut := false
  tohostData := 0#32

/-- The condition of the loop. -/
def running (t : TestBench) : Bool := !t.tohostSeen && !t.haltSeen && !t.timedOut

/-- The pins show a store to `tohost`. -/
def storesTohost (s : System) : Bool := s.cpu.bus.iobusWe && s.cpu.bus.dataAddress == tohostAddr

/-- One iteration of the loop. -/
def iteration (imem : InstructionMemory) (t : TestBench) : TestBench :=
  let s := t.dut.step imem (pins false)
  { dut := s
    cycleI := t.cycleI + 1
    haltSeen := s.cpu.haltSig || t.haltSeen
    tohostSeen := storesTohost s || t.tohostSeen
    tohostData := if storesTohost s then s.cpu.bus.dataOut else t.tohostData
    timedOut := if watchdog ≤ t.cycleI + 1 then true else t.timedOut }

/-- The loop. The watchdog bounds its iterations. -/
def loop (imem : InstructionMemory) (t : TestBench) : TestBench :=
  Clocked.whileLoop running (iteration imem) watchdog t

/-- The verdict behind the loop. -/
def verdict (t : TestBench) : Verdict :=
  if t.tohostSeen && t.tohostData == 0x1#32 then .pass
  else if t.tohostSeen && t.tohostData.getLsbD 0 then
    .failCase (t.tohostData.extractLsb' 1 31) t.tohostData
  else if t.haltSeen then .failHalt
  else .failNoStore t.cycleI (t.dut.cpu.pc false) t.dut.cpu.haltSig

end TestBench

/-- The verdict of `riscv_test_CPU_TOP_tb` on an image, from power-up state `s`. -/
def riscvTest (imem : InstructionMemory) (s : System) : Verdict :=
  (TestBench.loop imem (TestBench.release imem s)).verdict

/-! ### `MCU_WRAPPER_tb` -/

/-- `last_pc`, which is undefined before the first sample, and `park_count`. -/
structure ParkDetector where
  lastPc : Option Word
  parkCount : ℕ

namespace ParkDetector

/-- `PARK_HOLD`. -/
def parkHold : ℕ := 16

/-- One iteration of the loop: a rising edge of `clk_50`, with `PC` behind it. -/
def sample (p : ParkDetector) (pc : Word) : ParkDetector where
  lastPc := some pc
  parkCount := if p.lastPc = some pc then p.parkCount + 1 else 0

/-- The first `n` iterations. -/
def run (p : ParkDetector) (pc : ℕ → Word) (n : ℕ) : ParkDetector := Clocked.run sample p pc n

end ParkDetector

end Rv32iPipeline
