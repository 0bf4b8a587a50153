import Rv32iPipeline.Proofs.DataMemory
import Rv32iPipeline.Proofs.Halt
import Rv32iPipeline.Rtl.System

/-!
# `Rv32iPipeline.Proofs.SystemRun`: runs of the core with its data bus

The system feeds its core one particular `DATA_IN` stream, so every result about the core
under any stream applies to it (`System.run_cpu`, `System.Reachable.cpu`).

`System.bytes_run`: the `DMEM` array, as bytes, holds what the bus writes so far have stored.
-/

set_option autoImplicit false

namespace Rv32iPipeline

open CpuTop Clocked LittleEndian

/-- A state the system can reach: some edge with `RST` high, and then any inputs. -/
inductive System.Reachable (imem : InstructionMemory) : System → Prop where
  | reset (s : System) (switches buttons : Word) :
      Reachable imem (s.step imem ⟨true, switches, buttons⟩)
  | step {s : System} (h : Reachable imem s) (i : SystemInput) : Reachable imem (s.step imem i)

/-- The core of a reachable system is in a reachable state. -/
theorem System.Reachable.cpu {imem : InstructionMemory} {s : System}
    (h : System.Reachable imem s) : CpuTop.Reachable imem s.cpu := by
  induction h with
  | reset s _ _ => exact .reset s.cpu s.dataIn
  | step _ i ih => exact ih.step i.rst _

/-- A run that begins with an edge with `RST` high reaches only reachable states. -/
theorem System.reachable_run (imem : InstructionMemory) (s : System) {inp : ℕ → SystemInput}
    (h : (inp 0).rst = true) (n : ℕ) : System.Reachable imem (s.run imem inp (n + 1)) := by
  induction n with
  | zero =>
      show System.Reachable imem (s.step imem (inp 0))
      rw [show inp 0 = ⟨true, (inp 0).switches, (inp 0).buttons⟩ from by rw [← h]]
      exact .reset s _ _
  | succ n ih => exact ih.step (inp (n + 1))

/-- With `RST` low the core of the system is a run of the core under its `DATA_IN`. -/
theorem System.run_cpu (imem : InstructionMemory) (s : System) {inp : ℕ → SystemInput}
    (h : ∀ n, (inp n).rst = false) (n : ℕ) :
    (s.run imem inp n).cpu = runFrom imem s.cpu (fun j => (s.run imem inp j).dataIn) n := by
  induction n with
  | zero => rfl
  | succ n ih =>
      show (s.run imem inp n).cpu.step imem ⟨(inp n).rst, _, DontCare.zero⟩ = _
      rw [h n, ih]
      rfl

/-! ### The contents of `DMEM` -/

/-- The addresses that `Interconnect` sends to `DMEM`. -/
def isDmem (address : Word) : Bool := 0x00003f60#32 ≤ address && !(0x11000000#32 ≤ address : Bool)

/-- The `DMEM` enables are the requests at these addresses. -/
theorem enables_dmem (address : Word) (we rden : Bool) :
    (Interconnect.enables address we rden).dmemWe = (we && isDmem address) ∧
      (Interconnect.enables address we rden).dmemRden = (rden && isDmem address) := by
  rw [Interconnect.enables, isDmem]
  by_cases hio : 0x11000000#32 ≤ address
  -- an MMIO address enables no `DMEM` port
  · rw [if_pos hio, decide_eq_true hio, Bool.not_true, Bool.and_false, Bool.and_false,
      Bool.and_false]
    split
    · exact ⟨rfl, rfl⟩
    · split <;> exact ⟨rfl, rfl⟩
  · by_cases hd : 0x00003f60#32 ≤ address <;> simp [hio, hd]

/-- The reference memory after one bus write. -/
def storeWrite (m : Bytes 13) (b : BusWrite) : Bytes 13 :=
  if isDmem b.1 then storeBytes m b.1 b.2.1 b.2.2 else m

/-- One edge applies the bus write of the cycle to the bytes of `DMEM`. -/
theorem System.bytes_step (s : System) :
    wordBytes s.nextDmem.memory = s.cpu.bus.write.foldl storeWrite (wordBytes s.dmem.memory) := by
  simp only [System.nextDmem, Dmem.step, System.enables, (enables_dmem _ _ _).1, Bus.write]
  cases hwe : s.cpu.bus.iobusWe with
  | false => rfl
  | true =>
      cases hreg : isDmem s.cpu.bus.dataAddress with
      | false => simp [storeWrite, hreg]
      | true => simp [storeWrite, hreg, wordBytes_write]

/-- The bytes of `DMEM` after `c` cycles: the bus writes of these cycles, in order. -/
theorem System.bytes_run (imem : InstructionMemory) (s : System) (inp : ℕ → SystemInput)
    (c : ℕ) : wordBytes (s.run imem inp c).dmem.memory
      = (trace (fun k => (s.run imem inp k).cpu.bus.write) c).foldl storeWrite
          (wordBytes s.dmem.memory) := by
  induction c with
  | zero => rfl
  | succ c ih =>
      -- the writes of the first cycles, and then that of the last one
      rw [trace_succ, List.foldl_append, ← ih]
      exact System.bytes_step _

end Rv32iPipeline
