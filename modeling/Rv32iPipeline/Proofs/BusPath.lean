import Rv32iPipeline.Proofs.Devices
import Rv32iPipeline.Proofs.Isa
import Rv32iPipeline.Proofs.TwoClock

/-!
# `Rv32iPipeline.Proofs.BusPath`: the data bus along the executed path

The one-clock system and the core cycles of the board wrapper differ only in what the core samples
on `DATA_IN`. `Driven` is what they share: the core steps with some `DATA_IN` stream, and
`Interconnect` and `DMEM` step with the bus pins. The executed path takes its loads from that
stream.

* `Driven.devices`: in the cycle that completes an instruction, `DMEM` and the devices hold what
  the earlier instructions of the path have stored.
* `Driven.answer`, `Driven.word`: one cycle after a load, the region and the word that its request
  has registered.
* `execution_machine`: when every load gets the answer of a memory, the path is the run of the
  RV32I machine with that memory.
-/

set_option autoImplicit false

namespace Rv32iPipeline

open CpuTop Clocked LittleEndian
open Rv32i (Instr Op Effect Hart Memory Machine)

/-- A run of the core with its data bus, from reset. `din` is `DATA_IN` as the core samples it. -/
structure Driven (imem : InstructionMemory) (st : ℕ → System) (din : ℕ → Word)
    (inp : ℕ → SystemInput) : Prop where
  start : (st 0).cpu = outOfReset imem (st 0).cpu.registers
  cpu : ∀ c, (st (c + 1)).cpu = (st c).cpu.step imem (CpuInput.run (din c))
  interconnect : ∀ c, (st (c + 1)).interconnect
    = (st c).nextInterconnect (inp c).switches (inp c).buttons
  dmem : ∀ c, (st (c + 1)).dmem = (st c).nextDmem

/-- The one-clock system. -/
theorem System.driven {imem : InstructionMemory} {s : System}
    (hstart : s.cpu = outOfReset imem s.cpu.registers) {inp : ℕ → SystemInput}
    (hrst : ∀ c, (inp c).rst = false) :
    Driven imem (s.run imem inp) (fun c => (s.run imem inp c).dataIn) inp where
  start := hstart
  cpu c := by
    show (s.run imem inp c).cpu.step imem ⟨(inp c).rst, _, DontCare.zero⟩ = _
    rw [hrst]
    rfl
  interconnect _ := rfl
  dmem _ := rfl

/-- The core cycles of the wrapper. -/
theorem System.driven_late {imem : InstructionMemory} {s : System}
    (hstart : s.cpu = outOfReset imem s.cpu.registers) {inp : ℕ → SystemInput}
    (hrst : ∀ c, (inp c).rst = false) :
    Driven imem (Clocked.run (System.lateStep imem) s inp)
      (fun c => (Clocked.run (System.lateStep imem) s inp c).lateDataIn) inp where
  start := hstart
  cpu c := by
    show (Clocked.run (System.lateStep imem) s inp c).cpu.step imem ⟨(inp c).rst, _, _⟩ = _
    rw [hrst]
    rfl
  interconnect _ := rfl
  dmem _ := rfl

/-- The executed path of such a run. -/
def executed (imem : InstructionMemory) (st : ℕ → System) (din : ℕ → Word) (n : ℕ) : Timed Arch :=
  execution imem (st 0).cpu.registers din n

/-- An instruction takes one to three cycles. -/
theorem executed_due (imem : InstructionMemory) (st : ℕ → System) (din : ℕ → Word) (n : ℕ) :
    n + 2 ≤ (executed imem st din n).due ∧ (executed imem st din n).due ≤ 3 * n + 2 := by
  have hlow : 2 + n ≤ (executed imem st din n).due :=
    Timed.add_le_due (Arch.step imem) (Arch.delay imem) din ⟨⟨0#32, _⟩, 2⟩ n
  have hhigh : (executed imem st din n).due ≤ 2 + n * 3 :=
    Timed.due_le (Arch.step imem) (Arch.delay_le imem) din ⟨⟨0#32, _⟩, 2⟩ n
  exact ⟨by omega, by omega⟩

/-- The devices before instruction `n` of a path: the earlier stores, in order. -/
def devicesAt (imem : InstructionMemory) (path : ℕ → Timed Arch) (d : Devices) (n : ℕ) : Devices :=
  (trace (fun k => (path k).state.busWrite imem) n).foldl Devices.write d

/-- The bus pins of the cycle that completes an instruction carry its ALU result, where that is
used. -/
theorem Due.dataAddress_commit {imem : InstructionMemory} {s : CpuTop} {d : Word} {a : Arch}
    (h : Due imem s d a 0) (hused : (a.decoded imem).rfSel = wbAlu ∨ (a.decoded imem).memWe = true ∨
      (a.decoded imem).memRden = true) : s.bus.dataAddress = a.aluResult imem := by
  obtain ⟨hsim, hs⟩ := h.execute
  obtain ⟨v1, v2, hv⟩ := hsim.inEx rfl
  have hused' : s.idExQ.rfSel = wbAlu ∨ s.idExQ.memWe = true ∨ s.idExQ.memRden = true := by
    rw [hv]
    exact hused
  show s.idExQ.aluResult s.realRs1 s.realRs2 = _
  rw [hsim.coherent.aluResult_congr (hsim.realRs1_eq hs) (hsim.realRs2_eq hs) hused', hv]
  rfl

section
variable {imem : InstructionMemory} {st : ℕ → System} {din : ℕ → Word} {inp : ℕ → SystemInput}
  (H : Driven imem st din inp)
include H

/-- The core is a run of the bare core under its `DATA_IN`. -/
theorem Driven.runFrom_eq (c : ℕ) :
    (st c).cpu = runFrom imem (outOfReset imem (st 0).cpu.registers) din c := by
  induction c with
  | zero => exact H.start
  | succ c ih =>
      rw [H.cpu, ih]
      rfl

/-- The bytes of `DMEM` after `c` cycles. -/
theorem Driven.bytes (c : ℕ) : wordBytes (st c).dmem.memory
    = (trace (fun k => (st k).cpu.bus.write) c).foldl storeWrite
        (wordBytes (st 0).dmem.memory) := by
  induction c with
  | zero => rfl
  | succ c ih =>
      rw [trace_succ, List.foldl_append, ← ih, H.dmem]
      exact System.bytes_step _

variable {n : ℕ} (hok : ∀ m < n, ((executed imem st din m).state.decoded
  imem).trap = false)
include hok

/-- In cycle `due n` the core completes instruction `n`. -/
theorem Driven.due : Due imem (st (executed imem st din n).due).cpu
    (din (executed imem st din n).due)
    (executed imem st din n).state 0 := by
  rw [H.runFrom_eq]
  exact due_execution imem _ din hok

/-- The bus writes before a cycle are those of the instructions completed before it. -/
theorem Driven.busWrites_of_le {c : ℕ} (hc : c ≤ (executed imem st din n).due) :
    ∃ m ≤ n, c ≤ (executed imem st din m).due ∧ (∀ k < m, (executed imem st din k).due < c) ∧
      trace (fun k => (st k).cpu.bus.write) c
        = trace (fun k => (executed imem st din k).state.busWrite imem) m := by
  have hR := core_refines imem
  have h0 := due_outOfReset imem (st 0).cpu.registers (din 0)
  obtain ⟨m, hmn, hm⟩ := hR.onTime_of_le din ⟨⟨0#32, (st 0).cpu.registers⟩, 2⟩ h0 hok hc
  have htrace := hR.trace_eq din ⟨⟨0#32, (st 0).cpu.registers⟩, 2⟩ h0
    (fun k => (runFrom imem (outOfReset imem (st 0).cpu.registers) din k).bus.write)
    (fun k => (executed imem st din k).state.busWrite imem)
    (fun _ _ _ hr => hr.busWrite_waiting) (fun _ _ hr _ => hr.busWrite_commit) c m hm
  exact ⟨m, hmn, hm.le, fun k hk => (hm.before k hk).1,
    (trace_congr fun k _ => by rw [H.runFrom_eq]).trans htrace⟩

/-- The bus writes before the cycle that completes an instruction are those of the earlier
instructions. -/
theorem Driven.busWrites :
    trace (fun k => (st k).cpu.bus.write) (executed imem st din n).due
      = trace (fun k => (executed imem st din k).state.busWrite imem) n := by
  obtain ⟨m, hmn, hle, -, htrace⟩ := H.busWrites_of_le hok (Nat.le_refl _)
  rcases Nat.lt_or_eq_of_le hmn with hlt | rfl
  -- an earlier instruction is due earlier
  · exact absurd hle (Nat.not_le_of_lt (Timed.due_strictMono _ _ _ _ hlt))
  · exact htrace

/-- In that cycle `DMEM` holds what the earlier instructions have stored. -/
theorem Driven.devices {d : Devices} (hd : d.dmem = wordBytes (st 0).dmem.memory) :
    (devicesAt imem (executed imem st din) d n).dmem
      = wordBytes (st (executed imem st din n).due).dmem.memory := by
  rw [H.bytes, H.busWrites hok, devicesAt, Devices.foldl_write_dmem, hd]

/-- The next cycle, when the load there meets no user: the next instruction completes EX. -/
theorem Driven.due_next
    (htrap : ((executed imem st din n).state.decoded imem).trap = false)
    (hdelay : (executed imem st din n).state.delay imem
      (executed imem st din (n + 1)).state = 0) :
    Due imem (st ((executed imem st din n).due + 1)).cpu
      (din ((executed imem st din n).due + 1))
      (executed imem st din (n + 1)).state 0 := by
  have hcommit := (core_refines imem).commit (H.due hok) htrap
    (din ((executed imem st din n).due + 1))
  rw [← H.cpu] at hcommit
  rw [← hdelay]
  exact hcommit

variable (hload : ((executed imem st din n).state.decoded imem).memRden = true)
include hload

/-- One cycle after a load, `IOBUS_in` is the answer of the region that the load has addressed. -/
theorem Driven.answer (dmemData : Word) :
    (st ((executed imem st din n).due + 1)).interconnect.iobusIn dmemData
      = if 0x11000000#32 ≤ (executed imem st din n).state.aluResult imem then
          mmioValue ((executed imem st din n).state.aluResult imem)
            (inp (executed imem st din n).due).switches
            (inp (executed imem st din n).due).buttons
        else if 0x00003f60#32 ≤ (executed imem st din n).state.aluResult imem
          then dmemData else 0#32 := by
  obtain ⟨-, hrden, -, haddr, -⟩ := (H.due hok).bus_commit
  rw [H.interconnect, System.nextInterconnect, hrden, hload, haddr (Or.inr hload)]
  exact Interconnect.iobusIn_read _ _ _ _ _

/-- One cycle after a load of `DMEM`, the word of the load is registered, and the array is as the
load has found it. -/
theorem Driven.word
    (hdmem : isDmem ((executed imem st din n).state.aluResult imem) = true) :
    (st ((executed imem st din n).due + 1)).dmem
      = ⟨(st (executed imem st din n).due).dmem.memory,
          (st (executed imem st din n).due).dmem.memory
            (wordAddress ((executed imem st din n).state.aluResult imem))⟩ := by
  obtain ⟨hwe, hrden, -, haddr, -⟩ := (H.due hok).bus_commit
  -- a load does not store
  have hnostore := ((Arch.decoded_coherent imem _).load hload).2.2.1
  rw [H.dmem]
  simp only [System.nextDmem, Dmem.step, System.enables, (enables_dmem _ _ _).1,
    (enables_dmem _ _ _).2, hwe, hrden, hnostore, hload, haddr (Or.inr hload), hdmem,
    Bool.false_and, Bool.and_self, Bool.false_eq_true, if_false, if_true]

end

/-! ### The path as a run of the RV32I machine -/

/-- The devices before the next instruction. -/
theorem devicesAt_succ (imem : InstructionMemory) (path : ℕ → Timed Arch) (d : Devices) (n : ℕ) :
    devicesAt imem path d (n + 1)
      = ((path n).state.busWrite imem).foldl Devices.write (devicesAt imem path d n) := by
  rw [devicesAt, trace_succ, List.foldl_append]
  rfl

/-- An instruction that performs its access on the devices. -/
theorem Arch.perform_devices {imem : InstructionMemory} {a : Arch} {o : Op}
    (h : Executes (imem.at a.pc) o) (switches buttons : Word) (d : Devices) :
    (Devices.memory switches buttons).perform d (a.hart.effect o).access
      = (a.busWrite imem).foldl Devices.write d := by
  rw [Arch.perform_eq h, Arch.busWrite]
  cases (a.decoded imem).memWe with
  | false => rfl
  | true => rfl

/-- When every load to a register other than `x0` gets the answer of the devices, the states of the
path are those of the RV32I machine with these devices, and no instruction of it is a trap. -/
theorem execution_machine {imem : InstructionMemory} {regs : Registers} {din : ℕ → Word}
    {d : Devices} {sw bt : ℕ → Word} {n : ℕ} {h : Machine Devices}
    (hrun : (⟨⟨0#32, regs.file⟩, d⟩ : Machine Devices).run imem.at
      (fun k => Devices.memory (sw k) (bt k)) n = some h)
    (hload : ∀ k < n, ∀ o, Op.decode (imem.at (execution imem regs din k).state.pc) = some o →
      (∀ m < k, ((execution imem regs din m).state.decoded imem).trap = false) →
      ((⟨⟨0#32, regs.file⟩, d⟩ : Machine Devices).run imem.at
        (fun k => Devices.memory (sw k) (bt k)) k
          = some ⟨(execution imem regs din k).state.hart,
              devicesAt imem (execution imem regs din) d k⟩) →
      ((execution imem regs din k).state.decoded imem).memRden = true →
      ((execution imem regs din k).state.decoded imem).regWriteAddr ≠ 0#5 →
      din ((execution imem regs din k).due + 1)
        = (devicesAt imem (execution imem regs din) d k).load (sw k) (bt k)
            ((execution imem regs din k).state.aluResult imem)
            (accessBytes (memSizeOf ((execution imem regs din k).state.decoded imem).memData))
            (memSignOf ((execution imem regs din k).state.decoded imem).memData)) :
    h = ⟨(execution imem regs din n).state.hart, devicesAt imem (execution imem regs din) d n⟩ ∧
      ∀ m < n, ((execution imem regs din m).state.decoded imem).trap = false := by
  induction n generalizing h with
  | zero => exact ⟨(Option.some.inj hrun).symm, fun m hm => absurd hm (Nat.not_lt_zero m)⟩
  | succ n ih =>
      obtain ⟨hprev, e, hrunp, he, rfl⟩ := Machine.run_succ_eq_some.mp hrun
      obtain ⟨rfl, hok⟩ := ih hrunp fun k hk => hload k (Nat.lt_succ_of_lt hk)
      obtain ⟨o, ho, rfl⟩ := Arch.effect_eq_some he
      have hex := executes_of_decode ho
      have happly := (Arch.machine_apply hex (Devices.memory (sw n) (bt n))
        (devicesAt imem (execution imem regs din) d n)
        (hload n (Nat.lt_succ_self n) o ho hok hrunp)).1
      refine ⟨?_, fun m hm => ?_⟩
      · rw [← happly, Arch.perform_devices hex, ← devicesAt_succ]
        rfl
      · rcases Nat.lt_succ_iff_lt_or_eq.mp hm with hlt | rfl
        · exact hok m hlt
        · exact (Arch.decoded_trap imem _).trans hex.trap

end Rv32iPipeline
