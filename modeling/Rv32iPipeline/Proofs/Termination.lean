import Rv32iPipeline.Proofs.Board
import Rv32iPipeline.Proofs.Halt

/-!
# `Rv32iPipeline.Proofs.Termination`: a program that ends in a trap

When the RV32I machine gets to a word that traps, its run ends. The core raises `halt_sig` three
cycles after it has that word in EX, and in that cycle its registers and the devices are those of
the machine.

* `system_halts`: on the one-clock system.
* `board_halts`: on the board wrapper, with its LEDs and its display register.
-/

set_option autoImplicit false

namespace Rv32iPipeline

open CpuTop Clocked LittleEndian McuWrapper
open Rv32i (Machine)

section
variable {imem : InstructionMemory} {st : ℕ → System} {din : ℕ → Word} {inp : ℕ → SystemInput}
  (H : Driven imem st din inp) {n : ℕ}
include H

/-- The three cycles behind the first trap. In the last one the word three words behind the trap is
in EX, with the registers of the path. -/
theorem Driven.draining (hn : FirstTrap imem (st 0).cpu.registers din n) :
    let a := (executed imem st din n).state
    let e := (executed imem st din n).due
    Draining imem (st (e + 1)).cpu (a.pc + 12#32) a.registers .flushed ∧
      Draining imem (st (e + 2)).cpu (a.pc + 12#32) a.registers .frozen ∧
      Draining imem (st (e + 3)).cpu (a.pc + 12#32) a.registers .shadow ∧
      (st (e + 3)).cpu.Wf := by
  intro a e
  have hdue := H.due hn.1.decoded
  -- with an instruction in EX, `PC_USED` is two words behind it
  have hpc : (st e).cpu.pcUsed + 4#32 = a.pc + 12#32 := by
    rw [hdue.execute.1.front.2.1, BitVec.add_assoc, BitVec.add_assoc]
    rfl
  have h1 := hdue.trap_flushed hn.2
  have h2 := h1.flushed_frozen (din (e + 1))
  have h3 := h2.frozen_shadow (din (e + 2))
  have hwf := ((hdue.wf.step imem false (din e)).step imem false (din (e + 1))).step imem false
    (din (e + 2))
  rw [hpc] at h1 h2 h3
  refine ⟨?_, ?_, ?_, ?_⟩
  · rw [H.cpu]
    exact h1
  · rw [H.cpu, H.cpu]
    exact h2
  · rw [H.cpu, H.cpu, H.cpu]
    exact h3
  · rw [H.cpu, H.cpu, H.cpu]
    exact hwf

/-- When the core halts, and with what: the registers of the path, and its bus writes. -/
theorem Driven.halts (hn : FirstTrap imem (st 0).cpu.registers din n) :
    (∀ k, (st k).cpu.haltSig = true ↔ (executed imem st din n).due + 3 ≤ k) ∧
      (st ((executed imem st din n).due + 3)).cpu.registers
        = (executed imem st din n).state.registers ∧
      trace (fun k => (st k).cpu.bus.write) ((executed imem st din n).due + 3)
        = trace (fun k => (executed imem st din k).state.busWrite imem) n := by
  refine ⟨fun k => ?_, ?_, ?_⟩
  · rw [H.runFrom_eq, haltSig_iff]
    constructor
    · rintro ⟨m, hm, hle⟩
      -- the path has one first trap
      rcases Nat.lt_trichotomy m n with hlt | rfl | hgt
      · exact absurd (hm.2.symm.trans (hn.1 m hlt)) (by decide)
      · exact hle
      · exact absurd (hn.2.symm.trans (hm.1 n hgt)) (by decide)
    · exact fun hle => ⟨n, hn, hle⟩
  · rw [H.runFrom_eq]
    exact hn.halted_registers
  · exact (trace_congr fun k _ => by rw [H.runFrom_eq]).trans hn.halted_busWrites

/-- A shielded run of the machine to a trap is the path to its first trap. -/
theorem Driven.firstTrap (twice : Bool) {d : Devices}
    (hd : d.dmem = wordBytes (st 0).dmem.memory)
    (hdin : ∀ c, din c = if twice then (st c).lateDataIn else (st c).dataIn)
    {h : Machine Devices} (hrun : deviceRun imem st din inp d n = some h)
    (hsh : ∀ k < n, ∀ hk, deviceRun imem st din inp d k = some hk →
      shieldedAt imem twice hk.hart = true)
    (htrap : isTrap (imem.at h.hart.pc) = true) :
    h = ⟨(executed imem st din n).state.hart, devicesAt imem (executed imem st din) d n⟩ ∧
      FirstTrap imem (st 0).cpu.registers din n := by
  obtain ⟨rfl, hok⟩ := H.machine twice hd hdin hrun hsh
  exact ⟨rfl, fun m hm => (Arch.decoded_trap imem _).symm.trans (hok m hm), htrap⟩

end

/-- **A trap stops the one-clock system, with the state of the machine.** The system is out of
reset. When the RV32I machine on the devices gets to instruction `n`, every load from `DMEM` on the
way was shielded, and the next word traps, then `halt_sig` rises in a cycle `c` between `n + 5` and
`3 * n + 5` and stays high. In cycle `c` the registers and `DMEM` are the machine's. -/
theorem system_halts (imem : InstructionMemory) {s : System}
    (hstart : s.cpu = outOfReset imem s.cpu.registers) {inp : ℕ → SystemInput}
    (hrst : ∀ c, (inp c).rst = false) {n : ℕ} {h : Machine Devices}
    (hrun : s.deviceRun imem inp n = some h)
    (hshield : ∀ k < n, ∀ hk, s.deviceRun imem inp k = some hk →
      shieldedAt imem false hk.hart = true)
    (htrap : isTrap (imem.at h.hart.pc) = true) :
    ∃ c, n + 5 ≤ c ∧ c ≤ 3 * n + 5 ∧ (∀ k, (s.run imem inp k).cpu.haltSig = true ↔ c ≤ k) ∧
      (s.run imem inp c).cpu.registers.file = h.hart.regs ∧
      wordBytes (s.run imem inp c).dmem.memory = h.mem.dmem := by
  have H := System.driven hstart hrst
  obtain ⟨rfl, hn⟩ := H.firstTrap false (d := s.devices) rfl (fun _ => rfl) hrun hshield htrap
  obtain ⟨hhalt, hregs, hbus⟩ := H.halts hn
  obtain ⟨hlow, hhigh⟩ := executed_due imem (s.run imem inp) (fun c => (s.run imem inp c).dataIn) n
  refine ⟨_, by omega, by omega, hhalt, congrArg Registers.file hregs, ?_⟩
  rw [H.bytes, hbus, devicesAt, Devices.foldl_write_dmem]
  rfl

/-- `addi x1, x0, 5` and then `ecall`: the core halts by cycle 8 with 5 in `x1`. -/
theorem system_halts_ecall :
    let imem : InstructionMemory := fun a => if a = 0#13 then 0x00500093#32 else 0x00000073#32
    let s : System := ⟨outOfReset imem fun _ => 0#32, ⟨.none, 0#32⟩, ⟨fun _ => 0#32, 0#32⟩⟩
    let inp : ℕ → SystemInput := fun _ => ⟨false, 0#32, 0#32⟩
    ∃ c ≤ 8, (s.run imem inp c).cpu.haltSig = true ∧
      (s.run imem inp c).cpu.registers.file.read 1#5 = 5#32 := by
  intro imem s inp
  have hrun :=
    (Option.some_get (show (s.deviceRun imem inp 1).isSome = true by decide +kernel)).symm
  have hshield : ∀ k < 1, ∀ hk, s.deviceRun imem inp k = some hk →
      shieldedAt imem false hk.hart = true := by
    intro k hk h hrunk
    obtain rfl : k = 0 := by omega
    obtain rfl := Option.some.inj hrunk
    decide +kernel
  obtain ⟨c, -, hc, hhalt, hregs, -⟩ :=
    system_halts imem (s := s) rfl (fun _ => rfl) hrun hshield (by decide +kernel)
  refine ⟨c, hc, (hhalt c).mpr (Nat.le_refl c), ?_⟩
  rw [hregs]
  decide +kernel

section
variable (imem : InstructionMemory) {w : McuWrapper}
  (hstart : w.system.cpu = outOfReset imem w.system.cpu.registers) (hclk : w.clk50 = true)
  {inp : ℕ → BoardInput} (hb : ∀ j, (inp j).btnc = false)
include hstart hclk hb

/-- **A trap stops the board, with the state of the machine.** The wrapper is out of reset, at a
rising edge of `clk_50`, and `BTNC` stays low. When the RV32I machine on the devices gets to
instruction `n`, every load from `DMEM` on the way was shielded against both edges of `CLK`, and the
next word traps, then `halt_sig` rises in a core cycle `c` between `n + 5` and `3 * n + 5` and stays
high. In that cycle the registers, `DMEM`, the LEDs and the display register are the machine's. -/
theorem board_halts {n : ℕ} {h : Machine Devices} (hrun : w.deviceRun imem inp n = some h)
    (hshield : ∀ k < n, ∀ hk, w.deviceRun imem inp k = some hk →
      shieldedAt imem true hk.hart = true)
    (htrap : isTrap (imem.at h.hart.pc) = true) :
    ∃ c, n + 5 ≤ c ∧ c ≤ 3 * n + 5 ∧
      (∀ k, (w.observed imem inp k).cpu.haltSig = true ↔ c ≤ k) ∧
      (w.observed imem inp c).cpu.registers.file = h.hart.regs ∧
      (w.run imem inp (2 * c)).devices = h.mem := by
  have hr : CpuTop.Reachable imem w.system.cpu :=
    hstart ▸ CpuTop.reachable_outOfReset imem w.system.cpu.registers
  have H := McuWrapper.driven imem hstart hclk hb
  obtain ⟨rfl, hn⟩ := H.firstTrap true (d := w.devices) rfl (fun _ => rfl) hrun hshield htrap
  obtain ⟨hhalt, hregs, hbus⟩ := H.halts hn
  obtain ⟨hlow, hhigh⟩ := executed_due imem (w.observed imem inp)
    (fun c => (w.observed imem inp c).lateDataIn) n
  refine ⟨_, by omega, by omega, hhalt, congrArg Registers.file hregs, ?_⟩
  rw [devices_run hr hclk hb, hbus]
  rfl

end

/-- `sw x2, 0x20(x3)` with `x3 = 0x11000000`, and then `ebreak`: the board halts by core cycle 8,
and the LEDs show `x2`. -/
theorem board_halts_ebreak :
    let imem : InstructionMemory := fun a => if a = 0#13 then 0x0221A023#32 else 0x00100073#32
    let regs : Registers := fun r => if r = 3#5 then 0x11000000#32 else 0x00003F60#32
    let w : McuWrapper := ⟨⟨outOfReset imem regs, ⟨.none, 0#32⟩, ⟨fun _ => 0#32, 0#32⟩⟩,
      true, false, 0#16, 0#16⟩
    let inp : ℕ → BoardInput := fun _ => ⟨false, 0#4, 0#16⟩
    ∃ c ≤ 8, (w.observed imem inp c).cpu.haltSig = true ∧
      (w.run imem inp (2 * c)).leds = 0x3F60#16 := by
  intro imem regs w inp
  have hrun :=
    (Option.some_get (show (w.deviceRun imem inp 1).isSome = true by decide +kernel)).symm
  have hshield : ∀ k < 1, ∀ hk, w.deviceRun imem inp k = some hk →
      shieldedAt imem true hk.hart = true := by
    intro k hk h hrunk
    obtain rfl : k = 0 := by omega
    obtain rfl := Option.some.inj hrunk
    decide +kernel
  obtain ⟨c, -, hc, hhalt, -, hdev⟩ :=
    board_halts imem (w := w) rfl rfl (fun _ => rfl) hrun hshield (by decide +kernel)
  refine ⟨c, hc, (hhalt c).mpr (Nat.le_refl c), (congrArg Devices.leds hdev).trans ?_⟩
  decide +kernel

end Rv32iPipeline
