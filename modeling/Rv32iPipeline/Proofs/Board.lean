import Rv32iPipeline.Proofs.Shields

/-!
# `Rv32iPipeline.Proofs.Board`: the board wrapper runs programs

A core cycle of the wrapper is two edges of `CLK`. `DMEM` sees its bus request on both, the LEDs
and the register of the display on the second one. `McuWrapper.devices` collects what a store can
change, and a core cycle applies its bus write to it once (`devices_cycle`).

* `board_stores`: in every core cycle the devices hold what the instructions completed so far have
  stored, in program order, each store once.
* `board_implements_rv32i`: on a run of the RV32I machine whose loads from `DMEM` are shielded
  against both edges, the wrapper goes through the states of that machine.
-/

set_option autoImplicit false

namespace Rv32iPipeline

open CpuTop Clocked LittleEndian McuWrapper
open Rv32i (Machine)

/-- The core out of reset is reachable. -/
theorem CpuTop.reachable_outOfReset (imem : InstructionMemory) (regs : Registers) :
    CpuTop.Reachable imem (outOfReset imem regs) := by
  have hclear : (outOfReset imem regs).Cleared := ⟨rfl, rfl, rfl, rfl⟩
  have hstep : (outOfReset imem regs).step imem (CpuInput.reset 0#32) = outOfReset imem regs :=
    hclear.step_reset_eq rfl 0#32
  exact hstep ▸ .reset (outOfReset imem regs) 0#32

/-! ### The devices of the wrapper -/

namespace McuWrapper

/-- What a store can change. -/
def devices (w : McuWrapper) : Devices := ⟨wordBytes w.system.dmem.memory, w.leds, w.rSseg⟩

/-- The write enables of the two output ports. -/
theorem enables_ports (address : Word) (we rden : Bool) :
    (Interconnect.enables address we rden).ledsWe = (we && address == 0x11000020#32) ∧
      (Interconnect.enables address we rden).ssegWe = (we && address == 0x11000040#32) :=
  ⟨(Interconnect.mappedWrite_enables address we rden).leds,
    (Interconnect.mappedWrite_enables address we rden).sseg⟩

/-- The ports of the devices after a store. -/
theorem store_ports (d : Devices) (address : Word) (bytes : ℕ) (data : Word) :
    (d.store address bytes data).leds
        = (if address = 0x11000020#32 then data.setWidth 16 else d.leds) ∧
      (d.store address bytes data).sseg
        = (if address = 0x11000040#32 then data.setWidth 16 else d.sseg) := by
  unfold Devices.store
  by_cases hio : 0x11000000#32 ≤ address
  · rw [if_pos hio]
    by_cases h20 : address = 0x11000020#32
    · subst h20
      exact ⟨rfl, rfl⟩
    · rw [if_neg h20, if_neg h20]
      by_cases h40 : address = 0x11000040#32
      · subst h40
        exact ⟨rfl, rfl⟩
      · rw [if_neg h40, if_neg h40]
        exact ⟨rfl, rfl⟩
  · -- the ports are at MMIO addresses
    have h20 : address ≠ 0x11000020#32 := by
      rintro rfl
      exact hio (by decide)
    have h40 : address ≠ 0x11000040#32 := by
      rintro rfl
      exact hio (by decide)
    rw [if_neg hio, if_neg h20, if_neg h40]
    split <;> exact ⟨rfl, rfl⟩

variable {imem : InstructionMemory} {w : McuWrapper}

/-- What the devices of `w` become when `DMEM` and the output ports take the bus request of `w`. -/
theorem devices_of_request {w' : McuWrapper} (hdmem : w'.system.dmem = w.system.nextDmem)
    (hleds : w'.leds
      = if w.system.enables.ledsWe then w.system.cpu.bus.dataOut.setWidth 16 else w.leds)
    (hsseg : w'.rSseg
      = if w.system.enables.ssegWe then w.system.cpu.bus.dataOut.setWidth 16 else w.rSseg) :
    w'.devices = w.system.cpu.bus.write.foldl Devices.write w.devices := by
  have hbytes : wordBytes w'.system.dmem.memory
      = w.system.cpu.bus.write.foldl storeWrite (wordBytes w.system.dmem.memory) := by
    rw [hdmem]
    exact System.bytes_step _
  rw [devices, hbytes, hleds, hsseg, System.enables, (enables_ports _ _ _).1,
    (enables_ports _ _ _).2]
  apply Devices.ext
  · exact (Devices.foldl_write_dmem w.devices _).symm
  · cases hwe : w.system.cpu.bus.iobusWe with
    | false => simp [Bus.write, hwe, devices]
    | true => simp [Bus.write, hwe, Devices.write, (store_ports _ _ _ _).1, devices]
  · cases hwe : w.system.cpu.bus.iobusWe with
    | false => simp [Bus.write, hwe, devices]
    | true => simp [Bus.write, hwe, Devices.write, (store_ports _ _ _ _).2, devices]

/-- A core cycle applies its bus write to the devices, once. -/
theorem devices_cycle (hwf : w.system.cpu.Wf) (hclk : w.clk50 = true) {i j : BoardInput}
    (hi : i.btnc = false) (hj : j.btnc = false) :
    ((w.step imem i).step imem j).devices
      = w.system.cpu.bus.write.foldl Devices.write w.devices := by
  have hports : ((w.step imem i).step imem j).leds
        = (if w.system.enables.ledsWe then w.system.cpu.bus.dataOut.setWidth 16 else w.leds) ∧
      ((w.step imem i).step imem j).rSseg
        = (if w.system.enables.ssegWe then w.system.cpu.bus.dataOut.setWidth 16 else w.rSseg) := by
    rw [step_falls hclk hi]
    simp only [step, rises, nextClk50, hj, Bool.not_false, Bool.false_eq_true, if_false,
      Bool.and_self, Bool.true_and]
    exact ⟨rfl, rfl⟩
  exact devices_of_request (congrArg System.dmem (step_twice hwf hclk hi hj).1) hports.1 hports.2

section
variable (hr : CpuTop.Reachable imem w.system.cpu) (hclk : w.clk50 = true) {inp : ℕ → BoardInput}
  (hb : ∀ j, (inp j).btnc = false)
include hr hclk hb

/-- At the rising edges of `clk_50` the core is reachable and `clk_50` is high. -/
theorem observed_reachable (n : ℕ) : CpuTop.Reachable imem (w.observed imem inp n).cpu ∧
    (w.run imem inp (2 * n)).clk50 = true := by
  induction n with
  | zero => exact ⟨hr, hclk⟩
  | succ n ih =>
      obtain ⟨hreach, hhigh⟩ := ih
      obtain ⟨hsys, hhigh'⟩ :=
        @step_twice imem _ hreach.wf hhigh _ _ (hb (2 * n)) (hb (2 * n + 1))
      have hcpu : (w.observed imem inp (n + 1)).cpu
          = (w.observed imem inp n).cpu.step imem ⟨false, _, DontCare.zero⟩ :=
        congrArg System.cpu hsys
      rw [hcpu]
      exact ⟨hreach.step false _, hhigh'⟩

/-- After `n` core cycles the devices hold what the bus has written. -/
theorem devices_run (n : ℕ) : (w.run imem inp (2 * n)).devices
    = (trace (fun k => (w.observed imem inp k).cpu.bus.write) n).foldl Devices.write
        w.devices := by
  induction n with
  | zero => rfl
  | succ n ih =>
      obtain ⟨hreach, hhigh⟩ := observed_reachable hr hclk hb n
      rw [trace_succ, List.foldl_append, ← ih]
      exact devices_cycle hreach.wf hhigh (hb (2 * n)) (hb (2 * n + 1))

end

end McuWrapper

/-! ### Whole runs -/

section
variable (imem : InstructionMemory) {w : McuWrapper}
  (hstart : w.system.cpu = outOfReset imem w.system.cpu.registers) (hclk : w.clk50 = true)
  {inp : ℕ → BoardInput} (hb : ∀ j, (inp j).btnc = false)

/-- The executed path of the wrapper: its loads take what the core samples. -/
def McuWrapper.path (imem : InstructionMemory) (w : McuWrapper) (inp : ℕ → BoardInput) (n : ℕ) :
    Timed Arch :=
  executed imem (w.observed imem inp) (fun c => (w.observed imem inp c).lateDataIn) n

/-- The run of the RV32I machine that starts as the wrapper does, with its switches and buttons. -/
def McuWrapper.deviceRun (imem : InstructionMemory) (w : McuWrapper) (inp : ℕ → BoardInput)
    (n : ℕ) : Option (Machine Devices) :=
  Rv32iPipeline.deviceRun imem (w.observed imem inp)
    (fun c => (w.observed imem inp c).lateDataIn) (coreInput inp) w.devices n

include hstart hclk hb

/-- The core cycles of the wrapper are a run of the core with its data bus. -/
theorem McuWrapper.driven : Driven imem (w.observed imem inp)
    (fun c => (w.observed imem inp c).lateDataIn) (coreInput inp) := by
  have hr : CpuTop.Reachable imem w.system.cpu :=
    hstart ▸ CpuTop.reachable_outOfReset imem w.system.cpu.registers
  rw [show w.observed imem inp = _ from funext (observed_eq hr hclk hb)]
  exact System.driven_late hstart fun _ => rfl

/-- In every core cycle the devices hold what the completed instructions have stored. -/
theorem McuWrapper.devices_of_le {n : ℕ}
    (hok : ∀ m < n, isTrap (imem.at (w.path imem inp m).state.pc) = false) {c : ℕ}
    (hc : c ≤ (w.path imem inp n).due) :
    ∃ m ≤ n, c ≤ (w.path imem inp m).due ∧ (∀ k < m, (w.path imem inp k).due < c) ∧
      (w.run imem inp (2 * c)).devices = devicesAt imem (w.path imem inp) w.devices m := by
  have hr : CpuTop.Reachable imem w.system.cpu :=
    hstart ▸ CpuTop.reachable_outOfReset imem w.system.cpu.registers
  have H := McuWrapper.driven imem hstart hclk hb
  obtain ⟨m, hmn, hle, hdone, hbus⟩ :=
    H.busWrites_of_le (fun m hm => (Arch.decoded_trap imem _).trans (hok m hm)) hc
  refine ⟨m, hmn, hle, hdone, ?_⟩
  rw [devices_run hr hclk hb, hbus]
  rfl

/-- **The board performs the stores of the program.** The wrapper is out of reset, at a rising edge
of `clk_50`, and `BTNC` stays low. In every core cycle before a first trap completes, the bytes of
`DMEM`, the LEDs and the register of the display hold exactly what the instructions completed so
far have stored, in program order, whatever they have loaded. -/
theorem board_stores {n : ℕ}
    (hok : ∀ m < n, isTrap (imem.at (w.path imem inp m).state.pc) = false) {c : ℕ}
    (hc : c ≤ (w.path imem inp n).due) (hdone : ∀ m < n, (w.path imem inp m).due < c) :
    (w.run imem inp (2 * c)).devices = devicesAt imem (w.path imem inp) w.devices n := by
  obtain ⟨m, hmn, hle, -, hdev⟩ := McuWrapper.devices_of_le imem hstart hclk hb hok hc
  -- the cycle belongs to instruction `n`, as the earlier ones are done
  rcases Nat.lt_or_eq_of_le hmn with hlt | rfl
  · exact absurd hle (Nat.not_le_of_lt (hdone m hlt))
  · exact hdev

omit hstart hclk hb in
/-- `sw x2, 0x20(x3)` everywhere, with `x3 = 0x11000000`: the LEDs show `x2` in core cycle 3. -/
theorem board_stores_leds :
    let imem : InstructionMemory := fun _ => 0x0221A023#32
    let regs : Registers := fun r => if r = 3#5 then 0x11000000#32 else 0x00003F60#32
    let w : McuWrapper := ⟨⟨outOfReset imem regs, ⟨.none, 0#32⟩, ⟨fun _ => 0#32, 0#32⟩⟩,
      true, false, 0#16, 0#16⟩
    let inp : ℕ → BoardInput := fun _ => ⟨false, 0#4, 0#16⟩
    (w.run imem inp (2 * 3)).leds = 0x3F60#16 := by
  intro imem regs w inp
  have hstores := @board_stores imem w rfl rfl inp (fun _ => rfl) 1 (by decide +kernel) 3
    (by decide +kernel) (by decide +kernel)
  refine (congrArg Devices.leds hstores).trans ?_
  decide +kernel

/-- **Shielded programs run correctly on the board.** The wrapper is out of reset, at a rising edge
of `clk_50`, and `BTNC` stays low. Whenever the RV32I machine on the devices gets to instruction
`n`, and every load from `DMEM` on the way was shielded against both edges of `CLK`, the core
completes instruction `n` in a core cycle `c` between `n + 2` and `3 * n + 2`, with the machine's
program counter. `DMEM`, the LEDs and the display register are the machine's, and behind the next
rising edge of `clk_50` so are the registers. -/
theorem board_implements_rv32i {n : ℕ} {h : Machine Devices}
    (hrun : w.deviceRun imem inp n = some h)
    (hshield : ∀ k < n, ∀ hk, w.deviceRun imem inp k = some hk →
      shieldedAt imem true hk.hart = true) :
    ∃ c, n + 2 ≤ c ∧ c ≤ 3 * n + 2 ∧ (w.observed imem inp c).cpu.completes = true ∧
      (w.observed imem inp c).cpu.idExQ.pc = h.hart.pc ∧
      (w.run imem inp (2 * c)).devices = h.mem ∧
      (w.observed imem inp (c + 1)).cpu.registers.file = h.hart.regs := by
  have hr : CpuTop.Reachable imem w.system.cpu :=
    hstart ▸ CpuTop.reachable_outOfReset imem w.system.cpu.registers
  have H := McuWrapper.driven imem hstart hclk hb
  obtain ⟨rfl, hok⟩ := H.machine true (d := w.devices) rfl (fun _ => rfl) hrun hshield
  obtain ⟨hlow, hhigh, hcompl, hpc, hregs⟩ := H.completes hok
  refine ⟨_, hlow, hhigh, hcompl, hpc, ?_, hregs⟩
  rw [devices_run hr hclk hb, H.busWrites hok]
  rfl

end

/-- `lw x1, 0(x2)`, its shield `slti x0, x0, 0`, and `sw x1, 0x20(x3)` with `x3 = 0x11000000`: the
LEDs show the low half of the word. -/
theorem board_implements_rv32i_leds :
    let imem : InstructionMemory := fun a =>
      if a = 0#13 then 0x00012083#32 else if a = 2#13 then 0x0211A023#32 else 0x00002013#32
    let regs : Registers := fun r => if r = 3#5 then 0x11000000#32 else 0x00003F60#32
    let w : McuWrapper := ⟨⟨outOfReset imem regs, ⟨.none, 0#32⟩, ⟨fun _ => 0x12345678#32, 0#32⟩⟩,
      true, false, 0#16, 0#16⟩
    let inp : ℕ → BoardInput := fun _ => ⟨false, 0#4, 0#16⟩
    ∃ c ≤ 11, (w.run imem inp (2 * c)).leds = 0x5678#16 := by
  intro imem regs w inp
  have hrun :=
    (Option.some_get (show (w.deviceRun imem inp 3).isSome = true by decide +kernel)).symm
  have hshield : ∀ k < 3, ∀ hk, w.deviceRun imem inp k = some hk →
      shieldedAt imem true hk.hart = true := by
    have hall : ∀ k < 3, (w.deviceRun imem inp k).all (fun h => shieldedAt imem true h.hart)
        = true := by decide +kernel
    intro k hk h hrunk
    simpa [hrunk] using hall k hk
  obtain ⟨c, -, hc, -, -, hdev, -⟩ :=
    board_implements_rv32i imem (w := w) rfl rfl (fun _ => rfl) hrun hshield
  refine ⟨c, hc, (congrArg Devices.leds hdev).trans ?_⟩
  decide +kernel

end Rv32iPipeline
