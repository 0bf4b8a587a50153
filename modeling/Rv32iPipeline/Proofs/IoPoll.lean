import Rv32iPipeline.Proofs.BoardDisplay
import Rv32iPipeline.Spec.IoPoll

/-!
# `Rv32iPipeline.Proofs.IoPoll`: the poll loop on the board

`io_poll.s` reads the switches at `0x11000000` and the buttons at `0x11000080`. `Interconnect` has
them at the addresses of the output ports, and answers 0 to these two reads. So on the RV32I
machine with the devices the loop stores 0 to both ports for ever (`ioPoll_run`), and since it needs
no shield, so does the board (`ioPoll_board`).
-/

set_option autoImplicit false

namespace Rv32iPipeline

open CpuTop Clocked McuWrapper
open Rv32i (Instr Op Effect Hart Machine)

/-! ### The loop on the RV32I machine -/

/-- The word that instruction `n` of the run is at: the four words of `_start`, and then the loop,
which takes ten instructions as the branch is taken. -/
def pollWord (n : ℕ) : ℕ :=
  if n < 4 then n else if n % 10 < 2 then n % 10 + 10 else if n % 10 < 4 then n % 10 + 14
  else n % 10

/-- The word behind word `i`. -/
def pollNext (i : ℕ) : ℕ := if i = 11 then 16 else if i = 17 then 4 else i + 1

theorem pollWord_succ (n : ℕ) : pollWord (n + 1) = pollNext (pollWord n) := by
  unfold pollWord pollNext
  split_ifs <;> omega

/-- The instructions that are at word `i`. -/
theorem at_pollWord (n : ℕ) : (n < 4 ∧ pollWord n = n) ∨ (4 ≤ n ∧
    ((pollWord n = n % 10 ∧ 4 ≤ n % 10) ∨ (pollWord n = n % 10 + 10 ∧ n % 10 < 2) ∨
      (pollWord n = n % 10 + 14 ∧ 2 ≤ n % 10 ∧ n % 10 < 4))) := by
  unfold pollWord
  split_ifs <;> omega

/-- The machine before instruction `n`, started with devices `d`. -/
structure Polling (d : Devices) (m : Machine Devices) (n : ℕ) : Prop where
  pc : m.hart.pc = BitVec.ofNat 32 (4 * pollWord n)
  x11 : 1 ≤ n → m.hart.regs.read 11#5 = 0x11000000#32
  x12 : 2 ≤ n → m.hart.regs.read 12#5 = 0x11000020#32
  x13 : 3 ≤ n → m.hart.regs.read 13#5 = 0x11000040#32
  x14 : 4 ≤ n → m.hart.regs.read 14#5 = 0x11000080#32
  x5 : 5 ≤ n → m.hart.regs.read 5#5 = 0#32
  x6 : 9 ≤ n → m.hart.regs.read 6#5 = 0#32
  dmem : m.mem.dmem = d.dmem
  sseg : m.mem.sseg = if n < 8 then d.sseg else 0#16
  leds : m.mem.leds = if n < 13 then d.leds else 0#16

/-- The effect of each word of the loop, from a state that polls. -/
def pollEffect (pc : Word) : ℕ → Effect
  | 0 => .compute pc 11#5 0x11000000#32
  | 1 => .compute pc 12#5 0x11000020#32
  | 2 => .compute pc 13#5 0x11000040#32
  | 3 => .compute pc 14#5 0x11000080#32
  | 4 => ⟨some 5#5, none, pc + 4#32, some (.load 0x11000000#32 4 false)⟩
  | 7 => ⟨none, none, pc + 4#32, some (.store 0x11000040#32 4 0#32)⟩
  | 8 => ⟨some 6#5, none, pc + 4#32, some (.load 0x11000080#32 4 false)⟩
  | 11 => ⟨none, none, pc + 20#32, none⟩
  | 16 => ⟨none, none, pc + 4#32, some (.store 0x11000020#32 4 0#32)⟩
  | 17 => ⟨some 0#5, some (pc + 4#32), pc + 0xFFFFFFCC#32, none⟩
  | _ => .compute pc 0#5 0#32

/-- `Interconnect` answers 0 at the two addresses that the loop reads. -/
theorem poll_load (switches buttons : Word) (d : Devices) {address : Word}
    (h : address = 0x11000000#32 ∨ address = 0x11000080#32) :
    d.load switches buttons address 4 false = 0#32 := by
  rcases h with rfl | rfl
  · rw [Devices.load, if_pos (by decide), mmioValue, if_neg (by decide), if_neg (by decide)]
  · rw [Devices.load, if_pos (by decide), mmioValue, if_neg (by decide), if_neg (by decide)]

/-- The two stores change one port each. -/
theorem poll_store (d : Devices) : d.store 0x11000040#32 4 0#32 = { d with sseg := 0#16 } ∧
    d.store 0x11000020#32 4 0#32 = { d with leds := 0#16 } := by
  constructor
  · rw [Devices.store, if_pos (by decide), if_neg (by decide), if_pos rfl, BitVec.setWidth_zero]
  · rw [Devices.store, if_pos (by decide), if_pos rfl, BitVec.setWidth_zero]

section
variable {d : Devices} {m : Machine Devices} {n : ℕ} (H : Polling d m n)
include H

/-- The effect of the next word. -/
theorem Polling.effect_eq {i : ℕ} (hi : i < ioPoll.length) (hw : pollWord n = i) :
    m.hart.effect (.instr (ioPoll.get ⟨i, hi⟩)) = pollEffect m.hart.pc i := by
  have hn := at_pollWord n
  have hzero := m.hart.regs.read_zero
  rw [hw] at hn
  match i, hi with
  | 0, _ => rfl
  | 1, _ | 2, _ | 3, _ =>
      show Effect.compute _ _ (m.hart.regs.read 11#5 + _) = _
      rw [H.x11 (by omega)]
      rfl
  | 4, _ =>
      show (⟨_, _, _, some (.load (m.hart.regs.read 11#5 + _) _ _)⟩ : Effect) = _
      rw [H.x11 (by omega)]
      rfl
  | 5, _ | 6, _ | 9, _ | 10, _ =>
      show Effect.compute _ _ (m.hart.regs.read 0#5 + _) = _
      rw [hzero]
      rfl
  | 7, _ =>
      show (⟨_, _, _, some (.store (m.hart.regs.read 13#5 + _) _ (m.hart.regs.read 5#5))⟩ : Effect)
        = _
      rw [H.x13 (by omega), H.x5 (by omega)]
      rfl
  | 8, _ =>
      show (⟨_, _, _, some (.load (m.hart.regs.read 14#5 + _) _ _)⟩ : Effect) = _
      rw [H.x14 (by omega)]
      rfl
  | 11, _ =>
      show (⟨_, _, if Rv32i.BranchOp.holds (m.hart.regs.read 6#5) (m.hart.regs.read 0#5) _ then _
        else _, _⟩ : Effect) = _
      rw [H.x6 (by omega), hzero]
      rfl
  | 12, _ | 13, _ | 14, _ | 15, _ => omega
  | 16, _ =>
      show (⟨_, _, _, some (.store (m.hart.regs.read 12#5 + _) _ (m.hart.regs.read 0#5))⟩ : Effect)
        = _
      rw [H.x12 (by omega), hzero]
      rfl
  | 17, _ => rfl
  | i + 18, hi => exact absurd (show i + 18 < 18 from hi) (by omega)

/-- The next word keeps polling, whatever the switches and the buttons are. -/
theorem Polling.apply {i : ℕ} (hw : pollWord n = i) (switches buttons : Word) :
    Polling d (m.apply (Devices.memory switches buttons) (pollEffect m.hart.pc i)) (n + 1) := by
  have hn := at_pollWord n
  have hpc := H.pc
  have hsseg := H.sseg
  have hleds := H.leds
  rw [hw] at hn hpc
  have hnext := (pollWord_succ n).trans (congrArg pollNext hw)
  -- the next word, for the three ways to get there
  have hseq : pollNext i = i + 1 → m.hart.pc + 4#32 = BitVec.ofNat 32 (4 * pollWord (n + 1)) := by
    intro h
    rw [hnext, h, hpc, Nat.mul_succ, BitVec.ofNat_add]
  -- only the two stores change a port, and only in the first pass
  have hsseg' : i ≠ 7 → i ≤ 17 → m.mem.sseg = if n + 1 < 8 then d.sseg else 0#16 := by
    intro h7 h17
    rw [hsseg, if_congr (show n < 8 ↔ n + 1 < 8 by omega) rfl rfl]
  have hleds' : i ≠ 16 → i ≤ 17 → m.mem.leds = if n + 1 < 13 then d.leds else 0#16 := by
    intro h16 h17
    rw [hleds, if_congr (show n < 13 ↔ n + 1 < 13 by omega) rfl rfl]
  -- a word of the loop that leaves the registers as they are
  have hkeep : ∀ {pc : Word} {d' : Devices}, 5 ≤ i → i ≤ 17 → i ≠ 8 →
      pc = BitVec.ofNat 32 (4 * pollWord (n + 1)) → d'.dmem = d.dmem →
      d'.sseg = (if n + 1 < 8 then d.sseg else 0#16) →
      d'.leds = (if n + 1 < 13 then d.leds else 0#16) →
      Polling d ⟨⟨pc, m.hart.regs⟩, d'⟩ (n + 1) := fun h5 h17 h8 h1 h2 h3 h4 =>
    ⟨h1, fun _ => H.x11 (by omega), fun _ => H.x12 (by omega), fun _ => H.x13 (by omega),
      fun _ => H.x14 (by omega), fun _ => H.x5 (by omega), fun _ => H.x6 (by omega), h2, h3, h4⟩
  match i, hn with
  -- `_start`
  | 0, hn =>
      exact ⟨hseq rfl, fun _ => rfl, by omega, by omega, by omega, by omega, by omega, H.dmem,
        hsseg' (by omega) (by omega), hleds' (by omega) (by omega)⟩
  | 1, hn =>
      exact ⟨hseq rfl, fun _ => H.x11 (by omega), fun _ => rfl, by omega, by omega, by omega,
        by omega, H.dmem, hsseg' (by omega) (by omega), hleds' (by omega) (by omega)⟩
  | 2, hn =>
      exact ⟨hseq rfl, fun _ => H.x11 (by omega), fun _ => H.x12 (by omega), fun _ => rfl, by omega,
        by omega, by omega, H.dmem, hsseg' (by omega) (by omega), hleds' (by omega) (by omega)⟩
  | 3, hn =>
      exact ⟨hseq rfl, fun _ => H.x11 (by omega), fun _ => H.x12 (by omega),
        fun _ => H.x13 (by omega), fun _ => rfl, by omega, by omega, H.dmem,
        hsseg' (by omega) (by omega), hleds' (by omega) (by omega)⟩
  -- the two loads get 0
  | 4, hn =>
      show Polling d ⟨⟨m.hart.pc + 4#32, m.hart.regs.write 5#5
        (m.mem.load switches buttons 0x11000000#32 4 false)⟩, m.mem⟩ (n + 1)
      rw [poll_load _ _ _ (.inl rfl)]
      exact ⟨hseq rfl, fun _ => H.x11 (by omega), fun _ => H.x12 (by omega),
        fun _ => H.x13 (by omega), fun _ => H.x14 (by omega), fun _ => rfl,
        fun h => H.x6 (by omega), H.dmem, hsseg' (by omega) (by omega),
        hleds' (by omega) (by omega)⟩
  | 8, hn =>
      show Polling d ⟨⟨m.hart.pc + 4#32, m.hart.regs.write 6#5
        (m.mem.load switches buttons 0x11000080#32 4 false)⟩, m.mem⟩ (n + 1)
      rw [poll_load _ _ _ (.inr rfl)]
      exact ⟨hseq rfl, fun _ => H.x11 (by omega), fun _ => H.x12 (by omega),
        fun _ => H.x13 (by omega), fun _ => H.x14 (by omega), fun _ => H.x5 (by omega),
        fun _ => rfl, H.dmem, hsseg' (by omega) (by omega), hleds' (by omega) (by omega)⟩
  -- the two stores put 0
  | 7, hn =>
      show Polling d ⟨⟨m.hart.pc + 4#32, m.hart.regs⟩, m.mem.store 0x11000040#32 4 0#32⟩ (n + 1)
      rw [(poll_store _).1]
      exact hkeep (by omega) (by omega) (by omega) (hseq rfl) H.dmem (if_neg (by omega)).symm
        (hleds' (by omega) (by omega))
  | 16, hn =>
      show Polling d ⟨⟨m.hart.pc + 4#32, m.hart.regs⟩, m.mem.store 0x11000020#32 4 0#32⟩ (n + 1)
      rw [(poll_store _).2]
      exact hkeep (by omega) (by omega) (by omega) (hseq rfl) H.dmem (hsseg' (by omega) (by omega))
        (if_neg (by omega)).symm
  -- the other words write no register but `x0`
  | 5, hn | 6, hn | 9, hn | 10, hn =>
      show Polling d ⟨⟨m.hart.pc + 4#32, m.hart.regs.write 0#5 _⟩, m.mem⟩ (n + 1)
      rw [Rv32i.RegFile.write_x0]
      exact hkeep (by omega) (by omega) (by omega) (hseq rfl) H.dmem (hsseg' (by omega) (by omega))
        (hleds' (by omega) (by omega))
  | 11, hn =>
      refine hkeep (by omega) (by omega) (by omega) ?_ H.dmem (hsseg' (by omega) (by omega))
        (hleds' (by omega) (by omega))
      show m.hart.pc + 20#32 = _
      rw [hnext, hpc]
      rfl
  | 17, hn =>
      show Polling d ⟨⟨m.hart.pc + 0xFFFFFFCC#32, m.hart.regs.write 0#5 _⟩, m.mem⟩ (n + 1)
      rw [Rv32i.RegFile.write_x0]
      refine hkeep (by omega) (by omega) (by omega) ?_ H.dmem (hsseg' (by omega) (by omega))
        (hleds' (by omega) (by omega))
      rw [hnext, hpc]
      rfl
  | 12, hn | 13, hn | 14, hn | 15, hn | i + 18, hn => omega

end

/-! ### Whole runs -/

/-- The words that the machine gets to. -/
theorem pollWord_lt (n : ℕ) : pollWord n < ioPoll.length := by
  have := at_pollWord n
  show pollWord n < 18
  omega

/-- The image at a word of the program. -/
theorem HoldsIoPoll.at_eq {imem : InstructionMemory} (h : HoldsIoPoll imem) {i : ℕ}
    (hi : i < ioPoll.length) : imem.at (BitVec.ofNat 32 (4 * i)) = (ioPoll.get ⟨i, hi⟩).encode := by
  have hword : ∀ i < 18, (BitVec.ofNat 32 (4 * i)).extractLsb' 2 13 = BitVec.ofNat 13 i := by decide
  rw [InstructionMemory.at, hword i hi]
  exact h i hi

/-- The run of the machine never ends. -/
theorem ioPoll_run {imem : InstructionMemory} (hold : HoldsIoPoll imem) (sw bt : ℕ → Word)
    {s : Machine Devices} (hpc : s.hart.pc = 0#32) (n : ℕ) :
    ∃ m, s.run imem.at (fun k => Devices.memory (sw k) (bt k)) n = some m ∧
      Polling s.mem m n := by
  induction n with
  | zero =>
      exact ⟨s, rfl, hpc, by omega, by omega, by omega, by omega, by omega, by omega, rfl, rfl, rfl⟩
  | succ n ih =>
      obtain ⟨m, hrun, hm⟩ := ih
      refine ⟨_, Machine.run_succ_eq_some.mpr ⟨m, pollEffect m.hart.pc (pollWord n), hrun, ?_, rfl⟩,
        hm.apply rfl (sw n) (bt n)⟩
      rw [Machine.effect, hm.pc, hold.at_eq (pollWord_lt n), op_decode_encode, Option.map_some,
        hm.effect_eq (pollWord_lt n) rfl, hm.pc]

/-- The loads of the program are words 4 and 8. -/
theorem isLoad_ioPoll : ∀ i (hi : i < ioPoll.length), i ≠ 4 → i ≠ 8 →
    isLoad (ioPoll.get ⟨i, hi⟩) = false := by decide

/-- The loads of the loop are from the ports, so they need no shield. -/
theorem Polling.shielded {imem : InstructionMemory} (hold : HoldsIoPoll imem) {d : Devices}
    {m : Machine Devices} {n : ℕ} (H : Polling d m n) : shieldedAt imem true m.hart = true := by
  have hn := at_pollWord n
  have hi := pollWord_lt n
  have hdec : Instr.decode (imem.at m.hart.pc) = some (ioPoll.get ⟨pollWord n, hi⟩) := by
    rw [H.pc, hold.at_eq hi, decode_encode]
  by_cases h4 : pollWord n = 4
  · simp only [h4] at hdec
    refine shieldedAt_of_device hdec ?_
    rw [H.x11 (by omega)]
    rfl
  by_cases h8 : pollWord n = 8
  · simp only [h8] at hdec
    refine shieldedAt_of_device hdec ?_
    rw [H.x14 (by omega)]
    rfl
  exact shieldedAt_of_not_load hdec (isLoad_ioPoll _ hi h4 h8)

section
variable (imem : InstructionMemory) {b : Board} (hold : HoldsIoPoll imem)
  (hstart : b.mcu.system.cpu = outOfReset imem b.mcu.system.cpu.registers)
  (hclk : b.mcu.clk50 = true) {inp : ℕ → BoardInput} (hb : ∀ j, (inp j).btnc = false)
include hold hstart hclk hb

/-- The executed path of the board is the run of the machine. -/
theorem ioPoll_path (n : ℕ) :
    (∃ h, Polling b.mcu.devices ⟨h, devicesAt imem (b.mcu.path imem inp) b.mcu.devices n⟩ n) ∧
      isTrap (imem.at (b.mcu.path imem inp n).state.pc) = false := by
  have H := McuWrapper.driven imem hstart hclk hb
  have hall : ∀ k, ∃ m, b.mcu.deviceRun imem inp k = some m ∧ Polling b.mcu.devices m k := fun k =>
    ioPoll_run hold _ _ (s := ⟨⟨0#32, b.mcu.system.cpu.registers.file⟩, b.mcu.devices⟩) rfl k
  have hmachine : ∀ {k hk}, b.mcu.deviceRun imem inp k = some hk → _ := fun {k hk} hrun =>
    H.machine true (d := b.mcu.devices) rfl (fun _ => rfl) hrun fun j _ hj hrunj => by
      obtain ⟨m, hm, hpoll⟩ := hall j
      rw [Option.some.inj (hrunj.symm.trans hm)]
      exact hpoll.shielded hold
  obtain ⟨m, hm, hpoll⟩ := hall n
  obtain ⟨m', hm', -⟩ := hall (n + 1)
  refine ⟨?_, ?_⟩
  · rw [(hmachine hm).1] at hpoll
    exact ⟨_, hpoll⟩
  · exact (Arch.decoded_trap imem _).symm.trans ((hmachine hm').2 n (Nat.lt_succ_self n))

/-- Behind its first pass, the loop keeps both ports at 0. -/
theorem ioPoll_ports {e : ℕ} (he : 82 ≤ e) :
    (b.mcu.run imem inp e).leds = 0#16 ∧ (b.mcu.run imem inp e).rSseg = 0#16 := by
  have hr : CpuTop.Reachable imem b.mcu.system.cpu :=
    hstart ▸ CpuTop.reachable_outOfReset imem b.mcu.system.cpu.registers
  have hdue : ∀ k, k + 2 ≤ (b.mcu.path imem inp k).due ∧ (b.mcu.path imem inp k).due ≤ 3 * k + 2 :=
    executed_due imem _ _
  -- the core cycle of edge `e` is behind instruction 12
  have hcore : ∀ c, 41 ≤ c → (b.mcu.run imem inp (2 * c)).leds = 0#16 ∧
      (b.mcu.run imem inp (2 * c)).rSseg = 0#16 := by
    intro c hc
    obtain ⟨m, -, hle, -, hdev⟩ := McuWrapper.devices_of_le imem hstart hclk hb (n := c)
      (fun m _ => (ioPoll_path imem hold hstart hclk hb m).2) (c := c) (by
        have := (hdue c).1
        omega)
    have hm : 13 ≤ m := by
      have := (hdue m).2
      omega
    obtain ⟨h, hpoll⟩ := (ioPoll_path imem hold hstart hclk hb m).1
    refine ⟨(congrArg Devices.leds hdev).trans (hpoll.leds.trans (if_neg (by omega))),
      (congrArg Devices.sseg hdev).trans (hpoll.sseg.trans (if_neg (by omega)))⟩
  obtain ⟨c, rfl | rfl⟩ : ∃ c, e = 2 * c ∨ e = 2 * c + 1 := ⟨e / 2, by omega⟩
  · exact hcore c (by omega)
  · have hodd := ports_odd hb (observed_reachable hr hclk hb c).2
    rw [hodd.1, hodd.2]
    exact hcore c (by omega)

/-- **The poll loop never shows an input.** The image holds the program of `io_poll.s`, the board is
out of reset and `BTNC` stays low. Whatever the switches and the other buttons do, from edge 82 on
all LEDs are off and the register of the display is 0. One refresh period later, and behind the
first refresh, every digit that is lit is a 0. -/
theorem ioPoll_board :
    (∀ e, 82 ≤ e → (b.run imem inp e).mcu.leds = 0#16 ∧ (b.run imem inp e).mcu.rSseg = 0#16) ∧
      ∀ e j, 82 + CathodeDriver.refreshPeriod ≤ e →
        1 + (b.run imem inp 1).display.left + j * CathodeDriver.refreshPeriod < e →
        e ≤ 1 + (b.run imem inp 1).display.left + (j + 1) * CathodeDriver.refreshPeriod →
        (b.run imem inp e).display.anodes
            = anode ((b.run imem inp 1).display.dispDigit + BitVec.ofNat 2 j) ∧
          (b.run imem inp e).display.cathodes = segments 0#4 := by
  refine ⟨fun e he => ?_, fun e j he hlow hhigh => ?_⟩
  · rw [Board.run_mcu]
    exact ioPoll_ports imem hold hstart hclk hb he
  · have hreg : ∀ t, 82 ≤ t → t ≤ e → (b.mcu.run imem inp t).rSseg = 0#16 :=
      fun t ht _ => (ioPoll_ports imem hold hstart hclk hb ht).2
    obtain ⟨hanode, hcathode⟩ :=
      Board.shows_of_rSseg imem hclk hb hreg hlow hhigh he (Nat.le_succ e)
    refine ⟨hanode, hcathode.trans ?_⟩
    simp

end

/-- All switches up and all buttons down: no LED is on. -/
theorem ioPoll_board_down :
    let imem : InstructionMemory := fun a => ((ioPoll[a.toNat]?).map Instr.encode).getD 0#32
    let b : Board := ⟨⟨⟨outOfReset imem fun _ => 0#32, ⟨.none, 0#32⟩, ⟨fun _ => 0#32, 0#32⟩⟩,
      true, true, 0xFFFF#16, 0xFFFF#16⟩, ⟨true, 0b00#2, 0x12345#20, 0xFF#8, 0xF#4⟩⟩
    let inp : ℕ → BoardInput := fun _ => ⟨false, 0xF#4, 0xFFFF#16⟩
    ∀ e, 82 ≤ e → (b.run imem inp e).mcu.leds = 0#16 := by
  intro imem b inp e he
  have hold : HoldsIoPoll imem := by
    show ∀ k (h : k < ioPoll.length), _ = _
    decide
  have hb : ∀ j, (inp j).btnc = false := fun _ => rfl
  exact ((ioPoll_board imem (b := b) hold rfl rfl hb).1 e he).1

end Rv32iPipeline
