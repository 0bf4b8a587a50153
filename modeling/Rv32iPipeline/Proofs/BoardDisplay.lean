import Rv32iPipeline.Proofs.Board
import Rv32iPipeline.Proofs.Display
import Rv32iPipeline.Rtl.Board

/-!
# `Rv32iPipeline.Proofs.BoardDisplay`: the display shows what the program has stored

The display reads the register of the last store to its port, on `CLK` and beside the core. One
full refresh period behind the store, each position that is lit shows its decimal digit of the
stored number (`board_displays`).
-/

set_option autoImplicit false

namespace Rv32iPipeline

open CpuTop Clocked McuWrapper
open Rv32i (Op)

namespace Board

/-- The display does not act on the rest of the wrapper. -/
theorem run_mcu (imem : InstructionMemory) (b : Board) (inp : ℕ → BoardInput) (n : ℕ) :
    (b.run imem inp n).mcu = b.mcu.run imem inp n := by
  induction n with
  | zero => rfl
  | succ n ih => exact congrArg (fun w => w.step imem (inp n)) ih

/-- The display is a run of `SevSegDisp` on what the wrapper hands to it. -/
theorem run_display (imem : InstructionMemory) (b : Board) (inp : ℕ → BoardInput) (n : ℕ) :
    (b.run imem inp n).display
      = SevSegDisp.run b.display (fun k => displayInput (b.mcu.run imem inp k)) n := by
  induction n with
  | zero => rfl
  | succ n ih =>
      show SevSegDisp.step (b.run imem inp n).display (displayInput (b.run imem inp n).mcu) = _
      rw [ih, run_mcu]
      rfl

end Board

namespace McuWrapper

variable {imem : InstructionMemory} {w : McuWrapper} {inp : ℕ → BoardInput}
  (hb : ∀ j, (inp j).btnc = false)
include hb

/-- With `BTNC` low, the first falling edge of `clk_50` releases `s_reset` for good. -/
theorem sReset_run (hclk : w.clk50 = true) (k : ℕ) : (w.run imem inp (1 + k)).sReset = false := by
  induction k with
  | zero =>
      show (w.step imem (inp 0)).sReset = false
      rw [step_falls hclk (hb 0)]
  | succ k ih =>
      show ((w.run imem inp (1 + k)).step imem (inp (1 + k))).sReset = false
      simp [step, ih, hb]

/-- The output registers between two rising edges of `clk_50`. -/
theorem ports_odd {c : ℕ} (hhigh : (w.run imem inp (2 * c)).clk50 = true) :
    (w.run imem inp (2 * c + 1)).leds = (w.run imem inp (2 * c)).leds ∧
      (w.run imem inp (2 * c + 1)).rSseg = (w.run imem inp (2 * c)).rSseg := by
  have hstep : w.run imem inp (2 * c + 1) = (w.run imem inp (2 * c)).step imem (inp (2 * c)) := rfl
  rw [hstep, step_falls hhigh (hb _)]
  exact ⟨rfl, rfl⟩

end McuWrapper

section
variable (imem : InstructionMemory) {b : Board}
  (hstart : b.mcu.system.cpu = outOfReset imem b.mcu.system.cpu.registers)
  (hclk : b.mcu.clk50 = true) {inp : ℕ → BoardInput} (hb : ∀ j, (inp j).btnc = false)
include hstart hclk hb

/-- While the stores of the program keep the register of the display at `v`, it holds `v` at every
edge of `CLK`. -/
theorem Board.rSseg_eq {a n : ℕ} {v : BitVec 16}
    (hok : ∀ m < n, isTrap (imem.at (b.mcu.path imem inp m).state.pc) = false)
    (hsame : ∀ m, a ≤ m → m ≤ n →
      (devicesAt imem (b.mcu.path imem inp) b.mcu.devices m).sseg = v)
    {t : ℕ} (hlow : 6 * a + 4 ≤ t) (hhigh : t ≤ 2 * n + 5) : (b.mcu.run imem inp t).rSseg = v := by
  have hr : CpuTop.Reachable imem b.mcu.system.cpu :=
    hstart ▸ CpuTop.reachable_outOfReset imem b.mcu.system.cpu.registers
  -- the core cycle that edge `t` is in, between the completions of instructions `a` and `n`
  have hcore : ∀ c, 3 * a + 2 ≤ c → c ≤ n + 2 → (b.mcu.run imem inp (2 * c)).rSseg = v := by
    intro c hac hcn
    have hdue : ∀ k, k + 2 ≤ (b.mcu.path imem inp k).due ∧
        (b.mcu.path imem inp k).due ≤ 3 * k + 2 := executed_due imem _ _
    obtain ⟨m, hmn, hle, -, hdev⟩ :=
      McuWrapper.devices_of_le imem hstart hclk hb hok (hcn.trans (hdue n).1)
    refine (congrArg Devices.sseg hdev).trans (hsame m (Nat.le_of_not_lt fun hma => ?_) hmn)
    -- instruction `m` would complete before instruction `a` does
    have hlt : (b.mcu.path imem inp m).due < (b.mcu.path imem inp a).due :=
      Timed.due_strictMono _ _ _ _ hma
    have := (hdue a).2
    omega
  obtain ⟨c, rfl | rfl⟩ : ∃ c, t = 2 * c ∨ t = 2 * c + 1 := ⟨t / 2, by omega⟩
  · exact hcore c (by omega) (by omega)
  · rw [(ports_odd hb (observed_reachable hr hclk hb c).2).2]
    exact hcore c (by omega) (by omega)

omit hstart in
/-- While the register of the display holds `v`, the pins show digits of `v`. -/
theorem Board.shows_of_rSseg {lo hi : ℕ} {v : BitVec 16}
    (hreg : ∀ t, lo ≤ t → t ≤ hi → (b.mcu.run imem inp t).rSseg = v) {e j : ℕ}
    (hlow : 1 + (b.run imem inp 1).display.left + j * CathodeDriver.refreshPeriod < e)
    (hhigh : e ≤ 1 + (b.run imem inp 1).display.left + (j + 1) * CathodeDriver.refreshPeriod)
    (hafter : lo + CathodeDriver.refreshPeriod ≤ e) (hbefore : e ≤ hi + 1) :
    (b.run imem inp e).display.Shows 10 v
      ((b.run imem inp 1).display.dispDigit + BitVec.ofNat 2 j) := by
  -- the display behind the first edge, which still saw the old `s_reset`
  obtain ⟨k, rfl⟩ : ∃ k, e = 1 + k := ⟨e - 1, by omega⟩
  have hsplit : (b.run imem inp (1 + k)).display
      = SevSegDisp.run (b.run imem inp 1).display
          (fun i => Board.displayInput (b.mcu.run imem inp (1 + i))) k := by
    rw [Board.run_display, Board.run_display]
    exact run_add _ _ _ 1 k
  have hreset : ∀ i, (Board.displayInput (b.mcu.run imem inp (1 + i))).sReset = false :=
    fun i => sReset_run hb hclk i
  have hshows := SevSegDisp.shows_run (b.run imem inp 1).display hreset j (n := k) (by omega)
    (by omega)
  -- the refresh that the pins come from found `v` in the register
  rw [← hsplit, Board.displayInput, hreg _ (by
    rw [Nat.succ_mul] at hhigh
    omega) (by omega)] at hshows
  exact hshows

/-- **The display shows what the program has stored to it.** The board is out of reset and `BTNC`
stays low. Up to instruction `n` there is no trap, and from instruction `a` on the stores of the
program leave the number `v` in the register of the display. Behind the first refresh, and from one
refresh period after instruction `a` on, the pins show decimal digits of `v`: the position that was
next, and then the following one with each refresh. -/
theorem board_displays {a n : ℕ} {v : BitVec 16}
    (hok : ∀ m < n, isTrap (imem.at (b.mcu.path imem inp m).state.pc) = false)
    (hsame : ∀ m, a ≤ m → m ≤ n →
      (devicesAt imem (b.mcu.path imem inp) b.mcu.devices m).sseg = v)
    {e j : ℕ} (hlow : 1 + (b.run imem inp 1).display.left + j * CathodeDriver.refreshPeriod < e)
    (hhigh : e ≤ 1 + (b.run imem inp 1).display.left + (j + 1) * CathodeDriver.refreshPeriod)
    (hafter : 6 * a + 4 + CathodeDriver.refreshPeriod ≤ e) (hbefore : e ≤ 2 * n + 6) :
    (b.run imem inp e).display.Shows 10 v
      ((b.run imem inp 1).display.dispDigit + BitVec.ofNat 2 j) :=
  Board.shows_of_rSseg imem hclk hb
    (fun _ => Board.rSseg_eq imem hstart hclk hb hok hsame) hlow hhigh hafter hbefore

end

/-- `sw x2, 0x40(x3)` everywhere, with `x2 = 12345` and `x3 = 0x11000000`: the thousands show a
2. -/
theorem board_displays_thousands :
    let imem : InstructionMemory := fun _ => 0x0421A023#32
    let regs : Registers := fun r => if r = 3#5 then 0x11000000#32 else 12345#32
    let b : Board := ⟨⟨⟨outOfReset imem regs, ⟨.none, 0#32⟩, ⟨fun _ => 0#32, 0#32⟩⟩,
      true, true, 0#16, 0#16⟩, ⟨true, 0b00#2, 0x12345#20, 0xFF#8, 0xF#4⟩⟩
    let inp : ℕ → BoardInput := fun _ => ⟨false, 0#4, 0#16⟩
    (b.run imem inp 700008).display.anodes = 0b0111#4 ∧
      (b.run imem inp 700008).display.cathodes = segments 2#4 := by
  intro imem regs b inp
  have hop : ∀ pc, Executes (imem.at pc) (.instr (.store .sw 3#5 2#5 0x40#12)) := fun _ =>
    executes_of_decode (w := 0x0421A023#32) (by decide +kernel)
  have htrap : isTrap 0x0421A023#32 = false := by decide +kernel
  -- the store changes no register, so the program writes the number again and again
  have hregs : ∀ m, (b.mcu.path imem inp m).state.hart.regs = regs.file := by
    intro m
    induction m with
    | zero => rfl
    | succ m ih =>
        have hstep := Arch.hart_step (hop (b.mcu.path imem inp m).state.pc)
          (b.mcu.observed imem inp ((b.mcu.path imem inp m).due + 1)).lateDataIn
        exact (congrArg Rv32i.Hart.regs hstep).trans ih
  have hsame : ∀ m, 1 ≤ m → m ≤ 350001 →
      (devicesAt imem (b.mcu.path imem inp) b.mcu.devices m).sseg = 12345#16 := by
    intro m hm _
    obtain ⟨k, rfl⟩ := Nat.exists_eq_add_of_le' hm
    have hhart : (b.mcu.path imem inp k).state.hart = ⟨_, regs.file⟩ := Rv32i.Hart.ext rfl (hregs k)
    rw [devicesAt_succ, ← Arch.perform_devices (hop _) 0#32 0#32, hhart]
    rfl
  have hb : ∀ j, (inp j).btnc = false := fun _ => rfl
  have hshows := board_displays imem (b := b) rfl rfl hb (a := 1) (n := 350001) (fun _ _ => htrap)
    hsame (e := 700008) (j := 3) (by decide) (by decide) (by decide) (by decide)
  have hdigit : (Nat.digits 10 12345).getD 3 0 = 2 := by norm_num
  exact ⟨hshows.1, hshows.2.trans (congrArg (fun x => segments (BitVec.ofNat 4 x)) hdigit)⟩

end Rv32iPipeline
