import Rv32iPipeline.Rtl.McuWrapper

/-!
# `Rv32iPipeline.Proofs.ResetButton`: which presses of `BTNC` reset the core

`s_reset` samples `BTNC` on the falling edge of `clk_50`, and `BTNC` holds `clk_50` low. So a
press is sampled by the one falling edge that it causes itself, and there is none if `clk_50`
is low already.

`press_accepted_iff`: a press resets the core exactly when `clk_50` is high at its start,
however long it is.
-/

set_option autoImplicit false

namespace Rv32iPipeline

namespace McuWrapper

/-- `BTNC` is high for the first `p` rising edges of `CLK`, and low at the next. -/
structure Press (inp : ℕ → BoardInput) (p : ℕ) : Prop where
  high : ∀ j < p, (inp j).btnc = true
  low : (inp p).btnc = false

/-- Edge `j` of `CLK` clocks the core. -/
def coreClock (imem : InstructionMemory) (w : McuWrapper) (inp : ℕ → BoardInput) (j : ℕ) : Bool :=
  (w.run imem inp j).rises (inp j).btnc

/-- The core is clocked with `s_reset` high at some edge, and not with `s_reset` low before. -/
def Accepted (imem : InstructionMemory) (w : McuWrapper) (inp : ℕ → BoardInput) : Prop :=
  ∃ j, w.coreClock imem inp j = true ∧ (w.run imem inp j).sReset = true ∧
    ∀ i < j, w.coreClock imem inp i = true → (w.run imem inp i).sReset = true

/-- A state the wrapper can reach: a press that is accepted, and then any inputs. -/
inductive Reachable (imem : InstructionMemory) : McuWrapper → Prop where
  | reset (w : McuWrapper) (i : BoardInput) (hclk : w.clk50 = true) (hb : i.btnc = true) :
      Reachable imem (w.step imem i)
  | step {w : McuWrapper} (h : Reachable imem w) (i : BoardInput) : Reachable imem (w.step imem i)

variable {imem : InstructionMemory} {w : McuWrapper} {inp : ℕ → BoardInput} {p : ℕ}

theorem run_succ (imem : InstructionMemory) (w : McuWrapper) (inp : ℕ → BoardInput) (j : ℕ) :
    w.run imem inp (j + 1) = (w.run imem inp j).step imem (inp j) := rfl

/-- A pressed `BTNC` lowers `clk_50`. It sets `s_reset` if `clk_50` was high, and leaves it
otherwise. -/
theorem step_pressed (imem : InstructionMemory) (w : McuWrapper) {i : BoardInput}
    (hb : i.btnc = true) : (w.step imem i).clk50 = false ∧
      (w.step imem i).sReset = (w.clk50 || w.sReset) := by
  refine ⟨by simp [step, nextClk50, hb], ?_⟩
  cases hc : w.clk50 <;> simp [step, falls, nextClk50, hb, hc]

/-- During the press `clk_50` is low, and `s_reset` keeps what the first edge made of it. -/
theorem run_pressed (h : Press inp p) {j : ℕ} (hj : j < p) :
    (w.run imem inp (j + 1)).clk50 = false ∧
      (w.run imem inp (j + 1)).sReset = (w.clk50 || w.sReset) := by
  induction j with
  | zero => exact step_pressed imem w (h.high 0 hj)
  | succ j ih =>
      obtain ⟨hclk, hrst⟩ := ih (Nat.lt_of_succ_lt hj)
      have hstep := step_pressed imem (w.run imem inp (j + 1)) (h.high (j + 1) hj)
      rw [hclk, hrst, Bool.false_or] at hstep
      exact hstep

/-- No edge of the press clocks the core. -/
theorem coreClock_pressed (h : Press inp p) {j : ℕ} (hj : j < p) :
    w.coreClock imem inp j = false := by
  simp [coreClock, rises, nextClk50, h.high j hj]

/-- The first edge after the press clocks the core. -/
theorem coreClock_released (hp : 1 ≤ p) (h : Press inp p) : w.coreClock imem inp p = true := by
  -- `clk_50` is low after the last edge of the press, and this one raises it
  obtain ⟨j, rfl⟩ := Nat.exists_eq_add_of_le' hp
  have hclk := (@run_pressed imem w _ _ h _ (Nat.lt_succ_self j)).1
  simp [coreClock, rises, nextClk50, h.low, hclk]

/-- At the first edge after the press `s_reset` is what `clk_50` was at its start. -/
theorem sReset_released (hs : w.sReset = false) (hp : 1 ≤ p) (h : Press inp p) :
    (w.run imem inp p).sReset = w.clk50 := by
  obtain ⟨j, rfl⟩ := Nat.exists_eq_add_of_le' hp
  rw [(run_pressed h (Nat.lt_succ_self j)).2, hs, Bool.or_false]

/-- A press that starts with `clk_50` high is accepted. -/
theorem accepted_of_clk50 (hs : w.sReset = false) (hp : 1 ≤ p) (h : Press inp p)
    (hclk : w.clk50 = true) : w.Accepted imem inp := by
  refine ⟨p, coreClock_released hp h, (sReset_released hs hp h).trans hclk, fun i hi hc => ?_⟩
  rw [coreClock_pressed h hi] at hc
  exact absurd hc Bool.false_ne_true

/-- A press that is accepted started with `clk_50` high. -/
theorem clk50_of_accepted (hs : w.sReset = false) (hp : 1 ≤ p) (h : Press inp p)
    (hacc : w.Accepted imem inp) : w.clk50 = true := by
  obtain ⟨j, hclk, hset, hbefore⟩ := hacc
  -- the edge behind the press is the first that clocks the core
  have hge : p ≤ j := Nat.le_of_not_lt fun hlt => by
    rw [coreClock_pressed h hlt] at hclk
    exact Bool.false_ne_true hclk
  rcases Nat.lt_or_eq_of_le hge with hlt | rfl
  · exact (sReset_released hs hp h).symm.trans (hbefore p hlt (coreClock_released hp h))
  · exact (sReset_released hs hp h).symm.trans hset

end McuWrapper

open McuWrapper

/-- **Which presses reset the core.** From any state with `s_reset` low, a press of one or more
edges of `CLK` is accepted exactly when `clk_50` is high at its start. -/
theorem press_accepted_iff (imem : InstructionMemory) {w : McuWrapper} (hs : w.sReset = false)
    {inp : ℕ → BoardInput} {p : ℕ} (hp : 1 ≤ p) (h : Press inp p) :
    w.Accepted imem inp ↔ w.clk50 = true :=
  ⟨clk50_of_accepted hs hp h, accepted_of_clk50 hs hp h⟩

/-- A press of two edges that starts with `clk_50` high. -/
theorem press_accepted_iff_high :
    let w : McuWrapper :=
      ⟨⟨CpuTop.outOfReset (fun _ => 0x00000013#32) fun _ => 0#32, ⟨.none, 0#32⟩,
        ⟨fun _ => 0#32, 0#32⟩⟩, true, false, 0#16, 0#16⟩
    w.Accepted (fun _ => 0x00000013#32) fun j => ⟨decide (j < 2), 0#4, 0#16⟩ := by
  intro w
  exact (press_accepted_iff _ rfl (by decide : 1 ≤ 2)
    ⟨fun j hj => decide_eq_true hj, rfl⟩).mpr rfl

/-- Six edges after the start of an accepted press of two edges the core runs and `clk_50` is
low. The next press is lost. -/
theorem press_lost :
    ¬ ∀ (imem : InstructionMemory) (w : McuWrapper), McuWrapper.Reachable imem w →
      w.sReset = false → ∀ (inp : ℕ → BoardInput) (p : ℕ), 2 ≤ p → Press inp p →
      w.Accepted imem inp := by
  intro hall
  let imem : InstructionMemory := fun _ => 0x00000013#32
  let w0 : McuWrapper := ⟨⟨CpuTop.outOfReset imem fun _ => 0#32, ⟨.none, 0#32⟩,
    ⟨fun _ => 0#32, 0#32⟩⟩, true, false, 0#16, 0#16⟩
  let press : BoardInput := ⟨true, 0#4, 0#16⟩
  let idle : BoardInput := ⟨false, 0#4, 0#16⟩
  have hpress := (@Reachable.reset imem w0 press rfl rfl).step press
  have hreach := (((hpress.step idle).step idle).step idle).step idle
  have hacc := hall imem _ hreach rfl (fun j => ⟨decide (j < 2), 0#4, 0#16⟩) 2 (by decide)
    ⟨fun j hj => decide_eq_true hj, rfl⟩
  have hclk := clk50_of_accepted rfl (by decide : 1 ≤ 2)
    ⟨fun j hj => decide_eq_true hj, rfl⟩ hacc
  exact Bool.false_ne_true hclk

end Rv32iPipeline
