import Rv32iPipeline.Clocked.Run

/-!
# `Rv32iPipeline.Clocked.Periodic`: clocked machines with a periodic event

A machine that divides its clock counts the cycles to its next event down to zero, and starts over
behind it. `Periodic` is that about one step: `left` is the count, and `quiet` are the inputs that
leave the divider alone.

* `Periodic.left_fire`, `Periodic.left_between`: the count in each cycle of a run, for any count
  that the run starts with. The events are `period` cycles apart.
* `Periodic.held`: what only an event changes keeps its value between two events.
* `Periodic.iterate`: what each event updates by a function has been updated once for each event.
-/

set_option autoImplicit false

namespace Clocked

variable {σ ι α : Type*}

/-- The obligation on one step of a machine with a periodic event, which is in the cycles with
`left = 0`. -/
structure Periodic (step : σ → ι → σ) (quiet : ι → Prop) (left : σ → ℕ) (period : ℕ) : Prop where
  wait : ∀ {s i}, quiet i → left s ≠ 0 → left (step s i) = left s - 1
  reload : ∀ {s i}, quiet i → left s = 0 → left (step s i) + 1 = period

namespace Periodic

variable {step : σ → ι → σ} {quiet : ι → Prop} {left : σ → ℕ} {period : ℕ} {s : σ} {inp : ℕ → ι}
  (h : Periodic step quiet left period) (hq : ∀ k, quiet (inp k))
include h hq

/-- Up to the first event. -/
theorem left_run {n : ℕ} (hn : n ≤ left s) : left (run step s inp n) = left s - n := by
  induction n with
  | zero => rfl
  | succ n ih =>
      have hleft := ih (Nat.le_of_succ_le hn)
      rw [run_succ, h.wait (hq n) (by omega), hleft, Nat.sub_sub]

/-- The next event is a period later. -/
theorem left_period (hs : left s = 0) : left (run step s inp period) = 0 := by
  have hreload : left (run step s inp 1) + 1 = period := h.reload (hq 0) hs
  have hrun := h.left_run (s := run step s inp 1) (fun k => hq (1 + k)) (Nat.le_refl _)
  rw [← run_add, Nat.sub_self, show 1 + left (run step s inp 1) = period by omega] at hrun
  exact hrun

/-- The events of a run. -/
theorem left_fire (j : ℕ) : left (run step s inp (left s + j * period)) = 0 := by
  induction j with
  | zero => rw [Nat.zero_mul, Nat.add_zero, h.left_run hq (Nat.le_refl _), Nat.sub_self]
  | succ j ih =>
      rw [Nat.succ_mul, ← Nat.add_assoc, run_add]
      exact h.left_period (fun k => hq _) ih

/-- The cycles between two events. -/
theorem left_between (j : ℕ) {m : ℕ} (hm : m < period) :
    left (run step s inp (left s + j * period + 1 + m)) = period - 1 - m := by
  have hreload := h.reload (hq (left s + j * period)) (h.left_fire hq (s := s) j)
  rw [← run_succ step s inp] at hreload
  rw [run_add, h.left_run (fun k => hq _) (by omega)]
  omega

/-- Events are apart. -/
theorem period_pos (s : σ) : 0 < period := by
  have := h.reload (hq (left s + 0 * period)) (h.left_fire hq (s := s) 0)
  omega

section
variable {g : σ → α} (hg : ∀ s i, quiet i → left s ≠ 0 → g (step s i) = g s)
include hg

omit h hq in
/-- Cycles without an event keep what only events change. -/
theorem held_of_wait (hq : ∀ k, quiet (inp k)) {m : ℕ}
    (hwait : ∀ k < m, left (run step s inp k) ≠ 0) : g (run step s inp m) = g s := by
  induction m with
  | zero => rfl
  | succ m ih =>
      rw [run_succ, hg _ _ (hq m) (hwait m (Nat.lt_succ_self m)),
        ih fun k hk => hwait k (Nat.lt_succ_of_lt hk)]

/-- Before the first event. -/
theorem held_first {n : ℕ} (hn : n ≤ left s) : g (run step s inp n) = g s := by
  refine held_of_wait hg hq fun k hk => ?_
  have := h.left_run hq (s := s) (Nat.le_of_lt (Nat.lt_of_lt_of_le hk hn))
  omega

/-- From one event to the next. -/
theorem held (j : ℕ) {n : ℕ} (hlow : left s + j * period < n)
    (hhigh : n ≤ left s + (j + 1) * period) :
    g (run step s inp n) = g (run step s inp (left s + j * period + 1)) := by
  obtain ⟨m, rfl⟩ := Nat.exists_eq_add_of_lt hlow
  rw [Nat.succ_mul] at hhigh
  rw [show left s + j * period + m + 1 = left s + j * period + 1 + m by omega, run_add]
  refine held_of_wait hg (fun k => hq _) fun k hk => ?_
  have := h.left_between hq (s := s) j (m := k) (by omega)
  rw [run_add] at this
  omega

/-- A value that each event updates by `f` has been updated `j` times in the cycle of event `j`. -/
theorem iterate {f : α → α} (hf : ∀ s i, quiet i → left s = 0 → g (step s i) = f (g s)) (j : ℕ) :
    g (run step s inp (left s + j * period)) = f^[j] (g s) := by
  induction j with
  | zero => exact h.held_first hq hg (by omega)
  | succ j ih =>
      have hpos := h.period_pos hq s
      rw [h.held hq hg j (by rw [Nat.succ_mul]; omega) (Nat.le_refl _), run_succ,
        hf _ _ (hq _) (h.left_fire hq j), ih, Function.iterate_succ_apply']

end

end Periodic

end Clocked
