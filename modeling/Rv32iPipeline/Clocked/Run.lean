import Mathlib.Tactic.Common
import Mathlib.Order.Monotone.Basic
import Mathlib.Data.List.Basic

/-!
# `Rv32iPipeline.Clocked.Run`: runs of a clocked machine

A clocked machine is a step function from a state and the inputs of one cycle to the
next state. `run` drives it by an input stream, and `trace` collects what the cycles
of a run put out, in order.

* `run_invariant`: a property that every step keeps holds along the run.
* `run_agree_iff`: two machines agree along a run exactly when their steps agree along it.
* `run_add`: a run of `m + n` cycles is a run of `m` cycles and then one of `n`.
* `exists_run_eq_of_loop`: a run that comes back to a state stays among the states up to there.
* `trace_prefix`: a shorter trace is a prefix of a longer one.
-/

set_option autoImplicit false

namespace Clocked

variable {σ τ ι κ α : Type*}

/-- The state after each number of cycles, under an input stream. -/
def run (step : σ → ι → σ) (s : σ) (inp : ℕ → ι) : ℕ → σ
  | 0 => s
  | n + 1 => step (run step s inp n) (inp n)

@[simp] theorem run_zero (step : σ → ι → σ) (s : σ) (inp : ℕ → ι) : run step s inp 0 = s := rfl

theorem run_succ (step : σ → ι → σ) (s : σ) (inp : ℕ → ι) (n : ℕ) :
    run step s inp (n + 1) = step (run step s inp n) (inp n) := rfl

/-- A run splits at any cycle. The second part reads the rest of the stream. -/
theorem run_add (step : σ → ι → σ) (s : σ) (inp : ℕ → ι) (m n : ℕ) :
    run step s inp (m + n) = run step (run step s inp m) (fun k => inp (m + k)) n := by
  induction n with
  | zero => rfl
  | succ n ih =>
      show step (run step s inp (m + n)) (inp (m + n)) = _
      rw [ih]
      rfl

/-- A property that each step of the run keeps holds after any number of cycles. -/
theorem run_invariant {I : σ → Prop} {step : σ → ι → σ} {s : σ} {inp : ℕ → ι} (h0 : I s)
    (hstep : ∀ s k, I s → I (step s (inp k))) (n : ℕ) : I (run step s inp n) := by
  induction n with
  | zero => exact h0
  | succ n ih => exact hstep _ _ ih

/-- With a constant input, a run that comes back to a state goes through no further states. -/
theorem exists_run_eq_of_loop {step : σ → ι → σ} {s : σ} {i : ι} {a p : ℕ} (hp : 0 < p)
    (hloop : run step s (fun _ => i) (a + p) = run step s (fun _ => i) a) (n : ℕ) :
    ∃ m < a + p, run step s (fun _ => i) n = run step s (fun _ => i) m := by
  induction n using Nat.strong_induction_on with
  | _ n ih =>
      by_cases hn : n < a + p
      · exact ⟨n, hn, rfl⟩
      · -- one round earlier the run was in the same state
        obtain ⟨k, rfl⟩ := Nat.exists_eq_add_of_le (Nat.le_of_not_lt hn)
        obtain ⟨m, hm, hrun⟩ := ih (a + k) (by omega)
        refine ⟨m, hm, ?_⟩
        rw [← hrun, run_add, hloop, ← run_add]

/-- Two machines with the same inputs look alike along a run exactly when, at every state of the
second, one step of each looks alike. `g` is what is looked at. The steps of the first read no
more than `f`, and it tells two next states of one state apart only where `g` does. -/
theorem run_agree_iff {step step' : σ → ι → σ} {f : σ → τ} {g : σ → κ}
    (hfg : ∀ s t, f s = f t → g s = g t) (hcongr : ∀ s t i, f s = f t → f (step s i) = f (step t i))
    (hobs : ∀ s i, g (step s i) = g (step' s i) → f (step s i) = f (step' s i)) (s : σ)
    (inp : ℕ → ι) : (∀ n, g (run step s inp n) = g (run step' s inp n))
      ↔ ∀ n, g (step (run step' s inp n) (inp n)) = g (step' (run step' s inp n) (inp n)) := by
  constructor
  · intro h
    have hstep : ∀ n, f (run step s inp n) = f (run step' s inp n) →
        g (step (run step' s inp n) (inp n)) = g (step' (run step' s inp n) (inp n)) :=
      fun n hn => (hfg _ _ (hcongr _ _ _ hn)).symm.trans (h (n + 1))
    -- what `f` sees is equal along the run, since it was told apart by `g` only
    have hrun : ∀ n, f (run step s inp n) = f (run step' s inp n) := fun n => by
      induction n with
      | zero => rfl
      | succ n ih => exact (hcongr _ _ _ ih).trans (hobs _ _ (hstep n ih))
    exact fun n => hstep n (hrun n)
  · intro h n
    refine hfg _ _ ?_
    induction n with
    | zero => rfl
    | succ n ih => exact (hcongr _ _ _ ih).trans (hobs _ _ (h n))

/-- What the first `n` cycles put out, in order. -/
def trace (out : ℕ → List α) : ℕ → List α
  | 0 => []
  | n + 1 => trace out n ++ out n

@[simp] theorem trace_zero (out : ℕ → List α) : trace out 0 = [] := rfl

theorem trace_succ (out : ℕ → List α) (n : ℕ) : trace out (n + 1) = trace out n ++ out n := rfl

/-- The trace with the output of the first cycle split off. -/
theorem trace_succ_left (out : ℕ → List α) (n : ℕ) :
    trace out (n + 1) = out 0 ++ trace (fun k => out (k + 1)) n := by
  induction n with
  | zero => simp [trace]
  | succ n ih => rw [trace_succ, ih, trace_succ, List.append_assoc]

/-- A trace of images is the image of the trace. -/
theorem trace_map (f : α → κ) (out : ℕ → List α) (n : ℕ) :
    (trace out n).map f = trace (fun k => (out k).map f) n := by
  induction n with
  | zero => rfl
  | succ n ih => rw [trace_succ, List.map_append, ih, trace_succ]

/-- A shorter trace is a prefix of a longer one. -/
theorem trace_prefix (out : ℕ → List α) {m n : ℕ} (h : m ≤ n) : trace out m <+: trace out n := by
  induction h with
  | refl => exact List.prefix_rfl
  | step _ ih => exact ih.trans (List.prefix_append _ _)

/-- Cycles with the same output have the same trace. -/
theorem trace_congr {out out' : ℕ → List α} {n : ℕ} (h : ∀ k < n, out k = out' k) :
    trace out n = trace out' n := by
  induction n with
  | zero => rfl
  | succ n ih =>
      rw [trace_succ, trace_succ, ih fun k hk => h k (Nat.lt_succ_of_lt hk),
        h n (Nat.lt_succ_self n)]

end Clocked
