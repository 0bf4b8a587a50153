import Mathlib.Logic.Function.Iterate
import Mathlib.Tactic.Common

/-!
# `Rv32iPipeline.Clocked.While`: a loop with a bound on its rounds

`whileLoop` is `while b do f` with a number of rounds after which it stops in any case. When the
condition fails within that number, the bound does not show (`exists_whileLoop`).
-/

set_option autoImplicit false

namespace Clocked

variable {σ : Type*}

/-- `while b do f`, for that many rounds at most. -/
def whileLoop (b : σ → Bool) (f : σ → σ) : ℕ → σ → σ
  | 0, s => s
  | n + 1, s => if b s then whileLoop b f n (f s) else s

/-- The loop ends in the first state that fails the condition, if there is one in time. -/
theorem exists_whileLoop {b : σ → Bool} {f : σ → σ} {n : ℕ} {s : σ}
    (h : ∃ k ≤ n, b (f^[k] s) = false) :
    ∃ m ≤ n, (∀ k < m, b (f^[k] s) = true) ∧ b (f^[m] s) = false ∧
      whileLoop b f n s = f^[m] s := by
  -- induction on the rounds left; the first round shifts the iterates by one
  induction n generalizing s with
  | zero =>
      obtain ⟨k, hk, hb⟩ := h
      obtain rfl := Nat.le_zero.mp hk
      exact ⟨0, Nat.le_refl 0, fun k hk => absurd hk (Nat.not_lt_zero k), hb, rfl⟩
  | succ n ih =>
      cases hs : b s with
      | false =>
          exact ⟨0, Nat.zero_le _, fun k hk => absurd hk (Nat.not_lt_zero k), hs, by
            rw [whileLoop, if_neg (by rw [hs]; exact Bool.false_ne_true)]
            rfl⟩
      | true =>
          obtain ⟨k, hk, hb⟩ := h
          obtain ⟨m, hm, hlow, hend, heq⟩ := @ih (f s) (by
            cases k with
            | zero => exact absurd (hs.symm.trans hb) (by decide)
            | succ k => exact ⟨k, Nat.le_of_succ_le_succ hk, hb⟩)
          refine ⟨m + 1, Nat.succ_le_succ hm, fun j hj => ?_, hend, ?_⟩
          · cases j with
            | zero => exact hs
            | succ j => exact hlow j (Nat.lt_of_succ_lt_succ hj)
          · rw [whileLoop, if_pos hs, heq]
            rfl

end Clocked
