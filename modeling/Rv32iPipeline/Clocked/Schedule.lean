import Mathlib.Order.WellFounded
import Rv32iPipeline.Clocked.Run

/-!
# `Rv32iPipeline.Clocked.Schedule`: a clocked machine that completes reference steps on time

A reference machine does one unit of work a step. A clocked machine does the same work
with `delay` extra cycles between two completions. `Timed.run` runs the reference
machine together with its schedule: the state before unit `n`, and the cycle `due` in
which the clocked machine completes that unit. A unit may read the input of the cycle
after its completion (the answer to a request it sends as it completes).

`Refines` is the proof obligation about one cycle. Its relation `R s i r k` reads: the
clocked machine is in state `s` with input `i`, the next unit runs from the reference
state `r`, and it completes in `k` cycles. While `k` is positive the machine waits. At
`k = 0` it completes the unit, provided `ok r`.

From it, about whole runs:

* `Refines.onTime`: every cycle lies before the completion of the next unit of the
  schedule, until a unit that is not `ok` has completed.
* `Refines.at_due`: in cycle `due n` the machine completes unit `n`.
* `Refines.trace_eq`: a machine that puts out nothing while it waits puts out, up to
  each cycle, what the completed units put out. `Refines.trace_prefix` is the form without
  the unit count.
-/

set_option autoImplicit false

namespace Clocked

variable {σ ι ρ α : Type*}

/-- A reference state and the cycle in which its unit completes. -/
structure Timed (ρ : Type*) where
  state : ρ
  due : ℕ

/-- One reference step and its successor's place in the schedule. -/
def Timed.next (rstep : ρ → ι → ρ) (delay : ρ → ρ → ℕ) (inp : ℕ → ι) (t : Timed ρ) : Timed ρ where
  state := rstep t.state (inp (t.due + 1))
  due := t.due + 1 + delay t.state (rstep t.state (inp (t.due + 1)))

/-- The reference run with its schedule. -/
def Timed.run (rstep : ρ → ι → ρ) (delay : ρ → ρ → ℕ) (inp : ℕ → ι) (t : Timed ρ) : ℕ → Timed ρ
  | 0 => t
  | n + 1 => (Timed.run rstep delay inp t n).next rstep delay inp

/-- The obligation on one cycle of the clocked machine. -/
structure Refines (step : σ → ι → σ) (rstep : ρ → ι → ρ) (delay : ρ → ρ → ℕ) (ok : ρ → Prop)
    (R : σ → ι → ρ → ℕ → Prop) : Prop where
  wait : ∀ {s i r k}, R s i r (k + 1) → ∀ i', R (step s i) i' r k
  commit : ∀ {s i r}, R s i r 0 → ok r →
    ∀ i', R (step s i) i' (rstep r i') (delay r (rstep r i'))

section
variable {step : σ → ι → σ} {rstep : ρ → ι → ρ} {delay : ρ → ρ → ℕ} {ok : ρ → Prop}
  {R : σ → ι → ρ → ℕ → Prop} {inp : ℕ → ι} {s : σ} {t : Timed ρ}

theorem Timed.run_succ (n : ℕ) :
    Timed.run rstep delay inp t (n + 1)
      = (Timed.run rstep delay inp t n).next rstep delay inp := rfl

/-- Two units never complete in one cycle. -/
theorem Timed.due_strictMono (rstep : ρ → ι → ρ) (delay : ρ → ρ → ℕ) (inp : ℕ → ι) (t : Timed ρ) :
    StrictMono fun n => (Timed.run rstep delay inp t n).due := by
  refine strictMono_nat_of_lt_succ fun n => ?_
  show (Timed.run rstep delay inp t n).due < (Timed.run rstep delay inp t n).due + 1 + _
  omega

/-- The schedule never runs ahead of the unit count. -/
theorem Timed.le_due (n : ℕ) : n ≤ (Timed.run rstep delay inp t n).due :=
  (Timed.due_strictMono rstep delay inp t).le_apply

/-- Each unit takes a cycle at least. -/
theorem Timed.add_le_due (rstep : ρ → ι → ρ) (delay : ρ → ρ → ℕ) (inp : ℕ → ι) (t : Timed ρ)
    (n : ℕ) : t.due + n ≤ (Timed.run rstep delay inp t n).due := by
  induction n with
  | zero => exact Nat.le_refl _
  | succ n ih =>
      rw [Timed.run_succ, Timed.next]
      simp only
      omega

/-- With a bound on the extra cycles, the schedule is late by no more than that for each unit. -/
theorem Timed.due_le (rstep : ρ → ι → ρ) {k : ℕ} (h : ∀ r r', delay r r' ≤ k) (inp : ℕ → ι)
    (t : Timed ρ) (n : ℕ) : (Timed.run rstep delay inp t n).due ≤ t.due + n * (k + 1) := by
  induction n with
  | zero => exact Nat.le_of_eq (by rw [Nat.zero_mul]; rfl)
  | succ n ih =>
      have hd := h (Timed.run rstep delay inp t n).state
        (rstep (Timed.run rstep delay inp t n).state
          (inp ((Timed.run rstep delay inp t n).due + 1)))
      rw [Timed.run_succ, Timed.next, Nat.succ_mul]
      simp only
      omega

variable (step ok R s) in
/-- In cycle `c` the machine is on its way to complete unit `n`, and the units before
`n` completed earlier and were `ok`. -/
structure OnTime (sched : ℕ → Timed ρ) (inp : ℕ → ι) (c n : ℕ) : Prop where
  rel : R (run step s inp c) (inp c) (sched n).state ((sched n).due - c)
  le : c ≤ (sched n).due
  before : ∀ m < n, (sched m).due < c ∧ ok (sched m).state

/-- A cycle belongs to at most one unit. -/
theorem OnTime.unique {sched : ℕ → Timed ρ} {c n n' : ℕ} (h : OnTime step ok R s sched inp c n)
    (h' : OnTime step ok R s sched inp c n') : n = n' := by
  have hle : ∀ {a b}, OnTime step ok R s sched inp c a → OnTime step ok R s sched inp c b →
      ¬ a < b := fun ha hb hlt => by
    have := (hb.before _ hlt).1
    have := ha.le
    omega
  have h1 := hle h h'
  have h2 := hle h' h
  omega

/-- Before the completion the relation counts a positive number of cycles. -/
theorem OnTime.rel_wait {sched : ℕ → Timed ρ} {c n : ℕ} (h : OnTime step ok R s sched inp c n)
    (hc : c < (sched n).due) :
    R (run step s inp c) (inp c) (sched n).state ((sched n).due - (c + 1) + 1) := by
  have hk : (sched n).due - (c + 1) + 1 = (sched n).due - c := by omega
  rw [hk]
  exact h.rel

/-- At the completion it counts zero. -/
theorem OnTime.rel_done {sched : ℕ → Timed ρ} {c n : ℕ} (h : OnTime step ok R s sched inp c n)
    (hc : c = (sched n).due) : R (run step s inp c) (inp c) (sched n).state 0 := by
  have hk : (sched n).due - c = 0 := by omega
  rw [← hk]
  exact h.rel

/-- At most one unit completes a cycle. -/
theorem OnTime.unit_le {c n : ℕ}
    (h : OnTime step ok R s (Timed.run rstep delay inp t) inp c n) : n ≤ c := by
  cases n with
  | zero => exact Nat.zero_le c
  | succ n => exact Nat.lt_of_le_of_lt (Timed.le_due n) (h.before n (Nat.lt_succ_self n)).1

variable (hR : Refines step rstep delay ok R)
include hR

/-- A cycle before the completion: the next cycle belongs to the same unit. -/
theorem Refines.onTime_wait {c n : ℕ}
    (h : OnTime step ok R s (Timed.run rstep delay inp t) inp c n)
    (hc : c < (Timed.run rstep delay inp t n).due) :
    OnTime step ok R s (Timed.run rstep delay inp t) inp (c + 1) n where
  rel := hR.wait (h.rel_wait hc) _
  le := hc
  before m hm := ⟨Nat.lt_succ_of_lt (h.before m hm).1, (h.before m hm).2⟩

/-- The cycle of a completion: the next cycle belongs to the next unit. -/
theorem Refines.onTime_commit {c n : ℕ}
    (h : OnTime step ok R s (Timed.run rstep delay inp t) inp c n)
    (hc : c = (Timed.run rstep delay inp t n).due)
    (hok : ok (Timed.run rstep delay inp t n).state) :
    OnTime step ok R s (Timed.run rstep delay inp t) inp (c + 1) (n + 1) where
  rel := by
    have hk : (Timed.run rstep delay inp t (n + 1)).due - (c + 1)
        = delay (Timed.run rstep delay inp t n).state
            (rstep (Timed.run rstep delay inp t n).state (inp (c + 1))) := by
      rw [Timed.run_succ, Timed.next, ← hc]
      exact Nat.add_sub_cancel_left ..
    rw [hk, Timed.run_succ, Timed.next, run_succ, ← hc]
    exact hR.commit (h.rel_done hc) hok _
  le := by
    rw [hc]
    exact Timed.due_strictMono rstep delay inp t (Nat.lt_succ_self n)
  before m hm := by
    rcases Nat.lt_succ_iff_lt_or_eq.mp hm with hlt | rfl
    · exact ⟨Nat.lt_succ_of_lt (h.before m hlt).1, (h.before m hlt).2⟩
    · exact ⟨hc ▸ Nat.lt_succ_self c, hok⟩

/-- Every cycle belongs to a unit of the schedule, until a unit that is not `ok` has
completed. -/
theorem Refines.onTime (inp : ℕ → ι) (t : Timed ρ) (h0 : R s (inp 0) t.state t.due) (c : ℕ) :
    (∃ n, OnTime step ok R s (Timed.run rstep delay inp t) inp c n) ∨
    ∃ n, (∀ m < n, ok (Timed.run rstep delay inp t m).state) ∧
      ¬ ok (Timed.run rstep delay inp t n).state ∧ (Timed.run rstep delay inp t n).due < c := by
  -- induction on the cycle: the unit it belongs to waits, or completes and hands over
  induction c with
  | zero => exact .inl ⟨0, h0, Nat.zero_le _, fun m hm => absurd hm (Nat.not_lt_zero m)⟩
  | succ c ih =>
      rcases ih with ⟨n, hn⟩ | ⟨n, hok, hnot, hlt⟩
      · rcases Nat.lt_or_eq_of_le hn.le with hc | hc
        · exact .inl ⟨n, hR.onTime_wait hn hc⟩
        · by_cases hok : ok (Timed.run rstep delay inp t n).state
          · exact .inl ⟨n + 1, hR.onTime_commit hn hc hok⟩
          · exact .inr ⟨n, fun m hm => (hn.before m hm).2, hok, hc ▸ Nat.lt_succ_self c⟩
      · exact .inr ⟨n, hok, hnot, Nat.lt_succ_of_lt hlt⟩

/-- A cycle at or before the completion of unit `n` belongs to a unit, when the units
before `n` are `ok`. -/
theorem Refines.onTime_of_le (inp : ℕ → ι) (t : Timed ρ) (h0 : R s (inp 0) t.state t.due) {c n : ℕ}
    (hok : ∀ m < n, ok (Timed.run rstep delay inp t m).state)
    (hc : c ≤ (Timed.run rstep delay inp t n).due) :
    ∃ m ≤ n, OnTime step ok R s (Timed.run rstep delay inp t) inp c m := by
  rcases hR.onTime inp t h0 c with ⟨m, hm⟩ | ⟨m, -, hnot, hlt⟩
  · refine ⟨m, Nat.le_of_not_lt fun hlt => ?_, hm⟩
    have := (hm.before n hlt).1
    omega
  -- a unit that is not `ok` has completed before `c`, but all before `n` are
  · have hmn : m < n := (Timed.due_strictMono rstep delay inp t).lt_iff_lt.mp
      (Nat.lt_of_lt_of_le hlt hc)
    exact absurd (hok m hmn) hnot

/-- In cycle `due n` the machine completes unit `n`, when the units before it are `ok`. -/
theorem Refines.at_due (inp : ℕ → ι) (t : Timed ρ) (h0 : R s (inp 0) t.state t.due) {n : ℕ}
    (hok : ∀ m < n, ok (Timed.run rstep delay inp t m).state) :
    OnTime step ok R s (Timed.run rstep delay inp t) inp (Timed.run rstep delay inp t n).due n := by
  obtain ⟨m, hmn, hm⟩ := hR.onTime_of_le inp t h0 hok (Nat.le_refl _)
  rcases Nat.lt_or_eq_of_le hmn with hlt | rfl
  -- an earlier unit is due earlier, so it cannot own this cycle
  · have := Timed.due_strictMono rstep delay inp t hlt
    exact absurd hm.le (Nat.not_le_of_lt this)
  · exact hm

/-- The traces agree. `out` puts out nothing in a cycle that waits, and in the cycle that
completes unit `n` it puts out `rout n`. Then up to a cycle that belongs to unit `n` it
has put out what the units before `n` put out. -/
theorem Refines.trace_eq (inp : ℕ → ι) (t : Timed ρ) (h0 : R s (inp 0) t.state t.due)
    (out rout : ℕ → List α)
    (hwait : ∀ c r k, R (run step s inp c) (inp c) r (k + 1) → out c = [])
    (hdone : ∀ c n, R (run step s inp c) (inp c) (Timed.run rstep delay inp t n).state 0 →
      c = (Timed.run rstep delay inp t n).due → out c = rout n) :
    ∀ c n, OnTime step ok R s (Timed.run rstep delay inp t) inp c n →
      trace out c = trace rout n := by
  intro c
  induction c with
  | zero =>
      intro n hn
      cases n with
      | zero => rfl
      | succ n => exact absurd (hn.before 0 (Nat.succ_pos n)).1 (Nat.not_lt_zero _)
  | succ c ih =>
      intro n hn
      obtain ⟨m, -, hm⟩ := hR.onTime_of_le inp t h0
        (fun m hm => (hn.before m hm).2) (Nat.le_of_succ_le hn.le)
      rw [trace_succ, ih m hm]
      rcases Nat.lt_or_eq_of_le hm.le with hc | hc
      · -- the machine waits in cycle `c`
        rw [hn.unique (hR.onTime_wait hm hc), hwait c _ _ (hm.rel_wait hc), List.append_nil]
      · -- unit `m` completes in cycle `c`; it is `ok`, as the run goes on
        by_cases hmn : m < n
        · rw [hn.unique (hR.onTime_commit hm hc (hn.before m hmn).2), trace_succ,
            hdone c m (hm.rel_done hc) hc]
        · have hle := (Timed.due_strictMono rstep delay inp t).monotone (Nat.le_of_not_lt hmn)
          exact absurd (hc ▸ hle) (Nat.not_le_of_lt hn.le)

/-- With every unit `ok`, what the machine has put out is a prefix of what the units put
out. -/
theorem Refines.trace_prefix (inp : ℕ → ι) (t : Timed ρ) (h0 : R s (inp 0) t.state t.due)
    (hok : ∀ n, ok (Timed.run rstep delay inp t n).state) (out rout : ℕ → List α)
    (hwait : ∀ c r k, R (run step s inp c) (inp c) r (k + 1) → out c = [])
    (hdone : ∀ c n, R (run step s inp c) (inp c) (Timed.run rstep delay inp t n).state 0 →
      c = (Timed.run rstep delay inp t n).due → out c = rout n)
    (c : ℕ) : trace out c <+: trace rout c := by
  rcases hR.onTime inp t h0 c with ⟨n, hn⟩ | ⟨n, -, hnot, -⟩
  · rw [hR.trace_eq inp t h0 out rout hwait hdone c n hn]
    exact Clocked.trace_prefix rout hn.unit_le
  · exact absurd (hok n) hnot

end

end Clocked
