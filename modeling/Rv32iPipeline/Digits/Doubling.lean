import Mathlib.Data.Nat.Digits.Defs
import Mathlib.Tactic.Common
import Mathlib.Tactic.Ring

/-!
# `Rv32iPipeline.Digits.Doubling`: doubling a number digit by digit

The digits are little-endian, in an even base `2 * h`. Twice a digit overflows the base exactly when
the digit is at least `h`, so each digit of the double depends on one digit and on the carry of the
digit below, which is a comparison. `double` shifts a carry into the lowest digit and drops the one
that leaves the highest.

* `ofDigits_double`: the value of the double, with the dropped carry.
* `ofDigits_shiftIn`: digits that take in the bits of a number, most significant first, hold that
  number modulo the power of the base that they can hold.
* `ofDigits_div_pow_mod`: the digits are read back by division.
-/

set_option autoImplicit false

namespace Digits

open Nat (ofDigits)

variable {h : ℕ}

/-- The doubled digits with carry `c` from below. -/
def double (h : ℕ) : Bool → List ℕ → List ℕ
  | _, [] => []
  | c, d :: ds => (2 * d + c.toNat) % (2 * h) :: double h (decide (h ≤ d)) ds

/-- The carry that leaves the highest digit. -/
def carry (h : ℕ) : Bool → List ℕ → Bool
  | c, [] => c
  | _, d :: ds => carry h (decide (h ≤ d)) ds

@[simp] theorem length_double (c : Bool) (ds : List ℕ) : (double h c ds).length = ds.length := by
  induction ds generalizing c with
  | nil => rfl
  | cons d ds ih => rw [double, List.length_cons, ih, List.length_cons]

/-- The doubled digits are digits. -/
theorem lt_of_mem_double (hh : 0 < h) {c : Bool} {ds : List ℕ} {x : ℕ} (hx : x ∈ double h c ds) :
    x < 2 * h := by
  induction ds generalizing c with
  | nil => exact absurd hx List.not_mem_nil
  | cons d ds ih =>
      rcases List.mem_cons.mp hx with rfl | hmem
      · exact Nat.mod_lt _ (by omega)
      · exact ih hmem

/-- Twice a digit with a carry: the remainder, and a carry when the digit is at least `h`. -/
theorem double_digit {d : ℕ} (hd : d < 2 * h) (c : Bool) :
    2 * d + c.toNat = (2 * d + c.toNat) % (2 * h) + 2 * h * (decide (h ≤ d)).toNat := by
  have hc := Bool.toNat_le c
  by_cases hle : h ≤ d
  · -- the remainder lies one base below
    have hmod : (2 * d + c.toNat) % (2 * h) = 2 * d + c.toNat - 2 * h := by
      rw [Nat.mod_eq_sub_mod (by omega), Nat.mod_eq_of_lt (by omega)]
    rw [hmod, decide_eq_true hle, Bool.toNat_true]
    omega
  · rw [Nat.mod_eq_of_lt (by omega), decide_eq_false hle, Bool.toNat_false, Nat.mul_zero,
      Nat.add_zero]

/-- The value of the doubled digits, with the carry that left. -/
theorem ofDigits_double {ds : List ℕ} (hds : ∀ d ∈ ds, d < 2 * h) (c : Bool) :
    ofDigits (2 * h) (double h c ds) + (2 * h) ^ ds.length * (carry h c ds).toNat
      = 2 * ofDigits (2 * h) ds + c.toNat := by
  induction ds generalizing c with
  | nil => simp [double, carry]
  | cons d ds ih =>
      have hd := double_digit (hds d List.mem_cons_self) c
      have ih' := ih (fun x hx => hds x (List.mem_cons_of_mem d hx)) (decide (h ≤ d))
      calc ofDigits (2 * h) (double h c (d :: ds))
            + (2 * h) ^ (d :: ds).length * (carry h c (d :: ds)).toNat
          = (2 * d + c.toNat) % (2 * h) + 2 * h * (ofDigits (2 * h) (double h (decide (h ≤ d)) ds)
              + (2 * h) ^ ds.length * (carry h (decide (h ≤ d)) ds).toNat) := by
            rw [double, carry, Nat.ofDigits_cons, List.length_cons, pow_succ]
            ring
        _ = (2 * d + c.toNat) % (2 * h) + 2 * h * (decide (h ≤ d)).toNat
              + 2 * (2 * h * ofDigits (2 * h) ds) := by
            rw [ih']
            ring
        _ = 2 * ofDigits (2 * h) (d :: ds) + c.toNat := by
            rw [← hd, Nat.ofDigits_cons]
            ring

/-- With the carry dropped, the digits hold the double modulo what they can hold. -/
theorem ofDigits_double_mod (hh : 0 < h) {ds : List ℕ} (hds : ∀ d ∈ ds, d < 2 * h) (c : Bool) :
    ofDigits (2 * h) (double h c ds)
      = (2 * ofDigits (2 * h) ds + c.toNat) % (2 * h) ^ ds.length := by
  have hlt : ofDigits (2 * h) (double h c ds) < (2 * h) ^ ds.length := by
    have := Nat.ofDigits_lt_base_pow_length (by omega)
      fun x (hx : x ∈ double h c ds) => lt_of_mem_double hh hx
    rwa [length_double] at this
  rw [← ofDigits_double hds c, Nat.add_mul_mod_self_left, Nat.mod_eq_of_lt hlt]

/-! ### Taking in a number bit by bit -/

/-- The digits after the bits of `v` from bit `k - 1` down have been shifted in. -/
def shiftIn (h v : ℕ) : ℕ → List ℕ → List ℕ
  | 0, ds => ds
  | k + 1, ds => shiftIn h v k (double h (v.testBit k) ds)

/-- One more bit of a number. -/
theorem mod_two_pow_succ_eq (v k : ℕ) :
    v % 2 ^ (k + 1) = 2 ^ k * (v.testBit k).toNat + v % 2 ^ k := by
  have hbit : (v.testBit k).toNat = v / 2 ^ k % 2 := Nat.toNat_testBit v k
  rw [hbit, Nat.mod_pow_succ]
  exact Nat.add_comm _ _

/-- The digits hold what they held, shifted, and the bits, modulo what they can hold. -/
theorem ofDigits_shiftIn (hh : 0 < h) (v : ℕ) (k : ℕ) {ds : List ℕ} (hds : ∀ d ∈ ds, d < 2 * h) :
    ofDigits (2 * h) (shiftIn h v k ds)
        = (2 ^ k * ofDigits (2 * h) ds + v % 2 ^ k) % (2 * h) ^ ds.length ∧
      (∀ d ∈ shiftIn h v k ds, d < 2 * h) ∧ (shiftIn h v k ds).length = ds.length := by
  induction k generalizing ds with
  | zero =>
      refine ⟨?_, hds, rfl⟩
      rw [shiftIn, Nat.mod_eq_of_lt]
      · simp [Nat.mod_one]
      · simpa [Nat.mod_one] using Nat.ofDigits_lt_base_pow_length (by omega) hds
  | succ k ih =>
      obtain ⟨hvalue, hlt, hlen⟩ :=
        ih fun x (hx : x ∈ double h (v.testBit k) ds) => lt_of_mem_double hh hx
      refine ⟨?_, hlt, hlen.trans (length_double _ _)⟩
      rw [shiftIn, hvalue, length_double, ofDigits_double_mod hh hds, mod_two_pow_succ_eq]
      -- the modulus may wait until the last bit
      have hsplit : 2 ^ k * (2 * ofDigits (2 * h) ds + (v.testBit k).toNat) + v % 2 ^ k
          = 2 ^ (k + 1) * ofDigits (2 * h) ds + (2 ^ k * (v.testBit k).toNat + v % 2 ^ k) := by
        ring
      rw [← hsplit, Nat.add_mod, Nat.mul_mod, Nat.mod_mod, ← Nat.mul_mod, ← Nat.add_mod]

/-! ### Reading a digit -/

/-- The digit at a position, by division. -/
theorem ofDigits_div_pow_mod {b : ℕ} {ds : List ℕ} (hds : ∀ d ∈ ds, d < b) (i : ℕ) :
    ofDigits b ds / b ^ i % b = ds.getD i 0 := by
  induction ds generalizing i with
  | nil => simp
  | cons d ds ih =>
      have hd := hds d List.mem_cons_self
      have hpos := Nat.zero_lt_of_lt hd
      rw [Nat.ofDigits_cons]
      cases i with
      | zero => rw [pow_zero, Nat.div_one, Nat.add_mul_mod_self_left, Nat.mod_eq_of_lt hd]; rfl
      | succ i =>
          rw [pow_succ', ← Nat.div_div_eq_div_mul, Nat.add_mul_div_left _ _ hpos,
            Nat.div_eq_of_lt hd, Nat.zero_add, ih (fun x hx => hds x (List.mem_cons_of_mem d hx)) i]
          rfl

end Digits
