import Mathlib.Data.Nat.Count
import Mathlib.Data.Nat.Digits.Lemmas
import Rv32iPipeline.Clocked.Periodic
import Rv32iPipeline.Digits.Doubling
import Rv32iPipeline.Rtl.SevSegDisp

/-!
# `Rv32iPipeline.Proofs.Display`: what the seven-segment display shows, and when

`BCD` is the doubling of `Digits.Doubling` at base 10, so its outputs are the four low decimal
digits of its input, for all inputs. `CathodeDriver` is a periodic machine: from any state of its
divider the refreshes are 200002 edges of `CLK` apart.

* `bcd_eq`: the double dabble of `BCD` is the conversion to decimal.
* `nibble_hexVal`: the digit that the mux of `SevSegDisp` hands to each position.
* `digit_run`: no reset ever changes the digit that is next, as `s_reset` holds `s_clk_500` low.
* `scan`: which digit the pins show after each edge of `CLK`, and of which value.
-/

set_option autoImplicit false

namespace Rv32iPipeline

open Clocked

/-! ### `BCD` -/

namespace Bcd

/-- The digits, lowest first. -/
def digits (x : Bcd) : List ℕ := [x.ones.toNat, x.tens.toNat, x.hundreds.toNat, x.thousands.toNat]

/-- The low three bits of an adjusted digit, with the bit below. -/
theorem adjust_low : ∀ d : BitVec 4, d.toNat < 10 → ∀ c : BitVec 1,
    ((adjust d).extractLsb' 0 3 ++ c).toNat = (2 * d.toNat + c.toNat) % 10 := by decide

/-- The high bit of an adjusted digit. -/
theorem adjust_high : ∀ d : BitVec 4, d.toNat < 10 →
    (adjust d).extractLsb' 3 1 = BitVec.ofBool (decide (5 ≤ d.toNat)) := by decide

/-- One iteration doubles the decimal number and adds the bit. -/
theorem digits_shift {x : Bcd} (hx : ∀ d ∈ x.digits, d < 2 * 5) (bit : Bool) :
    (x.shift bit).digits = Digits.double 5 bit x.digits := by
  obtain ⟨h0, h1, h2, h3⟩ : x.ones.toNat < 10 ∧ x.tens.toNat < 10 ∧ x.hundreds.toNat < 10 ∧
      x.thousands.toNat < 10 := by simpa [digits] using hx
  simp only [digits, shift, Digits.double, adjust_low _ h0, adjust_low _ h1, adjust_low _ h2,
    adjust_low _ h3, adjust_high _ h0, adjust_high _ h1, adjust_high _ h2, BitVec.toNat_ofBool]

/-- The loop shifts in the bits of `HEX`. -/
theorem digits_loop (hex : BitVec 16) (i : ℕ) {x : Bcd} (hx : ∀ d ∈ x.digits, d < 2 * 5) :
    (loop hex i x).digits = Digits.shiftIn 5 hex.toNat i x.digits := by
  induction i generalizing x with
  | zero => rfl
  | succ i ih =>
      have hstep := digits_shift hx (hex.getLsbD i)
      have hlt : ∀ d ∈ (x.shift (hex.getLsbD i)).digits, d < 2 * 5 := by
        rw [hstep]
        exact fun d hd => Digits.lt_of_mem_double (by decide) hd
      rw [loop, ih hlt, hstep]
      rfl

end Bcd

/-- The outputs of `BCD` are decimal digits, and they hold `HEX` modulo 10000. -/
theorem digits_bcd (hex : BitVec 16) :
    Nat.ofDigits 10 (bcd hex).digits = hex.toNat % 10000 ∧ ∀ d ∈ (bcd hex).digits, d < 10 := by
  have hzero : ∀ d ∈ (⟨0x0#4, 0x0#4, 0x0#4, 0x0#4⟩ : Bcd).digits, d < 2 * 5 := by decide
  obtain ⟨hvalue, hlt, -⟩ := Digits.ofDigits_shiftIn (h := 5) (by decide) hex.toNat 16 hzero
  rw [← Bcd.digits_loop hex 16 hzero] at hvalue hlt
  refine ⟨hvalue.trans ?_, hlt⟩
  have hhex : hex.toNat % 2 ^ 16 = hex.toNat := Nat.mod_eq_of_lt hex.isLt
  rw [hhex]
  simp [Bcd.digits, Nat.ofDigits_cons]

/-- The four low digits of a number are those of its remainder. -/
theorem mod_digit (x : ℕ) {i : ℕ} (hi : i < 4) : x % 10000 / 10 ^ i % 10 = x / 10 ^ i % 10 := by
  obtain ⟨k, hk⟩ : ∃ k, 10000 = 10 ^ i * (10 * k) := by
    have hcases : i = 0 ∨ i = 1 ∨ i = 2 ∨ i = 3 := by omega
    rcases hcases with rfl | rfl | rfl | rfl
    exacts [⟨1000, rfl⟩, ⟨100, rfl⟩, ⟨10, rfl⟩, ⟨1, rfl⟩]
  rw [hk, Nat.mod_mul_right_div_self, Nat.mod_mul_right_mod]

/-- **`BCD` converts to decimal.** For every `HEX` its outputs, lowest first, are the four low
decimal digits of `HEX`. -/
theorem bcd_eq (hex : BitVec 16) :
    (bcd hex).digits = (List.range 4).map fun i => hex.toNat / 10 ^ i % 10 := by
  obtain ⟨hvalue, hlt⟩ := digits_bcd hex
  refine List.ext_getElem rfl fun i hi _ => ?_
  have hdigit := Digits.ofDigits_div_pow_mod hlt i
  rw [hvalue, mod_digit _ hi, List.getD_eq_getElem?_getD, List.getElem?_eq_getElem hi,
    Option.getD_some] at hdigit
  rw [← hdigit, List.getElem_map, List.getElem_range]

/-- The base that the display counts in. -/
def displayBase (mode : Bool) : ℕ := if mode then 10 else 16

/-- The positions of the display are the hexadecimal digits of `Hex_Val`. -/
theorem toNat_nibble (digit : BitVec 2) (hex : BitVec 16) :
    (nibble digit hex).toNat = hex.toNat / 16 ^ digit.toNat % 16 := by
  have hcases : digit = 0b00#2 ∨ digit = 0b01#2 ∨ digit = 0b10#2 ∨ digit = 0b11#2 := by
    revert digit
    decide
  rcases hcases with rfl | rfl | rfl | rfl <;>
    simp [nibble, BitVec.extractLsb'_toNat, Nat.shiftRight_eq_div_pow]

/-- Concatenation puts the lower part into the low bits. -/
theorem toNat_append_eq {m n : ℕ} (x : BitVec m) (y : BitVec n) :
    (x ++ y).toNat = x.toNat * 2 ^ n + y.toNat := by
  rw [BitVec.toNat_append, ← Nat.shiftLeft_add_eq_or_of_lt y.isLt, Nat.shiftLeft_eq]

/-- The four digits in one word. -/
theorem toNat_bcdVal (v : BitVec 16) :
    (SevSegDisp.bcdVal v).toNat = Nat.ofDigits 16 (bcd v).digits := by
  simp only [SevSegDisp.bcdVal, Bcd.digits, toNat_append_eq, Nat.ofDigits_cons, Nat.ofDigits_nil]
  omega

/-- **Each position shows its digit.** In decimal mode (hexadecimal mode) the mux hands to every
position of the display the decimal (hexadecimal) digit of the value at that position. Higher
digits than the four are cut off. -/
theorem nibble_hexVal (mode : Bool) (v : BitVec 16) (digit : BitVec 2) :
    (nibble digit (SevSegDisp.hexVal mode v)).toNat
      = (Nat.digits (displayBase mode) v.toNat).getD digit.toNat 0 := by
  rw [toNat_nibble]
  cases mode with
  | false => exact (Nat.getD_digits _ _ (by decide)).symm
  | true =>
      obtain ⟨hvalue, hlt⟩ := digits_bcd v
      rw [SevSegDisp.hexVal, if_pos rfl, toNat_bcdVal, Digits.ofDigits_div_pow_mod
        fun d hd => (hlt d hd).trans (by decide), ← Digits.ofDigits_div_pow_mod hlt, hvalue]
      exact (mod_digit v.toNat digit.isLt).trans (Nat.getD_digits _ _ (by decide)).symm

/-! ### `CathodeDriver` -/

namespace CathodeDriver

/-- The edges of `CLK` before the next one that raises `s_clk_500`. The counter goes up to
`0x186A0`, and wraps at 20 bits when it starts above that. -/
def left (d : CathodeDriver) : ℕ :=
  (0x186A0#20 - d.clkDivCounter).toNat + if d.sClk500 then 100001 else 0

/-- The edges of `CLK` from one rise of `s_clk_500` to the next. -/
def refreshPeriod : ℕ := 200002

/-- The first refresh is never further than one wrap of the counter and half a period. -/
theorem left_lt (d : CathodeDriver) : d.left < 2 ^ 20 + 100001 := by
  have := (0x186A0#20 - d.clkDivCounter).isLt
  rw [left]
  split <;> omega

/-- The counter is at its end. -/
theorem counter_eq_iff (d : CathodeDriver) :
    d.clkDivCounter = 0x186A0#20 ↔ (0x186A0#20 - d.clkDivCounter).toNat = 0 := by
  constructor <;> intro h <;> bv_omega

/-- The refresh is at the end of the count, unless `s_reset` is high. -/
theorem refreshes_iff (d : CathodeDriver) (sReset : Bool) :
    d.refreshes sReset = true ↔ sReset = false ∧ d.left = 0 := by
  rw [left, Nat.add_eq_zero_iff, ← counter_eq_iff]
  cases sReset <;> cases hclk : d.sClk500 <;> simp [refreshes, nextClk500, hclk]

/-- Without `s_reset` the driver is periodic. -/
theorem periodic : Periodic step (fun i => i.sReset = false) left refreshPeriod where
  wait := by
    intro d i hi hleft
    have hne := counter_eq_iff d
    by_cases hend : d.clkDivCounter = 0x186A0#20
    · -- the counter starts over, and `s_clk_500` falls
      have hhigh : d.sClk500 = true := by
        cases hclk : d.sClk500 with
        | false => exact absurd (by simp [left, hne.mp hend, hclk]) hleft
        | true => rfl
      simp [left, step, nextCounter, nextClk500, hi, hend, hhigh]
    · have hcount : (0x186A0#20 - (d.clkDivCounter + 1#20)).toNat
          = (0x186A0#20 - d.clkDivCounter).toNat - 1 := by bv_omega
      have hpos := mt hne.mpr hend
      simp only [left, step, nextCounter, nextClk500, hi, hend, Bool.false_eq_true, if_false,
        hcount]
      omega
  reload := by
    intro d i hi hleft
    obtain ⟨hcount, hclk⟩ := Nat.add_eq_zero_iff.mp hleft
    have hend := (counter_eq_iff d).mpr hcount
    have hlow : d.sClk500 = false := by simpa using hclk
    simp [left, step, nextCounter, nextClk500, hi, hend, hlow, refreshPeriod]

/-- The pins and the next digit, which only a refresh changes. -/
def shown (d : CathodeDriver) : BitVec 8 × BitVec 4 × BitVec 2 :=
  (d.cathodes, d.anodes, d.dispDigit)

/-- An edge without a refresh. -/
theorem shown_wait {d : CathodeDriver} {i : CathodeInput} (h : d.refreshes i.sReset = false) :
    (d.step i).shown = d.shown := by
  simp [shown, step, h]

/-- The edges before a refresh. -/
theorem shown_wait_left (d : CathodeDriver) (i : CathodeInput) (_ : i.sReset = false)
    (h : d.left ≠ 0) : (d.step i).shown = d.shown :=
  shown_wait (Bool.eq_false_iff.mpr fun hr => h ((refreshes_iff d i.sReset).mp hr).2)

/-- A refresh shows the digit that was next. It never resets the digit, as a high `s_reset` keeps
`s_clk_500` from rising. -/
theorem shown_refresh {d : CathodeDriver} {i : CathodeInput} (h : d.refreshes i.sReset = true) :
    (d.step i).shown
      = (segments (nibble d.dispDigit i.hex), anode d.dispDigit, d.dispDigit + 1#2) := by
  have hreset := ((refreshes_iff d i.sReset).mp h).1
  rw [shown, step, if_pos h, refresh, hreset]
  rfl

/-- **The digit counts refreshes, across all resets.** Under every input stream the digit that is
next moves on by one at each refresh and never else, so behind the first refresh exactly one anode
is low, the one of the digit before. -/
theorem digit_run (d : CathodeDriver) (inp : ℕ → CathodeInput) (n : ℕ) :
    (d.run inp n).dispDigit = d.dispDigit
        + BitVec.ofNat 2 (Nat.count (fun k => (d.run inp k).refreshes (inp k).sReset = true) n) ∧
      (0 < Nat.count (fun k => (d.run inp k).refreshes (inp k).sReset = true) n →
        (d.run inp n).anodes = anode ((d.run inp n).dispDigit - 1#2)) := by
  induction n with
  | zero =>
      rw [Nat.count_zero]
      exact ⟨(BitVec.add_zero _).symm, fun h => absurd h (Nat.lt_irrefl 0)⟩
  | succ n ih =>
      obtain ⟨hdigit, hanode⟩ := ih
      rw [Nat.count_succ]
      cases hr : (d.run inp n).refreshes (inp n).sReset with
      | false =>
          have hshown := shown_wait hr
          rw [shown, shown, Prod.mk.injEq, Prod.mk.injEq] at hshown
          rw [show d.run inp (n + 1) = (d.run inp n).step (inp n) from rfl, hshown.2.1, hshown.2.2]
          exact ⟨hdigit, hanode⟩
      | true =>
          have hshown := shown_refresh hr
          rw [shown, Prod.mk.injEq, Prod.mk.injEq] at hshown
          rw [show d.run inp (n + 1) = (d.run inp n).step (inp n) from rfl, hshown.2.1, hshown.2.2,
            hdigit, if_pos rfl]
          refine ⟨?_, fun _ => ?_⟩
          · rw [BitVec.ofNat_add, BitVec.add_assoc]
          · rw [BitVec.add_sub_cancel]

/-- The digit moves on by one a time. -/
theorem iterate_add_one (x : BitVec 2) (j : ℕ) :
    (fun y : BitVec 2 => y + 1#2)^[j] x = x + BitVec.ofNat 2 j := by
  induction j with
  | zero => exact (BitVec.add_zero x).symm
  | succ j ih => rw [Function.iterate_succ_apply', ih, BitVec.ofNat_add, BitVec.add_assoc]

/-- The pins between two refreshes. -/
theorem shown_run (d : CathodeDriver) {inp : ℕ → CathodeInput}
    (hreset : ∀ k, (inp k).sReset = false) (j : ℕ) {n : ℕ} (hlow : d.left + j * refreshPeriod < n)
    (hhigh : n ≤ d.left + (j + 1) * refreshPeriod) :
    (d.run inp n).shown
      = (segments (nibble (d.dispDigit + BitVec.ofNat 2 j)
          (inp (d.left + j * refreshPeriod)).hex),
        anode (d.dispDigit + BitVec.ofNat 2 j), d.dispDigit + BitVec.ofNat 2 j + 1#2) := by
  have hfire : ∀ (s : CathodeDriver) (i : CathodeInput), i.sReset = false → s.left = 0 →
      (s.step i).shown = _ := fun s i hi hzero =>
    shown_refresh ((refreshes_iff s i.sReset).mpr ⟨hi, hzero⟩)
  -- the digit before refresh `j`
  have hdigit := periodic.iterate (s := d) hreset (g := CathodeDriver.dispDigit)
    (f := fun y => y + 1#2)
    (fun s i hi hne => congrArg (fun x => x.2.2) (shown_wait_left s i hi hne))
    (fun s i hi hzero => congrArg (fun x => x.2.2) (hfire s i hi hzero)) j
  rw [iterate_add_one] at hdigit
  rw [run, periodic.held hreset shown_wait_left j hlow hhigh, run_succ,
    hfire _ _ (hreset _) (periodic.left_fire hreset j), hdigit]

end CathodeDriver

/-! ### `SevSegDisp` -/

/-- The pins light the position `digit` with the digit that `v` has there in base `b`. -/
def CathodeDriver.Shows (d : CathodeDriver) (b : ℕ) (v : BitVec 16) (digit : BitVec 2) : Prop :=
  d.anodes = anode digit ∧
    d.cathodes = segments (BitVec.ofNat 4 ((Nat.digits b v.toNat).getD digit.toNat 0))

/-- The display is its driver behind the mux. -/
theorem SevSegDisp.run_eq (d : CathodeDriver) (inp : ℕ → DisplayInput) (n : ℕ) :
    run d inp n = d.run (fun k => cathodeInput (inp k)) n := by
  induction n with
  | zero => rfl
  | succ n ih => exact congrArg (fun s => CathodeDriver.step s (cathodeInput (inp n))) ih

/-- The pins between two refreshes show a digit of the value at the first of them. -/
theorem SevSegDisp.shows_run (d : CathodeDriver) {inp : ℕ → DisplayInput}
    (hreset : ∀ k, (inp k).sReset = false) (j : ℕ) {n : ℕ}
    (hlow : d.left + j * CathodeDriver.refreshPeriod < n)
    (hhigh : n ≤ d.left + (j + 1) * CathodeDriver.refreshPeriod) :
    (run d inp n).Shows (displayBase (inp (d.left + j * CathodeDriver.refreshPeriod)).mode)
      (inp (d.left + j * CathodeDriver.refreshPeriod)).dataIn
      (d.dispDigit + BitVec.ofNat 2 j) := by
  have hcathode : ∀ k, (cathodeInput (inp k)).sReset = false := hreset
  have hshown := d.shown_run hcathode j hlow hhigh
  rw [← run_eq, CathodeDriver.shown, Prod.mk.injEq, Prod.mk.injEq] at hshown
  refine ⟨hshown.2.1, hshown.1.trans ?_⟩
  rw [← nibble_hexVal, BitVec.ofNat_toNat, BitVec.setWidth_eq]
  rfl

/-- **The display scans its input, on a fixed schedule.** From any state, with `s_reset` low, the
refreshes are `refreshPeriod` edges of `CLK` apart. The first one is within one wrap of the counter
and half a period, and up to it the pins do not change. Between refresh `j` and the next they show
position `j` behind the first one, with the digit that the input of that refresh has there: the
decimal one, or the hexadecimal one. -/
theorem SevSegDisp.scan (d : CathodeDriver) {inp : ℕ → DisplayInput}
    (hreset : ∀ k, (inp k).sReset = false) :
    d.left < 2 ^ 20 + 100001 ∧
      (∀ n ≤ d.left, (run d inp n).anodes = d.anodes ∧ (run d inp n).cathodes = d.cathodes) ∧
      ∀ j n, d.left + j * CathodeDriver.refreshPeriod < n →
        n ≤ d.left + (j + 1) * CathodeDriver.refreshPeriod →
        (run d inp n).Shows (displayBase (inp (d.left + j * CathodeDriver.refreshPeriod)).mode)
          (inp (d.left + j * CathodeDriver.refreshPeriod)).dataIn
          (d.dispDigit + BitVec.ofNat 2 j) := by
  refine ⟨d.left_lt, fun n hn => ?_, fun j n => shows_run d hreset j⟩
  have hcathode : ∀ k, (cathodeInput (inp k)).sReset = false := hreset
  have hshown := CathodeDriver.periodic.held_first hcathode CathodeDriver.shown_wait_left hn
  rw [← CathodeDriver.run, ← run_eq, CathodeDriver.shown, CathodeDriver.shown, Prod.mk.injEq,
    Prod.mk.injEq] at hshown
  exact ⟨hshown.2.1, hshown.1⟩

/-- 12345 in decimal: the third refresh behind the first one lights the thousands with a 2. -/
theorem SevSegDisp.scan_thousands :
    let d : CathodeDriver := ⟨false, 0b00#2, 0x186A0#20, 0xFF#8, 0xF#4⟩
    let inp : ℕ → DisplayInput := fun _ => ⟨true, false, 12345#16⟩
    (run d inp 600007).anodes = 0b0111#4 ∧ (run d inp 600007).cathodes = segments 2#4 := by
  intro d inp
  have hreset : ∀ k, (inp k).sReset = false := fun _ => rfl
  have hshows := (SevSegDisp.scan d hreset).2.2 3 600007 (by decide) (by decide)
  have hdigit : (Nat.digits 10 12345).getD 3 0 = 2 := by norm_num
  exact ⟨hshows.1, hshows.2.trans (congrArg (fun x => segments (BitVec.ofNat 4 x)) hdigit)⟩

end Rv32iPipeline
