import Mathlib.Tactic.Common
import Mathlib.Logic.Function.Basic

/-!
# `Rv32iPipeline.Memory.LittleEndian`: byte memories and word arrays

`Bytes n` is a memory of `2 ^ n` bytes. `Bytes.store` writes the low bytes of a value at
consecutive addresses, low byte first, and `Bytes.load` reads them back. Addresses wrap.

`wordBytes` is the byte view of an array of 32-bit words. For an access that stays inside one
word:

* `wordBytes_update`: an update of that word, given lane by lane, is a `store`;
* `load_wordBytes`: a `load` is a slice of that word.
-/

set_option autoImplicit false

namespace LittleEndian

variable {n : ℕ}

/-- A memory of bytes on `n`-bit addresses. -/
abbrev Bytes (n : ℕ) := BitVec n → BitVec 8

/-- Byte `k` of a value. -/
def byteAt {w : ℕ} (v : BitVec w) (k : ℕ) : BitVec 8 := v.extractLsb' (8 * k) 8

/-- A 32-bit value is its four bytes. -/
theorem eq_of_byteAt {v w : BitVec 32} (h : ∀ k < 4, byteAt v k = byteAt w k) : v = w := by
  ext i hi
  have hk := congrArg (fun b : BitVec 8 => b.getLsbD (i % 8)) (h (i / 8) (by omega))
  simp only [byteAt, BitVec.getLsbD_extractLsb'] at hk
  rw [show 8 * (i / 8) + i % 8 = i by omega, decide_eq_true (show i % 8 < 8 by omega),
    Bool.true_and, Bool.true_and] at hk
  simpa [BitVec.getLsbD_eq_getElem hi] using hk

/-- A byte of the low part of a concatenation. -/
theorem byteAt_append_low {p q : ℕ} (x : BitVec p) (y : BitVec q) {k : ℕ} (h : 8 * k + 8 ≤ q) :
    byteAt (x ++ y) k = byteAt y k := by
  ext i hi
  simp only [byteAt, BitVec.getElem_extractLsb', BitVec.getLsbD_append]
  rw [if_pos (show 8 * k + i < q by omega)]

/-- A byte of the high part. -/
theorem byteAt_append_high {p q : ℕ} (x : BitVec p) (y : BitVec q) {k : ℕ} (hq : q % 8 = 0)
    (h : q ≤ 8 * k) : byteAt (x ++ y) k = byteAt x (k - q / 8) := by
  ext i hi
  simp only [byteAt, BitVec.getElem_extractLsb', BitVec.getLsbD_append]
  rw [if_neg (show ¬ 8 * k + i < q by omega), show 8 * (k - q / 8) + i = 8 * k + i - q by omega]

/-- A byte of a slice that starts at a byte. -/
theorem byteAt_extractLsb' {w : ℕ} (v : BitVec w) {start len k : ℕ} (hs : start % 8 = 0)
    (h : 8 * k + 8 ≤ len) : byteAt (v.extractLsb' start len) k = byteAt v (start / 8 + k) := by
  ext i hi
  simp only [byteAt, BitVec.getElem_extractLsb', BitVec.getLsbD_extractLsb']
  rw [decide_eq_true (show 8 * k + i < len by omega), Bool.true_and,
    show 8 * (start / 8 + k) + i = start + (8 * k + i) by omega]

/-- The low `len` bytes of `v` at the addresses from `a` on. -/
def Bytes.store {w : ℕ} (m : Bytes n) (a : BitVec n) (len : ℕ) (v : BitVec w) : Bytes n :=
  fun b => if (b - a).toNat < len then byteAt v (b - a).toNat else m b

/-- The `len` bytes at the addresses from `a` on, as an unsigned value. -/
def Bytes.load (m : Bytes n) (w : ℕ) (a : BitVec n) : ℕ → BitVec w
  | 0 => 0#w
  | len + 1 => Bytes.load m w (a + 1#n) len <<< 8 ||| (m a).setWidth w

/-- The index of the word that holds byte address `a`. -/
def wordOf (a : BitVec (n + 2)) : BitVec n := a.extractLsb' 2 n

/-- The lane of byte address `a` in its word. -/
def laneOf (a : BitVec (n + 2)) : ℕ := a.toNat % 4

/-- The byte view of an array of words. -/
def wordBytes (mem : BitVec n → BitVec 32) : Bytes (n + 2) :=
  fun a => byteAt (mem (wordOf a)) (laneOf a)

theorem laneOf_lt (a : BitVec (n + 2)) : laneOf a < 4 := Nat.mod_lt _ (by decide)

theorem toNat_wordOf (a : BitVec (n + 2)) : (wordOf a).toNat = a.toNat / 4 := by
  have hlt := a.isLt
  have hpow : 2 ^ (n + 2) = 2 ^ n * 4 := by rw [Nat.pow_add]
  rw [wordOf, BitVec.extractLsb'_toNat, Nat.shiftRight_eq_div_pow, Nat.mod_eq_of_lt]
  omega

/-- An address is its word index and its lane. -/
theorem toNat_eq (a : BitVec (n + 2)) : a.toNat = 4 * (wordOf a).toNat + laneOf a := by
  rw [toNat_wordOf, laneOf]
  omega

/-- The distance of an address from the start of an access that stays in its word. -/
theorem sub_lt_iff {a b : BitVec (n + 2)} {len : ℕ} (hfit : laneOf a + len ≤ 4) :
    (b - a).toNat < len
      ↔ wordOf b = wordOf a ∧ laneOf a ≤ laneOf b ∧ laneOf b < laneOf a + len := by
  have ha := a.isLt
  have hb := b.isLt
  have hpow : 2 ^ (n + 2) = 2 ^ n * 4 := by rw [Nat.pow_add]
  have hpos : 0 < 2 ^ n := Nat.two_pow_pos n
  have hea := toNat_eq a
  have heb := toNat_eq b
  have hla := laneOf_lt a
  have hlb := laneOf_lt b
  rw [BitVec.toNat_sub, BitVec.toNat_inj.symm]
  -- the difference wraps exactly when `b` lies before `a`
  by_cases hle : a.toNat ≤ b.toNat
  · have hsub : (2 ^ (n + 2) - a.toNat + b.toNat) % 2 ^ (n + 2) = b.toNat - a.toNat := by
      rw [show 2 ^ (n + 2) - a.toNat + b.toNat = b.toNat - a.toNat + 2 ^ (n + 2) by omega,
        Nat.add_mod_right, Nat.mod_eq_of_lt (by omega)]
    rw [hsub]
    omega
  · have hsub : (2 ^ (n + 2) - a.toNat + b.toNat) % 2 ^ (n + 2)
        = 2 ^ (n + 2) - a.toNat + b.toNat := Nat.mod_eq_of_lt (by omega)
    rw [hsub]
    omega

theorem toNat_sub_lane {a b : BitVec (n + 2)} {len : ℕ} (hfit : laneOf a + len ≤ 4)
    (h : (b - a).toNat < len) : (b - a).toNat = laneOf b - laneOf a := by
  have hword := (sub_lt_iff hfit).mp h
  have hea := toNat_eq a
  have heb := toNat_eq b
  have ha := a.isLt
  have hb := b.isLt
  -- in one word, so the difference is that of the lanes
  rw [hword.1] at heb
  rw [BitVec.toNat_sub,
    show 2 ^ (n + 2) - a.toNat + b.toNat = b.toNat - a.toNat + 2 ^ (n + 2) by omega,
    Nat.add_mod_right, Nat.mod_eq_of_lt (by omega)]
  omega

/-- An update of the word at `a` that changes the lanes of the access, and only them, is a
byte store. -/
theorem wordBytes_update (mem : BitVec n → BitVec 32) {a : BitVec (n + 2)} {len : ℕ}
    (hfit : laneOf a + len ≤ 4) (v w : BitVec 32)
    (hw : ∀ k < 4, byteAt w k = if laneOf a ≤ k ∧ k < laneOf a + len then byteAt v (k - laneOf a)
      else byteAt (mem (wordOf a)) k) :
    wordBytes (Function.update mem (wordOf a) w) = (wordBytes mem).store a len v := by
  funext b
  rw [wordBytes, Bytes.store]
  by_cases hb : wordOf b = wordOf a
  -- in the word of the access: the lanes decide
  · rw [hb, Function.update_self, hw _ (laneOf_lt b)]
    have hiff : (b - a).toNat < len ↔ laneOf a ≤ laneOf b ∧ laneOf b < laneOf a + len := by
      rw [sub_lt_iff hfit]
      exact and_iff_right hb
    by_cases hin : (b - a).toNat < len
    · rw [if_pos (hiff.mp hin), if_pos hin, toNat_sub_lane hfit hin]
    · rw [if_neg (fun h => hin (hiff.mpr h)), if_neg hin, wordBytes, hb]
  · rw [Function.update_of_ne hb, if_neg fun h => hb ((sub_lt_iff hfit).mp h).1, wordBytes]

/-- The next address stays in the word, away from the last lane. -/
theorem succ_of_lane_lt {a : BitVec (n + 2)} (h : laneOf a < 3) :
    wordOf (a + 1#(n + 2)) = wordOf a ∧ laneOf (a + 1#(n + 2)) = laneOf a + 1 := by
  have hlt := a.isLt
  have hpow : 2 ^ (n + 2) = 2 ^ n * 4 := by rw [Nat.pow_add]
  have hpos : 0 < 2 ^ n := Nat.two_pow_pos n
  have hsucc : (a + 1#(n + 2)).toNat = a.toNat + 1 := by
    have hone : (1#(n + 2)).toNat = 1 := by
      rw [BitVec.toNat_ofNat, Nat.mod_eq_of_lt (by omega)]
    unfold laneOf at h
    rw [BitVec.toNat_add, hone, Nat.mod_eq_of_lt (by omega)]
  refine ⟨BitVec.eq_of_toNat_eq ?_, ?_⟩
  · rw [toNat_wordOf, toNat_wordOf, hsucc]
    unfold laneOf at h
    omega
  · unfold laneOf at h ⊢
    omega

/-- A load inside one word is a slice of it. -/
theorem load_wordBytes (mem : BitVec n → BitVec 32) {a : BitVec (n + 2)} {len : ℕ}
    (hfit : laneOf a + len ≤ 4) :
    (wordBytes mem).load 32 a len
      = ((mem (wordOf a)).extractLsb' (8 * laneOf a) (8 * len)).setWidth 32 := by
  -- the first byte, and then the rest of the access one address on
  induction len generalizing a with
  | zero => simp [Bytes.load]
  | succ len ih =>
      have hrest : (wordBytes mem).load 32 (a + 1#(n + 2)) len
          = ((mem (wordOf a)).extractLsb' (8 * (laneOf a + 1)) (8 * len)).setWidth 32 := by
        -- with nothing left the next address may lie in the next word
        cases len with
        | zero => simp [Bytes.load]
        | succ len =>
            obtain ⟨hword, hlane⟩ := succ_of_lane_lt (a := a) (by omega)
            rw [ih (by omega), hword, hlane]
      rw [Bytes.load, hrest, wordBytes, byteAt]
      ext i hi
      simp only [BitVec.getElem_or, BitVec.getElem_shiftLeft, BitVec.getElem_setWidth,
        BitVec.getLsbD_extractLsb']
      by_cases h8 : i < 8
      · simp [h8]
        omega
      · simp [h8]
        grind

end LittleEndian
