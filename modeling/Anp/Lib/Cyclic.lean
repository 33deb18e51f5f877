import Mathlib.Data.BitVec
import Mathlib.Tactic.Ring

/-!
# Cyclic — comparison on a circle of machine words

Serial numbers that wrap (sequence numbers, timestamps, tick counts) are compared by the
sign of their difference: `a` is before `b` when `(int)(a - b) < 0`. On the whole circle
that is no order at all; on any arc shorter than half the circle it is the order of the
unbounded integers the words stand for. This module is that fact, stated once:

* **`gap a b`** — the signed difference of two words;
* **`adv b z`** — the word `z` places after `b`, for an unbounded integer `z`.

A development keeps the unbounded `z` in its invariants and turns every comparison of the
code into one of integers with the last lemma. Nothing here depends on what the words count.
-/

namespace Cyclic

variable {w : Nat}

/-- The signed difference of two words: `(int)(a - b)`. -/
def gap (a b : BitVec w) : Int := (a - b).toInt

/-- The word `z` places after `b` on the circle. -/
def adv (b : BitVec w) (z : Int) : BitVec w := b + BitVec.ofInt w z

/-! ## `adv` composes -/

section

variable (b : BitVec w)
include b

@[simp] theorem adv_zero : adv b 0 = b := by
  simp [adv]

theorem adv_adv (x y : Int) : adv (adv b x) y = adv b (x + y) := by
  simp only [adv, BitVec.ofInt_add, BitVec.add_assoc]

theorem adv_add_ofNat (x : Int) (n : Nat) :
    adv b x + BitVec.ofNat w n = adv b (x + n) := by
  rw [← adv_adv, adv, adv, BitVec.ofInt_natCast]

theorem add_ofNat_eq_adv (n : Nat) : b + BitVec.ofNat w n = adv b n := by
  rw [adv, BitVec.ofInt_natCast]

theorem add_one_eq_adv : b + 1 = adv b 1 := by
  have h := add_ofNat_eq_adv b 1
  simpa using h

theorem adv_sub_one (x : Int) : adv b x - 1 = adv b (x - 1) := by
  rw [show adv b x = adv (adv b (x - 1)) 1 from by rw [adv_adv]; congr 1; omega,
    ← add_one_eq_adv, BitVec.add_sub_cancel]

theorem adv_sub_adv (x y : Int) :
    adv b x - adv b y = BitVec.ofInt w (x - y) := by
  have h : adv b x = BitVec.ofInt w (x - y) + adv b y := by
    rw [show adv b x = adv (adv b y) (x - y) from by rw [adv_adv]; congr 1; omega]
    rw [adv, BitVec.add_comm]
  rw [h, BitVec.add_sub_cancel]

end

/-- Every word is some number of places after any other: the gap itself. -/
theorem adv_gap (a b : BitVec w) : adv b (gap a b) = a := by
  rw [adv, gap, BitVec.ofInt_toInt, BitVec.add_comm, BitVec.sub_add_cancel]

/-! ## `gap` of two advanced words -/

theorem gap_adv_adv_bmod (b : BitVec w) (x y : Int) :
    gap (adv b x) (adv b y) = (x - y).bmod (2 ^ w) := by
  rw [gap, adv_sub_adv, BitVec.toInt_ofInt]

/-- **Comparison on an arc.** Two places less than half the circle apart differ, as signed words, by
their integer difference. -/
theorem gap_adv_adv (b : BitVec w) {x y : Int} (hlo : -(2 ^ w : Nat) ≤ (x - y) * 2)
    (hhi : (x - y) * 2 < (2 ^ w : Nat)) : gap (adv b x) (adv b y) = x - y := by
  rw [gap_adv_adv_bmod, Int.bmod_eq_of_le_mul_two hlo hhi]

theorem gap_self (a : BitVec w) : gap a a = 0 := by
  simp [gap]

theorem gap_eq_zero_iff {a b : BitVec w} : gap a b = 0 ↔ a = b := by
  constructor
  · intro h
    rw [← adv_gap a b, h, adv_zero]
  · rintro rfl
    exact gap_self a

/-- Two places closer than a whole circle are equal words only when they are the same place. -/
theorem adv_inj (b : BitVec w) {x y : Int} (hlo : -(2 ^ w : Nat) < x - y)
    (hhi : x - y < (2 ^ w : Nat)) (h : adv b x = adv b y) : x = y := by
  have hsub : BitVec.ofInt w (x - y) = 0#w := by
    rw [← adv_sub_adv b x y, h, BitVec.sub_self]
  have hmod : (x - y) % (2 ^ w : Nat) = 0 := by
    have hnat := congrArg BitVec.toNat hsub
    rw [BitVec.toNat_ofInt, BitVec.toNat_ofNat, Nat.zero_mod] at hnat
    omega
  have hdvd : ((2 ^ w : Nat) : Int) ∣ x - y := Int.dvd_of_emod_eq_zero hmod
  have hzero : x - y = 0 := Int.eq_zero_of_abs_lt_dvd hdvd (abs_lt.2 ⟨hlo, hhi⟩)
  omega

end Cyclic
