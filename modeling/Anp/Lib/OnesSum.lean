import Mathlib.Data.Nat.ModEq
import Mathlib.Algebra.BigOperators.Group.List.Basic

/-!
# OnesSum — one's complement sums of 16-bit words

* **`onesAdd`**, **`onesSum`** — addition with the end-around carry.

Both are the sum modulo `65535`, with `65535` and not `0` for a sum that is not `0`; that
determines a number below `65536`.
-/

namespace OnesSum

variable {l : List Nat} {r s : Nat}

/-- One's complement addition. -/
def onesAdd (a b : Nat) : Nat := if a + b < 65536 then a + b else a + b - 65535

/-- The sum of a list with the end-around carry. -/
def onesSum (l : List Nat) : Nat := l.foldl onesAdd 0

/-- The carries added back in. -/
def fold (s : Nat) : Nat := s % 65536 + s / 65536

/-- `r` is the one's complement representative of the number `s`. -/
structure Represents (r s : Nat) : Prop where
  lt : r < 65536
  mod : r % 65535 = s % 65535
  zero : r = 0 ↔ s = 0

theorem Represents.unique {r' : Nat} (h : Represents r s) (h' : Represents r' s) : r = r' := by
  have hmod := h.mod.trans h'.mod.symm
  have hzero := h.zero.trans h'.zero.symm
  have hlt := h.lt
  have hlt' := h'.lt
  omega

theorem Represents.complement {c : Nat} (h : Represents r s) (hc : Represents c (s + (65535 - r))) :
    c = 65535 := by
  have hlt := h.lt
  have hmod := h.mod
  have hzero := h.zero
  have hclt := hc.lt
  have hcmod := hc.mod
  have hczero := hc.zero
  omega

theorem Represents.add {w : Nat} (h : Represents r s) (hw : w < 65536) :
    Represents (onesAdd r w) (s + w) := by
  have hlt := h.lt
  have hmod := h.mod
  have hzero := h.zero
  constructor
  · rw [onesAdd]
    split <;> omega
  · rw [onesAdd]
    split <;> omega
  · rw [onesAdd]
    split <;> omega

theorem represents_foldl (hl : ∀ w ∈ l, w < 65536) (h : Represents r s) :
    Represents (l.foldl onesAdd r) (s + l.sum) := by
  induction l generalizing r s with
  | nil => exact h
  | cons w l ih =>
    rw [List.forall_mem_cons] at hl
    rw [List.foldl_cons, List.sum_cons, ← Nat.add_assoc]
    exact ih hl.2 (h.add hl.1)

theorem represents_onesSum (hl : ∀ w ∈ l, w < 65536) :
    Represents (onesSum l) l.sum := by
  have h0 : Represents 0 0 := ⟨by decide, rfl, Iff.rfl⟩
  have h := represents_foldl hl h0
  rwa [Nat.zero_add] at h

theorem represents_fold_fold (h : s < 4294967296) : Represents (fold (fold s)) s := by
  have hf : fold s ≤ 131070 ∧ fold s % 65535 = s % 65535 ∧ (fold s = 0 ↔ s = 0) := by
    rw [fold]
    omega
  constructor
  · rw [fold]
    omega
  · rw [fold]
    omega
  · rw [fold]
    omega

/-! ## Sums with one representative -/

/-- `r` and `s` have the same one's complement representative. -/
structure Same (r s : Nat) : Prop where
  mod : r % 65535 = s % 65535
  zero : r = 0 ↔ s = 0

theorem Same.refl (s : Nat) : Same s s := ⟨rfl, Iff.rfl⟩

theorem Same.symm (h : Same r s) : Same s r := ⟨h.mod.symm, h.zero.symm⟩

theorem Same.trans {t : Nat} (h : Same r s) (h' : Same s t) : Same r t :=
  ⟨h.mod.trans h'.mod, h.zero.trans h'.zero⟩

theorem Same.add {r' s' : Nat} (h : Same r s) (h' : Same r' s') :
    Same (r + r') (s + s') where
  mod := Nat.ModEq.add h.mod h'.mod
  zero := by rw [Nat.add_eq_zero_iff, Nat.add_eq_zero_iff, h.zero, h'.zero]

theorem Same.mul (h : Same r s) (k : Nat) : Same (k * r) (k * s) where
  mod := Nat.ModEq.mul_left k h.mod
  zero := by rw [Nat.mul_eq_zero, Nat.mul_eq_zero, h.zero]

theorem Same.mul_base (s : Nat) : Same (65536 * s) s := by
  constructor <;> omega

theorem Represents.of_same (hr : r < 65536) (h : Same r s) : Represents r s := ⟨hr, h.mod, h.zero⟩

/-- Folding a plain sum twice gives the one's complement sum. -/
theorem fold_fold_eq (hl : ∀ w ∈ l, w < 65536) (h : l.sum < 4294967296) :
    fold (fold l.sum) = onesSum l :=
  (represents_fold_fold h).unique (represents_onesSum hl)

end OnesSum
