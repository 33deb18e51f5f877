import Mathlib.Algebra.Ring.Nat
import Mathlib.Data.Finset.Basic
import Mathlib.Data.List.Infix

/-!
# Tiling — collecting the pieces of a sequence

A sequence is cut into pieces that follow each other without a gap (`Tiled`), and the pieces are
collected in any order and more than once. The pieces collected so far, `l.filter (· ∈ S)`, are
kept in order.
-/

namespace Tiling

variable {α : Type*} (off len : α → Nat)

/-- The pieces follow each other from `o` on; none is empty. -/
def Tiled : Nat → List α → Prop
  | _, [] => True
  | o, a :: l => off a = o ∧ 0 < len a ∧ Tiled (o + len a) l

variable {off len}

variable {o : Nat} {l : List α}

theorem Tiled.le_off (h : Tiled off len o l) :
    ∀ a ∈ l, o ≤ off a ∧ 0 < len a := by
  induction l generalizing o with
  | nil => simp
  | cons b l ih =>
    obtain ⟨ho, hpos, hl⟩ := h
    intro a ha
    rcases List.mem_cons.mp ha with rfl | ha
    · omega
    · have := ih hl a ha
      omega

theorem tiled_append {l l' : List α} :
    Tiled off len o (l ++ l') ↔ Tiled off len o l ∧ Tiled off len (o + (l.map len).sum) l' := by
  induction l generalizing o with
  | nil => simp [Tiled]
  | cons a l ih =>
    rw [List.cons_append, Tiled, Tiled, ih, List.map_cons, List.sum_cons, Nat.add_assoc]
    tauto

theorem Tiled.end_le (h : Tiled off len o l) :
    ∀ a ∈ l, off a + len a ≤ o + (l.map len).sum := by
  induction l generalizing o with
  | nil => simp
  | cons b l ih =>
    obtain ⟨ho, hpos, hl⟩ := h
    intro a ha
    rw [List.map_cons, List.sum_cons]
    rcases List.mem_cons.mp ha with rfl | ha
    · omega
    · have := ih hl a ha
      omega

section

variable {o : Nat} {l l' : List α} {a : α}

section

variable (h : Tiled off len o (l ++ a :: l'))
include h

theorem Tiled.off_mid : off a = o + (l.map len).sum := (tiled_append.mp h).2.1

/-- The pieces before one end where it begins, or earlier. -/
theorem Tiled.before : ∀ b ∈ l, off b + len b ≤ off a := by
  intro b hb
  rw [h.off_mid]
  exact (tiled_append.mp h).1.end_le b hb

/-- The pieces after one begin where it ends, or later. -/
theorem Tiled.after : ∀ b ∈ l', off a + len a ≤ off b := by
  intro b hb
  rw [h.off_mid]
  exact ((tiled_append.mp h).2.2.2.le_off b hb).1

theorem Tiled.not_mem : a ∉ l ∧ a ∉ l' := by
  have hpos : 0 < len a := (h.le_off a (by simp)).2
  constructor
  · intro ha
    have := h.before a ha
    omega
  · intro ha
    have := h.after a ha
    omega

variable [DecidableEq α]

/-- **A new piece** is put between the pieces before it and those after it. -/
theorem Tiled.filter_insert (S : Finset α) :
    (l ++ a :: l').filter (fun b => decide (b ∈ insert a S))
      = l.filter (fun b => decide (b ∈ S)) ++ a :: l'.filter (fun b => decide (b ∈ S)) := by
  obtain ⟨hl, hl'⟩ := h.not_mem
  have hcongr : ∀ k : List α, a ∉ k →
      k.filter (fun b => decide (b ∈ insert a S)) = k.filter (fun b => decide (b ∈ S)) := by
    intro k hk
    apply List.filter_congr
    intro b hb
    have hne : b ≠ a := by
      rintro rfl
      exact hk hb
    simp [hne]
  rw [List.filter_append, List.filter_cons_of_pos (by simp), hcongr l hl, hcongr l' hl']

end

end

/-- **Pieces without a gap.** If some of the pieces of a tiling follow each other from its start
on, they are the first ones. -/
theorem Tiled.filter_isPrefix {p : α → Bool} (h : Tiled off len o l)
    (hp : Tiled off len o (l.filter p)) : l.filter p <+: l := by
  induction l generalizing o with
  | nil => exact List.nil_prefix
  | cons a l ih =>
    obtain ⟨ho, hpos, hl⟩ := h
    by_cases ha : p a = true
    · rw [List.filter_cons_of_pos ha] at hp ⊢
      exact List.cons_prefix_cons.mpr ⟨rfl, ih hl hp.2.2⟩
    · -- the first piece is missing, and none of the others starts where it does
      rw [List.filter_cons_of_neg ha] at hp ⊢
      cases hf : l.filter p with
      | nil => exact List.nil_prefix
      | cons b k =>
        rw [hf] at hp
        have hb : b ∈ l := List.mem_of_mem_filter (hf ▸ List.mem_cons_self)
        have := (hl.le_off b hb).1
        have := hp.1
        omega

/-! ## Collectors -/

section

variable [DecidableEq α] (all : Finset α)

/-- A piece arrives: the pieces collected since the last report, and whether they are all. -/
def collect (S : Finset α) (a : α) : Finset α × Bool :=
  if insert a S = all then (∅, true) else (insert a S, false)

/-- The reports for a sequence of arrivals. -/
def reports : Finset α → List α → List Bool
  | _, [] => []
  | S, a :: l => (collect all S a).2 :: reports (collect all S a).1 l

end

end Tiling
