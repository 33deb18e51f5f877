import Mathlib.Logic.Relation

/-!
# Runs — reachable states and invariants

A system is a set of initial states and a step relation. `Reach init next s` says that some
run from an initial state leads to `s`; a condition on the steps is part of `next`.
-/

namespace Runs

variable {σ : Type*}

variable {s : σ} {init : σ → Prop}

/-- Some run leads from an initial state to `s`. -/
def Reach (init : σ → Prop) (next : σ → σ → Prop) (s : σ) : Prop :=
  ∃ s₀, init s₀ ∧ Relation.ReflTransGen next s₀ s

theorem Reach.start {next : σ → σ → Prop} (h : init s) :
    Reach init next s :=
  ⟨s, h, .refl⟩

theorem Reach.step {init : σ → Prop} {next : σ → σ → Prop} {s s' : σ} (h : Reach init next s)
    (hs : next s s') : Reach init next s' := by
  obtain ⟨s0, h0, hrun⟩ := h
  exact ⟨s0, h0, hrun.tail hs⟩

/-- **Invariant rule.** What holds at the start and is kept by every step holds in every
reachable state. -/
theorem Reach.invariant {next : σ → σ → Prop} {I : σ → Prop} (hinit : ∀ s, init s → I s)
    (hstep : ∀ s s', I s → next s s' → I s') (h : Reach init next s) : I s := by
  obtain ⟨s0, h0, hrun⟩ := h
  induction hrun with
  | refl => exact hinit s0 h0
  | tail _ hs ih => exact hstep _ _ ih hs

/-! ## Runs of operations -/

section

variable {α : Type*} (step : σ → α → σ) (C : σ → α → Prop)

/-- One operation that meets the condition `C`. -/
def By (s s' : σ) : Prop := ∃ a, C s a ∧ s' = step s a

/-- Every operation of the list meets the condition where it is carried out. -/
def MeetsAll : σ → List α → Prop
  | _, [] => True
  | s, a :: l => C s a ∧ MeetsAll (step s a) l

instance MeetsAll.instDecidable [∀ s a, Decidable (C s a)] :
    (s : σ) → (l : List α) → Decidable (MeetsAll step C s l)
  | _, [] => .isTrue trivial
  | s, a :: l =>
    have := MeetsAll.instDecidable (step s a) l
    inferInstanceAs (Decidable (C s a ∧ MeetsAll step C (step s a) l))

variable {step C}

theorem Reach.foldl {l : List α} (h : Reach init (By step C) s) (hl : MeetsAll step C s l) :
    Reach init (By step C) (l.foldl step s) := by
  induction l generalizing s with
  | nil => exact h
  | cons a l ih => exact ih (h.step ⟨a, hl.1, rfl⟩) hl.2

theorem MeetsAll.trivial (s : σ) (l : List α) : MeetsAll step (fun _ _ => True) s l := by
  induction l generalizing s with
  | nil => exact True.intro
  | cons a l ih => exact ⟨True.intro, ih _⟩

/-- **Invariant rule for operations.** -/
theorem Reach.ops {I : σ → Prop} (hinit : ∀ s, init s → I s)
    (hstep : ∀ s a, I s → C s a → I (step s a)) (h : Reach init (By step C) s) : I s := by
  refine h.invariant hinit ?_
  rintro s _ hI ⟨a, ha, rfl⟩
  exact hstep s a hI ha

end

end Runs
