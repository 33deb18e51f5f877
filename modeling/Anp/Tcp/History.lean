import Anp.Tcp.System

/-!
# History — a run and what is remembered of it

Some properties are about the past of a connection: the last segments, the window edges announced
so far. A `History` is a value kept beside the run that no operation reads. What a step adds to it
is a function of the state before the step and of the operation.
-/

namespace Anp

open Runs

structure History (γ : Type) where
  start : γ
  note : Sys → Op → World → γ → γ

namespace History

variable {γ : Type} (g : History γ)

inductive Next (C : Cond) : Outcome Unit × γ → Outcome Unit × γ → Prop where
  | mk {s : Sys} {op : Op} {w : World} {x : γ} (h : C s op w) :
      Next C (.ok () s, x) (step s op w, g.note s op w x)

/-- What a run whose steps all meet `C` can lead to, with what is remembered then. -/
def Reachable (C : Cond) : Outcome Unit × γ → Prop :=
  Reach (fun p => Init p.1 ∧ p.2 = g.start) (g.Next C)

variable {g} {C : Cond}

variable {p : Outcome Unit × γ}

/-- The invariant rule. -/
theorem Reachable.invariant {I : Outcome Unit → γ → Prop} (hinit : ∀ o, Init o → I o g.start)
    (hstep : ∀ s op w x, I (.ok () s) x → C s op w → I (step s op w) (g.note s op w x))
    (h : g.Reachable C p) : I p.1 p.2 := by
  apply Reach.invariant (I := fun p => I p.1 p.2) _ _ h
  · rintro p ⟨hi, hx⟩
    rw [hx]
    exact hinit p.1 hi
  · intro p p' hI hn
    cases hn with
    | mk hC => exact hstep _ _ _ _ hI hC

theorem Reachable.state (h : g.Reachable C p) : Anp.Reachable C p.1 := by
  refine Reachable.invariant (I := fun o _ => Anp.Reachable C o) ?_ ?_ h
  · exact fun o ho => Reach.start ho
  · exact fun s op w _ hr hC => Reach.step hr (.mk hC)

/-- The history of a run given by its operations. -/
def run (g : History γ) : Outcome Unit × γ → List (Op × World) → Outcome Unit × γ
  | p, [] => p
  | (.ok _ s, x), (op, w) :: l => run g (step s op w, g.note s op w x) l
  | (.stop why s, x), _ :: l => run g (.stop why s, x) l

theorem Reachable.run (h : g.Reachable C p) (l : List (Op × World))
    (hl : Meets C p.1 l) : g.Reachable C (g.run p l) := by
  induction l generalizing p with
  | nil => exact h
  | cons a l ih =>
    obtain ⟨o, x⟩ := p
    obtain ⟨op, w⟩ := a
    cases o with
    | ok u s => exact ih (Reach.step h (Next.mk hl.1)) hl.2
    | stop why s => exact ih h (by cases l <;> trivial)

end History

end Anp
