import Mathlib.Data.List.Basic

/-!
# Lists — one place of a list replaced
-/

namespace Lists

variable {α : Type*}

/-- A list taken apart at place `i`, and put together again with another element there. -/
theorem exists_set_eq {l : List α} {i : Nat} {c : α} (h : l[i]? = some c) :
    ∃ a b, l = a ++ c :: b ∧ ∀ c', l.set i c' = a ++ c' :: b := by
  obtain ⟨hi, hc⟩ := List.getElem?_eq_some_iff.mp h
  refine ⟨l.take i, l.drop (i + 1), ?_, fun c' => ?_⟩
  · rw [← hc, List.getElem_cons_drop, List.take_append_drop]
  · rw [List.set_eq_take_append_cons_drop, if_pos hi]

end Lists
