import Mathlib.Data.List.Chain
import Mathlib.Data.List.Nodup

/-!
# Links — singly linked lists threaded through a store

A store gives the link of every node it holds (`link x = none`: no node at `x`). `Seg link p l e`
says that the links lead from pointer `p` through the nodes `l` to pointer `e`; a whole list ends
in `none`. A ring has no end (`LinkRing`). The two walks of list code, to the predecessor of a node
(`prevOf`) and to the last node (`lastOf`), take a number of steps, since the links of a broken store
may form a cycle.
-/

namespace Links

variable {α : Type*} {link link' : α → Option (Option α)}

variable {a b l : List α} {n : Nat} {p : Option α} {h x z : α}

/-- The links lead from `p` through `l` to `e`. -/
def Seg (link : α → Option (Option α)) : Option α → List α → Option α → Prop
  | p, [], e => p = e
  | p, x :: l, e => p = some x ∧ ∃ n, link x = some n ∧ Seg link n l e

theorem Seg.congr {e : Option α} (h : Seg link p l e) (hl : ∀ x ∈ l, link' x = link x) :
    Seg link' p l e := by
  induction l generalizing p with
  | nil => exact h
  | cons x l ih =>
    obtain ⟨hp, n, hn, hs⟩ := h
    refine ⟨hp, n, ?_, ih hs fun y hy => hl y (List.mem_cons_of_mem x hy)⟩
    rw [hl x List.mem_cons_self]
    exact hn

/-- Segments compose. -/
theorem Seg.append {e : Option α} :
    Seg link p (a ++ b) e ↔ ∃ m, Seg link p a m ∧ Seg link m b e := by
  induction a generalizing p with
  | nil =>
    constructor
    · intro h
      exact ⟨p, rfl, h⟩
    · rintro ⟨m, rfl, h⟩
      exact h
  | cons x a ih =>
    constructor
    · rintro ⟨hp, n, hn, hs⟩
      obtain ⟨m, ha, hb⟩ := ih.mp hs
      exact ⟨m, ⟨hp, n, hn, ha⟩, hb⟩
    · rintro ⟨m, ⟨hp, n, hn, ha⟩, hb⟩
      exact ⟨hp, n, hn, ih.mpr ⟨m, ha, hb⟩⟩

/-- **A node taken out.** Its predecessor's link is set to its own. -/
theorem Seg.unlink (h : Seg link p (a ++ z :: x :: b) none) (hz : link' z = link x)
    (hl : ∀ y ∈ a ++ b, link' y = link y) : Seg link' p (a ++ z :: b) none := by
  obtain ⟨m, ha, hm, n, -, hn, n', hn', hb⟩ := Seg.append.mp h
  refine Seg.append.mpr ⟨m, ha.congr fun y hy => hl y (List.mem_append_left b hy), hm, n', ?_, ?_⟩
  · rw [hz]
    exact hn'
  · exact hb.congr fun y hy => hl y (List.mem_append_right a hy)

/-- **A node put at the end.** The link of the last node is set to it. -/
theorem Seg.link_last (h : Seg link p (a ++ [z]) none) (hz : link' z = some (some x))
    (hx : link' x = some none) (hl : ∀ y ∈ a, link' y = link y) :
    Seg link' p (a ++ [z] ++ [x]) none := by
  obtain ⟨m, ha, hm, -⟩ := Seg.append.mp h
  rw [List.append_assoc]
  exact Seg.append.mpr ⟨m, ha.congr hl, hm, some x, hz, rfl, none, hx, rfl⟩

/-! ## Rings -/

section

variable {next next' : α → α} {a b l : List α} {u v x y z e : α}

/-- The links lead from `z` through `l` back to `z`. -/
def LinkRing (next : α → α) (z : α) (l : List α) : Prop := (z :: (l ++ [z])).IsChain (next · = ·)

/-- A path that starts elsewhere, with the same first link. -/
theorem chain_from (h : (u :: (l ++ [e])).IsChain (next · = ·)) (hv : next' v = next u)
    (hl : ∀ w ∈ l, next' w = next w) : (v :: (l ++ [e])).IsChain (next' · = ·) := by
  induction l generalizing u v with
  | nil =>
    obtain ⟨hu, -⟩ := List.isChain_cons_cons.mp h
    exact List.isChain_cons_cons.mpr ⟨hv.trans hu, List.isChain_singleton e⟩
  | cons w l ih =>
    obtain ⟨hu, hw⟩ := List.isChain_cons_cons.mp h
    obtain ⟨hl, hls⟩ := List.forall_mem_cons.mp hl
    exact List.isChain_cons_cons.mpr ⟨hv.trans hu, ih hw hl hls⟩

theorem LinkRing.congr (h : LinkRing next z l) (hl : ∀ w, next' w = next w) : LinkRing next' z l :=
  chain_from h (hl z) fun w _ => hl w

/-- The ring seen from the node before. -/
theorem LinkRing.turn (h : LinkRing next z (a ++ [y])) : LinkRing next y (z :: a) := by
  have hs : (z :: a ++ y :: [z]).IsChain (next · = ·) := by simpa [LinkRing] using h
  obtain ⟨hz, hy⟩ := List.isChain_split.mp hs
  exact List.isChain_cons_cons.mpr ⟨(List.isChain_cons_cons.mp hy).1, hz⟩

/-- **A node moved to the front**: `y`, which was behind `x`, comes right behind `z`. -/
theorem LinkRing.toFront (h : LinkRing next z (a ++ x :: y :: b)) (hx : next' x = next y)
    (hy : next' y = next z) (hz : next' z = y) (hl : ∀ w ∈ a ++ b, next' w = next w) :
    LinkRing next' z (y :: (a ++ x :: b)) := by
  have hs : (z :: a ++ x :: (y :: (b ++ [z]))).IsChain (next · = ·) := by simpa [LinkRing] using h
  obtain ⟨ha, hb⟩ := List.isChain_split.mp hs
  refine List.isChain_cons_cons.mpr ⟨hz, ?_⟩
  have hyx : (y :: a ++ x :: (b ++ [z])).IsChain (next' · = ·) := List.isChain_split.mpr
    ⟨chain_from ha hy fun w hw => hl w (List.mem_append_left b hw),
      chain_from (List.isChain_cons_cons.mp hb).2 hx fun w hw => hl w (List.mem_append_right a hw)⟩
  simpa using hyx
end

/-! ## Walks -/

/-- The node whose link is `x`, searched for from `prev` on; the inner `none` is the end of the
list. -/
def prevOf [DecidableEq α] (link : α → Option (Option α)) (x : α) : Nat → α → Option (Option α)
  | 0, _ => none
  | n + 1, prev =>
    match link prev with
    | none => none
    | some none => some none
    | some (some next) => if next = x then some (some prev) else prevOf link x n next

/-- The last node of the list that goes on from `prev`. -/
def lastOf (link : α → Option (Option α)) : Nat → α → Option α
  | 0, _ => none
  | n + 1, prev =>
    match link prev with
    | none => none
    | some none => some prev
    | some (some next) => lastOf link n next

/-- The walk finds the predecessor of a node of the list. -/
theorem prevOf_of_seg [DecidableEq α] (hs : Seg link (some h) (a ++ z :: x :: b) none)
    (hd : (a ++ z :: x :: b).Nodup) (hn : a.length < n) : prevOf link x n h = some (some z) := by
  obtain ⟨k, rfl⟩ : ∃ k, n = k + a.length + 1 := ⟨n - a.length - 1, by omega⟩
  clear hn
  induction a generalizing h with
  | nil =>
    obtain ⟨hz, m, hm, hx, -⟩ := hs
    rw [prevOf, Option.some.inj hz, hm, hx]
    exact if_pos rfl
  | cons y a ih =>
    obtain ⟨hy, m, hm, hs⟩ := hs
    obtain rfl := Option.some.inj hy
    -- the next node is the first of what is left, so it is not yet `x`
    obtain ⟨w, hw, hne⟩ : ∃ w, m = some w ∧ w ≠ x := by
      cases a with
      | nil =>
        refine ⟨z, hs.1, ?_⟩
        rintro rfl
        simp at hd
      | cons w a =>
        refine ⟨w, hs.1, ?_⟩
        rintro rfl
        simp at hd
    subst hw
    rw [prevOf, hm]
    show (if w = x then _ else _) = _
    rw [if_neg hne]
    exact ih hs (List.nodup_cons.mp hd).2

/-- It finds none for another node. -/
theorem prevOf_of_not_mem [DecidableEq α] (hs : Seg link (some h) (h :: l) none) (hx : x ∉ l)
    (hn : l.length < n) :
    prevOf link x n h = some none := by
  obtain ⟨k, rfl⟩ : ∃ k, n = k + l.length + 1 := ⟨n - l.length - 1, by omega⟩
  clear hn
  induction l generalizing h with
  | nil =>
    obtain ⟨-, m, hm, rfl⟩ := hs
    rw [prevOf, hm]
  | cons y l ih =>
    obtain ⟨-, m, hm, hs⟩ := hs
    obtain rfl := hs.1
    rw [prevOf, hm]
    show (if y = x then _ else _) = _
    rw [if_neg (by rintro rfl; exact hx List.mem_cons_self)]
    exact ih hs fun h => hx (List.mem_cons_of_mem y h)

/-- The walk ends at the last node. -/
theorem lastOf_of_seg (hs : Seg link (some h) (a ++ [z]) none) (hn : a.length < n) :
    lastOf link n h = some z := by
  obtain ⟨k, rfl⟩ : ∃ k, n = k + a.length + 1 := ⟨n - a.length - 1, by omega⟩
  clear hn
  induction a generalizing h with
  | nil =>
    obtain ⟨hz, m, hm, rfl⟩ := hs
    rw [lastOf, Option.some.inj hz, hm]
  | cons y a ih =>
    obtain ⟨hy, m, hm, hs⟩ := hs
    obtain rfl := Option.some.inj hy
    obtain ⟨w, rfl⟩ : ∃ w, m = some w := by
      cases a with
      | nil => exact ⟨z, hs.1⟩
      | cons w a => exact ⟨w, hs.1⟩
    rw [lastOf, hm]
    exact ih hs

/-- The nodes from pointer `p` on. -/
def nodes (link : α → Option (Option α)) : Nat → Option α → List α
  | 0, _ => []
  | _ + 1, none => []
  | n + 1, some x => x :: nodes link n ((link x).join)

/-- The nodes it passes are those of the list. -/
theorem nodes_of_seg (hs : Seg link p l none) (hn : l.length < n) : nodes link n p = l := by
  obtain ⟨k, rfl⟩ : ∃ k, n = k + l.length + 1 := ⟨n - l.length - 1, by omega⟩
  clear hn
  induction l generalizing p with
  | nil =>
    rw [show p = none from hs]
    rfl
  | cons x l ih =>
    obtain ⟨rfl, m, hm, hs⟩ := hs
    rw [nodes, hm]
    exact congrArg (x :: ·) (ih hs)

end Links
