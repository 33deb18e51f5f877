import Anp.Kern.SoQueue
import Mathlib.Data.Finset.Card

/-!
# AcceptQueue — the queues of a listening socket

The lists of `SoQueue` are recovered from the links: `QueuesOk m Q` says that `Q` gives the two lists
of every socket. Each operation is described once by what it does to `Q`.
-/

namespace Anp

open Links List Option

variable {q q' : Bool} {a head p p' so x : Nat} {m : SoHeap} {s s' : Sock}

/-! ## Fields -/

namespace Sock

/-- The socket without the fields of the queues. -/
def rest (s : Sock) : Sock :=
  { s with soHead := none, soQ0 := none, soQ := none, soQ0len := 0, soQlen := 0 }

theorem acceptconn_of_rest (h : s'.rest = s.rest) : s'.acceptconn = s.acceptconn :=
  congrArg (·.acceptconn) h

theorem nofdref_of_rest (h : s'.rest = s.rest) : s'.nofdref = s.nofdref :=
  congrArg (·.nofdref) h

theorem soPcb_of_rest (h : s'.rest = s.rest) : s'.soPcb = s.soPcb :=
  congrArg (·.soPcb) h

theorem soQlimit_of_rest (h : s'.rest = s.rest) : s'.soQlimit = s.soQlimit :=
  congrArg (·.soQlimit) h

end Sock

namespace SoHeap

/-- What is not a link, a length or a head. -/
def restAt (m : SoHeap) (a : Nat) : Option Sock := (m.get a).map Sock.rest

/-- A change of every socket. -/
def map (m : SoHeap) (g : Nat → Sock → Sock) : SoHeap :=
  { m with get := fun a => (m.get a).map (g a) }

@[simp] theorem get_map (m : SoHeap) (g : Nat → Sock → Sock) (a : Nat) :
    (m.map g).get a = (m.get a).map (g a) := rfl

theorem map_map (m : SoHeap) (g g' : Nat → Sock → Sock) :
    (m.map g).map g' = m.map fun a s => g' a (g a s) := by
  unfold map
  congr 1
  funext a
  exact Option.map_map ..

theorem upd_eq (h : m.get a = some s) (f : Sock → Sock) :
    m.upd a f = some (m.map fun x s => if x = a then f s else s) := by
  rw [upd, h]
  show some (m.set a (f s)) = _
  unfold map set
  congr 2
  funext x
  by_cases hx : x = a
  · rw [if_pos hx, hx, h]
    exact congrArg some (if_pos rfl).symm
  · simp only [if_neg hx]
    exact (congrFun map_id (m.get x)).symm

theorem link_eq_some {n : Option Nat} (h : m.link q a = some n) :
    ∃ s, m.get a = some s ∧ s.link q = n :=
  map_eq_some_iff.mp h

theorem link_of_get (h : m.get a = some s) (q : Bool) :
    m.link q a = some (s.link q) := by
  rw [link, h]
  rfl

end SoHeap

/-! ## The lists -/

/-- The two lists of every socket. -/
abbrev Queues := Nat → Bool → List Nat

variable {Q : Queues}

/-- A child on list `q` of `p`. -/
structure Sock.Queued (s : Sock) (p : Nat) (q : Bool) : Prop where
  head : s.soHead = some p
  nofdref : s.nofdref = true
  plain : s.acceptconn = false
  other : s.link (!q) = none
  none_of_its_own : ∀ q', s.len q' = 0

/-- It depends on the other links only. -/
theorem Sock.Queued.congr (h : s.Queued p q) (hr : s'.rest = s.rest) (hh : s'.soHead = s.soHead)
    (hk : s'.link (!q) = s.link (!q)) (hn : ∀ q', s'.len q' = s.len q') : s'.Queued p q :=
  ⟨hh.trans h.head, (nofdref_of_rest hr).trans h.nofdref, (acceptconn_of_rest hr).trans h.plain,
    hk.trans h.other, fun q' => (hn q').trans (h.none_of_its_own q')⟩

/-- Links, lengths and `so_head` agree with the lists. -/
structure QueuesOk (m : SoHeap) (Q : Queues) : Prop where
  low : ∀ a s, m.get a = some s → a < m.top
  path : ∀ a s, m.get a = some s → s.soHead = none → ∀ q, Seg (m.link q) (some a) (a :: Q a q) none
  len : ∀ a s, m.get a = some s → s.soHead = none → ∀ q, s.len q = (Q a q).length
  child : ∀ a s p, m.get a = some s → s.soHead = some p → ∃ q, a ∈ Q p q
  mem : ∀ p q x, x ∈ Q p q → ∃ s, m.get x = some s ∧ s.Queued p q
  nodup : ∀ p, (Q p false ++ Q p true).Nodup
  own : ∀ p q x, x ∈ Q p q → ∃ s, m.get p = some s ∧ s.acceptconn = true
  listen : ∀ a s, m.get a = some s → s.acceptconn = true → s.nofdref = false ∧ s.soHead = none

namespace QueuesOk

variable {m : SoHeap} {Q : Queues}

section

variable (h : QueuesOk m Q)
include h

theorem nodup_one (p : Nat) (q : Bool) : (Q p q).Nodup := by
  have := nodup_append.mp (h.nodup p)
  cases q
  · exact this.1
  · exact this.2.1

/-- A socket that does not listen has no list. -/
theorem nil_of_plain (ha : m.get a = some s) (hs : s.acceptconn = false)
    (q : Bool) : Q a q = [] := by
  refine eq_nil_iff_forall_not_mem.mpr fun x hx => ?_
  obtain ⟨s', hs', hl⟩ := h.own a q x hx
  obtain rfl := Option.some.inj (ha.symm.trans hs')
  rw [hs] at hl
  cases hl

theorem nil_of_none (ha : m.get a = none) (q : Bool) : Q a q = [] := by
  refine eq_nil_iff_forall_not_mem.mpr fun x hx => ?_
  obtain ⟨s, hs, -⟩ := h.own a q x hx
  exact nomatch ha.symm.trans hs

theorem queued (hs : m.get x = some s) (hx : x ∈ Q p q) : s.Queued p q := by
  obtain ⟨s', hs', hq⟩ := h.mem p q x hx
  obtain rfl := Option.some.inj (hs.symm.trans hs')
  exact hq

/-- A child is on one list. -/
theorem mem_unique (hx : x ∈ Q p q) (hx' : x ∈ Q p' q') : p' = p ∧ q' = q := by
  obtain ⟨s, hs, hq⟩ := h.mem p q x hx
  obtain rfl := Option.some.inj ((h.queued hs hx').head.symm.trans hq.head)
  refine ⟨rfl, ?_⟩
  by_contra hne
  have hd := (nodup_append.mp (h.nodup p')).2.2
  cases q <;> cases q'
  · exact hne rfl
  · exact hd x hx x hx' rfl
  · exact hd x hx' x hx rfl
  · exact hne rfl

/-- A socket without `so_head` is on none. -/
theorem head_not_mem (hp : m.get p = some s) (hh : s.soHead = none) (p' : Nat)
    (q : Bool) : p ∉ Q p' q := by
  intro hm
  exact nomatch hh.symm.trans (h.queued hp hm).head

/-- No two lists share a node. -/
theorem node_unique (hp : m.get p = some s) (hs : s.soHead = none)
    (hp' : m.get p' = some s') (hs' : s'.soHead = none) (hx : x ∈ p :: Q p q)
    (hx' : x ∈ p' :: Q p' q) : p = p' := by
  obtain rfl | hx := mem_cons.mp hx
  · obtain rfl | hx' := mem_cons.mp hx'
    · rfl
    · exact absurd hx' (h.head_not_mem hp hs p' q)
  · obtain rfl | hx' := mem_cons.mp hx'
    · exact absurd hx (h.head_not_mem hp' hs' p q)
    · exact (h.mem_unique hx' hx).1

/-- A list is shorter than the number of steps a walk has. -/
theorem length_lt (p : Nat) (q : Bool) : (Q p q).length < m.top + 1 := by
  have hsub : (Q p q).toFinset ⊆ Finset.range m.top := by
    intro x hx
    obtain ⟨s, hs, -⟩ := h.mem p q x (mem_toFinset.mp hx)
    exact Finset.mem_range.mpr (h.low x s hs)
  have hcard := Finset.card_le_card hsub
  rw [toFinset_card_of_nodup (h.nodup_one p q), Finset.card_range] at hcard
  omega

end

end QueuesOk

/-! ## A socket put on a list -/

namespace Queues

/-- `x` at the end of list `q` of `p`. -/
def push (Q : Queues) (p : Nat) (q : Bool) (x : Nat) : Queues :=
  fun p' q' => if p' = p ∧ q' = q then Q p' q' ++ [x] else Q p' q'

/-- Without `x`. -/
def drop (Q : Queues) (x : Nat) : Queues := fun p q => (Q p q).filter (· ≠ x)

theorem push_self (Q : Queues) (p : Nat) (q : Bool) (x : Nat) :
    Q.push p q x p q = Q p q ++ [x] :=
  if_pos ⟨rfl, rfl⟩

theorem push_other (Q : Queues) (x : Nat) (h : ¬(p' = p ∧ q' = q)) :
    Q.push p q x p' q' = Q p' q' :=
  if_neg h

theorem mem_push {y : Nat} :
    y ∈ Q.push p q x p' q' ↔ y ∈ Q p' q' ∨ (p' = p ∧ q' = q ∧ y = x) := by
  unfold push
  split_ifs with h
  · simp [h]
  · constructor
    · exact Or.inl
    · rintro (hy | ⟨hp, hq, -⟩)
      · exact hy
      · exact absurd ⟨hp, hq⟩ h

theorem mem_drop {y : Nat} :
    y ∈ Q.drop x p q ↔ y ∈ Q p q ∧ y ≠ x := by
  simp [drop]

/-- The lists have no socket twice. -/
theorem nodup_push (hd : (Q p false ++ Q p true).Nodup) (hx : ∀ q, x ∉ Q p q) :
    (Q.push head q x p false ++ Q.push head q x p true).Nodup := by
  by_cases hp : p = head
  · subst hp
    have hcons : (x :: (Q p false ++ Q p true)).Nodup :=
      List.nodup_cons.mpr ⟨fun hm => (mem_append.mp hm).elim (hx false) (hx true), hd⟩
    cases q
    · rw [push_self, push_other _ _ (by simp), append_assoc]
      exact nodup_middle.mpr hcons
    · rw [push_self, push_other _ _ (by simp), ← append_assoc]
      exact nodup_middle.mpr (by rwa [append_nil])
  · rw [push_other _ _ fun e => hp e.1, push_other _ _ fun e => hp e.1]
    exact hd

theorem filter_ne_self {l : List Nat} (h : x ∉ l) : l.filter (· ≠ x) = l := by
  refine filter_eq_self.mpr fun y hy => ?_
  rw [decide_eq_true_eq]
  rintro rfl
  exact h hy

theorem drop_of_not_mem (h : x ∉ Q p q) : Q.drop x p q = Q p q := filter_ne_self h

/-- The list from its head on, with `x` cut out. -/
theorem cons_drop {l r : List Nat} (hl : p :: Q p q = l ++ x :: r) (hx : x ∉ l ++ r) (hp : p ≠ x) :
    p :: Q.drop x p q = l ++ r := by
  have hf := congrArg (List.filter (· ≠ x)) hl
  rw [filter_cons_of_pos (by simpa using hp), filter_append,
    filter_cons_of_neg (by simp), ← filter_append, filter_ne_self hx] at hf
  exact hf

end Queues

namespace SoHeap

/-- What `soqinsque` makes of the socket at `a`, `last` being the end of the list. -/
def insAt (head so last : Nat) (q : Bool) (a : Nat) (s : Sock) : Sock :=
  let s := if a = so then s.setHead (some head) else s
  let s := if a = head then s.addLen q 1 else s
  let s := if a = so then s.setLink q none else s
  if a = last then s.setLink q (some so) else s

section

variable (head so last : Nat) (q : Bool) (a : Nat) (s : Sock)

/-- `so_head` after `soqinsque`. -/
theorem soHead_insAt :
    (insAt head so last q a s).soHead = if a = so then some head else s.soHead := by
  unfold insAt
  cases q <;> split_ifs <;> rfl

/-- `so_qlen` and `so_q0len` after it. -/
theorem len_insAt (q' : Bool) : (insAt head so last q a s).len q' =
    if a = head ∧ q' = q then s.len q' + 1 else s.len q' := by
  unfold insAt
  cases q <;> cases q' <;> simp <;> split_ifs <;> rfl

/-- The links after `soqinsque`. -/
theorem link_insAt (q' : Bool) : (insAt head so last q a s).link q' =
    if q' = q then (if a = last then some so else if a = so then none else s.link q')
    else s.link q' := by
  unfold insAt
  cases q <;> cases q' <;> simp <;> split_ifs <;> rfl

theorem rest_insAt : (insAt head so last q a s).rest = s.rest := by
  unfold insAt
  cases q <;> split_ifs <;> rfl

end

/-- The links once `so` has been put behind `last`. -/
theorem link_map_insAt {last : Nat} {l : Sock} (head : Nat) (q : Bool) (hs : m.get so = some s)
    (hl : m.get last = some l) (q' : Bool) (x : Nat) :
    (m.map (insAt head so last q)).link q' x = if q' = q ∧ x = last then some (some so)
      else if q' = q ∧ x = so then some none else m.link q' x := by
  unfold link
  rw [get_map, Option.map_map]
  by_cases hx : x = last
  · subst hx
    by_cases hq : q' = q <;> simp [hl, link_insAt, hq]
  · by_cases hx' : x = so
    · subst hx'
      by_cases hq : q' = q <;> simp [hs, link_insAt, hq, hx]
    · simp only [hx, hx', and_false, if_false]
      congr 1
      funext s
      simp [link_insAt, hx, hx']

/-- The heap in which `soqinsque` looks for the end of the list. -/
def insSearch (m : SoHeap) (head so : Nat) (q : Bool) : SoHeap := m.map fun a s =>
    let s := if a = so then s.setHead (some head) else s
    let s := if a = head then s.addLen q 1 else s
    if a = so then s.setLink q none else s

/-- The walk of `soqinsque` sees the old links. -/
theorem link_insSearch (h : a ≠ so) :
    (m.insSearch head so q).link q a = m.link q a := by
  unfold link insSearch
  rw [get_map, Option.map_map]
  simp only [if_neg h]
  cases q <;> split_ifs <;> rfl

/-- `soqinsque` as one change of all sockets. -/
theorem soqinsque_eq {last : Nat} {h l : Sock} (hs : m.get so = some s) (hh : m.get head = some h)
    (hl : m.get last = some l)
    (hlast : lastOf ((m.insSearch head so q).link q) (m.top + 1) head = some last) :
    m.soqinsque head so q = some (m.map (insAt head so last q)) := by
  unfold soqinsque
  rw [upd_eq hs]
  simp only [bind_eq_bind, bind_some]
  rw [upd_eq (by rw [get_map, hh]; rfl), map_map]
  simp only [bind_some]
  rw [upd_eq (by rw [get_map, hs]; rfl), map_map]
  show (lastOf ((m.insSearch head so q).link q) (m.top + 1) head).bind
    (fun last => (m.insSearch head so q).upd last (·.setLink q (some so))) = _
  rw [hlast, bind_some, upd_eq (by rw [insSearch, get_map, hl]; rfl), insSearch, map_map]
  rfl

/-- What `soqremque` makes of the socket at `a`, `prev` being the node before `so` and `n` the link of
`so`. -/
def remAt (head so prev : Nat) (q : Bool) (n : Option Nat) (a : Nat) (s : Sock) : Sock :=
  let s := if a = prev then s.setLink q n else s
  let s := if a = head then s.addLen q (-1) else s
  if a = so then s.unqueue else s

section

variable (head so prev : Nat) (q : Bool) (n : Option Nat) (a : Nat) (s : Sock)

/-- `so_head` after `soqremque`. -/
theorem soHead_remAt :
    (remAt head so prev q n a s).soHead = if a = so then none else s.soHead := by
  unfold remAt
  cases q <;> split_ifs <;> rfl

/-- `so_qlen` and `so_q0len` after it. -/
theorem len_remAt (q' : Bool) : (remAt head so prev q n a s).len q' =
    if a = head ∧ q' = q then s.len q' - 1 else s.len q' := by
  unfold remAt
  cases q <;> cases q' <;> simp <;> split_ifs <;> rfl

/-- The links after `soqremque`. -/
theorem link_remAt (q' : Bool) : (remAt head so prev q n a s).link q' =
    if a = so then none else if a = prev ∧ q' = q then n else s.link q' := by
  unfold remAt
  cases q <;> cases q' <;> simp <;> split_ifs <;> rfl

theorem rest_remAt : (remAt head so prev q n a s).rest = s.rest := by
  unfold remAt
  cases q <;> split_ifs <;> rfl

end

/-- The links once `so` has been taken out behind `prev`. -/
theorem link_map_remAt {prev : Nat} {p : Sock} (head : Nat) (q : Bool) (n : Option Nat)
    (hp : m.get prev = some p) (q' : Bool) (hx : x ≠ so) :
    (m.map (remAt head so prev q n)).link q' x =
      if x = prev ∧ q' = q then some n else m.link q' x := by
  unfold link
  rw [get_map, Option.map_map]
  by_cases hx' : x = prev
  · subst hx'
    by_cases hq' : q' = q <;> simp [hp, link_remAt, hq', hx]
  · simp only [hx', false_and, if_false]
    congr 1
    funext s
    simp [link_remAt, hx, hx']

/-- `soqremque` as one change of all sockets. -/
theorem soqremque_eq {prev : Nat} {h p : Sock} (hs : m.get so = some s) (hd : s.soHead = some head)
    (hh : m.get head = some h) (hp : m.get prev = some p)
    (hprev : prevOf (m.link q) so (m.top + 1) head = some (some prev)) :
    m.soqremque so q = some (m.map (remAt head so prev q (s.link q)), true) := by
  unfold soqremque
  simp only [hs, hd, hprev, bind_eq_bind, bind_some]
  rw [upd_eq hp]
  simp only [bind_some]
  rw [upd_eq (by rw [get_map, hh]; rfl), map_map]
  simp only [bind_some]
  rw [upd_eq (by rw [get_map, hs]; rfl), map_map]
  rfl

/-- A socket that is not on list `q` is not found there. -/
theorem soqremque_eq_false (hs : m.get so = some s) (hd : s.soHead = some head)
    (hprev : prevOf (m.link q) so (m.top + 1) head = some none) :
    m.soqremque so q = some (m, false) := by
  unfold soqremque
  simp only [hs, hd, hprev, bind_eq_bind, bind_some]

end SoHeap

namespace QueuesOk

variable {m : SoHeap} {Q : Queues}

/-- The invariant after a change of all sockets. -/
theorem of_map (h : QueuesOk m Q) {g : Nat → Sock → Sock} {Q' : Queues}
    (hrest : ∀ a s, (g a s).rest = s.rest)
    (hpath : ∀ a s, m.get a = some s → (g a s).soHead = none → ∀ q,
      Seg ((m.map g).link q) (some a) (a :: Q' a q) none ∧ (g a s).len q = (Q' a q).length)
    (hchild : ∀ a s p, m.get a = some s → (g a s).soHead = some p → ∃ q, a ∈ Q' p q)
    (hmem : ∀ p q x, x ∈ Q' p q → (∃ s, m.get x = some s ∧ (g x s).Queued p q) ∧
      ∃ s, m.get p = some s ∧ s.acceptconn = true)
    (hnodup : ∀ p, (Q' p false ++ Q' p true).Nodup)
    (hlisten : ∀ a s, m.get a = some s → s.acceptconn = true → (g a s).soHead = none) :
    QueuesOk (m.map g) Q' := by
  have hget {a : Nat} {s' : Sock} (hs' : (m.map g).get a = some s') :
      ∃ s, m.get a = some s ∧ g a s = s' := map_eq_some_iff.mp hs'
  have hput {a : Nat} {s : Sock} (hs : m.get a = some s) : (m.map g).get a = some (g a s) := by
    rw [SoHeap.get_map, hs]
    rfl
  constructor
  case low =>
    intro a s' hs'
    obtain ⟨s, hs, -⟩ := hget hs'
    exact h.low a s hs
  case path =>
    intro a s' hs' ha q
    obtain ⟨s, hs, rfl⟩ := hget hs'
    exact (hpath a s hs ha q).1
  case len =>
    intro a s' hs' ha q
    obtain ⟨s, hs, rfl⟩ := hget hs'
    exact (hpath a s hs ha q).2
  case child =>
    intro a s' p hs' ha
    obtain ⟨s, hs, rfl⟩ := hget hs'
    exact hchild a s p hs ha
  case mem =>
    intro p q x hx
    obtain ⟨s, hs, hq⟩ := (hmem p q x hx).1
    exact ⟨_, hput hs, hq⟩
  case nodup => exact hnodup
  case own =>
    intro p q x hx
    obtain ⟨s, hs, hl⟩ := (hmem p q x hx).2
    exact ⟨_, hput hs, (Sock.acceptconn_of_rest (hrest p s)).trans hl⟩
  case listen =>
    intro a s' hs' hl
    obtain ⟨s, hs, rfl⟩ := hget hs'
    rw [Sock.acceptconn_of_rest (hrest a s)] at hl
    exact ⟨(Sock.nofdref_of_rest (hrest a s)).trans (h.listen a s hs hl).1, hlisten a s hs hl⟩

theorem rest_map {g : Nat → Sock → Sock} (hrest : ∀ a s, (g a s).rest = s.rest) (a : Nat) :
    (m.map g).restAt a = m.restAt a := by
  rw [SoHeap.restAt, SoHeap.get_map, Option.map_map]
  congr 1
  funext s
  exact hrest a s

section

variable (h : QueuesOk m Q)
include h

/-- A list with its head has no socket twice. -/
theorem nodup_cons (hh : m.get head = some s) (hh0 : s.soHead = none) (q : Bool) :
    (head :: Q head q).Nodup :=
  List.nodup_cons.mpr ⟨h.head_not_mem hh hh0 head q, h.nodup_one head q⟩

/-- The last node of a list is there, and `soqinsque` finds it. -/
theorem exists_last (hh : m.get head = some s) (hh0 : s.soHead = none) (hso : so ∉ head :: Q head q) :
    ∃ a last t, head :: Q head q = a ++ [last] ∧ m.get last = some t ∧
      lastOf ((m.insSearch head so q).link q) (m.top + 1) head = some last := by
  have hseg := h.path head s hh hh0 q
  obtain ⟨a, last, ha⟩ : ∃ a last, head :: Q head q = a ++ [last] :=
    ⟨_, _, (dropLast_append_getLast (cons_ne_nil _ _)).symm⟩
  rw [ha] at hseg hso
  obtain ⟨-, -, -, n, hlink, -⟩ := Seg.append.mp hseg
  obtain ⟨t, ht, -⟩ := SoHeap.link_eq_some hlink
  refine ⟨a, last, t, ha, ht, lastOf_of_seg (hseg.congr fun x hx => SoHeap.link_insSearch ?_) ?_⟩
  · rintro rfl
    exact hso hx
  · have hlen := congrArg List.length ha
    have := h.length_lt head q
    simp only [length_cons, length_append, length_nil] at hlen
    omega

section

variable {a : List Nat} {last : Nat} {sh t : Sock} (hh : m.get head = some sh)
  (hh0 : sh.soHead = none) (hs : m.get so = some s) (hn : s.soHead = none)
include hh hh0 hs hn

/-- The links lead through the longer list, and through all others. -/
theorem insque_path (ha : head :: Q head q = a ++ [last]) (ht : m.get last = some t) {b : Nat}
    {s1 : Sock} (hs1 : m.get b = some s1) (hb : s1.soHead = none) (hbs : b ≠ so) (q' : Bool) :
    Seg ((m.map (SoHeap.insAt head so last q)).link q') (some b)
      (b :: Q.push head q so b q') none := by
  have hlink := SoHeap.link_map_insAt head q hs ht
  have hso : ∀ x ∈ b :: Q b q', x ≠ so := by
    rintro x hx rfl
    obtain rfl | hx := mem_cons.mp hx
    · exact hbs rfl
    · exact h.head_not_mem hs hn b q' hx
  have hseg := h.path b s1 hs1 hb q'
  by_cases hc : b = head ∧ q' = q
  · obtain ⟨rfl, rfl⟩ := hc
    have hd := h.nodup_cons hh hh0 q'
    rw [Queues.push_self, ← cons_append, ha]
    rw [ha] at hseg hso hd
    refine hseg.link_last ?_ ?_ fun y hy => ?_
    · rw [hlink, if_pos ⟨rfl, rfl⟩]
    · rw [hlink, if_neg fun e => hso last (by simp) e.2.symm, if_pos ⟨rfl, rfl⟩]
    · rw [hlink, if_neg, if_neg fun e => hso y (mem_append_left _ hy) e.2]
      rintro ⟨-, rfl⟩
      exact (nodup_append.mp hd).2.2 y hy y (mem_singleton_self y) rfl
  · rw [Queues.push_other _ _ hc]
    refine hseg.congr fun x hx => ?_
    rw [hlink, if_neg, if_neg fun e => hso x hx e.2]
    -- the end of one list is on no other
    rintro ⟨rfl, rfl⟩
    exact hc ⟨h.node_unique hs1 hb hh hh0 hx (by rw [ha]; simp), rfl⟩

/-- A child stays a child. -/
theorem insque_mem (hl : last ∈ head :: Q head q) {p : Nat} {q' : Bool} (hx : x ∈ Q p q') :
    ∃ s, m.get x = some s ∧ (SoHeap.insAt head so last q x s).Queued p q' := by
  obtain ⟨s1, hs1, hq1⟩ := h.mem p q' x hx
  have hxs : x ≠ so := by
    rintro rfl
    exact h.head_not_mem hs hn p q' hx
  have hxh : x ≠ head := by
    rintro rfl
    exact h.head_not_mem hh hh0 p q' hx
  refine ⟨s1, hs1, hq1.congr (SoHeap.rest_insAt head so last q x s1) ?_ ?_ fun q'' => ?_⟩
  · rw [SoHeap.soHead_insAt, if_neg hxs]
  · rw [SoHeap.link_insAt, if_neg hxs]
    split_ifs with e e'
    · -- the end of the list is linked through the field of this list only
      have := (h.mem_unique ((mem_cons.mp hl).resolve_left (e' ▸ hxh)) (e' ▸ hx)).2
      cases q <;> cases q' <;> simp_all
    · rfl
    · rfl
  · rw [SoHeap.len_insAt, if_neg fun e => hxh e.1]

end

/-- The socket itself, once `soqinsque` has put it on a list. -/
theorem insque_self (hs : m.get so = some s) (hn : s.soHead = none) (hf : s.nofdref = true)
    (hp : s.acceptconn = false) (hne : so ≠ head) (last : Nat) :
    (SoHeap.insAt head so last q so s).Queued head q := by
  have hrest := SoHeap.rest_insAt head so last q so s
  have hnil := h.nil_of_plain hs hp
  refine ⟨?_, ?_, ?_, ?_, fun q' => ?_⟩
  · rw [SoHeap.soHead_insAt, if_pos rfl]
  · rw [Sock.nofdref_of_rest hrest, hf]
  · rw [Sock.acceptconn_of_rest hrest, hp]
  · have hseg := h.path so s hs hn (!q)
    rw [hnil] at hseg
    obtain ⟨-, n, hlink, rfl⟩ := hseg
    rw [SoHeap.link_of_get hs] at hlink
    rw [SoHeap.link_insAt, if_neg (by cases q <;> simp)]
    exact Option.some.inj hlink
  · rw [SoHeap.len_insAt, if_neg fun e => hne e.1, h.len so s hs hn, hnil]
    rfl

/-- **`soqinsque`**: a socket on no list comes last on the list `q` of a listening socket. -/
theorem insque {sh : Sock} (hh : m.get head = some sh)
    (hl : sh.acceptconn = true) (hs : m.get so = some s) (hn : s.soHead = none)
    (hf : s.nofdref = true) (hp : s.acceptconn = false) :
    ∃ m', m.soqinsque head so q = some m' ∧ QueuesOk m' (Q.push head q so) ∧ m'.top = m.top ∧
      ∀ a, m'.restAt a = m.restAt a := by
  have hne : so ≠ head := by
    rintro rfl
    obtain rfl := Option.some.inj (hs.symm.trans hh)
    exact nomatch hp.symm.trans hl
  have hh0 := (h.listen head sh hh hl).2
  have hso : ∀ p' q', so ∉ Q p' q' := h.head_not_mem hs hn
  obtain ⟨a, last, t, ha, ht, hlast⟩ := h.exists_last hh hh0
    (not_mem_cons_of_ne_of_not_mem hne (hso head q))
  have hrest := SoHeap.rest_insAt head so last q
  refine ⟨_, SoHeap.soqinsque_eq hs hh ht hlast, ?_, rfl, rest_map hrest⟩
  refine h.of_map hrest ?path ?child ?mem (fun p => Queues.nodup_push (h.nodup p) (hso p)) ?listen
  case path =>
    intro b s1 hs1 hb q'
    rw [SoHeap.soHead_insAt] at hb
    split_ifs at hb with hbs
    refine ⟨h.insque_path hh hh0 hs hn ha ht hs1 hb hbs q', ?_⟩
    rw [SoHeap.len_insAt, h.len b s1 hs1 hb q', Queues.push]
    split_ifs
    · simp
    · rfl
  case child =>
    intro a s1 p hs1 hp'
    rw [SoHeap.soHead_insAt] at hp'
    split_ifs at hp' with hc
    · obtain rfl := Option.some.inj hp'
      exact ⟨q, Queues.mem_push.mpr (.inr ⟨rfl, rfl, hc⟩)⟩
    · obtain ⟨q', hq'⟩ := h.child a s1 p hs1 hp'
      exact ⟨q', Queues.mem_push.mpr (.inl hq')⟩
  case mem =>
    intro p q' x hx
    obtain hx | ⟨rfl, rfl, rfl⟩ := Queues.mem_push.mp hx
    · exact ⟨h.insque_mem hh hh0 hs hn (by rw [ha]; simp) hx, h.own p q' x hx⟩
    · exact ⟨⟨s, hs, h.insque_self hs hn hf hp hne last⟩, sh, hh, hl⟩
  case listen =>
    intro b s1 hs1 hb
    rw [SoHeap.soHead_insAt, if_neg]
    · exact (h.listen b s1 hs1 hb).2
    · rintro rfl
      obtain rfl := Option.some.inj (hs.symm.trans hs1)
      exact nomatch hp.symm.trans hb

/-- A child has a predecessor on its list. -/
theorem prev_of_mem (hm : so ∈ Q head q) :
    ∃ a prev b, head :: Q head q = a ++ prev :: so :: b ∧ a.length < m.top + 1 := by
  obtain ⟨a, b, hab⟩ := append_of_mem hm
  have hlen := h.length_lt head q
  rw [hab, length_append, length_cons] at hlen
  rcases eq_nil_or_concat (head :: a) with hn | ⟨a', prev, ha'⟩
  · exact absurd hn (cons_ne_nil _ _)
  · refine ⟨a', prev, b, ?_, ?_⟩
    · rw [hab, ← cons_append, ha', concat_eq_append, append_assoc]
      rfl
    · have := congrArg List.length ha'
      simp only [concat_eq_append, length_cons, length_append, length_nil] at this
      omega

section

variable {a b : List Nat} {prev : Nat} {sh t : Sock} (hh : m.get head = some sh)
  (hh0 : sh.soHead = none) (hab : head :: Q head q = a ++ prev :: so :: b) (ht : m.get prev = some t)
include hh hh0 hab

/-- The child and its predecessor are there once. -/
theorem remque_parts : so ∉ a ++ prev :: b ∧ prev ∉ a ++ so :: b := by
  have hd := h.nodup_cons hh hh0 q
  rw [hab] at hd
  refine ⟨?_, (List.nodup_cons.mp (nodup_middle.mp hd)).1⟩
  rw [append_cons] at hd
  have := (List.nodup_cons.mp (nodup_middle.mp hd)).1
  rwa [← append_cons] at this

/-- The other children stay. -/
theorem remque_mem {n : Option Nat} {p : Nat} {q' : Bool} (hx : x ∈ Q p q') (hxs : x ≠ so) :
    ∃ s, m.get x = some s ∧ (SoHeap.remAt head so prev q n x s).Queued p q' := by
  obtain ⟨s1, hs1, hq1⟩ := h.mem p q' x hx
  have hxh : x ≠ head := by
    rintro rfl
    exact h.head_not_mem hh hh0 p q' hx
  have hprev : prev ∈ head :: Q head q := by
    rw [hab]
    simp
  refine ⟨s1, hs1, hq1.congr (SoHeap.rest_remAt head so prev q n x s1) ?_ ?_ fun q'' => ?_⟩
  · rw [SoHeap.soHead_remAt, if_neg hxs]
  · rw [SoHeap.link_remAt, if_neg hxs, if_neg]
    -- the node before `so` is linked through the field of this list only
    rintro ⟨rfl, e⟩
    have := (h.mem_unique ((mem_cons.mp hprev).resolve_left hxh) hx).2
    cases q <;> cases q' <;> simp_all
  · rw [SoHeap.len_remAt, if_neg fun e => hxh e.1]

include ht

/-- The links lead past the child that was removed. -/
theorem remque_path (hm : so ∈ Q head q) (hs : m.get so = some s) {c : Nat} {s1 : Sock}
    (hs1 : m.get c = some s1) (hc : s1.soHead = none) (hcs : c ≠ so) (q' : Bool) :
    Seg ((m.map (SoHeap.remAt head so prev q (s.link q))).link q') (some c)
        (c :: Q.drop so c q') none ∧
      (if c = head ∧ q' = q then s1.len q' - 1 else s1.len q') = (Q.drop so c q').length := by
  have hlink {x : Nat} (hx : x ≠ so) := SoHeap.link_map_remAt head q (s.link q) ht q' hx
  rw [h.len c s1 hs1 hc q']
  by_cases hch : c = head ∧ q' = q
  · obtain ⟨rfl, rfl⟩ := hch
    obtain ⟨hso, hprev⟩ := h.remque_parts hh hh0 hab
    have hdrop : c :: Q.drop so c q' = a ++ prev :: b := by
      rw [append_cons] at hab hso ⊢
      exact Queues.cons_drop hab hso hcs
    have hseg := h.path c sh hh hh0 q'
    rw [hab] at hseg
    rw [hdrop]
    refine ⟨hseg.unlink ?_ fun y hy => ?_, ?_⟩
    · rw [hlink (by grind), if_pos ⟨rfl, rfl⟩, SoHeap.link_of_get hs]
    · rw [hlink (by grind), if_neg]
      rintro ⟨rfl, -⟩
      exact hprev (by grind)
    · have h1 := congrArg List.length hdrop
      have h2 := congrArg List.length hab
      simp only [length_cons, length_append] at h1 h2
      rw [if_pos ⟨rfl, rfl⟩]
      omega
  · have hso : so ∉ c :: Q c q' := fun e =>
      hch (h.mem_unique hm ((mem_cons.mp e).resolve_left (Ne.symm hcs)))
    rw [Queues.drop_of_not_mem fun e => hso (mem_cons_of_mem _ e), if_neg hch]
    refine ⟨(h.path c s1 hs1 hc q').congr fun x hx => ?_, rfl⟩
    rw [hlink fun e => hso (e ▸ hx), if_neg]
    rintro ⟨rfl, rfl⟩
    exact hch ⟨h.node_unique hs1 hc hh hh0 hx (by rw [hab]; simp), rfl⟩

end

/-- **`soqremque`** on the list the socket is on. -/
theorem remque (hm : so ∈ Q head q) :
    ∃ m', m.soqremque so q = some (m', true) ∧ QueuesOk m' (Q.drop so) ∧ m'.top = m.top ∧
      (∀ a, m'.restAt a = m.restAt a) ∧
      ∃ s, m'.get so = some s ∧ s.soHead = none := by
  obtain ⟨s, hs, hq⟩ := h.mem head q so hm
  obtain ⟨sh, hh, hl⟩ := h.own head q so hm
  have hh0 := (h.listen head sh hh hl).2
  obtain ⟨a, prev, b, hab, hlen⟩ := h.prev_of_mem hm
  have hseg := h.path head sh hh hh0 q
  have hd := h.nodup_cons hh hh0 q
  rw [hab] at hseg hd
  obtain ⟨t, ht⟩ : ∃ t, m.get prev = some t := by
    obtain ⟨-, -, -, n, hn, -⟩ := Seg.append.mp hseg
    obtain ⟨t, ht, -⟩ := SoHeap.link_eq_some hn
    exact ⟨t, ht⟩
  have hrest := SoHeap.rest_remAt head so prev q (s.link q)
  have hgso : (m.map (SoHeap.remAt head so prev q (s.link q))).get so =
      some (SoHeap.remAt head so prev q (s.link q) so s) := by
    rw [SoHeap.get_map, hs]
    rfl
  refine ⟨_, SoHeap.soqremque_eq hs hq.head hh ht (prevOf_of_seg hseg hd hlen), ?_, rfl,
    rest_map hrest, _, hgso, by rw [SoHeap.soHead_remAt, if_pos rfl]⟩
  refine h.of_map hrest ?path ?child ?mem (fun p => ?_) ?listen
  case path =>
    intro c s1 hs1 hc q'
    rw [SoHeap.len_remAt]
    by_cases hcs : c = so
    · subst hcs
      obtain rfl := Option.some.inj (hs.symm.trans hs1)
      have hne : c ≠ head := by
        rintro rfl
        exact h.head_not_mem hh hh0 c q hm
      rw [if_neg fun e => hne e.1, hq.none_of_its_own, Queues.drop, h.nil_of_plain hs hq.plain]
      refine ⟨⟨rfl, none, ?_, rfl⟩, rfl⟩
      rw [SoHeap.link_of_get hgso, SoHeap.link_remAt, if_pos rfl]
    · rw [SoHeap.soHead_remAt, if_neg hcs] at hc
      exact h.remque_path hh hh0 hab ht hm hs hs1 hc hcs q'
  case child =>
    intro a s1 p hs1 hp'
    rw [SoHeap.soHead_remAt] at hp'
    split_ifs at hp' with hc
    obtain ⟨q', hq'⟩ := h.child a s1 p hs1 hp'
    exact ⟨q', Queues.mem_drop.mpr ⟨hq', hc⟩⟩
  case mem =>
    intro p q' x hx'
    obtain ⟨hx, hxs⟩ := Queues.mem_drop.mp hx'
    exact ⟨h.remque_mem hh hh0 hab hx hxs, h.own p q' x hx⟩
  case listen =>
    intro b s1 hs1 hb
    rw [SoHeap.soHead_remAt, (h.listen b s1 hs1 hb).2]
    exact ite_self none
  · unfold Queues.drop
    rw [← filter_append]
    exact (h.nodup p).filter _

/-- `soqremque` on the other list finds nothing. -/
theorem remque_other (hm : so ∈ Q head q') (hq : q ≠ q') :
    m.soqremque so q = some (m, false) := by
  obtain ⟨s, hs, hqs⟩ := h.mem head q' so hm
  obtain ⟨sh, hh, hl⟩ := h.own head q' so hm
  refine SoHeap.soqremque_eq_false hs hqs.head ?_
  refine prevOf_of_not_mem (h.path head sh hh (h.listen head sh hh hl).2 q) ?_ (h.length_lt head q)
  intro hm'
  exact hq (h.mem_unique hm hm').2

/-- The list read from the links is that of `Q`. -/
theorem complete_eq (ha : m.get a = some s) (hh : s.soHead = none) :
    m.complete a = Q a true := by
  obtain ⟨-, n, hn, hseg⟩ := h.path a s ha hh true
  rw [SoHeap.complete, hn]
  exact nodes_of_seg hseg (h.length_lt a true)

/-! ## Sockets that come, change and go -/

/-- The heap changes at `a` only, and the lists stay: what is to be shown of `a`. -/
theorem at_one {m' : SoHeap} (hother : ∀ b, b ≠ a → m'.get b = m.get b) (htop : m.top ≤ m'.top)
    (hself : ∀ s', m'.get a = some s' → a < m'.top ∧ (s'.soHead = none → ∀ q,
        Seg (m'.link q) (some a) (a :: Q a q) none ∧ s'.len q = (Q a q).length) ∧
      (∀ p, s'.soHead = some p → ∃ q, a ∈ Q p q) ∧
      (s'.acceptconn = true → s'.nofdref = false ∧ s'.soHead = none))
    (hmem : ∀ p q, a ∈ Q p q → ∃ s', m'.get a = some s' ∧ s'.Queued p q ∧ m'.link q a = m.link q a)
    (hown : ∀ q x, x ∈ Q a q → ∃ s', m'.get a = some s' ∧ s'.acceptconn = true) :
    QueuesOk m' Q := by
  constructor
  case low =>
    intro b s1 hb
    by_cases hba : b = a
    · subst hba
      exact (hself s1 hb).1
    · exact (h.low b s1 (hother b hba ▸ hb)).trans_le htop
  case path =>
    intro b s1 hb hb0 q
    by_cases hba : b = a
    · subst hba
      exact ((hself s1 hb).2.1 hb0 q).1
    · refine (h.path b s1 (hother b hba ▸ hb) hb0 q).congr fun x hx => ?_
      by_cases hxa : x = a
      · obtain rfl | hx := mem_cons.mp hx
        · exact absurd hxa hba
        · subst hxa
          obtain ⟨-, -, -, hlink⟩ := hmem b q hx
          exact hlink
      · rw [SoHeap.link, hother x hxa]
        rfl
  case len =>
    intro b s1 hb hb0 q
    by_cases hba : b = a
    · subst hba
      exact ((hself s1 hb).2.1 hb0 q).2
    · exact h.len b s1 (hother b hba ▸ hb) hb0 q
  case child =>
    intro b s1 p hb hbp
    by_cases hba : b = a
    · subst hba
      exact (hself s1 hb).2.2.1 p hbp
    · exact h.child b s1 p (hother b hba ▸ hb) hbp
  case mem =>
    intro p q x hx
    by_cases hxa : x = a
    · subst hxa
      obtain ⟨s1, hs1, hq1, -⟩ := hmem p q hx
      exact ⟨s1, hs1, hq1⟩
    · rw [hother x hxa]
      exact h.mem p q x hx
  case nodup => exact h.nodup
  case own =>
    intro p q x hx
    by_cases hpa : p = a
    · subst hpa
      exact hown q x hx
    · rw [hother p hpa]
      exact h.own p q x hx
  case listen =>
    intro b s1 hb hc
    by_cases hba : b = a
    · subst hba
      exact (hself s1 hb).2.2.2 hc
    · exact h.listen b s1 (hother b hba ▸ hb) hc

/-- A socket whose links and lengths stay as they are. -/
theorem set (ha : m.get a = some s) (hh : s'.soHead = s.soHead)
    (hk : ∀ q, s'.link q = s.link q) (hn : ∀ q, s'.len q = s.len q)
    (hacc : s.acceptconn = true → s'.acceptconn = true)
    (hq : s.soHead ≠ none → s'.nofdref = s.nofdref ∧ s'.acceptconn = s.acceptconn)
    (hl : s'.acceptconn = true → s'.nofdref = false ∧ s'.soHead = none) :
    QueuesOk (m.set a s') Q := by
  have hget : (m.set a s').get a = some s' := if_pos rfl
  have hother : ∀ b, b ≠ a → (m.set a s').get b = m.get b := fun b hb => if_neg hb
  have hlink : ∀ q, (m.set a s').link q = m.link q := by
    intro q
    funext b
    by_cases hba : b = a
    · rw [hba, SoHeap.link_of_get hget, SoHeap.link_of_get ha, hk]
    · rw [SoHeap.link, hother b hba]
      rfl
  refine h.at_one hother le_rfl (fun s1 hs1 => ?_) (fun p q hx => ?_) fun q x hx => ?_
  · obtain rfl := Option.some.inj (hget.symm.trans hs1)
    rw [hh]
    refine ⟨h.low a s ha, fun h0 q => ?_, fun p => h.child a s p ha, hh ▸ hl⟩
    rw [hlink, hn]
    exact ⟨h.path a s ha h0 q, h.len a s ha h0 q⟩
  · have hq0 := h.queued ha hx
    obtain ⟨hf, hc⟩ := hq (by rw [hq0.head]; simp)
    exact ⟨s', hget, ⟨hh.trans hq0.head, hf.trans hq0.nofdref, hc.trans hq0.plain,
      (hk _).trans hq0.other, fun q' => (hn q').trans (hq0.none_of_its_own q')⟩, by rw [hlink]⟩
  · obtain ⟨s0, h₀, hc0⟩ := h.own a q x hx
    obtain rfl := Option.some.inj (ha.symm.trans h₀)
    exact ⟨s', hget, hacc hc0⟩

/-- A new socket is on no list. -/
theorem alloc (ha : m.get a = none) (hh : s.soHead = none)
    (hk : ∀ q, s.link q = none) (hn : ∀ q, s.len q = 0) (hc : s.acceptconn = false) :
    QueuesOk (m.alloc a s) Q := by
  have hget : (m.alloc a s).get a = some s := if_pos rfl
  have hnil := h.nil_of_none ha
  refine h.at_one (fun b hb => if_neg hb) (Nat.le_max_left ..) (fun s1 hs1 => ?_) (fun p q hx => ?_)
    fun q x hx => ?_
  · obtain rfl := Option.some.inj (hget.symm.trans hs1)
    refine ⟨Nat.le_max_right .., fun _ q => ?_, fun p hp => ?_, fun hc' => ?_⟩
    · rw [hnil, hn]
      exact ⟨⟨rfl, none, by rw [SoHeap.link_of_get hget, hk], rfl⟩, rfl⟩
    · exact nomatch hh.symm.trans hp
    · exact nomatch hc.symm.trans hc'
  · obtain ⟨s1, hs1, -⟩ := h.mem p q a hx
    exact nomatch ha.symm.trans hs1
  · rw [hnil] at hx
    cases hx

/-- A socket that is on no list and heads none may go. -/
theorem free (ha : m.get a = some s) (hh : s.soHead = none)
    (hnil : ∀ q, Q a q = []) : QueuesOk (m.free a) Q := by
  refine h.at_one (fun b hb => if_neg hb) le_rfl (fun s1 hs1 => ?_) (fun p q hx => ?_) fun q x hx => ?_
  · simp [SoHeap.free] at hs1
  · exact absurd hx (h.head_not_mem ha hh p q)
  · rw [hnil] at hx
    cases hx

end

end QueuesOk

end Anp
