import Anp.Kern.AcceptQueue

/-!
# AcceptOps — the operations on well-formed queues

A child that waits has a control block and no descriptor, so an abort frees it and takes it off its
list; this is what ends the two loops of `soclose`.
-/

namespace Anp

open Links List Option

variable {a so : Nat} {m : SoHeap} {s s' : Sock}

/-- A socket whose links changed is there as before. -/
theorem get_of_rest {m' : SoHeap} (h : m'.restAt a = m.restAt a) (hs : m.get a = some s) :
    ∃ s', m'.get a = some s' ∧ s'.rest = s.rest :=
  map_eq_some_iff.mp (h.trans (congrArg (Option.map Sock.rest) hs))

namespace QueuesOk

variable {m : SoHeap} {Q : Queues}

/-! ## A socket goes away -/

theorem upd_of_get (h : m.get a = some s) (f : Sock → Sock) :
    m.upd a f = some (m.set a (f s)) := by
  rw [SoHeap.upd, h]
  rfl

theorem get_set_self (a : Nat) (s : Sock) : (m.set a s).get a = some s :=
  if_pos rfl

theorem get_set_other {b : Nat} (s : Sock) (h : b ≠ a) : (m.set a s).get b = m.get b :=
  if_neg h

/-- `sofree` returns at once while a pcb or a descriptor is left. -/
theorem sofree_held (hs : m.get so = some s) (hk : (s.soPcb || !s.nofdref) = true) :
    m.sofree so = some m := by
  unfold SoHeap.sofree
  simp only [hs, bind_eq_bind, bind_some]
  exact if_pos hk

/-- Otherwise it takes the socket off its list and frees it. -/
theorem sofree_freed (h : QueuesOk m Q) (hs : m.get so = some s) (hpcb : s.soPcb = false)
    (hf : s.nofdref = true) :
    ∃ m', m.sofree so = some m' ∧ QueuesOk m' (Q.drop so) ∧ m'.top = m.top ∧
      m'.get so = none ∧ ∀ a, a ≠ so → m'.restAt a = m.restAt a := by
  have hplain : s.acceptconn = false :=
    Bool.eq_false_iff.mpr fun hc => nomatch hf.symm.trans (h.listen so s hs hc).1
  obtain ⟨m', s', hfree, hok, htop, hrest, hs', hh'⟩ : ∃ m' s', m.sofree so = some (m'.free so) ∧
      QueuesOk m' (Q.drop so) ∧ m'.top = m.top ∧ (∀ a, m'.restAt a = m.restAt a) ∧
      m'.get so = some s' ∧ s'.soHead = none := by
    unfold SoHeap.sofree
    simp only [hs, bind_eq_bind, bind_some]
    rw [if_neg (by simp [hpcb, hf])]
    cases hhead : s.soHead with
    | none =>
      have hdrop : Q.drop so = Q := by
        funext p q
        exact Queues.drop_of_not_mem (h.head_not_mem hs hhead p q)
      exact ⟨m, s, rfl, hdrop.symm ▸ h, rfl, fun _ => rfl, hs, hhead⟩
    | some p =>
      obtain ⟨q, hq⟩ := h.child so s p hs hhead
      obtain ⟨m', hm', hok, htop, hrest, s', hs', hh'⟩ := h.remque hq
      refine ⟨m', s', ?_, hok, htop, hrest, hs', hh'⟩
      cases q with
      | false => simp only [hm', bind_some, if_true]
      | true =>
        simp only [h.remque_other hq Bool.false_ne_true, bind_some, Bool.false_eq_true,
          if_false, hm', if_true]
  refine ⟨_, hfree, hok.free hs' hh' fun q => ?_, htop, by simp [SoHeap.free], fun a ha => ?_⟩
  · rw [Queues.drop, h.nil_of_plain hs hplain]
    rfl
  · rw [← hrest a]
    simp [SoHeap.restAt, SoHeap.free, ha]

/-- `tcp_close` clears `so_pcb` and leaves the links alone. -/
theorem set_closed (h : QueuesOk m Q) (hs : m.get so = some s) :
    QueuesOk (m.set so s.closed) Q :=
  h.set hs rfl (fun _ => rfl) (fun _ => rfl) id (fun _ => ⟨rfl, rfl⟩) (h.listen so s hs)

/-- A socket without a descriptor goes away with its connection. -/
theorem tcpClose_freed (h : QueuesOk m Q) (hs : m.get so = some s) (hf : s.nofdref = true) :
    ∃ m', m.tcpClose so = some m' ∧ QueuesOk m' (Q.drop so) ∧ m'.top = m.top ∧
      m'.get so = none ∧ ∀ a, a ≠ so → m'.restAt a = m.restAt a := by
  obtain ⟨m', hm', hok, htop, hgone, hrest⟩ :=
    (h.set_closed hs).sofree_freed (get_set_self so s.closed) rfl hf
  refine ⟨m', ?_, hok, htop, hgone, fun a ha => ?_⟩
  · rw [SoHeap.tcpClose, upd_of_get hs]
    exact hm'
  · rw [hrest a ha, SoHeap.restAt, get_set_other _ ha, SoHeap.restAt]

/-- A socket with a descriptor stays. -/
theorem tcpClose_held (hs : m.get so = some s) (hf : s.nofdref = false) :
    m.tcpClose so = some (m.set so s.closed) := by
  rw [SoHeap.tcpClose, upd_of_get hs]
  refine sofree_held (get_set_self so s.closed) ?_
  show (false || !s.nofdref) = true
  rw [hf]
  rfl

/-! ## The loops of `soclose` -/

/-- A child on a list has its control block. -/
def Attached (m : SoHeap) (Q : Queues) : Prop :=
  ∀ p q x, x ∈ Q p q → ∃ s, m.get x = some s ∧ s.soPcb = true

theorem drainQ (h : QueuesOk m Q) {q : Bool} {n : Nat} (hs : m.get so = some s)
    (hc : s.acceptconn = true) (ha : ∀ x ∈ Q so q, ∃ sx, m.get x = some sx ∧ sx.soPcb = true)
    (hn : (Q so q).length < n) :
    ∃ m' Q', SoHeap.soDrainQ q so n m = some m' ∧ QueuesOk m' Q' ∧ Q' so q = [] ∧
      (∀ p q', ¬(p = so ∧ q' = q) → Q' p q' = Q p q') ∧ m'.top = m.top ∧
      (∀ a ∈ Q so q, m'.get a = none) ∧
      ∀ a, a ∉ Q so q → m'.restAt a = m.restAt a := by
  induction n generalizing m Q s with
  | zero => exact absurd hn (Nat.not_lt_zero _)
  | succ n ih =>
    rw [SoHeap.soDrainQ]
    simp only [hs, bind_eq_bind, bind_some]
    have hseg := h.path so s hs (h.listen so s hs hc).2 q
    cases hl : Q so q with
    | nil =>
      rw [hl] at hseg
      obtain ⟨-, k, hk, rfl⟩ := hseg
      rw [SoHeap.link_of_get hs] at hk
      rw [Option.some.inj hk]
      exact ⟨m, Q, rfl, h, hl, fun _ _ _ => rfl, rfl, fun _ ha => (nomatch ha), fun _ _ => rfl⟩
    | cons c l =>
      rw [hl] at hseg
      obtain ⟨-, k, hk, hk', -⟩ := hseg
      subst hk'
      rw [SoHeap.link_of_get hs] at hk
      rw [Option.some.inj hk]
      -- the first child is aborted: it leaves the list
      have hmem : c ∈ Q so q := by
        rw [hl]
        exact mem_cons_self
      obtain ⟨sc, hsc, hpcb⟩ := ha c hmem
      obtain ⟨m1, hm1, hok1, htop1, hnone1, hrest1⟩ :=
        h.tcpClose_freed hsc (h.queued hsc hmem).nofdref
      have habort : m.soabort c = some m1 := by
        unfold SoHeap.soabort
        simp only [hsc, bind_eq_bind, bind_some, if_pos hpcb]
        exact hm1
      simp only [habort, bind_some]
      have hnd := h.nodup_one so q
      rw [hl] at hnd
      have hdrop : Q.drop c so q = l := by
        rw [Queues.drop, hl, filter_cons_of_neg (by simp)]
        exact Queues.filter_ne_self (List.nodup_cons.mp hnd).1
      have hother : ∀ p q', ¬(p = so ∧ q' = q) → Q.drop c p q' = Q p q' := fun p q' hne =>
        Queues.drop_of_not_mem fun hm' => hne (h.mem_unique hmem hm')
      have hso : so ≠ c := by
        rintro rfl
        exact h.head_not_mem hs (h.listen so s hs hc).2 so q hmem
      obtain ⟨s1, hs1, hr1⟩ := get_of_rest (hrest1 so hso) hs
      obtain ⟨m', Q', hm', hok', hnil', hother', htop', hgone', hrest'⟩ :=
        ih hok1 hs1 ((Sock.acceptconn_of_rest hr1).trans hc) (by
            intro x hx
            rw [hdrop] at hx
            have hxc : x ≠ c := by
              rintro rfl
              exact (List.nodup_cons.mp hnd).1 hx
            obtain ⟨sx, hsx, hpx⟩ := ha x (by rw [hl]; exact mem_cons_of_mem c hx)
            obtain ⟨sx', hsx', hrx⟩ := get_of_rest (hrest1 x hxc) hsx
            exact ⟨sx', hsx', (Sock.soPcb_of_rest hrx).trans hpx⟩)
          (by
            rw [hdrop]
            rw [hl, length_cons] at hn
            omega)
      rw [hdrop] at hgone' hrest'
      refine ⟨m', Q', hm', hok', hnil', fun p q' hne => ?_, htop'.trans htop1, fun a ha' => ?_,
        fun a ha' => ?_⟩
      · rw [hother' p q' hne, hother p q' hne]
      · obtain rfl | ha' := mem_cons.mp ha'
        · have := hrest' a (List.nodup_cons.mp hnd).1
          rw [SoHeap.restAt, SoHeap.restAt, hnone1] at this
          exact map_eq_none_iff.mp this
        · exact hgone' a ha'
      · rw [mem_cons, not_or] at ha'
        rw [hrest' a ha'.2, hrest1 a ha'.1]

end QueuesOk

/-! ## What a run keeps -/

open QueuesOk

/-- The queues `Q`, with the largest `so_qlimit` of every socket. -/
structure SoqInv (m : SoHeap) (Q : Queues) (largest : Nat → Int) : Prop where
  queues : QueuesOk m Q
  attached : Attached m Q
  limit : ∀ a s, m.get a = some s → 0 ≤ s.soQlimit ∧ s.soQlimit ≤ largest a
  total : ∀ a, ((Q a false).length + (Q a true).length : Int) ≤ (3 * largest a).tdiv 2 + 1

/-- The sockets with a descriptor stay, `x` apart, and with them whether they listen. -/
def FdKept (x : Option Nat) (m m' : SoHeap) : Prop :=
  ∀ a s, some a ≠ x → m.get a = some s → s.nofdref = false →
    ∃ s', m'.get a = some s' ∧ s'.nofdref = false ∧ s'.acceptconn = s.acceptconn

namespace FdKept

variable {m m' m'' : SoHeap} {x : Option Nat}

theorem refl (x : Option Nat) (m : SoHeap) : FdKept x m m := fun _ s _ hs hf => ⟨s, hs, hf, rfl⟩

theorem trans (h : FdKept x m m') (h' : FdKept x m' m'') : FdKept x m m'' := by
  intro a s ha hs hf
  obtain ⟨s', hs', hf', hc'⟩ := h a s ha hs hf
  obtain ⟨s'', hs'', hf'', hc''⟩ := h' a s' ha hs' hf'
  exact ⟨s'', hs'', hf'', hc''.trans hc'⟩

theorem of_none (h : FdKept none m m') : FdKept x m m' := fun a s _ => h a s (by simp)

/-- Sockets that differ in their links only. -/
theorem of_rest (h : ∀ a s, some a ≠ x → m.get a = some s → s.nofdref = false →
    m'.restAt a = m.restAt a) : FdKept x m m' := by
  intro a s ha hs hf
  obtain ⟨s', hs', hr⟩ := get_of_rest (h a s ha hs hf) hs
  exact ⟨s', hs', (Sock.nofdref_of_rest hr).trans hf, Sock.acceptconn_of_rest hr⟩

theorem set (ha : m.get a = some s) (hf : s.nofdref = false → s'.nofdref = false)
    (hc : s'.acceptconn = s.acceptconn) :
    FdKept x m (m.set a s') := by
  intro b s1 _ hs1 hf1
  by_cases hb : b = a
  · subst hb
    obtain rfl := Option.some.inj (ha.symm.trans hs1)
    exact ⟨s', get_set_self b s', hf hf1, hc⟩
  · exact ⟨s1, by rw [get_set_other _ hb, hs1], hf1, rfl⟩

theorem set_self (s' : Sock) : FdKept (some a) m (m.set a s') := by
  intro b s1 hb hs1 hf1
  exact ⟨s1, by rw [get_set_other _ fun e => hb (congrArg some e), hs1], hf1, rfl⟩

/-- A socket without a descriptor may change in any way. -/
theorem but (hs : m.get so = some s) (hf : s.nofdref = true)
    (h : ∀ a, a ≠ so → m'.restAt a = m.restAt a) : FdKept x m m' := by
  refine of_rest fun a s1 _ hs1 hf1 => h a ?_
  rintro rfl
  obtain rfl := Option.some.inj (hs.symm.trans hs1)
  exact nomatch hf.symm.trans hf1

theorem alloc (s : Sock) (ha : m.get a = none) : FdKept x m (m.alloc a s) := by
  intro b s1 _ hs1 hf1
  refine ⟨s1, ?_, hf1, rfl⟩
  have hb : b ≠ a := by
    rintro rfl
    rw [ha] at hs1
    cases hs1
  exact (if_neg hb).trans hs1

end FdKept

/-- The sockets with a descriptor keep it. -/
def FdOpen (x : Option Nat) (m m' : SoHeap) : Prop :=
  ∀ a s, some a ≠ x → m.get a = some s → s.nofdref = false →
    ∃ s', m'.get a = some s' ∧ s'.nofdref = false

theorem FdKept.fdOpen {x : Option Nat} {m' : SoHeap} (h : FdKept x m m') : FdOpen x m m' := by
  intro a s ha hs hf
  obtain ⟨s', hs', hf', -⟩ := h a s ha hs hf
  exact ⟨s', hs', hf'⟩

theorem FdOpen.set {x : Option Nat} (ha : m.get a = some s)
    (hf : s.nofdref = false → s'.nofdref = false) : FdOpen x m (m.set a s') := by
  intro b s1 _ hs1 hf1
  by_cases hb : b = a
  · subst hb
    obtain rfl := Option.some.inj (ha.symm.trans hs1)
    exact ⟨s', get_set_self b s', hf hf1⟩
  · exact ⟨s1, by rw [get_set_other _ hb, hs1], hf1⟩

namespace SoqInv

variable {m m' : SoHeap} {Q Q' : Queues} {L : Nat → Int}

/-- Lists may get shorter while limits and control blocks stay. -/
theorem shrink (h : SoqInv m Q L) (hok : QueuesOk m' Q') (hsub : ∀ p q, (Q' p q).Sublist (Q p q))
    (hback : ∀ a s', m'.get a = some s' → ∃ s, m.get a = some s ∧ s'.soQlimit = s.soQlimit)
    (hpcb : ∀ p q x s, x ∈ Q' p q → m.get x = some s → s.soPcb = true →
      ∃ s', m'.get x = some s' ∧ s'.soPcb = true) : SoqInv m' Q' L where
  queues := hok
  attached := by
    intro p q x hx
    obtain ⟨s, hs, hp⟩ := h.attached p q x ((hsub p q).subset hx)
    exact hpcb p q x s hx hs hp
  limit := by
    intro a s' hs'
    obtain ⟨s, hs, hl⟩ := hback a s' hs'
    rw [hl]
    exact h.limit a s hs
  total := by
    intro a
    have h0 := (hsub a false).length_le
    have h1 := (hsub a true).length_le
    have := h.total a
    omega

/-- The same when the sockets that are left have changed in the fields of the queues only. -/
theorem shrink_rest (h : SoqInv m Q L) (hok : QueuesOk m' Q')
    (hsub : ∀ p q, (Q' p q).Sublist (Q p q))
    (hrest : ∀ a s', m'.get a = some s' → m'.restAt a = m.restAt a) :
    SoqInv m' Q' L := by
  refine h.shrink hok hsub (fun a s' hs' => ?_) (fun p q x s hx hs hp => ?_)
  · obtain ⟨s, hs, hr⟩ := get_of_rest (hrest a s' hs').symm hs'
    exact ⟨s, hs, (Sock.soQlimit_of_rest hr).symm⟩
  · obtain ⟨sx, hsx, -⟩ := hok.mem p q x hx
    obtain ⟨s', hs', hr⟩ := get_of_rest (hrest x sx hsx) hs
    exact ⟨s', hs', (Sock.soPcb_of_rest hr).trans hp⟩

theorem drop_sublist (Q : Queues) (x p : Nat) (q : Bool) : (Q.drop x p q).Sublist (Q p q) :=
  filter_sublist

section

variable (h : SoqInv m Q L)
include h

theorem set (ha : m.get a = some s) (hok : QueuesOk (m.set a s') Q)
    (hl : s'.soQlimit = s.soQlimit) (hp : s.soHead ≠ none → s'.soPcb = s.soPcb) :
    SoqInv (m.set a s') Q L := by
  refine h.shrink hok (fun _ _ => Sublist.refl _) (fun b s1 hb => ?_) (fun p q x s1 hx hs1 hp1 => ?_)
  · by_cases hba : b = a
    · subst hba
      obtain rfl := Option.some.inj ((get_set_self b s').symm.trans hb)
      exact ⟨s, ha, hl⟩
    · rw [get_set_other _ hba] at hb
      exact ⟨s1, hb, rfl⟩
  · by_cases hxa : x = a
    · subst hxa
      obtain rfl := Option.some.inj (ha.symm.trans hs1)
      refine ⟨s', get_set_self x s', (hp ?_).trans hp1⟩
      rw [(h.queues.queued ha hx).head]
      simp
    · exact ⟨s1, by rw [get_set_other _ hxa, hs1], hp1⟩

/-- A socket that is freed leaves its list. -/
theorem gone (hok : QueuesOk m' (Q.drop so)) (hnone : m'.get so = none)
    (hrest : ∀ a, a ≠ so → m'.restAt a = m.restAt a) :
    SoqInv m' (Q.drop so) L := by
  refine h.shrink_rest hok (drop_sublist Q so) fun a s' hs' => hrest a ?_
  rintro rfl
  exact nomatch hnone.symm.trans hs'

section

variable (hs : m.get so = some s)
include hs

/-- A socket with a descriptor is no child. -/
theorem head_none (hf : s.nofdref = false) :
    s.soHead = none := by
  by_contra hq
  obtain ⟨p, hp⟩ := ne_none_iff_exists'.mp hq
  obtain ⟨q, hq⟩ := h.queues.child so s p hs hp
  exact nomatch hf.symm.trans (h.queues.queued hs hq).nofdref

theorem tcpClose :
    ∃ m' Q', m.tcpClose so = some m' ∧ SoqInv m' Q' L ∧ FdKept none m m' := by
  cases hf : s.nofdref with
  | true =>
    obtain ⟨m', hm', hok, -, hnone, hrest⟩ := h.queues.tcpClose_freed hs hf
    exact ⟨m', _, hm', h.gone hok hnone hrest, FdKept.but hs hf hrest⟩
  | false =>
    refine ⟨_, Q, tcpClose_held hs hf, h.set hs (h.queues.set_closed hs) rfl ?_, FdKept.set hs id rfl⟩
    exact fun hq => absurd (h.head_none hs hf) hq

theorem sofree :
    ∃ m' Q', m.sofree so = some m' ∧ SoqInv m' Q' L ∧ FdKept none m m' := by
  by_cases hk : (s.soPcb || !s.nofdref) = true
  · exact ⟨m, Q, sofree_held hs hk, h, FdKept.refl none m⟩
  · simp only [Bool.or_eq_true, Bool.not_eq_true', not_or, Bool.not_eq_true, Bool.not_eq_false] at hk
    obtain ⟨m', hm', hok, -, hnone, hrest⟩ := h.queues.sofree_freed hs hk.1 hk.2
    exact ⟨m', _, hm', h.gone hok hnone hrest, FdKept.but hs hk.2 hrest⟩

/-- `soabort` is `tcp_close`, if there is a pcb. -/
theorem soabort :
    ∃ m' Q', m.soabort so = some m' ∧ SoqInv m' Q' L ∧ FdKept none m m' := by
  unfold SoHeap.soabort
  simp only [hs, bind_eq_bind, bind_some]
  split_ifs
  · exact h.tcpClose hs
  · exact ⟨m, Q, rfl, h, FdKept.refl none m⟩

theorem drainQ (q : Bool) (hc : s.acceptconn = true) :
    ∃ m' Q', SoHeap.soDrainQ q so (m.top + 1) m = some m' ∧ SoqInv m' Q' L ∧ Q' so q = [] ∧
      (∀ p q', ¬(p = so ∧ q' = q) → Q' p q' = Q p q') ∧ FdKept none m m' ∧
      ∃ s', m'.get so = some s' ∧ s'.rest = s.rest := by
  obtain ⟨m', Q', hm', hok, hnil, hother, -, hgone, hrest⟩ :=
    h.queues.drainQ hs hc (h.attached so q) (h.queues.length_lt so q)
  have hso := h.queues.head_not_mem hs (h.queues.listen so s hs hc).2 so q
  have hkept : FdKept none m m' := by
    refine FdKept.of_rest fun a s1 _ hs1 hf1 => hrest a fun ha => ?_
    exact nomatch hf1.symm.trans (h.queues.queued hs1 ha).nofdref
  refine ⟨m', Q', hm', ?_, hnil, hother, hkept, get_of_rest (hrest so hso) hs⟩
  have hsub : ∀ p q', (Q' p q').Sublist (Q p q') := by
    intro p q'
    by_cases hpq : p = so ∧ q' = q
    · rw [hpq.1, hpq.2, hnil]
      exact nil_sublist _
    · rw [hother p q' hpq]
  refine h.shrink_rest hok hsub fun a s' hs' => hrest a fun ha => ?_
  exact nomatch (hgone a ha).symm.trans hs'

/-- **Both loops of `soclose` end, with empty lists.** -/
theorem drain (hc : s.acceptconn = true) :
    ∃ m' Q', m.soDrain so = some m' ∧ SoqInv m' Q' L ∧ (∀ q, Q' so q = []) ∧ FdKept none m m' ∧
      ∃ s', m'.get so = some s' ∧ s'.rest = s.rest := by
  obtain ⟨m1, Q1, hm1, h1, hnil1, -, hk1, s1, hs1, hr1⟩ := h.drainQ hs false hc
  have hc1 := (Sock.acceptconn_of_rest hr1).trans hc
  obtain ⟨m2, Q2, hm2, h2, hnil2, hother2, hk2, s2, hs2, hr2⟩ := h1.drainQ hs1 true hc1
  refine ⟨m2, Q2, ?_, h2, fun q => ?_, hk1.trans hk2, s2, hs2, hr2.trans hr1⟩
  · rw [SoHeap.soDrain, hm1]
    exact hm2
  · cases q with
    | false => rw [hother2 so false (by simp), hnil1]
    | true => exact hnil2

/-- A listener has no pcb after it. -/
theorem tcpDisconnect (stays : Bool) (hf : s.nofdref = false) :
    ∃ m' s', m.tcpDisconnect so stays = some m' ∧ SoqInv m' Q L ∧ FdKept none m m' ∧
      m'.get so = some s' ∧ s'.nofdref = false ∧ s'.acceptconn = s.acceptconn ∧
      (s.acceptconn = true → s'.soPcb = false) := by
  unfold SoHeap.tcpDisconnect
  simp only [hs, bind_eq_bind, bind_some]
  split_ifs with hst
  · refine ⟨_, { s with cantrcvmore := true }, rfl, ?_, FdKept.set hs id rfl, get_set_self so _, hf, rfl,
      ?_⟩
    · exact h.set hs (h.queues.set hs rfl (fun _ => rfl) (fun _ => rfl) id (fun _ => ⟨rfl, rfl⟩)
        (h.queues.listen so s hs)) rfl fun _ => rfl
    · intro hc
      simp [hc] at hst
  · exact ⟨_, s.closed, tcpClose_held hs hf, h.set hs (h.queues.set_closed hs) rfl
      (fun hq => absurd (h.head_none hs hf) hq), FdKept.set hs id rfl, get_set_self so _, hf, rfl,
      fun _ => rfl⟩

theorem free (hh : s.soHead = none)
    (hnil : ∀ q, Q so q = []) : SoqInv (m.free so) Q L := by
  refine h.shrink (h.queues.free hs hh hnil) (fun _ _ => Sublist.refl _) (fun a s' hs' => ?_)
    (fun p q x sx hx hsx hp => ?_)
  · by_cases ha : a = so
    · simp [SoHeap.free, ha] at hs'
    · simp only [SoHeap.free, if_neg ha] at hs'
      exact ⟨s', hs', rfl⟩
  · have hne : x ≠ so := by
      rintro rfl
      exact h.queues.head_not_mem hs hh p q hx
    exact ⟨sx, by simp [SoHeap.free, hne, hsx], hp⟩

/-- The end of `soclose`, where the descriptor goes. -/
theorem discard (hf : s.nofdref = false)
    (hnil : ∀ q, Q so q = []) (hp : s.acceptconn = true → s.soPcb = false) :
    ∃ m', m.closeDiscard so = some m' ∧ SoqInv m' Q L ∧ FdKept (some so) m m' := by
  have hh := h.head_none hs hf
  have hset : m.closeDiscard so = (m.set so { s with nofdref := true }).sofree so := by
    unfold SoHeap.closeDiscard
    simp only [hs, bind_eq_bind, bind_some]
    exact if_neg (by simp [hf])
  rw [hset]
  cases hpcb : s.soPcb with
  | true =>
    refine ⟨_, sofree_held (get_set_self so _) (by simp), ?_, FdKept.set_self _⟩
    have hc : s.acceptconn = false :=
      Bool.eq_false_iff.mpr fun hc => nomatch hpcb.symm.trans (hp hc)
    refine h.set hs (h.queues.set hs rfl (fun _ => rfl) (fun _ => rfl) id (absurd hh) ?_)
      rfl (absurd hh)
    exact fun hc' => nomatch hc.symm.trans hc'
  | false =>
    refine ⟨m.free so, ?_, h.free hs hh hnil, fun a s1 ha hs1 hf1 => ⟨s1, ?_, hf1, rfl⟩⟩
    · unfold SoHeap.sofree
      simp only [get_set_self, bind_eq_bind, bind_some, hh, Bool.not_true,
        Bool.or_self, Bool.false_eq_true, if_false]
      unfold SoHeap.free SoHeap.set
      congr 2
      funext x
      dsimp only
      split_ifs <;> rfl
    · exact (if_neg fun e => ha (congrArg some e)).trans hs1

/-- `soclose` as far as the loop that lingers; where it sleeps there, the socket does not listen. -/
theorem closeStart (disc linger : Bool) (hf : s.nofdref = false) :
    ∃ r Q' s', m.closeStart so disc linger = some r ∧ SoqInv r.1 Q' L ∧ FdKept none m r.1 ∧
      r.1.get so = some s' ∧ s'.nofdref = false ∧ (∀ q, Q' so q = []) ∧
      (r.2 = true → s'.acceptconn = false) := by
  -- the loops over the queues
  obtain ⟨m1, Q1, s1, hm1, h1, hk1, hs1, hf1, hnil1⟩ : ∃ m1 Q1 s1, m.closeDrain so = some m1 ∧
      SoqInv m1 Q1 L ∧ FdKept none m m1 ∧ m1.get so = some s1 ∧ s1.nofdref = false ∧
      ∀ q, Q1 so q = [] := by
    unfold SoHeap.closeDrain
    simp only [hs, bind_eq_bind, bind_some]
    cases hc : s.acceptconn with
    | true =>
      obtain ⟨m1, Q1, hm1, h1, hnil1, hk1, s1, hs1, hr1⟩ := h.drain hs hc
      exact ⟨m1, Q1, s1, hm1, h1, hk1, hs1, (Sock.nofdref_of_rest hr1).trans hf, hnil1⟩
    | false => exact ⟨m, Q, s, rfl, h, FdKept.refl none m, hs, hf, h.queues.nil_of_plain hs hc⟩
  -- the disconnect
  obtain ⟨m2, s2, hm2, h2, hk2, hs2, hf2, hc2⟩ : ∃ m2 s2, m1.closeDisconnect so disc = some m2 ∧
      SoqInv m2 Q1 L ∧ FdKept none m1 m2 ∧ m2.get so = some s2 ∧ s2.nofdref = false ∧
      ((s2.soPcb && s2.isconnected) = true → s2.acceptconn = false) := by
    unfold SoHeap.closeDisconnect
    simp only [hs1, bind_eq_bind, bind_some]
    split_ifs with hp
    · obtain ⟨m2, s2, hm2, h2, hk2, hs2, hf2, hc2, hp2⟩ := h1.tcpDisconnect hs1 disc hf1
      refine ⟨m2, s2, hm2, h2, hk2, hs2, hf2, fun hp => ?_⟩
      rw [Bool.and_eq_true] at hp
      exact Bool.eq_false_iff.mpr fun hc => nomatch (hp2 (hc2 ▸ hc)).symm.trans hp.1
    · exact ⟨m1, s1, rfl, h1, FdKept.refl none m1, hs1, hf1, fun hp' => absurd hp' hp⟩
  refine ⟨(m2, linger && s2.soPcb && s2.isconnected), Q1, s2, ?_, h2, hk1.trans hk2, hs2, hf2, hnil1,
    fun hl => hc2 ?_⟩
  · rw [SoHeap.closeStart, hm1]
    simp only [bind_eq_bind, bind_some, hm2, hs2]
  · simp only [Bool.and_eq_true] at hl ⊢
    exact ⟨hl.1.2, hl.2⟩

/-- `soclose` after the lingering. -/
theorem closeEnd (det : Bool) (hf : s.nofdref = false)
    (hnil : ∀ q, Q so q = []) :
    ∃ m', m.closeEnd so det = some m' ∧ SoqInv m' Q L ∧ FdKept (some so) m m' := by
  obtain ⟨m1, s1, hm1, h1, hk1, hs1, hf1, hp1⟩ : ∃ m1 s1, m.closeDetach so det = some m1 ∧
      SoqInv m1 Q L ∧ FdKept none m m1 ∧ m1.get so = some s1 ∧ s1.nofdref = false ∧
      (s1.acceptconn = true → s1.soPcb = false) := by
    unfold SoHeap.closeDetach
    simp only [hs, bind_eq_bind, bind_some]
    split_ifs with hp
    · obtain ⟨m1, s1, hm1, h1, hk1, hs1, hf1, hc1, hp1⟩ := h.tcpDisconnect hs det hf
      exact ⟨m1, s1, hm1, h1, hk1, hs1, hf1, fun hc => hp1 (hc1 ▸ hc)⟩
    · exact ⟨m, s, rfl, h, FdKept.refl none m, hs, hf, fun _ => by simpa using hp⟩
  obtain ⟨m', hm', h', hk'⟩ := h1.discard hs1 hf1 hnil hp1
  refine ⟨m', ?_, h', hk1.of_none.trans hk'⟩
  rw [SoHeap.closeEnd, hm1]
  exact hm'

/-- The child goes from `so_q0` to `so_q`. -/
theorem soisconnected :
    ∃ m' Q', m.soisconnected so = some m' ∧ SoqInv m' Q' L ∧ FdKept none m m' := by
  unfold SoHeap.soisconnected
  rw [upd_of_get hs]
  simp only [bind_eq_bind, bind_some, get_set_self]
  have h₁ : SoqInv (m.set so { s with isconnected := true }) Q L :=
    h.set hs (h.queues.set hs rfl (fun _ => rfl) (fun _ => rfl) id (fun _ => ⟨rfl, rfl⟩)
      (h.queues.listen so s hs)) rfl fun _ => rfl
  have hk1 : FdKept none m (m.set so { s with isconnected := true }) := FdKept.set hs id rfl
  have hs1 := get_set_self (m := m) so { s with isconnected := true }
  generalize m.set so { s with isconnected := true } = m1 at h₁ hk1 hs1
  cases hh : s.soHead with
  | none => exact ⟨m1, Q, rfl, h₁, hk1⟩
  | some p =>
    obtain ⟨q, hq⟩ := h₁.queues.child so _ p hs1 hh
    cases q with
    | true =>
      simp only [h₁.queues.remque_other hq Bool.false_ne_true, bind_some]
      exact ⟨m1, Q, rfl, h₁, hk1⟩
    | false =>
      obtain ⟨m2, hm2, hok2, -, hrest2, s2, hs2, hh2⟩ := h₁.queues.remque hq
      have hqd := h₁.queues.queued hs1 hq
      obtain ⟨sp, hsp, hcp⟩ := h₁.queues.own p false so hq
      obtain ⟨sp2, hsp2, hrp⟩ := get_of_rest (hrest2 p) hsp
      obtain ⟨s2', hs2', hr2⟩ := get_of_rest (hrest2 so) hs1
      obtain rfl := Option.some.inj (hs2.symm.trans hs2')
      obtain ⟨m3, hm3, hok3, -, hrest3⟩ := hok2.insque (q := true) hsp2
        ((Sock.acceptconn_of_rest hrp).trans hcp) hs2 hh2 ((Sock.nofdref_of_rest hr2).trans hqd.nofdref)
        ((Sock.acceptconn_of_rest hr2).trans hqd.plain)
      simp only [hm2, bind_some, if_true]
      refine ⟨m3, _, hm3, ⟨hok3, ?_, ?_, ?_⟩,
        hk1.trans (FdKept.of_rest fun a _ _ _ _ => (hrest3 a).trans (hrest2 a))⟩
      · intro p' q' x hx
        have hx1 : ∃ p q, x ∈ Q p q := by
          obtain hx | ⟨-, -, rfl⟩ := Queues.mem_push.mp hx
          · exact ⟨p', q', (Queues.mem_drop.mp hx).1⟩
          · exact ⟨p, false, hq⟩
        obtain ⟨_, _, hx1⟩ := hx1
        obtain ⟨sx, hsx, hpx⟩ := h₁.attached _ _ x hx1
        obtain ⟨sx', hsx', hrx⟩ := get_of_rest ((hrest3 x).trans (hrest2 x)) hsx
        exact ⟨sx', hsx', (Sock.soPcb_of_rest hrx).trans hpx⟩
      · intro a s3 hs3
        obtain ⟨s0, hs0, hr0⟩ := get_of_rest ((hrest3 a).trans (hrest2 a)).symm hs3
        rw [← Sock.soQlimit_of_rest hr0]
        exact h₁.limit a s0 hs0
      · intro a
        have htot := h₁.total a
        have h0 := (drop_sublist Q so a false).length_le
        have h1 := (drop_sublist Q so a true).length_le
        by_cases ha : a = p
        · -- one list has lost the socket, the other has gained it
          subst ha
          have hlt : (Q.drop so a false).length < (Q a false).length := by
            refine length_filter_lt_length_iff_exists.mpr ⟨so, hq, by simp⟩
          rw [Queues.push_self, Queues.push_other _ _ (by simp), length_append]
          simp only [length_cons, length_nil]
          omega
        · rw [Queues.push_other _ _ fun e => ha e.1, Queues.push_other _ _ fun e => ha e.1]
          omega

/-- The first complete connection gets a descriptor. -/
theorem acceptConn (hc : s.acceptconn = true) (hq : s.soQlen ≠ 0) :
    ∃ m' aso a, m.acceptConn so = some (m', aso) ∧ SoqInv m' (Q.drop aso) L ∧
      (∃ l, Q so true = aso :: l) ∧
      m'.get aso = some a ∧ a.nofdref = false ∧ FdKept none m m' := by
  have hh := (h.queues.listen so s hs hc).2
  have hseg := h.queues.path so s hs hh true
  have hlen := h.queues.len so s hs hh true
  cases hl : Q so true with
  | nil =>
    rw [hl] at hlen
    exact absurd hlen hq
  | cons c l =>
    rw [hl] at hseg
    obtain ⟨-, k, hk, hk', -⟩ := hseg
    subst hk'
    rw [SoHeap.link_of_get hs] at hk
    have hmem : c ∈ Q so true := by
      rw [hl]
      exact mem_cons_self
    obtain ⟨m1, hm1, hok1, -, hrest1, s1, hs1, hh1⟩ := h.queues.remque hmem
    obtain ⟨sc, hsc, hqc⟩ := h.queues.mem so true c hmem
    obtain ⟨s1', hs1', hr1⟩ := get_of_rest (hrest1 c) hsc
    obtain rfl := Option.some.inj (hs1.symm.trans hs1')
    have hf1 := (Sock.nofdref_of_rest hr1).trans hqc.nofdref
    have hc1 := (Sock.acceptconn_of_rest hr1).trans hqc.plain
    have hinv1 := h.shrink_rest hok1 (drop_sublist Q c) fun a _ _ => hrest1 a
    refine ⟨m1.set c { s1 with nofdref := false }, c, _, ?_, ?_, ⟨l, rfl⟩,
      get_set_self c _, rfl, FdKept.but hsc hqc.nofdref fun b hb => by
        rw [SoHeap.restAt, get_set_other _ hb, ← hrest1 b, SoHeap.restAt]⟩
    · unfold SoHeap.acceptConn
      have hk' : s.soQ = some c := Option.some.inj hk
      simp only [hs, hk', hm1, hs1, hf1, bind_eq_bind, bind_some, if_true]
    · refine hinv1.set hs1 (hok1.set hs1 rfl (fun _ => rfl) (fun _ => rfl) id
        (absurd hh1) ?_) rfl (absurd hh1)
      exact fun hc' => Bool.noConfusion (hc1.symm.trans hc')

/-- `accept`, to where the connection has left the queue. -/
theorem accept :
    ∃ r Q', m.accept so = some r ∧ SoqInv r.1 Q' L ∧ FdKept none m r.1 := by
  unfold SoHeap.accept
  simp only [hs, bind_eq_bind, bind_some]
  split_ifs with h1 h2 h3 h4 h5
  iterate 4 exact ⟨_, Q, rfl, h, FdKept.refl none m⟩
  · refine ⟨_, Q, rfl, h.set hs ?_ rfl fun _ => rfl, FdKept.set hs id rfl⟩
    exact h.queues.set hs rfl (fun _ => rfl) (fun _ => rfl) id (fun _ => ⟨rfl, rfl⟩)
      (h.queues.listen so s hs)
  · obtain ⟨m', aso, a, hm', h', -, -, -, hk⟩ := h.acceptConn hs (by simpa using h1) fun e =>
      h3 ⟨e, not_not.mp h5⟩
    exact ⟨_, _, by rw [hm']; rfl, h', hk⟩

end

theorem alloc (ha : m.get a = none) (hok : QueuesOk (m.alloc a s) Q) (hl : s.soQlimit = 0) :
    SoqInv (m.alloc a s) Q (fun x => if x = a then 0 else L x) := by
  have hother : ∀ {b}, b ≠ a → (m.alloc a s).get b = m.get b := by
    intro b hb
    simp [SoHeap.alloc, SoHeap.set, hb]
  refine ⟨hok, fun p q x hx => ?_, fun b s' hs' => ?_, fun b => ?_⟩
  · obtain ⟨sx, hsx, hp⟩ := h.attached p q x hx
    refine ⟨sx, ?_, hp⟩
    rw [hother, hsx]
    rintro rfl
    rw [ha] at hsx
    cases hsx
  · by_cases hb : b = a
    · subst hb
      obtain rfl : s = s' := by simpa [SoHeap.alloc, SoHeap.set] using hs'
      rw [if_pos rfl, hl]
      exact ⟨le_rfl, le_rfl⟩
    · rw [if_neg hb]
      rw [hother hb] at hs'
      exact h.limit b s' hs'
  · by_cases hb : b = a
    · subst hb
      rw [if_pos rfl, h.queues.nil_of_none ha, h.queues.nil_of_none ha]
      decide
    · rw [if_neg hb]
      exact h.total b

/-- A new socket has no limit yet. -/
theorem socreate {new : Nat} (hn : m.get new = none) :
    SoqInv (m.socreate new) Q (fun x => if x = new then 0 else L x) :=
  h.alloc hn (h.queues.alloc hn rfl (fun q => by cases q <;> rfl) (fun q => by cases q <;> rfl) rfl)
    rfl

/-- A new limit may be the largest so far. -/
theorem solisten (backlog : Int) (hs : m.get so = some s) (hf : s.nofdref = false) :
    ∃ m', m.solisten so backlog = some m' ∧ FdKept (some so) m m' ∧
      SoqInv m' Q (fun x => if x = so then max (L x) (backlogLimit backlog) else L x) := by
  unfold SoHeap.solisten
  rw [upd_of_get hs]
  have hh := h.head_none hs hf
  refine ⟨_, rfl, FdKept.set_self _, ?_, ?_, ?_, ?_⟩
  · refine h.queues.set hs rfl (fun q => by cases q <;> rfl) (fun q => by cases q <;> rfl) ?_ ?_ ?_
    · intro hc
      simp [hc]
    · exact absurd hh
    · exact fun _ => ⟨hf, hh⟩
  · intro p q x hx
    obtain ⟨sx, hsx, hp⟩ := h.attached p q x hx
    refine ⟨sx, ?_, hp⟩
    rw [get_set_other, hsx]
    rintro rfl
    exact h.queues.head_not_mem hs hh p q hx
  · intro a s' hs'
    by_cases ha : a = so
    · subst ha
      obtain rfl := Option.some.inj ((get_set_self a _).symm.trans hs')
      rw [if_pos rfl]
      refine ⟨?_, le_max_right _ _⟩
      show 0 ≤ backlogLimit backlog
      unfold backlogLimit somaxconn
      omega
    · rw [if_neg ha]
      rw [get_set_other _ ha] at hs'
      exact h.limit a s' hs'
  · intro a
    have htot := h.total a
    by_cases ha : a = so
    · subst ha
      rw [if_pos rfl]
      have hpos := h.limit a s hs
      have : (3 * L a).tdiv 2 ≤ (3 * max (L a) (backlogLimit backlog)).tdiv 2 := by
        rw [Int.tdiv_eq_ediv_of_nonneg (by omega), Int.tdiv_eq_ediv_of_nonneg (by omega)]
        omega
      omega
    · rw [if_neg ha]
      exact htot

/-- Nothing is known of a socket that does not exist. -/
theorem forget {new : Option Nat} (hn : ∀ a, new = some a → m.get a = none) :
    SoqInv m Q (fun x => if some x = new then 0 else L x) := by
  refine ⟨h.queues, h.attached, fun a s hs => ?_, fun a => ?_⟩
  · rw [if_neg fun e => by rw [hn a e.symm] at hs; cases hs]
    exact h.limit a s hs
  · by_cases ha : some a = new
    · have hnil := h.queues.nil_of_none (hn a ha.symm)
      rw [if_pos ha, hnil, hnil]
      decide
    · rw [if_neg ha]
      exact h.total a

end

/-- A child put on a list and taken off again. -/
theorem drop_push {p x : Nat} {q : Bool} (hx : ∀ p' q', x ∉ Q p' q') :
    (Q.push p q x).drop x = Q := by
  funext p' q'
  have hkeep : (Q p' q').filter (· ≠ x) = Q p' q' := Queues.drop_of_not_mem (hx p' q')
  unfold Queues.drop Queues.push
  split_ifs
  · rw [filter_append, hkeep, filter_cons_of_neg (by simp)]
    exact append_nil _
  · exact hkeep

/-- The test at the head of `sonewconn1` leaves room for one child. -/
theorem room_for_one (h : SoqInv m Q L) {head : Nat} {sh : Sock} (hs : m.get head = some sh)
    (hc : sh.acceptconn = true) (hroom : ¬sh.soQlen + sh.soQ0len > (3 * sh.soQlimit).tdiv 2) :
    ((Q head false).length + (Q head true).length : Int) ≤ (3 * L head).tdiv 2 := by
  have hh := (h.queues.listen head sh hs hc).2
  have hl0 : sh.soQ0len = (Q head false).length := h.queues.len head sh hs hh false
  have hl1 : sh.soQlen = (Q head true).length := h.queues.len head sh hs hh true
  have hlim := h.limit head sh hs
  have hmono : (3 * sh.soQlimit).tdiv 2 ≤ (3 * L head).tdiv 2 := by
    rw [Int.tdiv_eq_ediv_of_nonneg (by omega), Int.tdiv_eq_ediv_of_nonneg (by omega)]
    omega
  omega

/-- A new child is put on a list of `head`, unless there are too many. -/
theorem sonewconn1 (h : SoqInv m Q L) {head : Nat} {sh : Sock} (connstatus : Bool)
    {new : Option Nat} (attach : Bool) (hs : m.get head = some sh) (hc : sh.acceptconn = true)
    (hn : ∀ a, new = some a → m.get a = none) :
    ∃ r Q', m.sonewconn1 head connstatus new attach = some r ∧ FdKept none m r.1 ∧
      SoqInv r.1 Q' (fun x => if some x = new then 0 else L x) := by
  have hforget := h.forget hn
  unfold SoHeap.sonewconn1
  simp only [hs, bind_eq_bind, bind_some]
  split
  · exact ⟨_, Q, rfl, FdKept.refl none m, hforget⟩
  next hroom =>
  cases new with
  | none => exact ⟨_, Q, rfl, FdKept.refl none m, hforget⟩
  | some so =>
    have hso := hn so rfl
    have hne : head ≠ so := by
      rintro rfl
      rw [hso] at hs
      cases hs
    -- the new socket is put on its list
    have hok1 := h.queues.alloc (s := sh.child) hso rfl (fun q => by cases q <;> rfl)
      (fun q => by cases q <;> rfl) rfl
    have h1 := h.alloc hso hok1 rfl
    have hself : (m.alloc so sh.child).get so = some sh.child := if_pos rfl
    have hhead : (m.alloc so sh.child).get head = some sh := (if_neg hne).trans hs
    have hnot := hok1.head_not_mem hself rfl
    obtain ⟨m2, hm2, hok2, -, hrest2⟩ := hok1.insque (q := connstatus) hhead hc hself rfl rfl rfl
    have hmem2 : so ∈ Q.push head connstatus so head connstatus :=
      Queues.mem_push.mpr (.inr ⟨rfl, rfl, rfl⟩)
    simp only [hm2, bind_some]
    cases attach with
    | false =>
      -- and taken off again, as `PRU_ATTACH` has failed
      obtain ⟨m3, hm3, hok3, -, hrest3, s3, hs3, hh3⟩ := hok2.remque hmem2
      rw [drop_push hnot] at hok3
      simp only [hm3, bind_some, Bool.false_eq_true, if_false]
      have h3 := h1.shrink_rest hok3 (fun _ _ => Sublist.refl _) fun a _ _ =>
        (hrest3 a).trans (hrest2 a)
      refine ⟨_, Q, rfl, ?_, ?_⟩
      · refine (FdKept.alloc sh.child hso).trans (FdKept.but hself rfl fun a ha => ?_)
        rw [← hrest2 a, ← hrest3 a]
        exact congrArg (Option.map Sock.rest) (if_neg ha)
      simp only [Option.some.injEq]
      exact h3.free hs3 hh3 (h.queues.nil_of_none hso)
    | true =>
      obtain ⟨s2, hs2, hr2⟩ := get_of_rest (hrest2 so) hself
      rw [upd_of_get hs2]
      simp only [bind_some, if_true, Option.some.injEq]
      have hset : QueuesOk (m2.set so (s2.attached connstatus)) (Q.push head connstatus so) :=
        hok2.set hs2 rfl (fun q => by cases q <;> rfl) (fun q => by cases q <;> rfl) id
          (fun _ => ⟨rfl, rfl⟩) (hok2.listen so s2 hs2)
      refine ⟨_, _, rfl, ?_, hset, ?_, ?_, ?_⟩
      · refine (FdKept.alloc sh.child hso).trans (FdKept.but hself rfl fun a ha => ?_)
        rw [← hrest2 a]
        exact congrArg (Option.map Sock.rest) (if_neg ha)
      · intro p q x hx
        by_cases hxs : x = so
        · subst hxs
          exact ⟨_, get_set_self x _, rfl⟩
        · obtain hx | ⟨-, -, e⟩ := Queues.mem_push.mp hx
          · obtain ⟨sx, hsx, hp⟩ := h1.attached p q x hx
            obtain ⟨sx', hsx', hr⟩ := get_of_rest (hrest2 x) hsx
            exact ⟨sx', by rw [get_set_other _ hxs, hsx'], (Sock.soPcb_of_rest hr).trans hp⟩
          · exact absurd e hxs
      · intro a s' hs'
        by_cases ha : a = so
        · subst ha
          obtain rfl := Option.some.inj ((get_set_self a _).symm.trans hs')
          have := h1.limit a sh.child hself
          show 0 ≤ s2.soQlimit ∧ s2.soQlimit ≤ _
          rw [Sock.soQlimit_of_rest hr2]
          exact this
        · rw [get_set_other _ ha] at hs'
          obtain ⟨s0, hs0, hr⟩ := get_of_rest (hrest2 a).symm hs'
          rw [← Sock.soQlimit_of_rest hr]
          exact h1.limit a s0 hs0
      · intro a
        have htot := h1.total a
        by_cases ha : a = head
        · subst ha
          rw [if_neg hne] at htot ⊢
          have hone := h.room_for_one hs hc hroom
          cases connstatus
          all_goals
            rw [Queues.push_self, Queues.push_other _ _ (by simp), length_append]
            simp only [length_cons, length_nil]
            omega
        · rw [Queues.push_other _ _ fun e => ha e.1, Queues.push_other _ _ fun e => ha e.1]
          exact htot

end SoqInv

end Anp
