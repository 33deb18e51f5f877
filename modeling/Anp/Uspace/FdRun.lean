import Anp.Uspace.AcceptCall

/-!
# FdRun — the descriptor table over runs of calls

`socketpair` closes both sockets when it fails and keeps their descriptors; `accept` may report the
failure it finds on the stack. Apart from the two, a call that fails leaves the table as it was.
-/

namespace Anp

open Links Runs QueuesOk Option

variable {det : Bool} {c : FdCall} {σ : FdSys} {fd so : Nat} {q q' : SoqSys}

/-- Every entry is a socket of its own that is open. -/
structure FdHolds (σ : FdSys) : Prop where
  soq : ∃ Q, SoqHolds σ.soq Q
  isOpen : ∀ i so, σ.tbl.sock i = some so → ∃ s, σ.soq.heap.get so = some s ∧ s.nofdref = false
  once : ∀ i j so, σ.tbl.sock i = some so → σ.tbl.sock j = some so → i = j

theorem SoqHolds.call {Q : Queues} (h : SoqHolds q Q) (op : SoqOp) (hc : q.Called op) :
    ∃ q' Q', soqDo q op = some q' ∧ SoqHolds q' Q' ∧ FdOpen op.closes q.heap q'.heap := by
  obtain ⟨q', Q', hq', h'⟩ := h.step op
  rw [soqStep, if_pos hc] at hq'
  exact ⟨q', Q', hq', h'⟩

namespace FdHolds

variable {σ : FdSys}

theorem init : FdHolds {} := by
  have hnone : ∀ i so, FdTbl.empty.sock i ≠ some so := by
    intro i so h
    have := List.eq_of_mem_replicate (List.mem_of_getElem? (join_eq_some_iff.mp h))
    cases this
  refine ⟨⟨_, SoqHolds.init⟩, fun i so h => absurd h (hnone i so), fun i j so h => absurd h (hnone i so)⟩

theorem soq_step (h : FdHolds σ) {Q' : Queues} (hq : SoqHolds q' Q')
    (ho : FdOpen none σ.soq.heap q'.heap) : FdHolds { σ with soq := q' } := by
  refine ⟨⟨Q', hq⟩, fun i so hi => ?_, h.once⟩
  obtain ⟨s, hs, hf⟩ := h.isOpen i so hi
  exact ho so s (by simp) hs hf

theorem fdalloc (h : FdHolds σ) {s : Sock} (hs : σ.soq.heap.get so = some s)
    (hf : s.nofdref = false) (hnot : ∀ i, σ.tbl.sock i ≠ some so) :
    FdHolds { σ with tbl := (σ.tbl.fdalloc so).1 } := by
  by_cases hfull : σ.tbl.Full
  · rw [FdTbl.fdalloc_full hfull]
    exact h
  obtain ⟨i, hi, hfree⟩ := FdTbl.fdalloc_free hfull so
  have hlt := FdTbl.lt_of_get hfree
  rw [hi]
  refine ⟨h.soq, fun j so' hj => ?_, fun j k so' hj hk => ?_⟩
  · rw [FdTbl.sock_put _ _ _ hlt] at hj
    split_ifs at hj
    · obtain rfl := Option.some.inj hj
      exact ⟨s, hs, hf⟩
    · exact h.isOpen j so' hj
  · rw [FdTbl.sock_put _ _ _ hlt] at hj hk
    split_ifs at hj hk with e e' e'
    · exact e.symm.trans e'
    · obtain rfl := Option.some.inj hj
      exact absurd hk (hnot k)
    · obtain rfl := Option.some.inj hk
      exact absurd hj (hnot j)
    · exact h.once j k so' hj hk

theorem fdfree (h : FdHolds σ) {Q' : Queues} (hfd : σ.tbl.fdfind fd = some so) (hq : SoqHolds q' Q')
    (ho : FdOpen (some so) σ.soq.heap q'.heap) :
    FdHolds { soq := q', tbl := σ.tbl.fdfree fd } := by
  obtain ⟨hlt, hsock⟩ := FdTbl.fdfind_eq hfd
  refine ⟨⟨Q', hq⟩, fun i so' hi => ?_, fun i j so' hi hj => ?_⟩
  · rw [FdTbl.fdfree, FdTbl.sock_put _ _ _ hlt] at hi
    split_ifs at hi with e
    obtain ⟨s, hs, hf⟩ := h.isOpen i so' hi
    refine ho so' s (fun e' => e ?_) hs hf
    obtain rfl := Option.some.inj e'
    exact h.once fd i so' hsock hi
  · rw [FdTbl.fdfree, FdTbl.sock_put _ _ _ hlt] at hi hj
    split_ifs at hi hj
    exact h.once i j so' hi hj

theorem not_of_fresh (h : FdHolds σ) (hn : σ.soq.heap.get so = none) (i : Nat) :
    σ.tbl.sock i ≠ some so := by
  intro hi
  obtain ⟨s, hs, -⟩ := h.isOpen i so hi
  rw [hn] at hs
  cases hs

end FdHolds

/-! ## One call -/

/-- The sockets a call makes: new ones, or the connection it takes from a queue. -/
def FdSys.made (σ : FdSys) : FdCall → List Nat
  | .socket (.ok so) => [so]
  | .socketpair _ (.ok so₁) (.ok so₂) _ _ => [so₁, so₂]
  | .accept fd _ =>
    ((σ.tbl.fdfind fd).bind fun so => (σ.soq.heap.complete so).head?).toList
  | _ => []

def FdTbl.Maps (t : FdTbl) (fd : Int) (so : Nat) : Prop := ∃ i : Nat, fd = i ∧ t.sock i = some so

/-- A call that returns -1 leaves the table as it was; one that does not returns descriptors of the
sockets it made. -/
def CallOk (σ : FdSys) (c : FdCall) : Prop := ∀ σ' r e fds, fdCall σ c = some (σ', .ret r e fds) →
    if r = -1 then σ'.tbl = σ.tbl
    else List.Forall₂ σ'.tbl.Maps fds (σ.made c)

/-- `socketpair` does not get as far as to take a descriptor; `accept` takes a connection and a
descriptor only with `error` zero. -/
def FdCond (σ : FdSys) : FdCall → Prop
  | .socketpair _ (.ok _) (.ok _) _ _ => σ.tbl.Full
  | .accept fd a =>
    a.error = 0 ∨ σ.tbl.Full ∨ ∀ so ∈ σ.tbl.fdfind fd, ∀ s ∈ σ.soq.heap.get so, ¬s.ready
  | _ => True

instance (σ : FdSys) : (c : FdCall) → Decidable (FdCond σ c)
  | .socketpair _ (.ok _) (.ok _) _ _ => inferInstanceAs (Decidable σ.tbl.Full)
  | .accept fd a => inferInstanceAs (Decidable (a.error = 0 ∨ σ.tbl.Full ∨
      ∀ so ∈ σ.tbl.fdfind fd, ∀ s ∈ σ.soq.heap.get so, ¬s.ready))
  | .socketpair _ (.error _) _ _ _ | .socketpair _ (.ok _) (.error _) _ _ | .socket _
  | .close .. | .closeEnd .. | .listen .. | .newconn .. | .isconnected _ | .tcpClose _ =>
    .isTrue trivial

def CallHolds (σ : FdSys) (c : FdCall) : Prop :=
  CallOk σ c ∧ ∀ σ' r, fdCall σ c = some (σ', r) → FdHolds σ'

theorem CallHolds.of_none (h : fdCall σ c = none) : CallHolds σ c := by
  refine ⟨fun σ' r e fds h' => ?_, fun σ' r h' => ?_⟩
  · exact absurd (h.symm.trans h') (by simp)
  · exact absurd (h.symm.trans h') (by simp)

theorem CallHolds.of_eq (σ1 : FdSys) (r1 : FdRet) (hcall : fdCall σ c = some (σ1, r1))
    (h : FdHolds σ1) (hok : ∀ r e fds, r1 = .ret r e fds → if r = -1 then σ1.tbl = σ.tbl
      else List.Forall₂ σ1.tbl.Maps fds (σ.made c)) :
    CallHolds σ c := by
  refine ⟨fun σ' r e fds h' => ?_, fun σ' r h' => ?_⟩
  · have := hcall.symm.trans h'
    cases this
    exact hok r e fds rfl
  · have := hcall.symm.trans h'
    cases this
    exact h

theorem CallHolds.of_error (σ1 : FdSys) {error : Int} {l : List Int} (he : error ≠ 0)
    (hcall : fdCall σ c = some (σ1, (SysRet.done error l).anp)) (h : FdHolds σ1)
    (htbl : σ1.tbl = σ.tbl) : CallHolds σ c := by
  refine CallHolds.of_eq _ _ hcall h fun r e fds hr => ?_
  rw [SysRet.anp, if_pos he] at hr
  cases hr
  exact htbl

theorem CallHolds.of_fdalloc (q : SoqSys) (so : Nat)
    (hcall : fdCall σ c = some ({ soq := q, tbl := (σ.tbl.fdalloc so).1 },
      (SysRet.done 0 [(σ.tbl.fdalloc so).2]).anp))
    (h : FdHolds { soq := q, tbl := (σ.tbl.fdalloc so).1 }) (hmade : σ.made c = [so]) :
    CallHolds σ c := by
  refine CallHolds.of_eq _ _ hcall h fun r e fds hr => ?_
  cases hr
  by_cases hfull : σ.tbl.Full
  · rw [FdTbl.fdalloc_full hfull]
    show if (-1 : Int) = -1 then σ.tbl = σ.tbl else _
    rw [if_pos rfl]
  · obtain ⟨i, hi, hfree⟩ := FdTbl.fdalloc_free hfull so
    rw [hi, hmade]
    refine .cons ⟨i, rfl, ?_⟩ .nil
    rw [FdTbl.sock_put _ _ _ (FdTbl.lt_of_get hfree), if_pos rfl]

theorem SoqHolds.created {Q : Queues} (h : SoqHolds q Q) (hn : q.heap.get so = none)
    (hq : soqDo q (.create so) = some q') :
    (∃ s, q'.heap.get so = some s ∧ s.nofdref = false) ∧ so ∉ q'.closing := by
  cases hq
  refine ⟨⟨_, if_pos rfl, rfl⟩, fun hm => ?_⟩
  obtain ⟨s, hs, -⟩ := h.closing so hm
  rw [hn] at hs
  cases hs

theorem closing_of_close {disc : Bool} (h : soqDo q (.close so disc false det) = some q') :
    q'.closing = q.closing := by
  obtain ⟨r, hr, h⟩ := bind_eq_some_iff.mp h
  have hsleep : r.2 = false := by
    unfold SoHeap.closeStart at hr
    simp only [bind_eq_bind, bind_eq_some_iff, Bool.false_and, Option.some.injEq] at hr
    obtain ⟨_, -, _, -, _, -, rfl⟩ := hr
    rfl
  rw [if_neg (by simp [hsleep])] at h
  obtain ⟨m', -, rfl⟩ := map_eq_some_iff.mp h
  rfl

namespace FdHolds

variable {σ : FdSys}

section

variable (h : FdHolds σ)
include h

theorem on_fd (hnone : σ.tbl.fdfind fd = none → fdCall σ c = none)
    (hsome : ∀ so s, σ.tbl.fdfind fd = some so → σ.soq.heap.get so = some s → s.nofdref = false →
      CallHolds σ c) : CallHolds σ c := by
  cases hfd : σ.tbl.fdfind fd with
  | none => exact .of_none (hnone hfd)
  | some so =>
    obtain ⟨s, hs, hf⟩ := h.isOpen fd so (FdTbl.fdfind_eq hfd).2
    exact hsome so s hfd hs hf

theorem socket {new : Except Nat Nat} (hc : σ.Called (.socket new)) :
    CallHolds σ (.socket new) := by
  obtain ⟨Q, hQ⟩ := h.soq
  cases new with
  | error e => exact CallHolds.of_error _ (Int.natCast_ne_zero.mpr hc) rfl h rfl
  | ok so =>
    obtain ⟨q', Q', hq', hQ', ho⟩ := hQ.call (.create so) hc
    obtain ⟨⟨s, hs, hf⟩, -⟩ := hQ.created hc hq'
    refine CallHolds.of_fdalloc q' so ?_ ?_ rfl
    · simp only [fdCall, sysSocket, hq', map_some]
    · exact (h.soq_step hQ' ho).fdalloc hs hf (h.not_of_fresh hc)

theorem accept {a : AcceptArgs} (hcond : FdCond σ (.accept fd a)) :
    CallHolds σ (.accept fd a) := by
  obtain ⟨Q, hQ⟩ := h.soq
  by_cases hname : a.name = true → a.anamelen = true
  swap
  · simp only [Classical.not_imp, Bool.not_eq_true] at hname
    apply CallHolds.of_none
    rw [fdCall, sysAccept, if_pos (by simp [hname.1, hname.2])]
    rfl
  refine h.on_fd (fun hfd => by rw [fdCall, sysAccept, hfd]; split_ifs <;> rfl) fun so s hfd hs hf => ?_
  -- the sockets after the queue part
  obtain ⟨q', Q', hq', hQ', ho⟩ := hQ.call (.accept so) (by
    show (σ.soq.heap.get so).isSome = true
    rw [hs]
    rfl)
  by_cases hr : s.ready
  · obtain ⟨m', aso, hacc, hcomp, ⟨sa, hsa, hfa⟩, sb, hsb, hfb⟩ := accept_ready hQ.inv hs hr
    have hq : soqDo σ.soq (.accept so) = some { σ.soq with heap := m' } := by rw [soqDo, hacc]; rfl
    obtain rfl := Option.some.inj (hq'.symm.trans hq)
    have hcall := fdCall_accept a hname hfd hacc
    have hnot : ∀ i, σ.tbl.sock i ≠ some aso := by
      intro i hi
      obtain ⟨s', hs', hf'⟩ := h.isOpen i aso hi
      obtain rfl := Option.some.inj (hsb.symm.trans hs')
      exact absurd (hfb.symm.trans hf') (by simp)
    have hholds : FdHolds { soq := { σ.soq with heap := m' }, tbl := (σ.tbl.fdalloc aso).1 } :=
      (h.soq_step hQ' ho).fdalloc hsa hfa hnot
    have hmade : σ.made (.accept fd a) = [aso] := by
      show ((σ.tbl.fdfind fd).bind fun so => (σ.soq.heap.complete so).head?).toList = [aso]
      rw [hfd, bind_some, hcomp]
      rfl
    by_cases he : a.error = 0
    · rw [acceptEnd, he] at hcall
      exact CallHolds.of_fdalloc _ _ hcall hholds hmade
    · -- the table is full, so nothing has changed
      have hfull : σ.tbl.Full := by
        obtain h0 | h0 | h0 := hcond
        · exact absurd h0 he
        · exact h0
        · exact absurd hr (h0 so hfd s hs)
      refine CallHolds.of_error _ he hcall hholds ?_
      show (σ.tbl.fdalloc aso).1 = σ.tbl
      rw [FdTbl.fdalloc_full hfull]
  · obtain ⟨m', r, hacc, -, hret⟩ := accept_not_ready hQ.inv.queues hs (hQ.inv.head_none hs hf) hr
    have hq : soqDo σ.soq (.accept so) = some { σ.soq with heap := m' } := by rw [soqDo, hacc]; rfl
    obtain rfl := Option.some.inj (hq'.symm.trans hq)
    have hcall := fdCall_accept a hname hfd hacc
    have hholds := h.soq_step hQ' ho
    obtain ⟨e, rfl, he⟩ | rfl := hret
    · exact CallHolds.of_error _ (Int.natCast_ne_zero.mpr he) hcall hholds rfl
    · by_cases ht : a.tsleep = 0
      · rw [acceptEnd, if_pos ht] at hcall
        exact CallHolds.of_eq _ _ hcall hholds fun _ _ _ e => by cases e
      · rw [acceptEnd, if_neg ht] at hcall
        exact CallHolds.of_error _ (Int.natCast_ne_zero.mpr ht) hcall hholds rfl

theorem close_unmapped {s : Sock} (hs : σ.soq.heap.get so = some s)
    (hf : s.nofdref = false) (hnot : so ∉ σ.soq.closing) (hmap : ∀ i, σ.tbl.sock i ≠ some so)
    (hq' : soqDo σ.soq (.close so false false det) = some q') : FdHolds { σ with soq := q' } := by
  obtain ⟨Q, hQ⟩ := h.soq
  obtain ⟨q'', Q', hq'', hQ', ho⟩ := hQ.call (.close so false false det) ⟨⟨s, hs, hf⟩, hnot⟩
  obtain rfl := Option.some.inj (hq'.symm.trans hq'')
  refine ⟨⟨Q', hQ'⟩, fun i so' hi => ?_, h.once⟩
  obtain ⟨s1, hs1, hf1⟩ := h.isOpen i so' hi
  exact ho so' s1 (fun e => hmap i (hi.trans e)) hs1 hf1

theorem close {disc linger : Bool} (hc : σ.Called (.close fd disc linger det)) :
    CallHolds σ (.close fd disc linger det) := by
  obtain ⟨Q, hQ⟩ := h.soq
  refine h.on_fd (fun hfd => by rw [fdCall, anpClose, hfd]; rfl) fun so s hfd hs hf => ?_
  obtain ⟨q', Q', hq', hQ', ho⟩ := hQ.call (.close so disc linger det) ⟨⟨s, hs, hf⟩, hc so hfd⟩
  by_cases hsleep : so ∈ q'.closing
  · -- asleep, the socket is still open
    refine CallHolds.of_eq { σ with soq := q' } .asleep ?_ ?_ fun _ _ _ e => by cases e
    · simp only [fdCall, anpClose, hfd, bind_some, hq', map_some, if_pos hsleep]
    · refine ⟨⟨Q', hQ'⟩, fun i so' hi => ?_, h.once⟩
      by_cases e : so' = so
      · subst e
        obtain ⟨s', hs', hf', -⟩ := hQ'.closing so' hsleep
        exact ⟨s', hs', hf'⟩
      · obtain ⟨s1, hs1, hf1⟩ := h.isOpen i so' hi
        exact ho so' s1 (fun e' => e (Option.some.inj e')) hs1 hf1
  · refine CallHolds.of_eq { soq := q', tbl := σ.tbl.fdfree fd } (.ret 0 0 []) ?_
      (h.fdfree hfd hQ' ho) fun r e fds hr => ?_
    · simp only [fdCall, anpClose, hfd, bind_some, hq', map_some, if_neg hsleep]
    · cases hr
      exact .nil

theorem closeEnd (hc : σ.Called (.closeEnd fd det)) :
    CallHolds σ (.closeEnd fd det) := by
  obtain ⟨Q, hQ⟩ := h.soq
  refine h.on_fd (fun hfd => by rw [fdCall, anpCloseEnd, hfd]; rfl) fun so _ hfd _ _ => ?_
  obtain ⟨q', Q', hq', hQ', ho⟩ := hQ.call (.closeEnd so det) (hc so hfd)
  refine CallHolds.of_eq { soq := q', tbl := σ.tbl.fdfree fd } (.ret 0 0 []) ?_
    (h.fdfree hfd hQ' ho) fun r e fds hr => ?_
  · simp only [fdCall, anpCloseEnd, hfd, bind_some, hq', map_some]
  · cases hr
    exact .nil

theorem listen {backlog : Int} (hc : σ.Called (.listen fd backlog)) :
    CallHolds σ (.listen fd backlog) := by
  obtain ⟨Q, hQ⟩ := h.soq
  refine h.on_fd (fun hfd => by rw [fdCall, hfd]; rfl) fun so s hfd hs hf => ?_
  obtain ⟨q', Q', hq', hQ', ho⟩ := hQ.call (.listen so backlog) ⟨⟨s, hs, hf⟩, hc so hfd⟩
  refine CallHolds.of_eq { σ with soq := q' } (.ret 0 0 []) ?_ (h.soq_step hQ' ho)
    fun r e fds hr => ?_
  · simp only [fdCall, hfd, bind_some, hq', map_some]
  · cases hr
    exact .nil

theorem event (op : SoqOp) (hc : σ.soq.Called op) (hop : op.closes = none)
    (hcall : fdCall σ c = (soqDo σ.soq op).map fun q => ({ σ with soq := q }, .asleep)) :
    CallHolds σ c := by
  obtain ⟨Q, hQ⟩ := h.soq
  obtain ⟨q', Q', hq', hQ', ho⟩ := hQ.call op hc
  rw [hop] at ho
  rw [hq'] at hcall
  exact CallHolds.of_eq _ _ hcall (h.soq_step hQ' ho) fun _ _ _ e => by cases e

theorem socketpair {dgram : Bool} {new1 new2 : Except Nat Nat} {det1 det2 : Bool}
    (hc : σ.Called (.socketpair dgram new1 new2 det1 det2))
    (hcond : FdCond σ (.socketpair dgram new1 new2 det1 det2)) :
    CallHolds σ (.socketpair dgram new1 new2 det1 det2) := by
  obtain ⟨Q, hQ⟩ := h.soq
  obtain ⟨hc1, hc2, hne⟩ := hc
  cases new1 with
  | error e => exact CallHolds.of_error _ (Int.natCast_ne_zero.mpr hc1) rfl h rfl
  | ok so1 =>
    obtain ⟨q1, Q1, hq1, hQ1, ho1⟩ := hQ.call (.create so1) hc1
    obtain ⟨⟨s1, hs1, hf1⟩, hnot1⟩ := hQ.created hc1 hq1
    cases new2 with
    | error e =>
      obtain ⟨q2, Q2, hq2, hQ2, ho2⟩ :=
        hQ1.call (.close so1 false false det1) ⟨⟨s1, hs1, hf1⟩, hnot1⟩
      refine CallHolds.of_error { σ with soq := q2 } (l := []) (Int.natCast_ne_zero.mpr hc2) ?_
        ((h.soq_step hQ1 ho1).close_unmapped hs1 hf1 hnot1 (h.not_of_fresh hc1) hq2) rfl
      simp only [fdCall, sysSocketpair, hq1, bind_some, hq2, map_some]
    | ok so2 =>
      have hfull : σ.tbl.Full := hcond
      have hso : so1 ≠ so2 := by
        rintro rfl
        exact hne.elim (fun e => by cases e) fun e => e rfl
      have hn2 : q1.heap.get so2 = none := by
        cases hq1
        exact (if_neg hso.symm).trans hc2
      obtain ⟨q2, Q2, hq2, hQ2, ho2⟩ := hQ1.call (.create so2) hn2
      obtain ⟨⟨s2, hs2, hf2⟩, hnot2⟩ := hQ1.created hn2 hq2
      obtain ⟨q3, Q3, hq3, hQ3, ho3⟩ :=
        hQ2.call (.close so2 false false det2) ⟨⟨s2, hs2, hf2⟩, hnot2⟩
      -- the first socket is open all the time
      obtain ⟨t2, ht2, hg2⟩ := ho2 so1 s1 (by simp [SoqOp.closes]) hs1 hf1
      obtain ⟨t3, ht3, hg3⟩ := ho3 so1 t2 (fun e => hso (Option.some.inj e)) ht2 hg2
      have hnot3 : so1 ∉ q3.closing := by
        rw [closing_of_close hq3]
        cases hq2
        exact hnot1
      obtain ⟨q4, Q4, hq4, -, -⟩ := hQ3.call (.close so1 false false det1) ⟨⟨t3, ht3, hg3⟩, hnot3⟩
      have h1 := h.soq_step hQ1 ho1
      have h3 : FdHolds { σ with soq := q3 } := (h1.soq_step hQ2 ho2).close_unmapped hs2 hf2 hnot2
        (h1.not_of_fresh hn2) hq3
      have h4 : FdHolds { σ with soq := q4 } :=
        h3.close_unmapped ht3 hg3 hnot3 (h.not_of_fresh hc1) hq4
      refine CallHolds.of_error { σ with soq := q4 } (l := [])
        (show (soconnect2 : Int) ≠ 0 by decide) ?_ h4 rfl
      have he : soconnect2 ≠ 0 := by decide
      simp only [fdCall, sysSocketpair, hq1, bind_some, hq2, if_pos he, hq3, hq4,
        map_some, FdTbl.fdalloc_full hfull]

theorem call {c : FdCall} (hc : σ.Called c) (hcond : FdCond σ c) :
    CallHolds σ c := by
  cases c with
  | socket new => exact h.socket hc
  | socketpair dgram new1 new2 det1 det2 => exact h.socketpair hc hcond
  | accept fd a => exact h.accept hcond
  | close fd disc linger det => exact h.close hc
  | closeEnd fd det => exact h.closeEnd hc
  | listen fd backlog => exact h.listen hc
  | newconn head connstatus new attach =>
    exact h.event (.newconn head connstatus new attach) hc rfl rfl
  | isconnected so => exact h.event (.isconnected so) hc rfl rfl
  | tcpClose so => exact h.event (.tcpClose so) hc rfl rfl

end

end FdHolds

/-! ## Runs -/

/-- One call; where it does not return, nothing more happens to the table. -/
def fdNext (σ : FdSys) (c : FdCall) : FdSys :=
  if σ.Called c then ((fdCall σ c).map Prod.fst).getD σ else σ

def FdReach (C : FdSys → FdCall → Prop) : FdSys → Prop := Reach (· = {}) (By fdNext C)

theorem fdReach_foldl {C : FdSys → FdCall → Prop} {l : List FdCall} (h : MeetsAll fdNext C {} l) :
    FdReach C (l.foldl fdNext {}) :=
  Reach.foldl (show FdReach C {} from Reach.start rfl) h

theorem FdHolds.run {σ : FdSys} (h : FdReach FdCond σ) : FdHolds σ := by
  refine Reach.ops (I := FdHolds) ?_ (fun σ c hσ hcond => ?_) h
  · rintro _ rfl
    exact FdHolds.init
  · unfold fdNext
    split_ifs with hc
    · cases hcall : fdCall σ c with
      | none => exact hσ
      | some p => exact (hσ.call hc hcond).2 p.1 p.2 hcall
    · exact hσ

/-- **The table is sound** in every state of a run whose calls meet `FdCond`: every entry is an open
socket, and a further such call changes nothing or returns descriptors of the sockets it made. -/
theorem descriptors_sound {σ : FdSys} (h : FdReach FdCond σ) :
    (∀ i so, σ.tbl.sock i = some so → ∃ s, σ.soq.heap.get so = some s ∧ s.nofdref = false) ∧
      ∀ c, σ.Called c → FdCond σ c → CallOk σ c :=
  ⟨(FdHolds.run h).isOpen, fun _ hc hcond => ((FdHolds.run h).call hc hcond).1⟩

/-- A listener, a connection that is accepted without a name, and the listener closed. -/
def fdRun : List FdCall :=
  [.socket (.ok 0), .listen 0 2, .newconn 0 false (some 1) true, .isconnected 1,
    .accept 0 ⟨false, false, false, 0, 0⟩, .close 0 false false false]

theorem descriptors_sound_accepted :
    (fdRun.foldl fdNext {}).tbl.sock 1 = some 1 ∧
      ∃ s, (fdRun.foldl fdNext {}).soq.heap.get 1 = some s ∧ s.nofdref = false :=
  have hfd : (fdRun.foldl fdNext {}).tbl.sock 1 = some 1 := by decide +kernel
  ⟨hfd, (descriptors_sound (fdReach_foldl (l := fdRun) (by decide +kernel))).1 1 1 hfd⟩

/-- `socketpair` in an empty table fails, and leaves descriptors of two sockets that are freed. -/
theorem socketpair_dangling :
    ¬CallOk {} (.socketpair false (.ok 0) (.ok 1) false false) ∧
      (fdNext {} (.socketpair false (.ok 0) (.ok 1) false false)).tbl.sock 0 = some 0 ∧
      (fdNext {} (.socketpair false (.ok 0) (.ok 1) false false)).soq.heap.get 0 = none := by
  refine ⟨fun h => ?_, by decide +kernel, by decide +kernel⟩
  cases hcall : fdCall {} (.socketpair false (.ok 0) (.ok 1) false false) with
  | none => exact absurd (congrArg Option.isSome hcall) (by decide +kernel)
  | some p =>
    obtain ⟨σ', r⟩ := p
    have hr := congrArg (Option.map Prod.snd) hcall
    have ht := congrArg (Option.map fun x => x.1.tbl.sock 0) hcall
    have hr' : r = .ret (-1) 45 [] :=
      (Option.some.inj (hr.symm.trans (show _ = some (FdRet.ret (-1) 45 []) by decide +kernel)))
    have ht' : σ'.tbl.sock 0 = some 0 :=
      (Option.some.inj (ht.symm.trans (show _ = some (some 0) by decide +kernel)))
    subst hr'
    have := h σ' (-1) 45 [] hcall
    rw [if_pos rfl] at this
    rw [this] at ht'
    exact absurd ht' (by decide +kernel)

end Anp
