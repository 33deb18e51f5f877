import Anp.Uspace.Fdtbl

/-!
# AcceptCall — a connection taken from the queue is handed out

`accept` dequeues a connection before it has a descriptor for it, and its error is set only on some of
the ways to the end.
-/

namespace Anp

open Links Runs QueuesOk List

/-! ## The table -/

namespace FdTbl

variable {t : FdTbl}

theorem fdalloc_full (h : t.Full) (so : Nat) : t.fdalloc so = (t, -1) := by
  have : t.slots.findIdx? (·.isNone) = none := by
    rw [findIdx?_eq_none_iff]
    intro x hx
    cases x with
    | none => exact absurd hx h
    | some a => rfl
  rw [fdalloc, this]

theorem fdalloc_free (h : ¬t.Full) (so : Nat) :
    ∃ i, t.fdalloc so = (t.put i (some so), (i : Int)) ∧ t.slots[i]? = some none := by
  cases hi : t.slots.findIdx? (·.isNone) with
  | none =>
    rw [findIdx?_eq_none_iff] at hi
    exact absurd (fun hm => by simpa using hi none hm) h
  | some i =>
    refine ⟨i, by rw [fdalloc, hi], ?_⟩
    obtain ⟨hlt, hnone, -⟩ := findIdx?_eq_some_iff_getElem.mp hi
    rw [getElem?_eq_getElem hlt]
    exact congrArg some (Option.isNone_iff_eq_none.mp hnone)

theorem sock_put (t : FdTbl) {i : Nat} (j : Nat) (v : Option Nat) (hi : i < maxfds) :
    (t.put i v).sock j = if i = j then v else t.sock j := by
  unfold sock put
  by_cases h : i = j
  · subst h
    rw [getElem?_set_self (by rw [t.size]; exact hi), if_pos rfl]
    rfl
  · rw [getElem?_set_ne h, if_neg h]

theorem lt_of_get {i : Nat} {v : Option Nat} (h : t.slots[i]? = some v) :
    i < maxfds := by
  rw [← t.size]
  exact (List.getElem?_eq_some_iff.mp h).1

theorem fdfind_eq {fd so : Nat} (h : t.fdfind fd = some so) :
    fd < maxfds ∧ t.sock fd = some so := by
  unfold fdfind at h
  split_ifs at h with hfd
  exact ⟨hfd, h⟩

end FdTbl

/-! ## One call -/

/-- A complete connection is there to be taken, and nothing else comes first. -/
def Sock.ready (s : Sock) : Prop := s.acceptconn = true ∧ s.soQlen ≠ 0 ∧ s.soError = 0
deriving Decidable

/-- The call on `fd`, whose socket is `so`, whatever is on the stack: it sleeps or fails with the
queue as it was, or it returns a descriptor of the first connection, which is off the queue. -/
def AcceptSafe (σ : FdSys) (fd so : Nat) (name anamelen slept : Bool) (tsleep : Nat) : Prop :=
  ∃ σ' r, (∀ stack, fdCall σ (.accept fd ⟨name, anamelen, slept, stack, tsleep⟩) = some (σ', r)) ∧
    match r with
    | .asleep => σ'.soq.heap.complete so = σ.soq.heap.complete so
    | .ret v e _ =>
      (σ'.soq.heap.complete so = σ.soq.heap.complete so ∧ v = -1 ∧ e ≠ 0) ∨
        ∃ aso, σ.soq.heap.complete so = aso :: σ'.soq.heap.complete so ∧
          ∃ i : Nat, v = i ∧ σ'.tbl.sock i = some aso

theorem accept_not_ready {m : SoHeap} {Q : Queues} (h : QueuesOk m Q) {so : Nat} {s : Sock}
    (hs : m.get so = some s) (hh : s.soHead = none) (hr : ¬s.ready) :
    ∃ m' r, m.accept so = some (m', r) ∧ m'.complete so = m.complete so ∧
      ((∃ e, r = .error e ∧ e ≠ 0) ∨ r = .sleep) := by
  unfold SoHeap.accept
  simp only [hs, Option.bind_eq_bind, Option.bind_some]
  split_ifs with h1 h2 h3 h4 h5
  · exact ⟨m, _, rfl, rfl, .inl ⟨einval, rfl, by decide⟩⟩
  · exact ⟨m, _, rfl, rfl, .inl ⟨ewouldblock, rfl, by decide⟩⟩
  · exact ⟨m, _, rfl, rfl, .inl ⟨econnaborted, rfl, by decide⟩⟩
  · exact ⟨m, _, rfl, rfl, .inr rfl⟩
  · refine ⟨_, _, rfl, ?_, .inl ⟨s.soError, rfl, h5⟩⟩
    have h' : QueuesOk (m.set so { s with soError := 0 }) Q :=
      h.set hs rfl (fun _ => rfl) (fun _ => rfl) id (fun _ => ⟨rfl, rfl⟩) (h.listen so s hs)
    rw [h'.complete_eq (get_set_self so _) hh, h.complete_eq hs hh]
  · refine absurd ⟨by simpa using h1, fun e => ?_, not_not.mp h5⟩ hr
    exact h3 ⟨e, not_not.mp h5⟩

theorem accept_ready {m : SoHeap} {Q : Queues} {L : Nat → Int} (h : SoqInv m Q L) {so : Nat}
    {s : Sock} (hs : m.get so = some s) (hr : s.ready) :
    ∃ m' aso, m.accept so = some (m', .conn aso) ∧ m.complete so = aso :: m'.complete so ∧
      (∃ a, m'.get aso = some a ∧ a.nofdref = false) ∧ ∃ a, m.get aso = some a ∧ a.nofdref = true := by
  obtain ⟨hc, hq, he⟩ := hr
  obtain ⟨m', aso, a, hm', h', ⟨l, hl⟩, ha, hf, hk⟩ := h.acceptConn hs hc hq
  have hlisten := h.queues.listen so s hs hc
  obtain ⟨s', hs', hf', -⟩ := hk so s (by simp) hs hlisten.1
  have hmem : aso ∈ Q so true := by
    rw [hl]
    exact mem_cons_self
  refine ⟨m', aso, ?_, ?_, ⟨a, ha, hf⟩, ?_⟩
  · unfold SoHeap.accept
    simp only [hs, Option.bind_eq_bind, Option.bind_some, hc, he, hm']
    simp [hq]
  · rw [h.queues.complete_eq hs hlisten.2, h'.queues.complete_eq hs' (h'.head_none hs' hf'), hl,
      Queues.drop, hl, filter_cons_of_neg (by simp)]
    have hnd := h.queues.nodup_one so true
    rw [hl] at hnd
    exact congrArg (aso :: ·) (Queues.filter_ne_self (List.nodup_cons.mp hnd).1).symm
  · obtain ⟨sa, hsa, hqa⟩ := h.queues.mem so true aso hmem
    exact ⟨sa, hsa, hqa.nofdref⟩

theorem fdCall_accept {σ : FdSys} {fd so : Nat} {m' : SoHeap} {r : AcceptRet} (a : AcceptArgs)
    (hn : a.name = true → a.anamelen = true) (hfd : σ.tbl.fdfind fd = some so)
    (hacc : σ.soq.heap.accept so = some (m', r)) :
    fdCall σ (.accept fd a) = some ((acceptEnd (σ.withHeap m') a r).1,
      (acceptEnd (σ.withHeap m') a r).2.anp) := by
  have hcopy : (a.name && !a.anamelen) = false := by
    cases h : a.name with
    | false => rfl
    | true => rw [hn h]; rfl
  rw [fdCall, sysAccept, if_neg (by simp [hcopy]), hfd]
  simp only [Option.bind_some, hacc, Option.map_some]

/-- **A connection `accept` takes is handed out** exactly where it can only be taken with a free
descriptor and with `error` set, and where a name comes with a length. -/
theorem accept_delivers {σ : FdSys} {fd so : Nat} {s : Sock} (hσ : SoqReach σ.soq)
    (hfd : σ.tbl.fdfind fd = some so) (hs : σ.soq.heap.get so = some s) (hf : s.nofdref = false)
    (name anamelen slept : Bool) (tsleep : Nat) :
    AcceptSafe σ fd so name anamelen slept tsleep ↔ (name = true → anamelen = true) ∧
        (s.ready → (name = true ∨ slept = true) ∧ ¬σ.tbl.Full) := by
  obtain ⟨Q, hQ⟩ := SoqHolds.run hσ
  have hinv := hQ.inv
  by_cases hn : name = true → anamelen = true
  swap
  · -- the length is read through address zero
    refine iff_of_false ?_ fun h => hn h.1
    rintro ⟨σ', r, h, -⟩
    have := h 0
    simp only [Classical.not_imp, Bool.not_eq_true] at hn
    rw [fdCall, sysAccept, if_pos (by simp [hn.1, hn.2])] at this
    cases this
  by_cases hr : s.ready
  swap
  · -- nothing is taken
    refine iff_of_true ?_ ⟨hn, fun h => absurd h hr⟩
    obtain ⟨m', r, hacc, hcomp, hret⟩ := accept_not_ready hinv.queues hs (hinv.head_none hs hf) hr
    have hcall := fun stack => fdCall_accept ⟨name, anamelen, slept, stack, tsleep⟩ hn hfd hacc
    obtain ⟨e, rfl, he⟩ | rfl := hret
    · refine ⟨σ.withHeap m', .ret (-1) e [], fun stack => ?_, .inl ⟨hcomp, rfl, by exact_mod_cast he⟩⟩
      rw [hcall stack]
      simp only [acceptEnd, SysRet.anp]
      rw [if_pos (by exact_mod_cast he)]
    · by_cases ht : tsleep = 0
      · refine ⟨σ.withHeap m', .asleep, fun stack => ?_, hcomp⟩
        rw [hcall stack]
        simp only [acceptEnd, ht, if_true, SysRet.anp]
      · refine ⟨σ.withHeap m', .ret (-1) tsleep [], fun stack => ?_,
          .inl ⟨hcomp, rfl, by exact_mod_cast ht⟩⟩
        rw [hcall stack]
        simp only [acceptEnd, if_neg ht, SysRet.anp]
        rw [if_pos (by exact_mod_cast ht)]
  · obtain ⟨m', aso, hacc, hcomp, -⟩ := accept_ready hinv hs hr
    have hcall := fun stack => fdCall_accept ⟨name, anamelen, slept, stack, tsleep⟩ hn hfd hacc
    constructor
    · rintro ⟨σ', r, h, hsafe⟩
      refine ⟨hn, fun _ => ?_⟩
      -- two values on the stack give two results
      have hset : name = true ∨ slept = true := by
        by_contra hne
        rw [not_or, Bool.not_eq_true, Bool.not_eq_true] at hne
        obtain ⟨rfl, rfl⟩ := hne
        have h0 := (hcall 0).symm.trans (h 0)
        have h1 := (hcall 1).symm.trans (h 1)
        have := congrArg Prod.snd (Option.some.inj (h0.trans h1.symm))
        simp [acceptEnd, AcceptArgs.error, SysRet.anp] at this
      refine ⟨hset, fun hfull => ?_⟩
      have herr : AcceptArgs.error ⟨name, anamelen, slept, 0, tsleep⟩ = 0 := by
        simp [AcceptArgs.error]
      have h0 := (hcall 0).symm.trans (h 0)
      have htbl : (σ.withHeap m').tbl.fdalloc aso = (σ.tbl, -1) := FdTbl.fdalloc_full hfull aso
      simp only [acceptEnd, herr, htbl] at h0
      cases h0
      obtain ⟨hsame, -⟩ | ⟨aso', -, i, hi, -⟩ := hsafe
      · -- the connection is gone
        have hlen := congrArg List.length (hcomp.symm.trans hsame.symm)
        exact absurd hlen (Nat.succ_ne_self _)
      · exact absurd hi (by simp)
    · rintro ⟨-, hcond⟩
      obtain ⟨hset, hfull⟩ := hcond hr
      have herr : ∀ stack, AcceptArgs.error ⟨name, anamelen, slept, stack, tsleep⟩ = 0 := by
        intro stack
        obtain rfl | rfl := hset <;> simp [AcceptArgs.error]
      obtain ⟨i, hi, hfree⟩ := FdTbl.fdalloc_free hfull aso
      have htbl : (σ.withHeap m').tbl.fdalloc aso = (σ.tbl.put i (some aso), (i : Int)) := hi
      refine ⟨{ σ.withHeap m' with tbl := σ.tbl.put i (some aso) }, .ret i 0 [(i : Int)],
        fun stack => ?_, .inr ⟨aso, hcomp, i, rfl, ?_⟩⟩
      · rw [hcall stack]
        simp only [acceptEnd, herr, htbl, SysRet.anp]
        rfl
      · show (σ.tbl.put i (some aso)).sock i = some aso
        rw [FdTbl.sock_put _ _ _ (FdTbl.lt_of_get hfree), if_pos rfl]

/-- A listener on descriptor 0 with one complete connection. -/
def oneWaiting : FdSys where
  soq := [.create 0, .listen 0 2, .newconn 0 false (some 1) true, .isconnected 1].foldl soqNext {}
  tbl := FdTbl.empty.put 0 (some 0)

/-- With a name and a length, the connection gets descriptor 1. -/
theorem accept_delivers_named : AcceptSafe oneWaiting 0 0 true true false 0 :=
  (accept_delivers (soqReach_foldl _) (show oneWaiting.tbl.fdfind 0 = some 0 by decide)
    (show _ = some { acceptconn := true, soPcb := true, soQ := some 1, soQlen := 1, soQlimit := 2 } by
      decide)
    rfl true true false 0).mpr ⟨fun _ => rfl, fun _ => ⟨.inl rfl, by decide⟩⟩

/-- `accept(0, NULL, NULL)` with 5 on the stack reports a failure, and the connection is off the
queue. -/
theorem accept_unnamed : ¬AcceptSafe oneWaiting 0 0 false false false 0 := by
  rintro ⟨σ', r, h, -⟩
  have h0 := congrArg (Option.map Prod.snd) ((h 0).trans (h 5).symm)
  exact absurd h0 (by decide)

end Anp
