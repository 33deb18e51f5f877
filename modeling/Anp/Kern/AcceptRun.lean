import Anp.Kern.AcceptOps

/-!
# AcceptRun — connections come and go

Runs of the operations of `SoQueue`, with the largest backlog each socket has had. `soclose` may sleep
where it lingers, so it is two steps then.
-/

namespace Anp

open Links Runs QueuesOk

/-! ## Runs -/

/-- The sockets, those whose `soclose` sleeps in the loop that lingers, and the largest `so_qlimit`
each socket has had. -/
structure SoqSys where
  heap : SoHeap := {}
  closing : List Nat := []
  largest : Nat → Int := fun _ => 0

/-- The calls; a `Bool` or an address of a new socket is what the code called from there decides. -/
inductive SoqOp where
  | create (new : Nat)
  | listen (so : Nat) (backlog : Int)
  | newconn (head : Nat) (connstatus : Bool) (new : Option Nat) (attach : Bool)
  | isconnected (so : Nat)
  -- a reset, a timeout or the end of a connection
  | tcpClose (so : Nat)
  | abort (so : Nat)
  | free (so : Nat)
  | accept (so : Nat)
  | close (so : Nat) (disc linger det : Bool)
  | closeEnd (so : Nat) (det : Bool)
  deriving DecidableEq, Repr

def SoqOp.closes : SoqOp → Option Nat
  | .close so _ _ _ => some so
  | .closeEnd so _ => some so
  | _ => none

/-- A call on a descriptor, and not after `close` was called on it. -/
def SoqSys.onFd (σ : SoqSys) (so : Nat) : Prop :=
  (∃ s ∈ σ.heap.get so, s.nofdref = false) ∧ so ∉ σ.closing
deriving Decidable

/-- Who calls with which socket: `sonewconn` is for a socket with `SO_ACCEPTCONN`, the allocator
returns free memory, and a call from the protocol is for a socket that exists. -/
def SoqSys.Called (σ : SoqSys) : SoqOp → Prop
  | .create new => σ.heap.get new = none
  | .listen so _ => σ.onFd so
  | .newconn head _ new _ =>
    (∃ s ∈ σ.heap.get head, s.acceptconn = true) ∧ ∀ a ∈ new, σ.heap.get a = none
  | .isconnected so => (σ.heap.get so).isSome
  | .tcpClose so => ∃ s ∈ σ.heap.get so, s.soPcb = true
  | .abort so => (σ.heap.get so).isSome
  | .free so => (σ.heap.get so).isSome
  | .accept so => (σ.heap.get so).isSome
  | .close so _ _ _ => σ.onFd so
  | .closeEnd so _ => so ∈ σ.closing

instance (σ : SoqSys) : (op : SoqOp) → Decidable (σ.Called op)
  | .create new => inferInstanceAs (Decidable (σ.heap.get new = none))
  | .listen so _ => inferInstanceAs (Decidable (σ.onFd so))
  | .newconn head _ new _ => inferInstanceAs (Decidable
      ((∃ s ∈ σ.heap.get head, s.acceptconn = true) ∧ ∀ a ∈ new, σ.heap.get a = none))
  | .tcpClose so => inferInstanceAs (Decidable (∃ s ∈ σ.heap.get so, s.soPcb = true))
  | .isconnected _ | .abort _ | .free _ | .accept _ => inferInstanceAs (Decidable (_ = true))
  | .close so _ _ _ => inferInstanceAs (Decidable (σ.onFd so))
  | .closeEnd so _ => inferInstanceAs (Decidable (so ∈ σ.closing))

def soqDo (σ : SoqSys) : SoqOp → Option SoqSys
  | .create new =>
    some { σ with
      heap := σ.heap.socreate new
      largest := fun x => if x = new then 0 else σ.largest x }
  | .listen so backlog =>
    (σ.heap.solisten so backlog).map fun m =>
      { σ with
        heap := m
        largest := fun x =>
          if x = so then max (σ.largest x) (backlogLimit backlog) else σ.largest x }
  | .newconn head connstatus new attach =>
    (σ.heap.sonewconn1 head connstatus new attach).map fun r =>
      { σ with
        heap := r.1
        largest := fun x => if some x = new then 0 else σ.largest x }
  | .isconnected so => (σ.heap.soisconnected so).map fun m => { σ with heap := m }
  | .tcpClose so => (σ.heap.tcpClose so).map fun m => { σ with heap := m }
  | .abort so => (σ.heap.soabort so).map fun m => { σ with heap := m }
  | .free so => (σ.heap.sofree so).map fun m => { σ with heap := m }
  | .accept so => (σ.heap.accept so).map fun r => { σ with heap := r.1 }
  | .close so disc linger det =>
    (σ.heap.closeStart so disc linger).bind fun r =>
      if r.2 then some { σ with heap := r.1, closing := so :: σ.closing }
      else (r.1.closeEnd so det).map fun m => { σ with heap := m }
  | .closeEnd so det =>
    (σ.heap.closeEnd so det).map fun m =>
      { σ with heap := m, closing := σ.closing.filter (· ≠ so) }

/-- One call; `none` is a panic, an access to freed memory or a loop that does not end. -/
def soqStep (σ : SoqSys) (op : SoqOp) : Option SoqSys :=
  if σ.Called op then soqDo σ op else some σ

def soqNext (σ : SoqSys) (op : SoqOp) : SoqSys := (soqStep σ op).getD σ

def SoqReach : SoqSys → Prop := Reach (· = {}) (By soqNext fun _ _ => True)

theorem soqReach_foldl (l : List SoqOp) : SoqReach (l.foldl soqNext {}) :=
  Reach.foldl (show SoqReach {} from Reach.start rfl) (MeetsAll.trivial _ l)

structure SoqHolds (σ : SoqSys) (Q : Queues) : Prop where
  inv : SoqInv σ.heap Q σ.largest
  closing : ∀ a ∈ σ.closing, ∃ s, σ.heap.get a = some s ∧ s.nofdref = false ∧ s.acceptconn = false

namespace SoqHolds

variable {σ : SoqSys} {Q : Queues}

theorem keep (h : SoqHolds σ Q) {m' : SoHeap} {Q' : Queues} {L' : Nat → Int} {x : Option Nat}
    (h' : SoqInv m' Q' L') (hk : FdKept x σ.heap m') (hx : ∀ a, x = some a → a ∉ σ.closing) :
    SoqHolds { σ with heap := m', largest := L' } Q' := by
  refine ⟨h', fun a ha => ?_⟩
  obtain ⟨s, hs, hf, hc⟩ := h.closing a ha
  obtain ⟨s', hs', hf', hc'⟩ := hk a s (fun e => hx a e.symm ha) hs hf
  exact ⟨s', hs', hf', hc'.trans hc⟩

theorem keep_all (h : SoqHolds σ Q) {m' : SoHeap} {Q' : Queues} {L' : Nat → Int}
    (h' : SoqInv m' Q' L') (hk : FdKept none σ.heap m') :
    SoqHolds { σ with heap := m', largest := L' } Q' :=
  h.keep h' hk fun _ e => (nomatch e)

theorem init : SoqHolds {} fun _ _ => [] := by
  refine ⟨⟨?_, fun _ _ _ h => (nomatch h), fun _ _ h => (nomatch h), fun _ => ?_⟩,
    fun _ h => (nomatch h)⟩
  swap
  · show (0 + 0 : Int) ≤ (3 * 0 : Int).tdiv 2 + 1
    decide
  exact ⟨fun _ _ h => (nomatch h), fun _ _ h => (nomatch h), fun _ _ h => (nomatch h),
    fun _ _ _ h => (nomatch h), fun _ _ _ h => (nomatch h), fun _ => List.nodup_nil,
    fun _ _ _ h => (nomatch h), fun _ _ h => (nomatch h)⟩

/-- A step neither panics nor loops, and keeps the queues. A socket with a descriptor stays until
it is closed. -/
theorem step (h : SoqHolds σ Q) (op : SoqOp) :
    ∃ σ' Q', soqStep σ op = some σ' ∧ SoqHolds σ' Q' ∧ FdOpen op.closes σ.heap σ'.heap := by
  unfold soqStep
  split_ifs with hcall
  swap
  · exact ⟨σ, Q, rfl, h, (FdKept.refl _ σ.heap).fdOpen⟩
  cases op with
  | create new =>
    exact ⟨_, Q, rfl, h.keep_all (h.inv.socreate hcall) (FdKept.alloc _ hcall),
      (FdKept.alloc _ hcall).fdOpen⟩
  | listen so backlog =>
    obtain ⟨⟨s, hs, hf⟩, hnot⟩ := hcall
    obtain ⟨m', hm', hk, h'⟩ := h.inv.solisten backlog hs hf
    refine ⟨_, Q, by rw [soqDo, hm']; rfl, h.keep h' hk fun a e => ?_, ?_⟩
    · rwa [← Option.some.inj e]
    · rw [SoHeap.solisten, upd_of_get hs] at hm'
      cases hm'
      exact FdOpen.set hs id
  | newconn head connstatus new attach =>
    obtain ⟨⟨s, hs, hc⟩, hnew⟩ := hcall
    obtain ⟨r, Q', hr, hk, h'⟩ := h.inv.sonewconn1 connstatus attach hs hc fun a e => hnew a e
    exact ⟨_, Q', by rw [soqDo, hr]; rfl, h.keep_all h' hk, hk.fdOpen⟩
  | isconnected so =>
    obtain ⟨s, hs⟩ := Option.isSome_iff_exists.mp hcall
    obtain ⟨m', Q', hm', h', hk⟩ := h.inv.soisconnected hs
    exact ⟨_, Q', by rw [soqDo, hm']; rfl, h.keep_all h' hk, hk.fdOpen⟩
  | tcpClose so =>
    obtain ⟨s, hs, -⟩ := hcall
    obtain ⟨m', Q', hm', h', hk⟩ := h.inv.tcpClose hs
    exact ⟨_, Q', by rw [soqDo, hm']; rfl, h.keep_all h' hk, hk.fdOpen⟩
  | abort so =>
    obtain ⟨s, hs⟩ := Option.isSome_iff_exists.mp hcall
    obtain ⟨m', Q', hm', h', hk⟩ := h.inv.soabort hs
    exact ⟨_, Q', by rw [soqDo, hm']; rfl, h.keep_all h' hk, hk.fdOpen⟩
  | free so =>
    obtain ⟨s, hs⟩ := Option.isSome_iff_exists.mp hcall
    obtain ⟨m', Q', hm', h', hk⟩ := h.inv.sofree hs
    exact ⟨_, Q', by rw [soqDo, hm']; rfl, h.keep_all h' hk, hk.fdOpen⟩
  | accept so =>
    obtain ⟨s, hs⟩ := Option.isSome_iff_exists.mp hcall
    obtain ⟨r, Q', hr, h', hk⟩ := h.inv.accept hs
    exact ⟨_, Q', by rw [soqDo, hr]; rfl, h.keep_all h' hk, hk.fdOpen⟩
  | close so disc linger det =>
    obtain ⟨⟨s, hs, hf⟩, hnot⟩ := hcall
    obtain ⟨r, Q', s', hr, h', hk, hs', hf', hnil, hc⟩ := h.inv.closeStart hs disc linger hf
    cases hsleep : r.2 with
    | true =>
      refine ⟨{ σ with heap := r.1, closing := so :: σ.closing }, Q', ?_, ⟨h', fun a ha => ?_⟩,
        hk.of_none.fdOpen⟩
      · rw [soqDo, hr]
        exact if_pos hsleep
      · obtain rfl | ha := List.mem_cons.mp ha
        · exact ⟨s', hs', hf', hc hsleep⟩
        · exact (h.keep_all h' hk).closing a ha
    | false =>
      obtain ⟨m', hm', h'', hk'⟩ := h'.closeEnd hs' det hf' hnil
      refine ⟨{ σ with heap := m' }, Q', ?_, h.keep h'' (hk.of_none.trans hk') fun a e => ?_,
        (hk.of_none.trans hk').fdOpen⟩
      · rw [soqDo, hr]
        show (if r.2 = true then _ else _) = _
        rw [if_neg (by simp [hsleep]), hm']
        rfl
      · rwa [← Option.some.inj e]
  | closeEnd so det =>
    obtain ⟨s, hs, hf, hc⟩ := h.closing so hcall
    obtain ⟨m', hm', h', hk⟩ := h.inv.closeEnd hs det hf (h.inv.queues.nil_of_plain hs hc)
    refine ⟨{ σ with heap := m', closing := σ.closing.filter (· ≠ so) }, Q, ?_, ⟨h', fun a ha => ?_⟩,
      hk.fdOpen⟩
    · rw [soqDo, hm']
      rfl
    obtain ⟨ha, hne⟩ := List.mem_filter.mp ha
    obtain ⟨s1, hs1, hf1, hc1⟩ := h.closing a ha
    obtain ⟨s2, hs2, hf2, hc2⟩ := hk a s1 (fun e => by simp [Option.some.inj e] at hne) hs1 hf1
    exact ⟨s2, hs2, hf2, hc2.trans hc1⟩

theorem run (h : SoqReach σ) : ∃ Q, SoqHolds σ Q := by
  refine Reach.ops (I := fun σ => ∃ Q, SoqHolds σ Q) ?_ ?_ h
  · rintro _ rfl
    exact ⟨_, init⟩
  · rintro σ op ⟨Q, hQ⟩ -
    obtain ⟨σ', Q', hσ', h', -⟩ := hQ.step op
    refine ⟨Q', ?_⟩
    rw [soqNext, hσ']
    exact h'

end SoqHolds

/-- The lists `Q` of all sockets: what is on them, and how long they get. -/
structure AcceptQueues (σ : SoqSys) (Q : Queues) : Prop where
  /-- `so_q0` and `so_q` of a listening socket lead through its lists, of length `so_q0len` and
  `so_qlen`. -/
  lists : ∀ a s, σ.heap.get a = some s → s.acceptconn = true →
    ∀ q, Seg (σ.heap.link q) (s.link q) (Q a q) none ∧ s.len q = (Q a q).length
  /-- Only listening sockets have lists. -/
  listens : ∀ p q x, x ∈ Q p q → ∃ s, σ.heap.get p = some s ∧ s.acceptconn = true
  /-- A child is on one list, once, and points to its listener. -/
  head : ∀ p q x, x ∈ Q p q → ∃ s, σ.heap.get x = some s ∧ s.soHead = some p
  once : ∀ p q, (Q p q).Nodup
  one : ∀ p q p' q' x, x ∈ Q p q → x ∈ Q p' q' → p' = p ∧ q' = q
  /-- Every other socket has no head. -/
  others : ∀ a s, σ.heap.get a = some s → (∀ p q, a ∉ Q p q) → s.soHead = none
  total : ∀ a s, σ.heap.get a = some s →
    ((Q a false).length + (Q a true).length : Int) ≤ 3 * σ.largest a / 2 + 1

/-- **The queues of listening sockets are sound.** In every state of a run links, lengths and heads
agree, no further call panics, and both loops of `soclose` end with empty lists. -/
theorem accept_queues {σ : SoqSys} (h : SoqReach σ) :
    (∃ Q, AcceptQueues σ Q) ∧ (∀ op, (soqStep σ op).isSome = true) ∧
      ∀ so s, σ.heap.get so = some s → s.acceptconn = true →
        ∃ m' s', σ.heap.soDrain so = some m' ∧ m'.get so = some s' ∧ s'.soQ0 = none ∧
          s'.soQ = none ∧ s'.soQ0len = 0 ∧ s'.soQlen = 0 := by
  obtain ⟨Q, hQ⟩ := SoqHolds.run h
  have hok := hQ.inv.queues
  -- what a list says about the fields of its owner
  have hfields : ∀ {m : SoHeap} {Q : Queues} {a s}, QueuesOk m Q → m.get a = some s →
      s.acceptconn = true →
      ∀ q, Seg (m.link q) (s.link q) (Q a q) none ∧ s.len q = (Q a q).length := by
    intro m Q a s hok hs hc q
    have hh := (hok.listen a s hs hc).2
    obtain ⟨-, n, hn, hseg⟩ := hok.path a s hs hh q
    rw [SoHeap.link_of_get hs] at hn
    rw [Option.some.inj hn]
    exact ⟨hseg, hok.len a s hs hh q⟩
  refine ⟨⟨Q, fun _ _ => hfields hok, hok.own, ?_, hok.nodup_one, fun p q p' q' x => hok.mem_unique,
    ?_, ?_⟩, fun op => ?_, fun so s hs hc => ?_⟩
  · intro p q x hx
    obtain ⟨s, hs, hq⟩ := hok.mem p q x hx
    exact ⟨s, hs, hq.head⟩
  · intro a s hs hnot
    by_contra hne
    obtain ⟨p, hp⟩ := Option.ne_none_iff_exists'.mp hne
    obtain ⟨q, hq⟩ := hok.child a s p hs hp
    exact hnot p q hq
  · intro a s hs
    have hlim := hQ.inv.limit a s hs
    have := hQ.inv.total a
    rwa [Int.tdiv_eq_ediv_of_nonneg (by omega)] at this
  · obtain ⟨σ', Q', hσ', -⟩ := hQ.step op
    rw [hσ']
    rfl
  · obtain ⟨m', Q', hm', h', hnil, -, s', hs', hr'⟩ := hQ.inv.drain hs hc
    have hf := hfields h'.queues hs' ((Sock.acceptconn_of_rest hr').trans hc)
    have h0 := hf false
    have h1 := hf true
    rw [hnil] at h0 h1
    exact ⟨m', s', hm', hs', h0.1, h1.1, h0.2, h1.2⟩

/-- A listener with one complete and two incomplete connections, one of which is being closed by the
peer. -/
def soqRun : List SoqOp :=
  [.create 0, .listen 0 2, .newconn 0 false (some 1) true, .newconn 0 false (some 2) true,
    .newconn 0 false (some 3) true, .isconnected 2, .tcpClose 1]

theorem accept_queues_three :
    ((soqRun.foldl soqNext {}).heap.get 0).map (fun s => (s.soQ0len, s.soQlen)) = some (1, 1) ∧
      (soqStep (soqRun.foldl soqNext {}) (.close 0 false false false)).isSome = true :=
  ⟨by decide, (accept_queues (soqReach_foldl soqRun)).2.1 _⟩

end Anp
