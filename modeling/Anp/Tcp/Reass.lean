import Anp.Tcp.Timer

/-!
# Reass — the reassembly queue

`tcp_reass` and `TCP_REASS` of `netinet/tcp_input.c`. The queue `segs` is the list that starts
at `seg_next`. Inserting a segment is three list functions, in the order of the source: the
predecessor may provide some of its data (`reassPred`), it may cover some of its successors
(`reassSucc`), and it goes between the two (`reassInsert`). Then data at `rcv_nxt` is presented
to the user (`reassPresent`).
-/

namespace Anp

open Cyclic Machine

/-- If the preceding segment provides some of our data, drop it from the incoming segment;
`none` when it provides all of it. -/
def reassPred (pre : List QSeg) (ti : QSeg) : Option QSeg :=
  match pre.getLast? with
  | none => some ti
  | some q =>
    let i := gap (adv q.tiSeq q.tiLen) ti.tiSeq
    if 0 < i then
      if (ti.tiLen : Int) ≤ i then none
      else some { ti with
        m := mAdj ti.m i
        tiLen := ti.tiLen - i.toNat
        tiSeq := adv ti.tiSeq i }
    else some ti

/-- While we overlap succeeding segments trim them or, if they are completely covered, dequeue
them. -/
def reassSucc (ti : QSeg) : List QSeg → List QSeg
  | [] => []
  | q :: qs =>
    let i := gap (adv ti.tiSeq ti.tiLen) q.tiSeq
    if i ≤ 0 then q :: qs
    else if i < q.tiLen then
      { q with tiSeq := adv q.tiSeq i, tiLen := q.tiLen - i.toNat, m := mAdj q.m i } :: qs
    else reassSucc ti qs

/-- The queue with a new segment in its place, `none` if it holds nothing new. -/
def reassInsert (segs : List QSeg) (ti : QSeg) : Option (List QSeg) :=
  let pre := segs.takeWhile fun q => !seqGT q.tiSeq ti.tiSeq
  let post := segs.dropWhile fun q => !seqGT q.tiSeq ti.tiSeq
  (reassPred pre ti).map fun ti => pre ++ ti :: reassSucc ti post

/-- `sbappend(&so->so_rcv, m)`. -/
def appendRcv (s : Sys) (m : List Mbuf) : Sys :=
  { s with
    so := { s.so with soRcv := sbappend s.so.soRcv m }
    log := { s.log with got := s.log.got ++ chainBytes m } }

/-- One round of the loop at `present`: the text of `q` is consumed. -/
def presentOne (s : Sys) (q : QSeg) : Sys :=
  let s := { s with tp := { s.tp with rcvNxt := adv s.tp.rcvNxt q.tiLen } }
  if s.so.ssCantrcvmore then s else appendRcv s q.m

/-- The loop at `present`, over the queue; the flag is the FIN of the last segment taken. -/
def presentLoop : Sys → List QSeg → Bool → Sys × Bool
  | s, [], fin => ({ s with tp := { s.tp with segs := [] } }, fin)
  | s, q :: qs, fin =>
    if q.tiSeq = s.tp.rcvNxt then presentLoop (presentOne s q) qs q.tiFin
    else ({ s with tp := { s.tp with segs := q :: qs } }, fin)

/-- Present data to user, advancing `rcv_nxt` through completed sequence space. -/
def reassPresent (s : Sys) : Sys × Bool :=
  if !haveRcvdSyn s.tp.tState then (s, false)
  else if s.tp.tState = .synReceived ∧ (s.tp.segs.head?.any fun q => decide (q.tiLen ≠ 0)) then
    (s, false)
  else presentLoop s s.tp.segs false

/-- `tcp_reass(tp, ti, m)`; with no segment, force pre-ESTABLISHED data up to user socket. -/
def tcpReass (s : Sys) (ti : Option QSeg) : Sys × Bool :=
  match ti with
  | none => reassPresent s
  | some ti =>
    match reassInsert s.tp.segs ti with
    | none => (s, false)
    | some segs => reassPresent { s with tp := { s.tp with segs := segs } }

/-- The macro `TCP_REASS`: the segment is the next one on an established connection with an
empty queue, or it goes through `tcp_reass`. -/
def tcpReassFast (s : Sys) (ti : QSeg) : Sys × Bool :=
  if ti.tiSeq = s.tp.rcvNxt ∧ s.tp.segs = [] ∧ s.tp.tState = .established then
    (appendRcv { s with tp := { s.tp with
      tfDelack := true, rcvNxt := adv s.tp.rcvNxt ti.tiLen } } ti.m, ti.tiFin)
  else
    let r := tcpReass s (some ti)
    ({ r.1 with tp := { r.1.tp with tfAcknow := true } }, r.2)

/-! ## What reassembly changes -/

/-- Reassembly touches `rcv_nxt`, the queue and the receive buffer. -/
theorem presentLoop_shape (s : Sys) (qs : List QSeg) (fin : Bool) :
    ∃ nxt segs rcv got, (presentLoop s qs fin).1 = { s with
      tp := { s.tp with rcvNxt := nxt, segs := segs }
      so := { s.so with soRcv := rcv }
      log := { s.log with got := got } } := by
  fun_induction presentLoop s qs fin with
  | case1 s => exact ⟨s.tp.rcvNxt, [], s.so.soRcv, s.log.got, rfl⟩
  | case2 s q qs _ _ ih =>
    obtain ⟨nxt, segs, rcv, got, h⟩ := ih
    refine ⟨nxt, segs, rcv, got, ?_⟩
    rw [h]
    unfold presentOne
    simp only
    split <;> rfl
  | case3 s q qs => exact ⟨s.tp.rcvNxt, q :: qs, s.so.soRcv, s.log.got, rfl⟩

theorem tcpReass_shape (s : Sys) (ti : Option QSeg) :
    ∃ nxt segs rcv got, (tcpReass s ti).1 = { s with
      tp := { s.tp with rcvNxt := nxt, segs := segs }
      so := { s.so with soRcv := rcv }
      log := { s.log with got := got } } := by
  have hpresent : ∀ s : Sys, ∃ nxt segs rcv got, (reassPresent s).1 = { s with
      tp := { s.tp with rcvNxt := nxt, segs := segs }
      so := { s.so with soRcv := rcv }
      log := { s.log with got := got } } := by
    intro s
    unfold reassPresent
    split
    · exact ⟨s.tp.rcvNxt, s.tp.segs, s.so.soRcv, s.log.got, rfl⟩
    · split
      · exact ⟨s.tp.rcvNxt, s.tp.segs, s.so.soRcv, s.log.got, rfl⟩
      · exact presentLoop_shape s s.tp.segs false
  cases ti with
  | none => exact hpresent s
  | some ti =>
    rw [tcpReass]
    split
    · exact ⟨s.tp.rcvNxt, s.tp.segs, s.so.soRcv, s.log.got, rfl⟩
    · next segs _ =>
      obtain ⟨nxt, segs', rcv, got, h⟩ := hpresent { s with tp := { s.tp with segs := segs } }
      exact ⟨nxt, segs', rcv, got, h⟩

theorem tcpReassFast_shape (s : Sys) (ti : QSeg) :
    ∃ nxt segs rcv got now late, (tcpReassFast s ti).1 = { s with
      tp := { s.tp with rcvNxt := nxt, segs := segs, tfAcknow := now, tfDelack := late }
      so := { s.so with soRcv := rcv }
      log := { s.log with got := got } } := by
  unfold tcpReassFast
  split
  · exact ⟨_, s.tp.segs, _, _, s.tp.tfAcknow, true, rfl⟩
  · obtain ⟨nxt, segs, rcv, got, h⟩ := tcpReass_shape s (some ti)
    refine ⟨nxt, segs, rcv, got, true, s.tp.tfDelack, ?_⟩
    simp only [h]

end Anp
