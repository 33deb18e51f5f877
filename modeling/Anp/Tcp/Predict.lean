import Anp.Tcp.Still
import Anp.Tcp.RcvWindow

/-!
# Predict — header prediction and the general path

On an established connection a segment without control flags that is next in sequence and leaves
the window as it is takes a short cut through `tcp_input`. The general path below it, run from the
same state, is to come to the same result in everything that counts. The one place where they part
is the window: the general path takes the acknowledged bytes from `snd_wnd` and relies on the
freshness test to put them back. That test compares `ti_ack` with `snd_wl2`, which header prediction
never pulls along.
-/

namespace Anp

open Cyclic Machine

variable {i : Inp} {una : Seq} {s : Sys}

/-! ## The two paths -/

/-- `predictAck` up to `tcp_output`. -/
def predictAckTake (i : Inp) (s : Sys) : Outcome Unit :=
  let s := inXmitTimer i s
  (dropSnd s (gap i.tiAck s.tp.sndUna)).bind fun _ (s : Sys) =>
    let s := setUna s i.tiAck
    .ok () { s with tp := ackTimer i.tiAck s.tp }

theorem predictAck_eq (i : Inp) (s : Sys) :
    predictAck i s = (predictAckTake i s).bind fun _ s => sendRest s := by
  unfold predictAck predictAckTake
  simp only
  generalize dropSnd _ _ = o
  cases o <;> rfl

/-- What the segments that header prediction takes do, up to `tcp_output`. -/
def fastPath (i : Inp) (s : Sys) : Outcome Unit :=
  let s := inTsRecent i s 0
  if i.tiLen = 0 then predictAckTake i s else predictData i s

/-- From `step6` on, up to `tcp_output`. -/
def step6Take (i : Inp) (s : Sys) : Outcome Unit :=
  let r := inWindow i s
  match inUrgent r.1 r.2 with
  | .done o => o
  | .next i s =>
    let r := inText i s
    .ok () (inFin r.1 r.2)

/-- What follows the prediction block, up to `tcp_output`. -/
def generalPath (seg : Segment) (i : Inp) (s : Sys) : Outcome Unit :=
  match inSwitch seg i (inRcvWnd s) with
  | .done o => o
  | .next i s => step6Take i s

theorem inPredict_done {o : Outcome Unit} (h : inPredict i s = .done o) :
    (s.tp.tState = .established ∧ i.tiflags.ack = true ∧
      (i.tiflags.syn || i.tiflags.fin || i.tiflags.rst || i.tiflags.urg) = false ∧
      (i.ts.all fun ts => decide (0 ≤ int32 ((ts.1 : Int) - s.tp.tsRecent))) = true ∧
      i.tiSeq = s.tp.rcvNxt ∧ i.tiwin = s.tp.sndWnd ∧ s.tp.sndNxt = s.tp.sndMax) ∧
    ((i.tiLen = 0 ∧ seqGT i.tiAck s.tp.sndUna = true ∧ seqLEQ i.tiAck s.tp.sndMax = true) ∨
      (i.tiLen ≠ 0 ∧ i.tiAck = s.tp.sndUna ∧ s.tp.segs = [] ∧
        (i.tiLen : Int) ≤ sbspace s.so.soRcv)) ∧
    o = (fastPath i s).bind fun _ s => if i.tiLen = 0 then sendRest s else .ok () s := by
  have hts : (inTsRecent i s 0).tp.sndUna = s.tp.sndUna ∧ (inTsRecent i s 0).tp.segs = s.tp.segs ∧
      (inTsRecent i s 0).tp.sndMax = s.tp.sndMax ∧ (inTsRecent i s 0).so = s.so := by
    obtain ⟨val, age, now, hn⟩ := noted_inTsRecent i s 0
    rw [hn]
    exact ⟨rfl, rfl, rfl, rfl⟩
  unfold inPredict at h
  simp only [hts.1, hts.2.1, hts.2.2.1, hts.2.2.2] at h
  split at h
  · next hg =>
    obtain ⟨h1, h2, h3, h4, h5, -, h7, h8⟩ := hg
    have hflags : (i.tiflags.syn || i.tiflags.fin || i.tiflags.rst || i.tiflags.urg) = false := by
      simpa using h3
    refine ⟨⟨h1, h2, hflags, h4, h5, h7, h8⟩, ?_⟩
    unfold fastPath
    split at h
    · next hlen =>
      split at h
      · next hack =>
        simp only [Bool.and_eq_true] at hack
        cases h
        refine ⟨.inl ⟨hlen, hack.1.1, hack.1.2⟩, ?_⟩
        rw [predictAck_eq]
        simp only [if_pos hlen]
      · cases h
    · next hlen =>
      split at h
      · next hdat =>
        cases h
        refine ⟨.inr ⟨hlen, hdat⟩, ?_⟩
        simp only [if_neg hlen]
        rfl
      · cases h
  · cases h

/-! ## The general path under the guard of the short one -/

/-- The guard of header prediction, and room for the data. -/
structure Predicted (i : Inp) (s : Sys) : Prop where
  est : s.tp.tState = .established
  ack : i.tiflags.ack = true
  plain : i.tiflags.syn = false ∧ i.tiflags.fin = false ∧ i.tiflags.rst = false ∧
    i.tiflags.urg = false
  ts : ∀ v e, i.ts = some (v, e) → 0 ≤ int32 ((v : Int) - s.tp.tsRecent)
  seq : i.tiSeq = s.tp.rcvNxt
  win : i.tiwin = s.tp.sndWnd
  nxt : s.tp.sndNxt = s.tp.sndMax
  fits : i.tiLen = 0 ∨ (i.tiLen : Int) ≤ sbspace s.so.soRcv
  rcv : 0 ≤ gap s.tp.rcvAdv s.tp.rcvNxt

theorem inTsRecent_inRcvWnd (i : Inp) (s : Sys) :
    inTsRecent i (inRcvWnd s) 0 = inRcvWnd (inTsRecent i s 0) := by
  unfold inTsRecent
  cases i.ts with
  | none => rfl
  | some v =>
    by_cases hc : (seqLEQ i.tiSeq s.tp.lastAckSent &&
        seqLT s.tp.lastAckSent (adv i.tiSeq ((i.tiLen : Int) + (0 : Nat)))) = true
    · simp only
      rw [if_pos hc]
      exact if_pos hc
    · simp only
      rw [if_neg hc]
      exact if_neg hc

theorem inCheck_predicted (h : Predicted i s) :
    inCheck i (inRcvWnd s) = .next i (inRcvWnd (inTsRecent i s 0)) := by
  obtain ⟨hsyn, hfin, hrst, hurg⟩ := h.plain
  have hpaws : inPaws i (inRcvWnd s) = .next i (inRcvWnd s) := by
    unfold inPaws
    split
    · rfl
    · next v e hts =>
      have hv : 0 ≤ int32 ((v : Int) - (inRcvWnd s).tp.tsRecent) := h.ts v e hts
      exact if_neg fun hold => by omega
  have hleft : trimLeft (inRcvWnd s).tp.rcvNxt i = .keep i false := by
    have hzero : gap s.tp.rcvNxt i.tiSeq = 0 := by
      rw [h.seq]
      exact gap_self _
    exact if_neg (by show ¬0 < gap s.tp.rcvNxt i.tiSeq; omega)
  have hright : trimRight (inRcvWnd s).tp i = .keep i false := by
    apply trimRight_fits h.rcv h.seq
    have hv := rcvWnd_of_announced h.rcv
    rcases h.fits with h0 | hsp <;> omega
  have hkeep : ∀ s1 : Sys, inTrimRes i s1 (.keep i false) = .next i s1 := by
    intro s1
    show Flow.next i { s1 with tp := { s1.tp with tfAcknow := s1.tp.tfAcknow || false } } = _
    rw [Bool.or_false]
  have htrim : inTrim i (inRcvWnd s) = .next i (inRcvWnd s) := by
    unfold inTrim
    rw [hleft, hkeep]
    -- an established connection is not one whose process is gone
    have hgone : inGone i (inRcvWnd s) = .next i (inRcvWnd s) := by
      apply if_neg
      rintro ⟨-, hlt, -⟩
      rw [show (inRcvWnd s).tp.tState = .established from h.est] at hlt
      exact absurd hlt (by decide)
    show (inGone i (inRcvWnd s)).bind _ = _
    rw [hgone]
    show inTrimRes i (inRcvWnd s) (trimRight (inRcvWnd s).tp i) = _
    rw [hright, hkeep]
  unfold inCheck
  rw [hpaws]
  show (inTrim i (inRcvWnd s)).bind _ = _
  rw [htrim]
  show inReset i (inTsRecent i (inRcvWnd s) (if i.tiflags.syn || i.tiflags.fin then 1 else 0)) = _
  rw [hsyn, hfin]
  unfold inReset
  rw [if_neg (by simp [hrst]), if_neg (by simp [hsyn]), if_neg (by simp [h.ack])]
  exact congrArg _ (inTsRecent_inRcvWnd i s)

/-! ## What is compared -/

structure Observed where
  sndUna : Seq
  sndNxt : Seq
  sndMax : Seq
  sndWnd : Nat
  rcvNxt : Seq
  tsRecent : Nat
  tSrtt : Int
  tRttvar : Int
  tRxtcur : Int
  rexmt : Int
  tState : TcpState
  soSnd : Sockbuf
  soRcv : Sockbuf
  deriving DecidableEq, Repr

/-- What is compared. -/
def observed (s : Sys) : Observed :=
  { sndUna := s.tp.sndUna
    sndNxt := s.tp.sndNxt
    sndMax := s.tp.sndMax
    sndWnd := s.tp.sndWnd
    rcvNxt := s.tp.rcvNxt
    tsRecent := s.tp.tsRecent
    tSrtt := s.tp.tSrtt
    tRttvar := s.tp.tRttvar
    tRxtcur := s.tp.tRxtcur
    rexmt := s.tp.rexmt
    tState := s.tp.tState
    soSnd := s.so.soSnd
    soRcv := s.so.soRcv }

/-- The result of a path. After a panic there is nothing left to observe. -/
def result : Outcome Unit → Except Stop Observed
  | .ok _ s => .ok (observed s)
  | .stop why _ => .error why

/-! ## A pure ACK -/

/-- Fields that the general path has set before it measures the round-trip time. -/
def withAside (s : Sys) (wnd cwnd : Nat) (dup : Int) : Sys :=
  { s with tp := { s.tp with rcvWnd := wnd, sndCwnd := cwnd, tDupacks := dup } }

theorem inXmitTimer_eq (i : Inp) (s : Sys) :
    ∃ srtt var rtt shift cur soft,
      inXmitTimer i s = { s with tp := { s.tp with
        tSrtt := srtt, tRttvar := var, tRtt := rtt, tRxtshift := shift, tRxtcur := cur,
        tSofterror := soft } } ∧
      ∀ i' wnd cwnd dup, i'.ts = i.ts → i'.tiAck = i.tiAck →
        inXmitTimer i' (withAside s wnd cwnd dup) = withAside (inXmitTimer i s) wnd cwnd dup := by
  unfold inXmitTimer
  cases hts : i.ts with
  | some v =>
    refine ⟨_, _, _, _, _, _, rfl, ?_⟩
    intro i' wnd cwnd dup h1 _
    rw [h1]
    rfl
  | none =>
    by_cases hm : s.tp.tRtt ≠ 0 ∧ seqGT i.tiAck s.tp.tRtseq = true
    · simp only [if_pos hm]
      refine ⟨_, _, _, _, _, _, rfl, ?_⟩
      intro i' wnd cwnd dup h1 h2
      rw [h1, h2]
      exact if_pos hm
    · simp only [if_neg hm]
      refine ⟨s.tp.tSrtt, s.tp.tRttvar, s.tp.tRtt, s.tp.tRxtshift, s.tp.tRxtcur, s.tp.tSofterror,
        rfl, ?_⟩
      intro i' wnd cwnd dup h1 h2
      rw [h1, h2]
      exact if_neg hm

theorem inUrgent_none (h : i.tiflags.urg = false) :
    inUrgent i s = .next i { s with tp := { s.tp with
      rcvUp := if seqGT s.tp.rcvNxt s.tp.rcvUp then s.tp.rcvNxt else s.tp.rcvUp } } := by
  unfold inUrgent
  rw [if_neg (by rw [h]; simp)]

theorem step6Take_bare (hlen : i.tiLen = 0) (hurg : i.tiflags.urg = false)
    (hfin : i.tiflags.fin = false) : result (step6Take i s) = .ok (observed (inWindow i s).2) := by
  have hw : (inWindow i s).1.tiLen = i.tiLen ∧ (inWindow i s).1.tiflags = i.tiflags := by
    unfold inWindow
    simp only
    split <;> exact ⟨rfl, rfl⟩
  unfold step6Take
  simp only
  rw [inUrgent_none (by rw [hw.2]; exact hurg)]
  simp only
  unfold inText
  rw [if_neg (by rw [hw.1, hw.2, hlen, hfin]; simp)]
  rfl

/-- The retransmit timer once `ack` is taken. -/
def ackRexmt (ack : Seq) (tp : Tcpcb) : Int :=
  if ack = tp.sndMax then 0 else if tp.persist = 0 then tp.tRxtcur else tp.rexmt

theorem ackTimer_rexmt (ack : Seq) (tp : Tcpcb) :
    ackTimer ack tp = { tp with rexmt := ackRexmt ack tp } := by
  unfold ackTimer ackRexmt
  split
  · rfl
  · split <;> rfl

theorem inWindow_fresh (hack : i.tiflags.ack = true) (hfresh : seqLT s.tp.sndWl1 i.tiSeq = true ∨
      (s.tp.sndWl1 = i.tiSeq ∧ seqLT s.tp.sndWl2 i.tiAck = true)) :
    (inWindow i s).2 = { s with tp := { s.tp with
      sndWnd := i.tiwin
      sndWl1 := i.tiSeq
      sndWl2 := i.tiAck
      maxSndwnd := max s.tp.maxSndwnd i.tiwin } } := by
  unfold inWindow
  rcases hfresh with h | ⟨h1, h2⟩
  · simp [hack, h]
  · simp [hack, h1, h2]

theorem inWindow_stale (h1 : seqLT s.tp.sndWl1 i.tiSeq = false)
    (h2 : seqLT s.tp.sndWl2 i.tiAck = false) (hne : s.tp.sndWl2 ≠ i.tiAck) :
    (inWindow i s).2 = s := by
  unfold inWindow
  simp [h1, h2, hne]

/-- The data of an ACK that acknowledges no FIN, where the buffer has as much. -/
theorem ackData_drop (hcc : ¬s.so.soSnd.sbCc < u32 (gap i.tiAck s.tp.sndUna)) :
    ackData i s = match sbdrop s.so.soSnd (gap i.tiAck s.tp.sndUna) with
      | some sb => .ok false (pullNxt (setUna { s with
          so := { s.so with soSnd := sb }
          tp := { s.tp with
            sndWnd := u32 ((s.tp.sndWnd : Int) - gap i.tiAck s.tp.sndUna) } } i.tiAck))
      | none => .stop (.panic .sbdropSnd) s := by
  unfold ackData dropSnd
  simp only [hcc, decide_false, Bool.false_eq_true, if_false]
  cases sbdrop s.so.soSnd (gap i.tiAck s.tp.sndUna) <;> rfl

theorem predictAckTake_drop (i : Inp) (s : Sys) :
    predictAckTake i s =
      match sbdrop (inXmitTimer i s).so.soSnd (gap i.tiAck (inXmitTimer i s).tp.sndUna) with
      | some sb =>
        let x := inXmitTimer i s
        .ok () { setUna { x with so := { x.so with soSnd := sb } } i.tiAck with
          tp := { x.tp with sndUna := i.tiAck, rexmt := ackRexmt i.tiAck x.tp } }
      | none => .stop (.panic .sbdropSnd) (inXmitTimer i s) := by
  unfold predictAckTake dropSnd
  simp only [ackTimer_rexmt]
  cases sbdrop (inXmitTimer i s).so.soSnd (gap i.tiAck (inXmitTimer i s).tp.sndUna) <;> rfl

theorem gap_sub {a b : Seq} (hlo : -2147483648 ≤ gap a una - gap b una)
    (hhi : gap a una - gap b una < 2147483648) : gap a b = gap a una - gap b una := by
  have h : gap (adv una (gap a una)) (adv una (gap b una)) = _ := gap_adv hlo hhi
  rwa [adv_gap, adv_gap] at h

theorem seqLT_of_acked {ack mx : Seq} (hpos : 0 < gap ack una) (hle : gap ack mx ≤ 0)
    (h0 : 0 ≤ gap mx una) : seqLT mx ack = false := by
  obtain ⟨-, ha⟩ := gap_range ack una
  obtain ⟨-, hm⟩ := gap_range mx una
  have h1 : gap ack mx = gap ack una - gap mx una := gap_sub (by omega) (by omega)
  have h2 : gap mx ack = gap mx una - gap ack una := gap_sub (by omega) (by omega)
  unfold seqLT
  rw [decide_eq_false_iff_not]
  omega

/-- The end of `inAckNew`. -/
def ackedState (i : Inp) : Outcome Bool → Flow
  | .ok finAcked s => inAckState finAcked i s
  | .stop why s => .done (.stop why s)

/-- What the general path makes of a pure ACK: it comes to the window test with what the short cut
leaves, but for the acknowledged bytes, which are gone from `snd_wnd`. -/
theorem ack_general (hest : s.tp.tState = .established) (hlen : i.tiLen = 0)
    (hplain : i.tiflags.urg = false ∧ i.tiflags.fin = false)
    (hgt : seqGT i.tiAck s.tp.sndUna = true)
    (hmax : seqLEQ i.tiAck s.tp.sndMax = true) (hnxt : s.tp.sndNxt = s.tp.sndMax)
    (hmax0 : 0 ≤ gap s.tp.sndMax s.tp.sndUna) (hcc : gap i.tiAck s.tp.sndUna ≤ s.so.soSnd.sbCc)
    (hheld : SbWf s.so.soSnd) :
    ∃ b q, result (match inAck i (inRcvWnd s) with
        | .done o => o
        | .next i s => step6Take i s) = .ok (observed (inWindow { i with needoutput := b } q).2) ∧
      result (predictAckTake i s) = .ok { observed q with sndWnd := s.tp.sndWnd } ∧
      q.tp.sndWl1 = s.tp.sndWl1 ∧ q.tp.sndWl2 = s.tp.sndWl2 ∧
      q.tp.sndWnd = u32 ((s.tp.sndWnd : Int) - gap i.tiAck s.tp.sndUna) := by
  have hpos : 0 < gap i.tiAck s.tp.sndUna := decide_eq_true_iff.mp hgt
  have hle : gap i.tiAck s.tp.sndMax ≤ 0 := decide_eq_true_iff.mp hmax
  obtain ⟨srtt, var, rtt, shift, cur, soft, hx, haside⟩ := inXmitTimer_eq i s
  have hnew : inAck i (inRcvWnd s) = inAckNew i (inRcvWnd s) := by
    unfold inAck
    rw [if_neg (by rw [show (inRcvWnd s).tp.tState = _ from hest]; decide)]
    show (if seqLEQ i.tiAck s.tp.sndUna then _ else _) = _
    rw [if_neg]
    unfold seqLEQ
    simpa using hpos
  set i' : Inp := { i with needoutput := i.needoutput || i.tiAck == s.tp.sndMax } with hi'
  -- the state in which the general path measures the round-trip time
  obtain ⟨cwnd, hstart⟩ : ∃ cwnd, inAckNew i (inRcvWnd s) = ackedState i'
      (ackData i' (ackPrepare i' (withAside s (inRcvWnd s).tp.rcvWnd cwnd 0))) := by
    refine ⟨if tcpRexmtthresh < s.tp.tDupacks ∧ s.tp.sndSsthresh < s.tp.sndCwnd then
      s.tp.sndSsthresh else s.tp.sndCwnd, ?_⟩
    exact if_neg (show ¬seqGT i.tiAck s.tp.sndMax = true by unfold seqGT; simpa using hle)
  set r := ackRexmt i.tiAck (inXmitTimer i s).tp with hr
  obtain ⟨cwnd', hprep⟩ : ∃ cwnd', ackPrepare i' (withAside s (inRcvWnd s).tp.rcvWnd cwnd 0) =
      withAside { inXmitTimer i s with tp := { (inXmitTimer i s).tp with rexmt := r } }
        (inRcvWnd s).tp.rcvWnd cwnd' 0 := by
    unfold ackPrepare
    rw [haside i' _ _ _ rfl rfl]
    refine ⟨(openCwnd (ackTimer i.tiAck (withAside (inXmitTimer i s)
      (inRcvWnd s).tp.rcvWnd cwnd 0).tp)).sndCwnd, ?_⟩
    simp only [ackTimer_rexmt]
    rfl
  have hbytes : ¬s.so.soSnd.sbCc < u32 (gap i.tiAck s.tp.sndUna) := by
    obtain ⟨-, hhi⟩ := gap_range i.tiAck s.tp.sndUna
    rw [u32_of_range (by omega) (by omega)]
    omega
  set p := withAside { inXmitTimer i s with tp := { (inXmitTimer i s).tp with rexmt := r } }
    (inRcvWnd s).tp.rcvWnd cwnd' 0 with hp
  have hpcc : ¬p.so.soSnd.sbCc < u32 (gap i'.tiAck p.tp.sndUna) := by
    rw [hp, hx]
    exact hbytes
  -- the buffer has the acknowledged bytes, so that `sbdrop` does not panic
  obtain ⟨sb, hdrop, -⟩ := sbdrop_spec s.so.soSnd (gap i.tiAck s.tp.sndUna).toNat hheld (by omega)
  have hfast : sbdrop (inXmitTimer i s).so.soSnd (gap i.tiAck (inXmitTimer i s).tp.sndUna) =
      some sb := by rw [hx]; exact hdrop
  have hslow : sbdrop p.so.soSnd (gap i'.tiAck p.tp.sndUna) = some sb := hfast
  rw [hnew, hstart, hprep, ackData_drop hpcc, predictAckTake_drop, hfast, hslow]
  simp only [ackedState]
  set q := pullNxt (setUna { p with
    so := { p.so with soSnd := sb }
    tp := { p.tp with
      sndWnd := u32 ((p.tp.sndWnd : Int) - gap i'.tiAck p.tp.sndUna) } } i'.tiAck) with hq
  have hqst : q.tp.tState = .established := by
    rw [hq, hp, hx]
    exact hest
  have hstay : inAckState false i' q = .next i' q := by
    unfold inAckState
    rw [hqst]
  rw [hstay]
  -- `snd_nxt` is at `snd_max`, and so not behind the ACK
  have hpull : q.tp.sndNxt = s.tp.sndNxt := by
    have hback : seqLT s.tp.sndNxt i.tiAck = false := by
      rw [hnxt]
      exact seqLT_of_acked hpos hle hmax0
    rw [hq, hp, hx]
    show (if seqLT s.tp.sndNxt i.tiAck = true then i.tiAck else s.tp.sndNxt) = s.tp.sndNxt
    rw [hback]
    rfl
  have hxnxt : (inXmitTimer i s).tp.sndNxt = s.tp.sndNxt := by rw [hx]
  have hxwnd : (inXmitTimer i s).tp.sndWnd = s.tp.sndWnd := by rw [hx]
  refine ⟨i'.needoutput, q, step6Take_bare (i := i') hlen hplain.1 hplain.2, ?_, ?_, ?_, ?_⟩
  · unfold observed
    rw [hpull, ← hxnxt, ← hxwnd]
    rfl
  all_goals rw [hq, hp, hx]; rfl

/-- The two paths agree on a pure ACK exactly when the window test takes it for a fresh one. -/
theorem ack_agrees (hest : s.tp.tState = .established) (hlen : i.tiLen = 0)
    (hplain : i.tiflags.ack = true ∧ i.tiflags.urg = false ∧ i.tiflags.fin = false)
    (hwin : i.tiwin = s.tp.sndWnd) (hgt : seqGT i.tiAck s.tp.sndUna = true)
    (hmax : seqLEQ i.tiAck s.tp.sndMax = true) (hnxt : s.tp.sndNxt = s.tp.sndMax)
    (hmax0 : 0 ≤ gap s.tp.sndMax s.tp.sndUna) (hcc : gap i.tiAck s.tp.sndUna ≤ s.so.soSnd.sbCc)
    (hheld : SbWf s.so.soSnd) (hwl1 : s.tp.sndWl1 ≠ i.tiSeq → seqLT s.tp.sndWl1 i.tiSeq = true)
    (hwl2 : s.tp.sndWl1 = i.tiSeq → s.tp.sndWl2 ≠ i.tiAck) :
    result (match inAck i (inRcvWnd s) with
      | .done o => o
      | .next i s => step6Take i s) = result (predictAckTake i s) ↔
    (s.tp.sndWl1 = i.tiSeq → seqLT s.tp.sndWl2 i.tiAck = true) := by
  obtain ⟨b, q, hgen, hfast, hq1, hq2, hqw⟩ :=
    ack_general hest hlen hplain.2 hgt hmax hnxt hmax0 hcc hheld
  rw [hgen, hfast]
  constructor
  · intro heq hwl
    by_contra hold
    have hself : seqLT q.tp.sndWl1 i.tiSeq = false := by
      rw [hq1, hwl]
      unfold seqLT
      rw [gap_self]
      rfl
    rw [inWindow_stale (i := { i with needoutput := b }) hself
      (by rw [hq2]; exact Bool.not_eq_true _ ▸ hold) (by rw [hq2]; exact hwl2 hwl)] at heq
    -- the window is short by what was acknowledged
    have hw : q.tp.sndWnd = s.tp.sndWnd := congrArg Observed.sndWnd (Except.ok.inj heq)
    have hpos : 0 < gap i.tiAck s.tp.sndUna := decide_eq_true_iff.mp hgt
    obtain ⟨-, hhi⟩ := gap_range i.tiAck s.tp.sndUna
    rw [hqw] at hw
    unfold u32 at hw
    omega
  · intro hnear
    rw [inWindow_fresh (i := { i with needoutput := b }) hplain.1, ← hwin]
    · rfl
    · rw [hq1, hq2]
      by_cases hwl : s.tp.sndWl1 = i.tiSeq
      · exact .inr ⟨hwl, hnear hwl⟩
      · exact .inl (hwl1 hwl)

/-! ## Data in sequence -/

theorem data_agrees (hest : s.tp.tState = .established) (hlen : i.tiLen ≠ 0)
    (hurg : i.tiflags.urg = false) (hfin : i.tiFlags.fin = false) (hwin : i.tiwin = s.tp.sndWnd)
    (hack : i.tiAck = s.tp.sndUna) (hseq : i.tiSeq = s.tp.rcvNxt) (hsegs : s.tp.segs = []) :
    result (match inAck i (inRcvWnd s) with
      | .done o => o
      | .next i s => step6Take i s) = result (predictData i s) := by
  -- the ACK is an old one, but a segment with data is no duplicate
  have hdup : inAck i (inRcvWnd s) =
      .next i { inRcvWnd s with tp := { (inRcvWnd s).tp with tDupacks := 0 } } := by
    have hle : seqLEQ i.tiAck (inRcvWnd s).tp.sndUna = true := by
      show decide (gap i.tiAck s.tp.sndUna ≤ 0) = true
      rw [hack, gap_self]
      rfl
    unfold inAck
    rw [if_neg (by rw [show (inRcvWnd s).tp.tState = _ from hest]; decide)]
    show (if seqLEQ i.tiAck (inRcvWnd s).tp.sndUna then inAckDup i (inRcvWnd s) else _) = _
    rw [if_pos hle]
    exact if_neg fun h => hlen h.1
  rw [hdup]
  set q : Sys := { inRcvWnd s with tp := { (inRcvWnd s).tp with tDupacks := 0 } } with hq
  -- the window is what it was, whether it is taken or not
  obtain ⟨b, wl1, wl2, mx, hw⟩ : ∃ b wl1 wl2 mx, inWindow i q = ({ i with needoutput := b },
      { q with tp := { q.tp with sndWl1 := wl1, sndWl2 := wl2, maxSndwnd := mx } }) := by
    unfold inWindow
    simp only
    split
    · refine ⟨true, i.tiSeq, i.tiAck, max q.tp.maxSndwnd i.tiwin, ?_⟩
      rw [hwin]
      rfl
    · exact ⟨i.needoutput, q.tp.sndWl1, q.tp.sndWl2, q.tp.maxSndwnd, rfl⟩
  unfold step6Take
  simp only [hw]
  rw [inUrgent_none (by exact hurg)]
  simp only
  set q1 : Sys := { q with tp := { q.tp with
    sndWl1 := wl1, sndWl2 := wl2, maxSndwnd := mx
    rcvUp := if seqGT q.tp.rcvNxt q.tp.rcvUp then q.tp.rcvNxt else q.tp.rcvUp } } with hq1
  have htext : inText { i with needoutput := b } q1 =
      ({ i with needoutput := b, tiflags := { fin := false } }, appendRcv { q1 with tp := { q1.tp with
        tfDelack := true, rcvNxt := adv q1.tp.rcvNxt i.tiLen } } i.m) := by
    unfold inText
    rw [if_pos ⟨.inl hlen, by rw [show q1.tp.tState = _ from hest]; rfl⟩]
    unfold tcpReassFast
    rw [if_pos ⟨hseq, hsegs, hest⟩, hfin]
  rw [htext]
  rfl

/-! ## The two paths agree -/

/-- The order of an established connection: what was sent is in the buffer, the window was announced
from `rcv_nxt` on, and the last window update is not from the future (the same, or less than `2^31`
before). -/
structure InOrder (s : Sys) : Prop where
  est : s.tp.tState = .established
  held : SbWf s.so.soSnd
  una : 0 ≤ gap s.tp.sndNxt s.tp.sndUna
  nxt : 0 ≤ gap s.tp.sndMax s.tp.sndNxt
  max : 0 ≤ gap (adv s.tp.sndUna s.so.soSnd.sbCc) s.tp.sndMax
  rcv : 0 ≤ gap s.tp.rcvAdv s.tp.rcvNxt
  wl1 : 0 ≤ gap s.tp.rcvNxt s.tp.sndWl1
  wl2 : s.tp.sndWl1 = s.tp.rcvNxt → 0 ≤ gap s.tp.sndUna s.tp.sndWl2

theorem InOrder.header {s s1 : Sys} {seg : Segment} {i : Inp} (h : InOrder s)
    (hh : inHeader s seg = some (i, s1)) : InOrder s1 := by
  have hs := still_inHeader hh
  have hd := (inHeader_calm hh).1.view
  have huna := view_una hs.view
  have hrcv := view_nxt hs.view
  have hwl1 := view_wl1 hs.view
  have hnxt : s1.tp.sndNxt = s.tp.sndNxt := congrArg Snd.nxt hd
  have hmax := snd_max hd
  refine ⟨(view_st hs.view).trans h.est, h.held.congr hs.snd, ?_, ?_, ?_, ?_, ?_, ?_⟩
  · rw [huna, hnxt]
    exact h.una
  · rw [hnxt, hmax]
    exact h.nxt
  · rw [hmax, huna, snd_cc hd]
    exact h.max
  · rw [hrcv, hs.rcvAdv]
    exact h.rcv
  · rw [hwl1, hrcv]
    exact h.wl1
  · rw [hwl1, hrcv, view_wl2 hs.view, huna]
    exact h.wl2

theorem inHeader_flags {s1 : Sys} {seg : Segment} (h : inHeader s seg = some (i, s1)) :
    i.tiFlags = i.tiflags := by
  unfold inHeader at h
  simp only at h
  split at h
  · cases h
    rfl
  · obtain ⟨r, -, he⟩ := Option.map_eq_some_iff.mp h
    cases he
    rfl

theorem acked_le_cc {ack mx : Seq} {cc : Nat} (hpos : 0 < gap ack una) (hle : gap ack mx ≤ 0)
    (h0 : 0 ≤ gap mx una) (hcc : 0 ≤ gap (adv una cc) mx) : gap ack una ≤ cc := by
  obtain ⟨-, ha⟩ := gap_range ack una
  obtain ⟨-, hm⟩ := gap_range mx una
  have h1 : gap ack mx = gap ack una - gap mx una := gap_sub (by omega) (by omega)
  by_contra hlt
  have h2 : gap (adv una cc) (adv una (gap mx una)) = cc - gap mx una :=
    gap_adv (by omega) (by omega)
  rw [adv_gap] at h2
  omega

theorem seqLT_of_before {a b : Seq} (h : 0 ≤ gap b a) (hne : a ≠ b) : seqLT a b = true := by
  obtain ⟨-, hhi⟩ := gap_range b a
  have hgap : gap (adv a 0) (adv a (gap b a)) = 0 - gap b a := gap_adv (by omega) (by omega)
  have hpos : gap b a ≠ 0 := fun h0 => hne (gap_eq_zero_iff.mp h0).symm
  rw [adv_zero, adv_gap] at hgap
  exact decide_eq_true (by omega)

theorem ne_of_before {ack wl2 : Seq} (hpos : 0 < gap ack una) (h : 0 ≤ gap una wl2) :
    wl2 ≠ ack := by
  rintro rfl
  obtain ⟨-, hhi⟩ := gap_range wl2 una
  have hneg : gap (adv una 0) (adv una (gap wl2 una)) = 0 - gap wl2 una :=
    gap_adv (by omega) (by omega)
  rw [adv_zero, adv_gap] at hneg
  omega

/-- **Header prediction is transparent.** On a connection in order, a segment that it takes leaves
what the general path would have left, exactly if `ti_ack` is after `snd_wl2` in case of a pure ACK
without data from the peer since the last window update. -/
theorem prediction_transparent {s s1 : Sys} {seg : Segment} {i : Inp} {o : Outcome Unit}
    (hord : InOrder s) (hh : inHeader s seg = some (i, s1)) (hp : inPredict i s1 = .done o) :
    result (fastPath i s1) = result (generalPath seg i s1) ↔
      (i.tiLen = 0 → s.tp.sndWl1 = s.tp.rcvNxt → seqLT s.tp.sndWl2 seg.tiAck = true) := by
  obtain ⟨⟨hest, hack, hflags, hts, hseq, hwin, hnxt⟩, hcase, -⟩ := inPredict_done hp
  have hord1 := hord.header hh
  simp only [Bool.or_eq_false_iff] at hflags
  obtain ⟨⟨⟨hsyn, hfin⟩, hrst⟩, hurg⟩ := hflags
  have hpred : Predicted i s1 :=
    { est := hest
      ack := hack
      plain := ⟨hsyn, hfin, hrst, hurg⟩
      ts := fun v e he => by
        rw [he] at hts
        exact decide_eq_true_iff.mp hts
      seq := hseq
      win := hwin
      nxt := hnxt
      fits := hcase.imp (fun h => h.1) fun h => h.2.2.2
      rcv := hord1.rcv }
  have hgen : generalPath seg i s1 = match inAck i (inRcvWnd (inTsRecent i s1 0)) with
      | .done o => o
      | .next i s => step6Take i s := by
    unfold generalPath inSwitch
    rw [show (inRcvWnd s1).tp.tState = _ from hest]
    rw [inCheck_predicted hpred]
    rfl
  -- what the timestamp leaves
  set t := inTsRecent i s1 0 with ht
  obtain ⟨rec, age, now, htp⟩ := noted_inTsRecent i s1 0
  rw [← ht] at htp
  have hst : t.tp.tState = .established := by rw [htp]; exact hest
  have htwin : i.tiwin = t.tp.sndWnd := by rw [htp]; exact hwin
  rw [hgen, eq_comm]
  unfold fastPath
  rcases hcase with ⟨hlen, hgt, hle⟩ | ⟨hlen, heq, hsegs, -⟩
  · rw [if_pos hlen]
    have hpos : 0 < gap i.tiAck s1.tp.sndUna := decide_eq_true_iff.mp hgt
    have hmle : gap i.tiAck s1.tp.sndMax ≤ 0 := decide_eq_true_iff.mp hle
    have hm0 : 0 ≤ gap s1.tp.sndMax s1.tp.sndUna := hnxt ▸ hord1.una
    have hcc := acked_le_cc hpos hmle hm0 hord1.max
    have hv := (still_inHeader hh).view
    have hagree := ack_agrees (i := i) (s := t) hst hlen ⟨hack, hurg, hfin⟩ htwin
      (by rw [htp]; exact hgt) (by rw [htp]; exact hle) (by rw [htp]; exact hnxt)
      (by rw [htp]; exact hm0) (by rw [htp]; exact hcc) (by rw [htp]; exact hord1.held)
      (by rw [htp]; exact seqLT_of_before (hseq ▸ hord1.wl1))
      (by rw [htp]; exact fun hwl => ne_of_before hpos (hord1.wl2 (hwl.trans hseq)))
    rw [hagree, htp]
    -- no data since the last update: the ACK decides
    rw [hseq, view_wl1 hv, view_wl2 hv, view_nxt hv, (inHeader_calm hh).2]
    exact ⟨fun h _ => h, fun h => h hlen⟩
  · rw [if_neg hlen]
    refine iff_of_true ?_ fun h0 => absurd h0 hlen
    apply data_agrees hst hlen hurg (by rw [inHeader_flags hh]; exact hfin) htwin
    all_goals rw [htp]
    · exact heq
    · exact hseq
    · exact hsegs

/-- An established connection with twenty bytes outstanding from `una` on, the last window update at
`rcv_nxt` and `wl2`. -/
def sender (una wl2 : Seq) : Sys :=
  { tp :=
      { tState := .established
        sndUna := una, sndNxt := adv una 20, sndMax := adv una 20, sndWnd := 1000, sndCwnd := 1000
        sndWl1 := 500, sndWl2 := wl2, rcvNxt := 500, rcvAdv := 600 }
    so := { soSnd := { sbCc := 20, sbMb := [[{ mData := List.replicate 20 7 }]] } } }

def ackTen (una : Seq) : Segment := bareSeg 500 (adv una 10) { ack := true } 1000 []

theorem sender_inOrder {wl2 : Seq} (h : 0 ≤ gap una wl2) : InOrder (sender una wl2) := by
  have hgap : ∀ x y : Int, -2147483648 ≤ x - y → x - y < 2147483648 →
      gap (adv una x) (adv una y) = x - y := fun _ _ h1 h2 => gap_adv h1 h2
  have h20 := hgap 20 0 (by omega) (by omega)
  rw [adv_zero] at h20
  refine ⟨rfl, rfl, ?_, ?_, ?_, ?_, ?_, fun _ => h⟩
  · show 0 ≤ gap (adv una 20) una
    omega
  · show 0 ≤ gap (adv una 20) (adv una 20)
    rw [gap_self]
  · show 0 ≤ gap (adv una 20) (adv una 20)
    rw [gap_self]
  · show 0 ≤ gap (600 : Seq) 500
    decide
  · show 0 ≤ gap (500 : Seq) 500
    decide

/-- Header prediction takes the segment. -/
def takesFast (i : Inp) (s : Sys) : Bool :=
  match inPredict i s with
  | .done _ => true
  | .next _ _ => false

theorem takesFast_done (h : takesFast i s = true) :
    ∃ o, inPredict i s = .done o := by
  unfold takesFast at h
  split at h
  · next o ho => exact ⟨o, ho⟩
  · cases h

theorem prediction_transparent_near :
    InOrder (sender 1000 1000) ∧ ∃ i s1 o, inHeader (sender 1000 1000) (ackTen 1000) = some (i, s1) ∧
      inPredict i s1 = .done o ∧ result (fastPath i s1) = result (generalPath (ackTen 1000) i s1) := by
  have hord : InOrder (sender 1000 1000) := sender_inOrder (by decide)
  have htake : (inHeader (sender 1000 1000) (ackTen 1000)).any
      (fun r => takesFast r.1 r.2) = true := by decide +kernel
  obtain ⟨⟨i, s1⟩, hh, ht⟩ := (Option.any_eq_true _ _).mp htake
  obtain ⟨o, ho⟩ := takesFast_done ht
  exact ⟨hord, i, s1, o, hh, ho, (prediction_transparent hord hh ho).mpr fun _ _ => by decide +kernel⟩

/-- No data since the window update, and more than `2^31` bytes acknowledged: the general path would
take ten bytes from the window. -/
theorem prediction_shrinks_window :
    InOrder (sender 2147483640 0) ∧ ∃ i s1 o,
      inHeader (sender 2147483640 0) (ackTen 2147483640) = some (i, s1) ∧
      inPredict i s1 = .done o ∧
      result (fastPath i s1) ≠ result (generalPath (ackTen 2147483640) i s1) := by
  have hord : InOrder (sender 2147483640 0) := sender_inOrder (by decide)
  have htake : (inHeader (sender 2147483640 0) (ackTen 2147483640)).any (fun r =>
      takesFast r.1 r.2 && decide (result (fastPath r.1 r.2) ≠
        result (generalPath (ackTen 2147483640) r.1 r.2))) = true := by decide +kernel
  obtain ⟨⟨i, s1⟩, hh, hboth⟩ := (Option.any_eq_true _ _).mp htake
  obtain ⟨ht, hne⟩ := Bool.and_eq_true_iff.mp hboth
  obtain ⟨o, ho⟩ := takesFast_done ht
  exact ⟨hord, i, s1, o, hh, ho, decide_eq_true_iff.mp hne⟩

end Anp
