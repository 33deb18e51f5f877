import Anp.Tcp.Reass
import Anp.Tcp.Subr
import Anp.Tcp.Trim

/-!
# Input — `tcp_input`

`netinet/tcp_input.c`, from the lookup of the control block on. The routine is cut where the
source has its comments; each part either hands the segment on (`Flow.next`) or ends the call
(`Flow.done`), which is what its `goto drop`, `goto dropafterack` and `goto dropwithreset` do.
-/

namespace Anp

open Cyclic Machine

inductive Flow where
  | next (i : Inp) (s : Sys)
  | done (o : Outcome Unit)
  deriving DecidableEq, Repr

def Flow.bind (f : Flow) (k : Inp → Sys → Flow) : Flow :=
  match f with
  | .next i s => k i s
  | .done o => .done o

/-! ## Leaving -/

/-- `goto drop` on a connection that stays. -/
def inDrop (s : Sys) : Flow := .done (.ok () s)

/-- A call of `tcp_output` whose result is ignored. -/
def callOutput (s : Sys) : Outcome Unit := (tcpOutput s).bind fun _ s => .ok () s

/-- `dropafterack`: an ACK dropping the incoming segment. -/
def inDropafterack (i : Inp) (s : Sys) : Flow :=
  if i.tiflags.rst then inDrop s
  else .done (callOutput { s with tp := { s.tp with tfAcknow := true } })

/-- The RST of `dropwithreset`, unless the segment was a RST or a broadcast. -/
def inRespond (i : Inp) (s : Sys) : Sys :=
  if i.tiflags.rst || i.bcast then s
  else if i.tiflags.ack then tcpRespond s 0 i.tiAck { rst := true }
  else tcpRespond s (adv i.tiSeq (i.tiLen + if i.tiflags.syn then 1 else 0)) 0
    { rst := true, ack := true }

def inDropwithreset (i : Inp) (s : Sys) : Flow := .done (.ok () (inRespond i s))

/-! ## Header prediction -/

/-- If last ACK falls within this segment's sequence numbers, record the timestamp. `extra` is
the place of a SYN or FIN. -/
def inTsRecent (i : Inp) (s : Sys) (extra : Nat) : Sys :=
  match i.ts with
  | none => s
  | some (val, _) =>
    if seqLEQ i.tiSeq s.tp.lastAckSent &&
        seqLT s.tp.lastAckSent (adv i.tiSeq (i.tiLen + extra)) then
      { s with tp := { s.tp with tsRecentAge := s.w.now, tsRecent := val } }
    else s

/-- The round-trip time of the segment that `ti_ack` acknowledges, if it was measured. -/
def inXmitTimer (i : Inp) (s : Sys) : Sys :=
  match i.ts with
  | some (_, ecr) => { s with tp := tcpXmitTimer s.tp (s.w.now - ecr + 1) }
  | none =>
    if s.tp.tRtt ≠ 0 ∧ seqGT i.tiAck s.tp.tRtseq then
      { s with tp := tcpXmitTimer s.tp s.tp.tRtt }
    else s

/-- `sbdrop(&so->so_snd, n)`. -/
def dropSnd (s : Sys) (n : Int) : Outcome Unit :=
  match sbdrop s.so.soSnd n with
  | some sb => .ok () { s with so := { s.so with soSnd := sb } }
  | none => .stop (.panic .sbdropSnd) s

/-- `tp->snd_una = ti->ti_ack`. -/
def setUna (s : Sys) (ack : Seq) : Sys :=
  { s with
    tp := { s.tp with sndUna := ack }
    log := { s.log with acked := s.log.acked + (gap ack s.tp.sndUna).toNat } }

/-- If all outstanding data is acked, stop the retransmit timer, else restart it. -/
def ackTimer (ack : Seq) (tp : Tcpcb) : Tcpcb :=
  if ack = tp.sndMax then { tp with rexmt := 0 }
  else if tp.persist = 0 then { tp with rexmt := tp.tRxtcur }
  else tp

/-- `if (so->so_snd.sb_cc) (void) tcp_output(tp)`. -/
def sendRest (s : Sys) : Outcome Unit := if s.so.soSnd.sbCc ≠ 0 then callOutput s else .ok () s

/-- A pure ack for outstanding data. -/
def predictAck (i : Inp) (s : Sys) : Outcome Unit :=
  let s := inXmitTimer i s
  (dropSnd s (gap i.tiAck s.tp.sndUna)).bind fun _ (s : Sys) =>
    let s := setUna s i.tiAck
    sendRest { s with tp := ackTimer i.tiAck s.tp }

/-- A pure, in-sequence data packet with nothing on the reassembly queue. -/
def predictData (i : Inp) (s : Sys) : Outcome Unit :=
  .ok () (appendRcv { s with tp := { s.tp with
    rcvNxt := adv s.tp.rcvNxt i.tiLen, tfDelack := true } } i.m)

/-- Header prediction. -/
def inPredict (i : Inp) (s : Sys) : Flow :=
  let f := i.tiflags
  if s.tp.tState = .established ∧ f.ack ∧ !(f.syn || f.fin || f.rst || f.urg) ∧
      (i.ts.all fun ts => decide (0 ≤ int32 ((ts.1 : Int) - s.tp.tsRecent))) ∧
      i.tiSeq = s.tp.rcvNxt ∧ i.tiwin ≠ 0 ∧ i.tiwin = s.tp.sndWnd ∧ s.tp.sndNxt = s.tp.sndMax then
    let s := inTsRecent i s 0
    if i.tiLen = 0 then
      if seqGT i.tiAck s.tp.sndUna && seqLEQ i.tiAck s.tp.sndMax &&
          decide (s.tp.sndWnd ≤ s.tp.sndCwnd) then
        .done (predictAck i s)
      else .next i s
    else if i.tiAck = s.tp.sndUna ∧ s.tp.segs = [] ∧ (i.tiLen : Int) ≤ sbspace s.so.soRcv then
      .done (predictData i s)
    else .next i s
  else .next i s

/-- The receive window: space in the receive buffer, but not less than advertised. `max` is
unsigned. -/
def inRcvWnd (s : Sys) : Sys :=
  let win := sbspace s.so.soRcv
  let win := if win < 0 then 0 else win
  { s with tp := { s.tp with rcvWnd := max (u32 win) (u32 (gap s.tp.rcvAdv s.tp.rcvNxt)) } }

/-! ## LISTEN and SYN_SENT -/

/-- `trimthenstep6`: advance `ti_seq` to the first data byte; if data, trim to stay within
window, dropping FIN if necessary. -/
def inTrimSyn (i : Inp) (s : Sys) : Flow :=
  let i := { i with tiSeq := i.tiSeq + 1 }
  let i := if s.tp.rcvWnd < i.tiLen then
      { i with
        m := mAdj i.m (-((i.tiLen - s.tp.rcvWnd : Nat) : Int))
        tiLen := s.tp.rcvWnd
        tiflags := { i.tiflags with fin := false } }
    else i
  .next i { s with tp := { s.tp with sndWl1 := i.tiSeq - 1, rcvUp := i.tiSeq } }

def tcpRcvseqinit (tp : Tcpcb) : Tcpcb := { tp with rcvAdv := tp.irs + 1, rcvNxt := tp.irs + 1 }

def tcpSendseqinit (tp : Tcpcb) : Tcpcb :=
  { tp with sndUna := tp.iss, sndNxt := tp.iss, sndMax := tp.iss, sndUp := tp.iss }

/-- The temporary socket of a segment that does not open a connection is aborted. -/
def listenDrop (s : Sys) : Flow := .done (tcpDrop s .dropped (some .econnaborted) id)

/-- The peer's SYN; `iss` is chosen when the segment restarts a connection in TIME_WAIT, else 0. -/
def inListen (iss : Seq) (seg : Segment) (i : Inp) (s : Sys) : Flow :=
  if i.tiflags.rst then listenDrop s
  else if i.tiflags.ack then listenDrop (inRespond i s)
  else if !i.tiflags.syn || i.bcast || !s.w.mget || !s.w.pcbconnect then listenDrop s
  else if !s.w.template then .done (tcpDrop s .dropped (some .enobufs) id)
  else
    let s := { s with tp := { s.tp with tTemplate := true } }
    match tcpDooptions s i.ts (seg.opts ++ seg.optTail) seg.opts.length i.tiFlags.syn with
    | none => .done (.stop (.panic .divide) s)
    | some (s, ts) =>
      let tp := { s.tp with iss := if iss = 0 then s.w.tcpIss else iss, irs := i.tiSeq }
      let tp := { tcpRcvseqinit (tcpSendseqinit tp) with
        tfAcknow := true, tState := .synReceived, keep := tcptvKeepInit }
      inTrimSyn { i with ts := ts } { s with tp := tp }

/-- `if (SEQ_LT(tp->snd_nxt, tp->snd_una)) tp->snd_nxt = tp->snd_una`. -/
def pullNxt (s : Sys) : Sys :=
  { s with tp := { s.tp with
    sndNxt := if seqLT s.tp.sndNxt s.tp.sndUna then s.tp.sndUna else s.tp.sndNxt } }

/-- Window scaling, if both sides asked for it. -/
def inScale (tp : Tcpcb) : Tcpcb :=
  if tp.tfRcvdScale && tp.tfReqScale then
    { tp with sndScale := tp.requestedSScale, rcvScale := tp.requestRScale }
  else tp

/-- The SYN of the peer: its sequence number space is known, the timer of our own SYN stops. -/
def inSynSeen (i : Inp) (s : Sys) : Sys :=
  { s with tp :=
    { tcpRcvseqinit { s.tp with rexmt := 0, irs := i.tiSeq } with tfAcknow := true } }

/-- The connection is established. The result of `tcp_reass` is ignored, also a FIN. -/
def inConnected (s : Sys) : Sys :=
  let s := (tcpReass { s with
    tp := inScale { s.tp with tState := .established }
    so := soisconnected s.so } none).1
  if s.tp.tRtt ≠ 0 then { s with tp := tcpXmitTimer s.tp s.tp.tRtt } else s

/-- `case TCPS_SYN_SENT`. -/
def inSynSent (i : Inp) (s : Sys) : Flow :=
  let f := i.tiflags
  if f.ack && (seqLEQ i.tiAck s.tp.iss || seqGT i.tiAck s.tp.sndMax) then inDropwithreset i s
  else if f.rst then
    if f.ack then .done (tcpDrop s .reset (some .econnrefused) id) else inDrop s
  else if !f.syn then inDrop s
  else
    let s := inSynSeen i (if f.ack then pullNxt (setUna s i.tiAck) else s)
    if f.ack && seqGT s.tp.sndUna s.tp.iss then inTrimSyn i (inConnected s)
    else inTrimSyn i { s with tp := { s.tp with tState := .synReceived } }

/-! ## The other states, up to the ACK bit -/

/-- RFC 1323 PAWS: a timestamp less than `ts_recent`, unless that is over 24 days old. -/
def inPaws (i : Inp) (s : Sys) : Flow :=
  match i.ts with
  | none => .next i s
  | some (val, _) =>
    if !i.tiflags.rst ∧ s.tp.tsRecent ≠ 0 ∧ int32 ((val : Int) - s.tp.tsRecent) < 0 then
      if 24 * 24 * 60 * 60 * 2 < int32 ((s.w.now : Int) - s.tp.tsRecentAge) then
        .next i { s with tp := { s.tp with tsRecent := 0 } }
      else inDropafterack i s
    else .next i s

/-- A decision of `Trim` carried out. -/
def inTrimRes (i : Inp) (s : Sys) : Trim → Flow
  | .keep i acknow => .next i { s with tp := { s.tp with tfAcknow := s.tp.tfAcknow || acknow } }
  | .dropafterack => inDropafterack i s
  | .reopen => .done (tcpClose .reopened s)

/-- If new data are received on a connection after the user processes are gone, then RST the
other end. -/
def inGone (i : Inp) (s : Sys) : Flow :=
  if s.so.ssNofdref ∧ TcpState.closeWait.toNat < s.tp.tState.toNat ∧ i.tiLen ≠ 0 then
    .done (tcpClose .afterClose (inRespond i s))
  else .next i s

/-- The segment is cut to the window. -/
def inTrim (i : Inp) (s : Sys) : Flow := (inTrimRes i s (trimLeft s.tp.rcvNxt i)).bind fun i s =>
    (inGone i s).bind fun i s => inTrimRes i s (trimRight s.tp i)

/-- The RST bit, a SYN in the window, a missing ACK bit. -/
def inReset (i : Inp) (s : Sys) : Flow :=
  if i.tiflags.rst then
    match s.tp.tState with
    | .synReceived =>
      .done (tcpClose .reset { s with so := { s.so with soError := some .econnrefused } })
    | .established | .finWait1 | .finWait2 | .closeWait =>
      .done (tcpClose .reset { s with so := { s.so with soError := some .econnreset } })
    | _ => .done (tcpClose .reset s)
  else if i.tiflags.syn then .done (tcpDrop s .reset (some .econnreset) (inRespond i))
  else if !i.tiflags.ack then inDrop s
  else .next i s

/-- Everything between the switch on LISTEN and SYN_SENT and ACK processing. -/
def inCheck (i : Inp) (s : Sys) : Flow := (inPaws i s).bind fun i s =>
    (inTrim i s).bind fun i s =>
      inReset i (inTsRecent i s (if i.tiflags.syn || i.tiflags.fin then 1 else 0))

/-! ## ACK processing -/

/-- In SYN_RECEIVED state if the ack ACKs our SYN then enter ESTABLISHED state and continue
processing, otherwise send an RST. -/
def inAckSynRcvd (i : Inp) (s : Sys) : Flow :=
  if seqGT s.tp.sndUna i.tiAck || seqGT i.tiAck s.tp.sndMax then inDropwithreset i s
  else
    let s := { s with
      tp := inScale { s.tp with tState := .established }
      so := soisconnected s.so }
    let s := (tcpReass s none).1
    .next i { s with tp := { s.tp with sndWl1 := i.tiSeq - 1 } }

/-- Half the window in segments, but at least 2, as a slow start threshold. -/
def halfWindow (tp : Tcpcb) : Nat := max (min tp.sndWnd tp.sndCwnd / 2 / tp.tMaxseg) 2

/-- The third duplicate ACK: retransmit one segment from `ti_ack`, then return to where we
were. -/
def fastRexmt (i : Inp) (s : Sys) : Outcome Unit :=
  if s.tp.tMaxseg = 0 then .stop (.panic .divide) s
  else
    let onxt := s.tp.sndNxt
    let s := { s with tp := { s.tp with
      sndSsthresh := u32 (halfWindow s.tp * s.tp.tMaxseg)
      rexmt := 0
      tRtt := 0
      sndNxt := i.tiAck
      sndCwnd := s.tp.tMaxseg } }
    (callOutput s).bind fun _ (s : Sys) =>
      .ok () { s with tp := { s.tp with
        sndCwnd := u32 (s.tp.sndSsthresh + s.tp.tMaxseg * s.tp.tDupacks)
        sndNxt := if seqGT onxt s.tp.sndNxt then onxt else s.tp.sndNxt } }

/-- An ACK that is not new. -/
def inAckDup (i : Inp) (s : Sys) : Flow :=
  if i.tiLen = 0 ∧ i.tiwin = s.tp.sndWnd then
    if s.tp.rexmt = 0 ∨ i.tiAck ≠ s.tp.sndUna then
      .next i { s with tp := { s.tp with tDupacks := 0 } }
    else
      let s := { s with tp := { s.tp with tDupacks := int16 (s.tp.tDupacks + 1) } }
      if s.tp.tDupacks = tcpRexmtthresh then .done (fastRexmt i s)
      else if tcpRexmtthresh < s.tp.tDupacks then
        .done (callOutput { s with tp := { s.tp with sndCwnd := u32 (s.tp.sndCwnd + s.tp.tMaxseg) } })
      else .next i s
  else .next i { s with tp := { s.tp with tDupacks := 0 } }

/-- When new data is acked, open the congestion window. -/
def openCwnd (tp : Tcpcb) : Tcpcb :=
  let cw := tp.sndCwnd
  let incr := tp.tMaxseg
  let incr := if tp.sndSsthresh < cw then incr * incr / cw + incr / 8 else incr
  { tp with sndCwnd := min (u32 (cw + incr)) (tcpMaxwin * 2 ^ tp.sndScale) }

/-- What a new ACK does to the state; `finAcked` is `ourfinisacked`. -/
def inAckState (finAcked : Bool) (i : Inp) (s : Sys) : Flow :=
  match s.tp.tState with
  | .finWait1 =>
    if finAcked then
      let s := if s.so.ssCantrcvmore then
          { s with tp := { s.tp with msl2 := tcpMaxidle }, so := soisdisconnected s.so }
        else s
      .next i { s with tp := { s.tp with tState := .finWait2 } }
    else .next i s
  | .closing =>
    if finAcked then
      .next i { s with
        tp := { tcpCanceltimers { s.tp with tState := .timeWait } with msl2 := 2 * tcptvMsl }
        so := soisdisconnected s.so }
    else .next i s
  | .lastAck => if finAcked then .done (tcpClose .finAcked s) else .next i s
  | .timeWait => inDropafterack i { s with tp := { s.tp with msl2 := 2 * tcptvMsl } }
  | _ => .next i s

/-- Drop the acknowledged data and move `snd_una`. Our FIN is taken to be acknowledged when
more is acknowledged than the buffer holds. -/
def ackData (i : Inp) (s : Sys) : Outcome Bool :=
  let acked := gap i.tiAck s.tp.sndUna
  let cc := s.so.soSnd.sbCc
  let finAcked := decide (cc < u32 acked)
  let n : Int := if finAcked then cc else acked
  (dropSnd s n).bind fun _ (s : Sys) =>
    .ok finAcked (pullNxt (setUna { s with tp := { s.tp with
      sndWnd := u32 ((s.tp.sndWnd : Int) - n) } } i.tiAck))

/-- The bookkeeping of a new ACK before its data is dropped: duplicates, round-trip time, retransmit
timer, congestion window. -/
def ackPrepare (i : Inp) (s : Sys) : Sys :=
  let s := inXmitTimer i s
  { s with tp := openCwnd (ackTimer i.tiAck s.tp) }

def inAckNew (i : Inp) (s : Sys) : Flow :=
  let tp := s.tp
  let s := { s with tp := { tp with
    sndCwnd :=
      if tcpRexmtthresh < tp.tDupacks ∧ tp.sndSsthresh < tp.sndCwnd then tp.sndSsthresh
      else tp.sndCwnd
    tDupacks := 0 } }
  if seqGT i.tiAck s.tp.sndMax then inDropafterack i s
  else
    let i := { i with needoutput := i.needoutput || i.tiAck == s.tp.sndMax }
    match ackData i (ackPrepare i s) with
    | .ok finAcked s => inAckState finAcked i s
    | .stop why s => .done (.stop why s)

/-- ACK processing, with `inAckSynRcvd`, `inAckDup`, `inAckNew`, `inAckState`. -/
def inAck (i : Inp) (s : Sys) : Flow :=
  let f := if s.tp.tState = .synReceived then inAckSynRcvd i s else .next i s
  f.bind fun i s => if seqLEQ i.tiAck s.tp.sndUna then inAckDup i s else inAckNew i s

/-! ## `step6` and after -/

/-- Update window information. Don't look at window if no ACK. -/
def inWindow (i : Inp) (s : Sys) : Inp × Sys :=
  let tp := s.tp
  if i.tiflags.ack && (seqLT tp.sndWl1 i.tiSeq ||
      (tp.sndWl1 == i.tiSeq && (seqLT tp.sndWl2 i.tiAck ||
        (tp.sndWl2 == i.tiAck && decide (tp.sndWnd < i.tiwin))))) then
    ({ i with needoutput := true },
      { s with tp := { tp with
        sndWnd := i.tiwin
        sndWl1 := i.tiSeq
        sndWl2 := i.tiAck
        maxSndwnd := max tp.maxSndwnd i.tiwin } })
  else (i, s)

/-- `tcp_pulloutofband`: the byte before the urgent pointer leaves the chain, but still counts
in `ti_len`. -/
def tcpPulloutofband (i : Inp) (s : Sys) : Flow :=
  match pullByte i.m (i.tiUrp - 1) with
  | some (b, m) =>
    .next { i with m := m }
      { s with
        tp := { s.tp with tIobc := b, oobHavedata := true }
        log := { s.log with oob := (adv i.tiSeq (i.tiUrp - 1), b) :: s.log.oob } }
  | none => .done (.stop (.panic .tcpPulloutofband) s)

/-- If this segment advances the known urgent pointer, then mark the data stream. -/
def markUrgent (i : Inp) (s : Sys) : Sys :=
  let up := adv i.tiSeq i.tiUrp
  if seqGT up s.tp.rcvUp then
    let mark := u32 ((s.so.soRcv.sbCc : Int) + (up - s.tp.rcvNxt).toNat - 1)
    { s with
      tp := { s.tp with rcvUp := up, oobHavedata := false, oobHaddata := false }
      so := { s.so with soOobmark := mark, ssRcvatmark := s.so.ssRcvatmark || mark == 0 } }
  else s

/-- Process segments with URG. -/
def inUrgent (i : Inp) (s : Sys) : Flow :=
  if i.tiflags.urg ∧ i.tiUrp ≠ 0 ∧ !haveRcvdFin s.tp.tState then
    if sbMax < i.tiUrp + s.so.soRcv.sbCc then
      .next { i with tiUrp := 0, tiflags := { i.tiflags with urg := false } } s
    else
      let s := markUrgent i s
      if i.tiUrp ≤ i.tiLen ∧ !s.so.soOobinline then tcpPulloutofband i s else .next i s
  else .next i
    { s with tp := { s.tp with
      rcvUp := if seqGT s.tp.rcvNxt s.tp.rcvUp then s.tp.rcvNxt else s.tp.rcvUp } }

/-- Process the segment text, merging it into the queue. The FIN that counts from here on is that of
the segment presented last. -/
def inText (i : Inp) (s : Sys) : Inp × Sys :=
  if (i.tiLen ≠ 0 ∨ i.tiflags.fin) ∧ !haveRcvdFin s.tp.tState then
    let r := tcpReassFast s ⟨i.tiSeq, i.tiLen, i.tiFlags.fin, i.m⟩
    ({ i with tiflags := { fin := r.2 } }, r.1)
  else ({ i with tiflags := { i.tiflags with fin := false } }, s)

/-- The transitions on a FIN. -/
def finState6 (s : Sys) : Sys :=
  match s.tp.tState with
  | .synReceived | .established => { s with tp := { s.tp with tState := .closeWait } }
  | .finWait1 => { s with tp := { s.tp with tState := .closing } }
  | .finWait2 =>
    { s with
      tp := { tcpCanceltimers { s.tp with tState := .timeWait } with msl2 := 2 * tcptvMsl }
      so := soisdisconnected s.so }
  | .timeWait => { s with tp := { s.tp with msl2 := 2 * tcptvMsl } }
  | _ => s

/-- If FIN is received ACK the FIN and let the user know that the connection is closing. -/
def inFin (i : Inp) (s : Sys) : Sys :=
  if i.tiflags.fin then
    finState6 (if !haveRcvdFin s.tp.tState then
      { s with
        so := socantrcvmore s.so
        tp := { s.tp with tfAcknow := true, rcvNxt := s.tp.rcvNxt + 1 }
        log := { s.log with fins := s.tp.rcvNxt :: s.log.fins } }
      else s)
  else s

/-- From `step6` to the end. -/
def inStep6 (i : Inp) (s : Sys) : Outcome Unit :=
  let r := inWindow i s
  match inUrgent r.1 r.2 with
  | .done o => o
  | .next i s =>
    let r := inText i s
    let s := inFin r.1 r.2
    if i.needoutput || s.tp.tfAcknow then callOutput s else .ok () s

/-! ## `tcp_input` -/

/-- The switch on the state, and all that follows. -/
def inSwitch (seg : Segment) (i : Inp) (s : Sys) : Flow :=
  match s.tp.tState with
  | .listen => inListen 0 seg i s
  | .synSent => inSynSent i s
  | _ => (inCheck i s).bind inAck

/-- The segment as `tcp_input` keeps it, and the options (in LISTEN `tcp_dooptions` waits). `none`
is the division by zero. -/
def inHeader (s : Sys) (seg : Segment) : Option (Inp × Sys) :=
  let mem := seg.opts ++ seg.optTail
  let i : Inp :=
    { tiSeq := seg.tiSeq
      tiAck := seg.tiAck
      tiLen := chainLen seg.m
      tiUrp := seg.tiUrp
      tiFlags := seg.tiFlags
      m := seg.m
      tiflags := seg.tiFlags
      tiwin := if seg.tiFlags.syn then seg.tiWin else u32 (seg.tiWin * 2 ^ s.tp.sndScale)
      ts := quickTstamp mem seg.opts.length seg.tiFlags.syn
      needoutput := false
      bcast := seg.bcast }
  let s := { s with tp := { s.tp with tIdle := 0, keep := tcpKeepidle } }
  if i.ts.isSome ∨ s.tp.tState = .listen then some (i, s)
  else
    (tcpDooptions s none mem seg.opts.length seg.tiFlags.syn).map fun r =>
      ({ i with ts := r.2 }, r.1)

/-- `tcp_input` on the control block of the segment. A listening socket makes a new one, whose own
run starts in LISTEN without `SO_ACCEPTCONN`. -/
def tcpInput (s : Sys) (seg : Segment) : Outcome Unit :=
  if s.tp.tState = .closed ∨ s.so.soAcceptconn then .ok () s
  else
    match inHeader s seg with
    | none => .stop (.panic .divide) s
    | some (i, s) =>
      match (inPredict i s).bind fun i s => inSwitch seg i (inRcvWnd s) with
      | .done o => o
      | .next i s => inStep6 i s

/-- The segment and the connection when ACK processing begins, `none` when the checks before it
answer or drop the segment. -/
def ackStage (s : Sys) (seg : Segment) : Option (Inp × Sys) :=
  if s.tp.tState = .closed ∨ s.so.soAcceptconn ∨ s.tp.tState = .listen ∨
      s.tp.tState = .synSent then none
  else
    (inHeader s seg).bind fun r =>
      match (inPredict r.1 r.2).bind fun i s => inCheck i (inRcvWnd s) with
      | .next i s => some (i, s)
      | .done _ => none

end Anp
