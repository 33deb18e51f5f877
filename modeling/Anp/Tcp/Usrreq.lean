import Anp.Tcp.Input

/-!
# Usrreq — timeouts and user requests

`tcp_timers`, `tcp_slowtimo`, `tcp_fasttimo` (`netinet/tcp_timer.c`), the requests of
`tcp_usrreq` (`netinet/tcp_usrreq.c`) and the part of the socket layer
(`kern/uipc_socket.c`) that guards them.
-/

namespace Anp

open Machine

/-! ## Timeouts -/

inductive TimerId where
  | rexmt | persist | keep | msl2
  deriving DecidableEq, Repr

/-- The retransmission timer went off: back off and retransmit one segment. -/
def timerRexmt (s : Sys) : Outcome Unit :=
  let shift := s.tp.tRxtshift + 1
  if tcpMaxrxtshift < shift then
    tcpDrop { s with tp := { s.tp with tRxtshift := tcpMaxrxtshift } } .dropped
      (some (s.tp.tSofterror.getD .etimedout)) id
  else if s.tp.tMaxseg = 0 then .stop (.panic .divide) s
  else
    let tp := s.tp
    let cur := tcptRangeset (tcpRexmtval tp * tcpBackoff shift) tp.tRttmin tcptvRexmtmax
    let losing := decide (tcpMaxrxtshift / 4 < shift)
    callOutput { s with tp := { tp with
      tRxtshift := shift
      tRxtcur := cur
      rexmt := cur
      tRttvar := if losing then int16 (tp.tRttvar + tp.tSrtt / 8) else tp.tRttvar
      tSrtt := if losing then 0 else tp.tSrtt
      sndNxt := tp.sndUna
      tRtt := 0
      sndCwnd := tp.tMaxseg
      sndSsthresh := u32 (halfWindow tp * tp.tMaxseg)
      tDupacks := 0 } }

/-- `tcp_output` with `t_force` set for the call. -/
def forceOutput (s : Sys) : Outcome Unit :=
  (tcpOutput { s with tp := { s.tp with tForce := true } }).bind fun _ (s : Sys) =>
    .ok () { s with tp := { s.tp with tForce := false } }

/-- The persist timer went off: force a byte to be output, if possible. -/
def timerPersist (s : Sys) : Outcome Unit :=
  match tcpSetpersist s.tp with
  | some tp => forceOutput { s with tp := tp }
  | none => .stop (.panic .tcpSetpersist) s

/-- The keep-alive timer went off: send something, or drop the connection if idle for too
long. -/
def timerKeep (s : Sys) : Outcome Unit :=
  if s.tp.tState.toNat < TcpState.established.toNat then
    tcpDrop s .dropped (some .etimedout) id
  else if s.so.soKeepalive ∧ s.tp.tState.toNat ≤ TcpState.closeWait.toNat then
    if tcpKeepidle + tcpMaxidle ≤ s.tp.tIdle then tcpDrop s .dropped (some .etimedout) id
    else
      let s := if s.w.mget then tcpRespond s s.tp.rcvNxt (s.tp.sndUna - 1) { ack := true } else s
      .ok () { s with tp := { s.tp with keep := tcpKeepintvl } }
  else .ok () { s with tp := { s.tp with keep := tcpKeepidle } }

def timerMsl2 (s : Sys) : Outcome Unit :=
  if s.tp.tState ≠ .timeWait ∧ s.tp.tIdle ≤ tcpMaxidle then
    .ok () { s with tp := { s.tp with msl2 := tcpKeepintvl } }
  else tcpClose .timeWait s

def tcpTimers (s : Sys) : TimerId → Outcome Unit
  | .rexmt => timerRexmt s
  | .persist => timerPersist s
  | .keep => timerKeep s
  | .msl2 => timerMsl2 s

def getTimer (tp : Tcpcb) : TimerId → Int
  | .rexmt => tp.rexmt
  | .persist => tp.persist
  | .keep => tp.keep
  | .msl2 => tp.msl2

def setTimer (tp : Tcpcb) (v : Int) : TimerId → Tcpcb
  | .rexmt => { tp with rexmt := v }
  | .persist => { tp with persist := v }
  | .keep => { tp with keep := v }
  | .msl2 => { tp with msl2 := v }

/-- `if (tp->t_timer[i] && --tp->t_timer[i] == 0)`. -/
def tickTimer (s : Sys) (t : TimerId) : Outcome Unit :=
  if getTimer s.tp t = 0 then .ok () s
  else
    let v := int16 (getTimer s.tp t - 1)
    let s := { s with tp := setTimer s.tp v t }
    if v = 0 then tcpTimers s t else .ok () s

/-- `tcp_slowtimo`, on this connection. -/
def tcpSlowtimo (s : Sys) : Outcome Unit :=
  (tickTimer s .rexmt).bind fun _ s => (tickTimer s .persist).bind fun _ s =>
    (tickTimer s .keep).bind fun _ s => (tickTimer s .msl2).bind fun _ (s : Sys) =>
      .ok () { s with tp := { s.tp with
        tIdle := int16 (s.tp.tIdle + 1)
        tRtt := if s.tp.tRtt ≠ 0 then int16 (s.tp.tRtt + 1) else 0 } }

/-- `tcp_fasttimo`: delayed ACKs. -/
def tcpFasttimo (s : Sys) : Outcome Unit :=
  if s.tp.tfDelack then
    callOutput { s with tp := { s.tp with tfDelack := false, tfAcknow := true } }
  else .ok () s

/-! ## Opening and closing -/

/-- The largest scale that is needed for the receive buffer, up to `TCP_MAX_WINSHIFT`. -/
def scaleLoop (hiwat : Nat) : Nat → Nat → Nat
  | 0, scale => scale
  | n + 1, scale =>
    if scale < 14 ∧ tcpMaxwin * 2 ^ scale < hiwat then scaleLoop hiwat n (scale + 1) else scale

/-- `PRU_CONNECT`. A new connection starts here, so the log does too. -/
def tcpConnect (s : Sys) : Outcome Unit :=
  if !s.w.pcbconnect || !(s.tp.tTemplate || s.w.template) then .ok () s
  else
    let tp := tcpSendseqinit { s.tp with
      tTemplate := true
      requestRScale := scaleLoop s.so.soRcv.sbHiwat 14 s.tp.requestRScale
      tState := .synSent
      keep := tcptvKeepInit
      iss := s.w.tcpIss }
    callOutput { s with tp := tp, so := soisconnecting s.so, log := {} }

/-- `tcp_usrclosed`; `none` when the control block is closed. -/
def tcpUsrclosed (s : Sys) : Outcome Unit :=
  let next (t : TcpState) : Sys := { s with
    tp := { s.tp with tState := t }
    so := if TcpState.finWait2.toNat ≤ t.toNat then soisdisconnected s.so else s.so }
  match s.tp.tState with
  | .closed | .listen | .synSent => tcpClose .user s
  | .synReceived | .established => .ok () (next .finWait1)
  | .closeWait => .ok () (next .lastAck)
  | t => .ok () (next t)

def tcpDisconnect (s : Sys) : Outcome Unit :=
  if s.tp.tState.toNat < TcpState.established.toNat then tcpClose .user s
  else if s.so.soLingerOn ∧ s.so.soLinger = 0 then tcpDrop s .user none id
  else
    let so := soisdisconnecting s.so
    match sbflush so.soRcv with
    | none => .stop (.panic .sbflush) s
    | some sb =>
      (tcpUsrclosed { s with so := { so with soRcv := sb } }).bind fun _ s => callOutput s

/-- `PRU_SHUTDOWN`. -/
def tcpShutdown (s : Sys) : Outcome Unit :=
  (tcpUsrclosed { s with so := socantsendmore s.so }).bind fun _ s => callOutput s

/-- `PRU_DETACH`, and what is left of `soclose`. -/
def tcpDetach (s : Sys) : Outcome Unit :=
  (if TcpState.listen.toNat < s.tp.tState.toNat then tcpDisconnect s
    else tcpClose .user s).bind fun _ (s : Sys) =>
      .ok () { s with so := { s.so with ssNofdref := true } }

/-! ## Sending and receiving -/

/-- The tests of `sosend` before `len` bytes are passed down: they fit in the buffer, with 1024
bytes more for urgent data. -/
def sosendOk (so : Socket) (len : Nat) (oob : Bool) : Bool :=
  !so.ssCantsendmore && so.soError.isNone && so.ssIsconnected &&
    decide (so.soSnd.sbCc + len ≤ so.soSnd.sbHiwat + if oob then 1024 else 0)

/-- `sbappend(&so->so_snd, m)`. -/
def appendSnd (s : Sys) (m : Mbuf) : Sys :=
  { s with
    so := { s.so with soSnd := sbappend s.so.soSnd [m] }
    log := { s.log with wrote := s.log.wrote ++ m.mData } }

/-- `PRU_SEND`. -/
def tcpSend (s : Sys) (m : Mbuf) : Outcome Unit := callOutput (appendSnd s m)

/-- `PRU_SENDOOB`. -/
def tcpSendoob (s : Sys) (m : Mbuf) : Outcome Unit :=
  if sbspace s.so.soSnd < -512 then .ok () s
  else
    let s := appendSnd s m
    forceOutput { s with tp := { s.tp with sndUp := s.tp.sndUna + BitVec.ofNat 32 s.so.soSnd.sbCc } }

/-- `soreceive` takes `n` bytes from the receive buffer; then `PRU_RCVD`. -/
def tcpRcvd (s : Sys) (n : Nat) : Outcome Unit :=
  if s.so.soRcv.sbMb = [] then .ok () s
  else
    match sbdrop s.so.soRcv (min n s.so.soRcv.sbCc : Nat) with
    | none => .stop (.panic .sbdropRcv) s
    | some sb =>
      let mark := s.so.soOobmark - n
      callOutput { s with so := { s.so with
        soRcv := sb
        soOobmark := mark
        ssRcvatmark := s.so.ssRcvatmark || (s.so.soOobmark != 0 && mark == 0) } }

/-- `PRU_RCVOOB`. -/
def tcpRcvoob (s : Sys) (peek : Bool) : Outcome Unit :=
  if (s.so.soOobmark = 0 ∧ !s.so.ssRcvatmark) ∨ s.so.soOobinline ∨ s.tp.oobHaddata ∨
      !s.tp.oobHavedata ∨ peek then .ok () s
  else .ok () { s with tp := { s.tp with oobHavedata := false, oobHaddata := true } }

/-! ## Options -/

inductive SockOpt where
  | sndbuf (n : Nat) | rcvbuf (n : Nat) | sndlowat (z : Int) | rcvlowat (z : Int)
  | keepalive (b : Bool) | oobinline (b : Bool) | linger (b : Bool) (l : Int)
  | nodelay (b : Bool) | maxseg (i : Int)
  deriving DecidableEq, Repr

/-- `sosetopt` and `tcp_ctloutput`; a refused value changes nothing. -/
def sosetopt (s : Sys) : SockOpt → Sys
  | .sndbuf n => { s with so := { s.so with soSnd := (sbreserve s.so.soSnd n).getD s.so.soSnd } }
  | .rcvbuf n => { s with so := { s.so with soRcv := (sbreserve s.so.soRcv n).getD s.so.soRcv } }
  | .sndlowat z => { s with so := { s.so with soSnd := { s.so.soSnd with sbLowat := z } } }
  | .rcvlowat z => { s with so := { s.so with soRcv := { s.so.soRcv with sbLowat := z } } }
  | .keepalive b => { s with so := { s.so with soKeepalive := b } }
  | .oobinline b => { s with so := { s.so with soOobinline := b } }
  | .linger b l => { s with so := { s.so with soLingerOn := b, soLinger := l } }
  | .nodelay b => { s with tp := { s.tp with tfNodelay := b } }
  | .maxseg i =>
    if 0 < i ∧ i ≤ s.tp.tMaxseg then { s with tp := { s.tp with tMaxseg := i.toNat } } else s

end Anp
