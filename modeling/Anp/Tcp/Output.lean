import Anp.Tcp.Timer

/-!
# Output — `tcp_output`

`netinet/tcp_output.c`. One trip from the label `again` to a `return` or to the `goto again` at
the end is a *pass*; `tcp_output` is passes until one returns.
-/

namespace Anp

open Cyclic Machine

/-- `sizeof (struct tcpiphdr)`. -/
def tcpiphdrLen : Nat := 40

def tcpMaxwin : Nat := 65535

/-- The local variables of `tcp_output`. `win` is the send window first (`min` makes it unsigned)
and becomes `sbspace(&so->so_rcv)` later. -/
structure OutVars where
  tp : Tcpcb
  off : Int
  win : Nat
  len : Int
  flags : Flags
  sendalot : Bool
  deriving DecidableEq, Repr

/-! ## What to send -/

def outStart (tp : Tcpcb) : OutVars :=
  { tp := tp
    off := gap tp.sndNxt tp.sndUna
    win := min tp.sndWnd tp.sndCwnd
    len := 0
    flags := tcpOutflags tp.tState
    sendalot := false }

/-- In a persist timeout: one byte into a closed window, with no FIN while data is left;
into an open one, back to the transmit state. -/
def outForce (cc : Nat) (v : OutVars) : OutVars :=
  if v.tp.tForce then
    if v.win = 0 then
      { v with
        flags := { v.flags with fin := v.flags.fin && !decide (u32 v.off < cc) }
        win := 1 }
    else { v with tp := { v.tp with persist := 0, tRxtshift := 0 } }
  else v

/-- `len = min(so->so_snd.sb_cc, win) - off`. Where it is negative, a window that shrank to nothing
pulls `snd_nxt` back and stops the retransmit timer. -/
def outLen (cc : Nat) (v : OutVars) : OutVars :=
  let len := int32 ((min cc v.win : Nat) - v.off)
  if len < 0 then
    if v.win = 0 then
      { v with len := 0, tp := { v.tp with rexmt := 0, sndNxt := v.tp.sndUna } }
    else { v with len := 0 }
  else { v with len := len }

/-- The length is cut to a segment. -/
def outCap (v : OutVars) : OutVars :=
  if (v.tp.tMaxseg : Int) < v.len then { v with len := v.tp.tMaxseg, sendalot := true } else v

/-- No FIN before the last byte. -/
def outFin (cc : Nat) (v : OutVars) : OutVars :=
  if seqLT (adv v.tp.sndNxt v.len) (adv v.tp.sndUna cc) then
    { v with flags := { v.flags with fin := false } }
  else v

def outDecide (tp : Tcpcb) (so : Socket) : OutVars :=
  let cc := so.soSnd.sbCc
  outFin cc (outCap (outLen cc (outForce cc (outStart tp))))

/-- The tests that lead to the label `send`. -/
def outWants (so : Socket) (idle : Bool) (v : OutVars) : Bool :=
  let tp := v.tp
  let win := sbspace so.soRcv
  let adv := int32 ((min (u32 win) (tcpMaxwin * 2 ^ tp.rcvScale) : Nat) -
    ((tp.rcvAdv - tp.rcvNxt).toNat : Int))
  (v.len ≠ 0 && (v.len = tp.tMaxseg ||
      ((idle || tp.tfNodelay) && decide (so.soSnd.sbCc ≤ u32 (v.len + v.off))) ||
      tp.tForce || decide (tp.maxSndwnd / 2 ≤ u32 v.len) || seqLT tp.sndNxt tp.sndMax)) ||
  (0 < win && (decide (2 * tp.tMaxseg ≤ adv) || decide (int32 so.soRcv.sbHiwat ≤ int32 (2 * adv)))) ||
  tp.tfAcknow || v.flags.syn || v.flags.rst || seqGT tp.sndUp tp.sndUna ||
  (v.flags.fin && (!tp.tfSentfin || tp.sndNxt == tp.sndUna))

/-- No reason to send: enter the persist state if data waits and no timer runs. -/
def outQuiet (s : Sys) : Outcome (Option Errno) :=
  if s.so.soSnd.sbCc ≠ 0 ∧ s.tp.rexmt = 0 ∧ s.tp.persist = 0 then
    match tcpSetpersist { s.tp with tRxtshift := 0 } with
    | some tp => .ok none { s with tp := tp }
    | none => .stop (.panic .tcpSetpersist) s
  else .ok none s

/-! ## Building the segment -/

/-- A SYN is sent at `iss`, with the options a SYN carries; then the timestamp option. Returns
the length of the options. -/
def outOptions (s : Sys) (flags : Flags) : Option (Nat × Sys) :=
  let r : Option (Nat × Sys) :=
    if flags.syn then
      (tcpMss { s with tp := { s.tp with sndNxt := s.tp.iss } } 0).map fun r =>
        (4 + if s.tp.tfReqScale && (!flags.ack || s.tp.tfRcvdScale) then 4 else 0, r.2)
    else some (0, s)
  r.map fun (optlen, s) =>
    (optlen + if s.tp.tfReqTstmp && !flags.rst && ((flags.syn && !flags.ack) || s.tp.tfRcvdTstmp)
      then 12 else 0, s)

/-- The data length when options would push the segment over `t_maxseg`; the comparison is
unsigned. -/
def outClamp (maxseg optlen : Nat) (len : Int) (sendalot : Bool) : Int × Bool :=
  let room := u32 ((maxseg : Int) - optlen)
  if room < u32 len then (int32 room, true) else (len, sendalot)

/-- What copying the data can do: panic, fault, or the bytes. An `m_copy` that finds no mbuf leaves
no data. -/
inductive OutCopy where
  | panic (p : Panic)
  | fault
  | data (bytes : List Byte)
  deriving DecidableEq, Repr

def outCopy (so : Socket) (env : OutEnv) (hdrlen : Nat) (off len : Int) : OutCopy :=
  let mb := so.soSnd.sbMb.headD []
  if len = 0 then .data []
  else if u32 len ≤ mhlen - hdrlen - maxLinkhdr then
    match mCopydata mb off len with
    | some bytes => .data bytes
    | none => .panic .mCopydata
  else
    match mCopym mb off len env.mcopy with
    | .ok n => .data (chainBytes n)
    | .nospace => .data []
    | .fault => .fault
    | .panic => .panic .mCopym

/-- If resending a FIN, be sure not to use a new sequence number. -/
def outResendFin (tp : Tcpcb) (flags : Flags) : Tcpcb :=
  if flags.fin && tp.tfSentfin && tp.sndNxt == tp.sndMax then { tp with sndNxt := tp.sndNxt - 1 }
  else tp

/-- The sequence number of the segment: that of the next unsent octet for a bare ACK. -/
def outSeq (tp : Tcpcb) (flags : Flags) (len : Nat) : Seq :=
  if len ≠ 0 ∨ flags.syn ∨ flags.fin ∨ tp.persist ≠ 0 then tp.sndNxt else tp.sndMax

/-- The window to announce: not silly, not over the limit, not shrinking. `win` is the space before
`tcp_mss` may have resized the buffer. -/
def outWin (win : Int) (tp : Tcpcb) (so : Socket) : Int :=
  let win :=
    if win < (u32 so.soRcv.sbHiwat / 4 : Nat) ∧ win < tp.tMaxseg then 0 else win
  let lim : Int := tcpMaxwin * 2 ^ tp.rcvScale
  let win := if lim < win then lim else win
  if win < gap tp.rcvAdv tp.rcvNxt then gap tp.rcvAdv tp.rcvNxt else win

/-- New sequence numbers move `snd_max`, and are timed if nothing is being timed. -/
def outMeasure (tp : Tcpcb) (startseq : Seq) : Tcpcb :=
  if seqGT tp.sndNxt tp.sndMax then
    { tp with
      sndMax := tp.sndNxt
      tRtt := if tp.tRtt = 0 then 1 else tp.tRtt
      tRtseq := if tp.tRtt = 0 then startseq else tp.tRtseq }
  else tp

/-- Set the retransmit timer if it is not set and something is outstanding. -/
def outArm (tp : Tcpcb) : Tcpcb :=
  if tp.rexmt = 0 ∧ tp.sndNxt ≠ tp.sndUna then
    { tp with
      rexmt := tp.tRxtcur
      persist := 0
      tRxtshift := if tp.persist ≠ 0 then 0 else tp.tRxtshift }
  else tp

/-- In transmit state, advance `snd_nxt` over the segment, time it and arrange for the
retransmit. In persist state, just set `snd_max`. -/
def outAdvance (tp : Tcpcb) (flags : Flags) (len : Nat) : Tcpcb :=
  if !tp.tForce || tp.persist == 0 then
    let nxt := tp.sndNxt + (if flags.syn then 1 else 0) + (if flags.fin then 1 else 0) +
      BitVec.ofNat 32 len
    outArm (outMeasure { tp with tfSentfin := tp.tfSentfin || flags.fin, sndNxt := nxt } tp.sndNxt)
  else
    let nxt := tp.sndNxt + BitVec.ofNat 32 len
    if seqGT nxt tp.sndMax then { tp with sndMax := nxt } else tp

inductive PassRes where
  | done (err : Option Errno)
  | again
  deriving DecidableEq, Repr

def tcpQuench (tp : Tcpcb) : Tcpcb := { tp with sndCwnd := tp.tMaxseg }

/-- The label `out` and the end of `tcp_output`: how an error of `ip_output` (or of `MGETHDR`)
is reported. -/
def outError (s : Sys) (e : Errno) : Outcome PassRes :=
  if e = .enobufs then .ok (.done none) { s with tp := tcpQuench s.tp }
  else if (e = .ehostunreach ∨ e = .enetdown) ∧ haveRcvdSyn s.tp.tState then
    .ok (.done none) { s with tp := { s.tp with tSofterror := some e } }
  else .ok (.done (some e)) s

/-- Any pending ACK has now been sent. -/
def outAcked (tp : Tcpcb) (win : Int) : Tcpcb :=
  { tp with
    rcvAdv :=
      if 0 < win ∧ seqGT (adv tp.rcvNxt win) tp.rcvAdv then adv tp.rcvNxt win else tp.rcvAdv
    lastAckSent := tp.rcvNxt
    tfAcknow := false
    tfDelack := false }

/-- The header of the segment, which announces `win`. -/
def outHeader (tp : Tcpcb) (win : Int) (flags : Flags) (data : List Byte) : OutSeg :=
  let urg := seqGT tp.sndUp tp.sndNxt
  { tiSeq := outSeq tp flags data.length
    tiAck := tp.rcvNxt
    tiFlags := { flags with urg := urg }
    tiWin := u16 (win / 2 ^ tp.rcvScale)
    tiUrp := if urg then (tp.sndUp - tp.sndNxt).toNat % 65536 else 0
    data := data }

/-- If no urgent pointer to send, pull it to the left edge of the send window so that it doesn't
drift into the window on wraparound. -/
def outPullUp (tp : Tcpcb) : Tcpcb :=
  if seqGT tp.sndUp tp.sndNxt then tp else { tp with sndUp := tp.sndUna }

/-- From the template to `ip_output`: the segment, and the connection once it is on its way. -/
def outEmit (s : Sys) (win : Int) (flags : Flags) (data : List Byte) : Sys :=
  let tp := outResendFin s.tp flags
  { s with
    tp := outAdvance (outPullUp tp) flags data.length
    log := { s.log with
      sent := ⟨tp.iss, s.log.acked, outHeader tp win flags data⟩ :: s.log.sent } }

/-- `send:`, to the call of `ip_output`. -/
def outSend (s : Sys) (v : OutVars) (env : OutEnv) : Outcome PassRes :=
  let space := sbspace s.so.soRcv
  match outOptions { s with tp := v.tp } v.flags with
  | none => .stop (.panic .divide) s
  | some (optlen, s) =>
    let r := outClamp s.tp.tMaxseg optlen v.len v.sendalot
    if !env.mgethdr then outError s .enobufs
    else
      match outCopy s.so env (tcpiphdrLen + optlen) v.off r.1 with
      | .panic p => .stop (.panic p) s
      | .fault => .stop .fault s
      | .data data =>
        if !s.tp.tTemplate then .stop (.panic .tcpOutput) s
        else
          let push := r.1 ≠ 0 && decide (u32 (v.off + data.length) = s.so.soSnd.sbCc)
          let win := outWin space s.tp s.so
          let s' := outEmit s win { v.flags with push := push } data
          match env.ipError with
          | some e => outError s' e
          | none =>
            let s' := { s' with tp := outAcked s'.tp win }
            .ok (if r.2 then .again else .done none) s'

/-! ## The loop -/

/-- One pass. -/
def outPass (s : Sys) (idle : Bool) (env : OutEnv) : Outcome PassRes :=
  let v := outDecide s.tp s.so
  if outWants s.so idle v then outSend s v env
  else (outQuiet { s with tp := v.tp }).bind fun e s => .ok (.done e) s

/-- The passes, one for each answer of the world that is left. -/
def outLoop (idle : Bool) : List OutEnv → Sys → Outcome (Option Errno)
  | [], s => .stop .hang s
  | env :: outs, s =>
    let s := { s with
      w := { s.w with outs := outs }
      log := { s.log with passes := ⟨s.tp, s.so, idle, env⟩ :: s.log.passes } }
    (outPass s idle env).bind fun r s =>
      match r with
      | .done e => .ok e s
      | .again => outLoop idle outs s

/-- Passes until one returns. -/
def tcpOutput (s : Sys) : Outcome (Option Errno) :=
  let idle := s.tp.sndMax == s.tp.sndUna
  let s :=
    -- idle for a while: slow start to get the ack clock running again
    if idle && decide (s.tp.tRxtcur ≤ s.tp.tIdle) then
      { s with tp := { s.tp with sndCwnd := s.tp.tMaxseg } }
    else s
  outLoop idle s.w.outs s

end Anp
