import Anp.Kern.Sockbuf
import Anp.Tcp.Fsm

/-!
# Var — the state of one connection

`netinet/tcp_var.h`, `sys/socketvar.h` and the allocation of both (`tcp_newtcpcb`,
`sonewconn`). One connection is a `tcpcb` and its `socket`; the code reaches the rest of the
machine only through `World`.
-/

namespace Anp

open Machine

/-- The error numbers the modelled code compares or stores. -/
inductive Errno where
  | enobufs | ehostunreach | enetunreach | ehostdown | enetdown | etimedout | econnreset
  | econnrefused | econnaborted | einval | other
  deriving DecidableEq, Repr

/-! ## Segments -/

/-- A segment on the reassembly queue, as `tcp_reass` links it: the header fields it reads
later and `REASS_MBUF`. -/
structure QSeg where
  tiSeq : Seq
  tiLen : Nat
  tiFin : Bool
  m : List Mbuf
  deriving DecidableEq, Repr

/-- A segment handed to `ip_output`: header fields in host order and the payload. -/
structure OutSeg where
  tiSeq : Seq
  tiAck : Seq
  tiFlags : Flags
  tiWin : Nat
  tiUrp : Nat
  data : List Byte
  deriving DecidableEq, Repr

/-! ## `struct tcpcb` -/

/-- The fields the modelled code reads or writes. -/
structure Tcpcb where
  segs : List QSeg := []
  tState : TcpState := .closed
  rexmt : Int := 0
  persist : Int := 0
  keep : Int := 0
  msl2 : Int := 0
  tRxtshift : Int := 0
  tRxtcur : Int := 12
  tDupacks : Int := 0
  tMaxseg : Nat := 512
  tForce : Bool := false
  tfAcknow : Bool := false
  tfDelack : Bool := false
  tfNodelay : Bool := false
  tfSentfin : Bool := false
  tfReqScale : Bool := true
  tfRcvdScale : Bool := false
  tfReqTstmp : Bool := true
  tfRcvdTstmp : Bool := false
  tTemplate : Bool := false
  sndUna : Seq := 0
  sndNxt : Seq := 0
  sndUp : Seq := 0
  sndWl1 : Seq := 0
  sndWl2 : Seq := 0
  iss : Seq := 0
  sndWnd : Nat := 0
  rcvWnd : Nat := 0
  rcvNxt : Seq := 0
  rcvUp : Seq := 0
  irs : Seq := 0
  rcvAdv : Seq := 0
  sndMax : Seq := 0
  sndCwnd : Nat := 65535 * 2 ^ 14
  sndSsthresh : Nat := 65535 * 2 ^ 14
  tIdle : Int := 0
  tRtt : Int := 0
  tRtseq : Seq := 0
  tSrtt : Int := 0
  tRttvar : Int := 24
  tRttmin : Nat := 2
  maxSndwnd : Nat := 0
  oobHavedata : Bool := false
  oobHaddata : Bool := false
  tIobc : Byte := 0
  tSofterror : Option Errno := none
  sndScale : Nat := 0
  rcvScale : Nat := 0
  requestRScale : Nat := 0
  requestedSScale : Nat := 0
  tsRecent : Nat := 0
  tsRecentAge : Nat := 0
  lastAckSent : Seq := 0
  deriving DecidableEq, Repr

/-- `tcp_newtcpcb`: the defaults above, with the RFC 1323 options as `tcp_do_rfc1323` says. -/
def tcpNewtcpcb (rfc1323 : Bool) : Tcpcb := { tfReqScale := rfc1323, tfReqTstmp := rfc1323 }

/-! ## `struct socket` -/

/-- The queue of a listening socket a socket is on. -/
inductive SoQueue where
  | none | q0 | q
  deriving DecidableEq, Repr

/-- Likewise for `struct socket`. -/
structure Socket where
  soSnd : Sockbuf := {}
  soRcv : Sockbuf := {}
  ssNofdref : Bool := false
  ssIsconnected : Bool := false
  ssIsconnecting : Bool := false
  ssIsdisconnecting : Bool := false
  ssCantsendmore : Bool := false
  ssCantrcvmore : Bool := false
  ssRcvatmark : Bool := false
  soAcceptconn : Bool := false
  soKeepalive : Bool := false
  soOobinline : Bool := false
  soLingerOn : Bool := false
  soLinger : Int := 0
  soError : Option Errno := none
  soOobmark : Nat := 0
  soQueue : SoQueue := .none
  deriving DecidableEq, Repr

def soisconnecting (so : Socket) : Socket :=
  { so with ssIsconnected := false, ssIsdisconnecting := false, ssIsconnecting := true }

/-- `soisconnected`: a socket on the queue of incomplete connections moves to the queue of
those ready to be accepted. -/
def soisconnected (so : Socket) : Socket :=
  { so with
    ssIsconnecting := false
    ssIsdisconnecting := false
    ssIsconnected := true
    soQueue := if so.soQueue = .q0 then .q else so.soQueue }

def soisdisconnecting (so : Socket) : Socket :=
  { so with
    ssIsconnecting := false
    ssIsdisconnecting := true
    ssCantrcvmore := true
    ssCantsendmore := true }

def soisdisconnected (so : Socket) : Socket :=
  { so with
    ssIsconnecting := false
    ssIsconnected := false
    ssIsdisconnecting := false
    ssCantrcvmore := true
    ssCantsendmore := true }

def socantsendmore (so : Socket) : Socket := { so with ssCantsendmore := true }

def socantrcvmore (so : Socket) : Socket := { so with ssCantrcvmore := true }

/-- `sorflush`: no more input, and the receive buffer is zeroed, its limits included. -/
def sorflush (so : Socket) : Socket := { socantrcvmore so with soRcv := {} }

/-! ## The world outside -/

/-- What `tcp_mss` reads of the route of the connection and its interface. -/
structure Route where
  rmxRtt : Nat := 0
  rtvRtt : Bool := false
  rmxRttvar : Nat := 0
  rmxMtu : Nat := 0
  rmxSendpipe : Nat := 0
  rmxRecvpipe : Nat := 0
  rmxSsthresh : Nat := 0
  ifMtu : Nat := 1500
  localaddr : Bool := true
  deriving DecidableEq, Repr

/-- The answers to one pass of `tcp_output`: whether `MGETHDR` finds an mbuf, how many more
mbufs `m_copy` finds, and what `ip_output` returns. -/
structure OutEnv where
  mgethdr : Bool := true
  mcopy : Nat := 1000
  ipError : Option Errno := none
  deriving DecidableEq, Repr

/-- The world during one operation: `tcp_now`, the route, whether `m_get`, `in_pcbconnect` and
`tcp_template` succeed, `tcp_iss`, and the answers to the passes of `tcp_output` in order. -/
structure World where
  now : Nat := 0
  route : Option Route := none
  mget : Bool := true
  pcbconnect : Bool := true
  template : Bool := true
  tcpIss : Seq := 1
  outs : List OutEnv := []
  deriving DecidableEq, Repr

/-- A segment `tcp_output` has sent, with `iss` and the count `acked` as they were. -/
structure Sent where
  iss : Seq
  acked : Nat
  seg : OutSeg
  deriving DecidableEq, Repr

/-- A segment `tcp_respond` has sent. -/
structure Resp where
  ack : Seq
  seq : Seq
  flags : Flags
  deriving DecidableEq, Repr

/-- The start of a pass of `tcp_output` (the label `again`): the state it finds and the
answers it will get. -/
structure Pass where
  tp : Tcpcb
  so : Socket
  idle : Bool
  env : OutEnv
  deriving DecidableEq, Repr

/-- What a connection has done: bytes the user wrote, sequence numbers acknowledged (our SYN is the
first), bytes appended to `so_rcv`, FINs consumed. The lists have the latest first; `passes` is
about the current operation. -/
structure Log where
  wrote : List Byte := []
  acked : Nat := 0
  sent : List Sent := []
  resp : List Resp := []
  got : List Byte := []
  fins : List Seq := []
  oob : List (Seq × Byte) := []
  passes : List Pass := []
  deriving DecidableEq, Repr

structure Sys where
  tp : Tcpcb := {}
  so : Socket := {}
  w : World := {}
  log : Log := {}
  deriving DecidableEq, Repr

/-! ## Outcomes -/

/-- The panics the modelled code can reach, by the routine that holds them. -/
inductive Panic where
  | sbdropSnd | sbflush | mCopydata | mCopym | tcpOutput | tcpSetpersist | tcpPulloutofband
  | sbdropRcv | divide
  deriving DecidableEq, Repr

/-- Why a control block was closed. -/
inductive Why where
  | finAcked | reset | dropped | user | reopened | timeWait | afterClose
  deriving DecidableEq, Repr

/-- Why an operation stops. `fault` is `m_copym` at a cluster. -/
inductive Stop where
  | closed (why : Why)
  | panic (p : Panic)
  | fault
  | hang
  deriving DecidableEq, Repr

/-- An operation returns, or stops: control block closed, panic, or a loop that is still running
when the world's answers are used up. -/
inductive Outcome (α : Type) where
  | ok (a : α) (s : Sys)
  | stop (why : Stop) (s : Sys)
  deriving DecidableEq, Repr

namespace Outcome

variable {α β : Type}

def bind (o : Outcome α) (f : α → Sys → Outcome β) : Outcome β :=
  match o with
  | .ok a s => f a s
  | .stop why s => .stop why s

/-- The state an operation leaves, also when it stops. -/
def st : Outcome α → Sys
  | .ok _ s => s
  | .stop _ s => s

@[simp] theorem bind_ok (a : α) (s : Sys) (f : α → Sys → Outcome β) : (ok a s).bind f = f a s :=
  rfl

@[simp] theorem st_ok (a : α) (s : Sys) : (ok a s).st = s := rfl

end Outcome

end Anp
