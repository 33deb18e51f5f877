import Anp.Tcp.Output

/-!
# Subr — closing a connection, answering a segment

`tcp_close`, `tcp_drop`, `tcp_respond`, `tcp_notify` of `netinet/tcp_subr.c`. What `tcp_close`
saves in the routing entry is not part of the connection and is left out.
-/

namespace Anp

/-- `tcp_close`: the control block is gone; `why` records who closed it. -/
def tcpClose {α : Type} (why : Why) (s : Sys) : Outcome α := .stop (.closed why)
    { s with tp := { s.tp with segs := [] }, so := soisdisconnected s.so }

/-- `tcp_drop(tp, errno)`: a synchronized connection first sends a RST. `after` is what the caller
does once the control block is gone. -/
def tcpDrop {α : Type} (s : Sys) (why : Why) (errno : Option Errno) (after : Sys → Sys) :
    Outcome α :=
  let o : Outcome (Option Errno) :=
    if haveRcvdSyn s.tp.tState then tcpOutput { s with tp := { s.tp with tState := .closed } }
    else .ok none s
  o.bind fun _ s =>
    let errno :=
      if errno = some .etimedout ∧ s.tp.tSofterror ≠ none then s.tp.tSofterror else errno
    tcpClose why (after { s with so := { s.so with soError := errno } })

/-- `tcp_respond`: a segment that does not go through `tcp_output`. -/
def tcpRespond (s : Sys) (ack seq : Seq) (flags : Flags) : Sys :=
  { s with log := { s.log with resp := ⟨ack, seq, flags⟩ :: s.log.resp } }

/-- `tcp_notify(inp, error)`: an asynchronous error, from an ICMP message. -/
def tcpNotify (s : Sys) (error : Errno) : Sys :=
  if s.tp.tState = .established ∧
      (error = .ehostunreach ∨ error = .enetunreach ∨ error = .ehostdown) then s
  else if s.tp.tState.toNat < TcpState.established.toNat ∧ 3 < s.tp.tRxtshift ∧
      s.tp.tSofterror ≠ none then
    { s with so := { s.so with soError := some error } }
  else { s with tp := { s.tp with tSofterror := some error } }

end Anp
