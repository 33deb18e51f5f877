import Anp.Lib.Links
import Anp.Kern.SbLock

/-!
# SoQueue — sockets waiting to be accepted

`soqinsque`, `soqremque`, `sonewconn1`, `soisconnected` of `kern/uipc_socket2.c`, `solisten`,
`sofree`, `soclose`, `soabort`, `soaccept` of `kern/uipc_socket.c`, the queue part of `accept` of
`kern/uipc_syscalls.c`, and what TCP does to the sockets it is attached to.

A socket that listens heads two lists, the incomplete connections (`so_q0`) and the complete ones
(`so_q`). The lists are threaded through the fields that head them, so the same field is a list
head in the listener and a link in a child.

`none` is a panic, an access to freed memory or a loop that does not end. A loop over links gets one
step more than there are addresses (`top`); one that needs more goes round a cycle.
-/

namespace Anp

open Links

/-- `struct socket`, as far as connection queues go: flags of `so_state`, `SO_ACCEPTCONN`, and
`soPcb`, whether a protocol control block is attached. -/
structure Sock where
  acceptconn : Bool := false
  nofdref : Bool := false
  nbio : Bool := false
  isconnected : Bool := false
  cantrcvmore : Bool := false
  soError : Nat := 0
  soPcb : Bool := false
  soHead : Option Nat := none
  soQ0 : Option Nat := none
  soQ : Option Nat := none
  soQ0len : Int := 0
  soQlen : Int := 0
  soQlimit : Int := 0
  deriving DecidableEq, Repr

/-- The link of the queue `q` (`so_q` if true, `so_q0` if not). -/
def Sock.link (s : Sock) (q : Bool) : Option Nat := if q then s.soQ else s.soQ0

def Sock.setLink (s : Sock) (q : Bool) (p : Option Nat) : Sock :=
  if q then { s with soQ := p } else { s with soQ0 := p }

/-- `so_qlen` or `so_q0len`. -/
def Sock.len (s : Sock) (q : Bool) : Int := if q then s.soQlen else s.soQ0len

def Sock.addLen (s : Sock) (q : Bool) (n : Int) : Sock :=
  if q then { s with soQlen := s.soQlen + n } else { s with soQ0len := s.soQ0len + n }

def Sock.setHead (s : Sock) (p : Option Nat) : Sock := { s with soHead := p }

/-- `next->so_q0 = next->so_q = 0; next->so_head = 0`. -/
def Sock.unqueue (s : Sock) : Sock := { s with soQ0 := none, soQ := none, soHead := none }

/-- `soisdisconnected`, and the control block detached. -/
def Sock.closed (s : Sock) : Sock :=
  { s with isconnected := false, cantrcvmore := true, soPcb := false }

/-- The new socket of `sonewconn1`, from the one that listens. -/
def Sock.child (h : Sock) : Sock :=
  { nofdref := true, nbio := h.nbio, isconnected := h.isconnected, cantrcvmore := h.cantrcvmore }

/-- It has a control block; `connstatus` goes into `so_state`. -/
def Sock.attached (s : Sock) (connstatus : Bool) : Sock :=
  { s with soPcb := true, isconnected := s.isconnected || connstatus }

/-- The sockets in memory by address; all addresses are below `top`. -/
structure SoHeap where
  get : Nat → Option Sock := fun _ => none
  top : Nat := 0

def SoHeap.set (m : SoHeap) (a : Nat) (s : Sock) : SoHeap :=
  { m with get := fun x => if x = a then some s else m.get x }

def SoHeap.free (m : SoHeap) (a : Nat) : SoHeap :=
  { m with get := fun x => if x = a then none else m.get x }

def SoHeap.alloc (m : SoHeap) (a : Nat) (s : Sock) : SoHeap :=
  { get := (m.set a s).get, top := max m.top (a + 1) }

def SoHeap.link (m : SoHeap) (q : Bool) (a : Nat) : Option (Option Nat) := (m.get a).map (·.link q)

def SoHeap.upd (m : SoHeap) (a : Nat) (f : Sock → Sock) : Option SoHeap :=
  (m.get a).map fun s => m.set a (f s)

def einval : Nat := 22

def econnaborted : Nat := 53

/-- What `accept` comes to: an error, a sleep, or a connection that is no longer queued. -/
inductive AcceptRet where
  | error (e : Nat)
  | sleep
  | conn (so : Nat)
  deriving DecidableEq, Repr

def somaxconn : Int := 5

/-- The `so_qlimit` that `solisten` sets. -/
def backlogLimit (backlog : Int) : Int := min (max backlog 0) somaxconn

namespace SoHeap

/-! ## The list operations -/

/-- Puts `so` at the end of a list of `head`. -/
def soqinsque (m : SoHeap) (head so : Nat) (q : Bool) : Option SoHeap := do
  let m ← m.upd so (·.setHead (some head))
  let m ← m.upd head (·.addLen q 1)
  let m ← m.upd so (·.setLink q none)
  let last ← lastOf (m.link q) (m.top + 1) head
  m.upd last (·.setLink q (some so))

/-- `soqremque`; the result is whether `so` was found. -/
def soqremque (m : SoHeap) (so : Nat) (q : Bool) : Option (SoHeap × Bool) := do
  let s ← m.get so
  let head ← s.soHead
  match ← prevOf (m.link q) so (m.top + 1) head with
  | none => some (m, false)
  | some prev => do
    let m ← m.upd prev (·.setLink q (s.link q))
    let m ← m.upd head (·.addLen q (-1))
    let m ← m.upd so (·.unqueue)
    some (m, true)

/-! ## The life of a socket -/

def sofree (m : SoHeap) (so : Nat) : Option SoHeap := do
  let s ← m.get so
  if s.soPcb || !s.nofdref then some m
  else
    match s.soHead with
    | none => some (m.free so)
    | some _ => do
      let (m, found) ← soqremque m so false
      if found then some (m.free so)
      else
        let (m, found) ← soqremque m so true
        -- `panic("sofree dq")`
        if found then some (m.free so) else none

/-- `tcp_close` on the connection of `so`: `soisdisconnected` and `in_pcbdetach`, which ends in
`sofree`. -/
def tcpClose (m : SoHeap) (so : Nat) : Option SoHeap := do
  let m ← m.upd so (·.closed)
  sofree m so

/-- `tcp_disconnect`. Below `TCPS_ESTABLISHED` the connection is closed at once; else `stays` says
whether it goes on until the peer has answered. -/
def tcpDisconnect (m : SoHeap) (so : Nat) (stays : Bool) : Option SoHeap := do
  let s ← m.get so
  if stays && !s.acceptconn then some (m.set so { s with cantrcvmore := true })
  else tcpClose m so

/-- `soabort`: `tcp_usrreq` with `PRU_ABORT`. Without a control block it is `EINVAL`, and nothing is
done. -/
def soabort (m : SoHeap) (so : Nat) : Option SoHeap := do
  let s ← m.get so
  if s.soPcb then tcpClose m so else some m

/-- `while (so->so_q0) (void) soabort(so->so_q0)`, and the same for `so_q`. -/
def soDrainQ (q : Bool) (so : Nat) : Nat → SoHeap → Option SoHeap
  | 0, _ => none
  | n + 1, m => do
    let s ← m.get so
    match s.link q with
    | none => some m
    | some c => do
      let m ← soabort m c
      soDrainQ q so n m

/-- The two loops of `soclose`. -/
def soDrain (m : SoHeap) (so : Nat) : Option SoHeap := do
  let m ← soDrainQ false so (m.top + 1) m
  soDrainQ true so (m.top + 1) m

def closeDrain (m : SoHeap) (so : Nat) : Option SoHeap := do
  let s ← m.get so
  if s.acceptconn then soDrain m so else some m

/-- `sodisconnect` of a connected socket. -/
def closeDisconnect (m : SoHeap) (so : Nat) (disc : Bool) : Option SoHeap := do
  let s ← m.get so
  if s.soPcb && s.isconnected then tcpDisconnect m so disc else some m

/-- `PRU_DETACH`, the label `drop`. -/
def closeDetach (m : SoHeap) (so : Nat) (det : Bool) : Option SoHeap := do
  let s ← m.get so
  if s.soPcb then tcpDisconnect m so det else some m

/-- The label `discard`; a socket without a descriptor is `panic("soclose: NOFDREF")`. -/
def closeDiscard (m : SoHeap) (so : Nat) : Option SoHeap := do
  let s ← m.get so
  if s.nofdref then none else sofree (m.set so { s with nofdref := true }) so

/-- `soclose` up to the loop that lingers: the result is whether it sleeps. `disc` is what
`tcp_disconnect` decides, `linger` that `SO_LINGER` is set and the call may wait. -/
def closeStart (m : SoHeap) (so : Nat) (disc linger : Bool) : Option (SoHeap × Bool) := do
  let m ← closeDrain m so
  let m ← closeDisconnect m so disc
  let s ← m.get so
  some (m, linger && s.soPcb && s.isconnected)

/-- `soclose` from the label `drop` on; `det` is what `tcp_disconnect` decides. -/
def closeEnd (m : SoHeap) (so : Nat) (det : Bool) : Option SoHeap := do
  let m ← closeDetach m so det
  closeDiscard m so

/-- `solisten`, after `PRU_LISTEN` was accepted. -/
def solisten (m : SoHeap) (so : Nat) (backlog : Int) : Option SoHeap := m.upd so fun s =>
    { s with
      acceptconn := s.acceptconn || s.soQ.isNone
      soQlimit := backlogLimit backlog }

/-- `socreate`, once `PRU_ATTACH` has succeeded. -/
def socreate (m : SoHeap) (new : Nat) : SoHeap := m.alloc new { soPcb := true }

/-- `sonewconn1`: `new` is what `MALLOC` returns, `attach` whether `PRU_ATTACH` succeeds. The
result is the new socket, if there is one. -/
def sonewconn1 (m : SoHeap) (head : Nat) (connstatus : Bool) (new : Option Nat) (attach : Bool) :
    Option (SoHeap × Option Nat) := do
  let h ← m.get head
  if h.soQlen + h.soQ0len > (3 * h.soQlimit).tdiv 2 then some (m, none)
  else
    match new with
    | none => some (m, none)
    | some so => do
      let m ← soqinsque (m.alloc so h.child) head so connstatus
      if attach then do
        let m ← m.upd so (·.attached connstatus)
        some (m, some so)
      else do
        let (m, _) ← soqremque m so connstatus
        some (m.free so, none)

def soisconnected (m : SoHeap) (so : Nat) : Option SoHeap := do
  let m ← m.upd so fun s => { s with isconnected := true }
  let s ← m.get so
  match s.soHead with
  | none => some m
  | some head => do
    let (m, found) ← soqremque m so false
    if found then soqinsque m head so true else some m

/-- What `accept` does to the queue of `so` once it does not wait: the first complete connection is
dequeued (else `panic("accept")`) and gets its descriptor reference. -/
def acceptConn (m : SoHeap) (so : Nat) : Option (SoHeap × Nat) := do
  let s ← m.get so
  let aso ← s.soQ
  let (m, found) ← soqremque m aso true
  if found then do
    let a ← m.get aso
    -- `panic("soaccept: !NOFDREF")`
    if a.nofdref then some (m.set aso { a with nofdref := false }, aso) else none
  else none

/-- The complete connections of `so`, in the order of `so_q`. -/
def complete (m : SoHeap) (so : Nat) : List Nat :=
  nodes (m.link true) (m.top + 1) ((m.link true so).join)

/-- `accept` up to where the connection is dequeued and has its reference; the loop around `tsleep`
is left when it would sleep. -/
def accept (m : SoHeap) (so : Nat) : Option (SoHeap × AcceptRet) := do
  let s ← m.get so
  if !s.acceptconn then some (m, .error einval)
  else if s.nbio && s.soQlen == 0 then some (m, .error ewouldblock)
  else if s.soQlen = 0 ∧ s.soError = 0 then
    -- `so_error` is set to `ECONNABORTED`, returned and cleared
    if s.cantrcvmore then some (m, .error econnaborted) else some (m, .sleep)
  else if s.soError ≠ 0 then some (m.set so { s with soError := 0 }, .error s.soError)
  else (m.acceptConn so).map fun r => (r.1, .conn r.2)

end SoHeap

end Anp
