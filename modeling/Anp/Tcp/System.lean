import Anp.Lib.Runs
import Anp.Tcp.Usrreq

/-!
# System — runs of one connection

The operations that can reach a connection, one at a time: a segment from the network, the two
timeouts, an ICMP error, the requests of the user who holds the socket. `step` is one of them
carried out in a given `World`.

A user of a socket has a descriptor for it (`SS_NOFDREF` is clear): the socket of an incoming
connection has none until it is accepted. Requests on one socket do not overlap.
-/

namespace Anp

open Runs

/-- The operations. -/
inductive Op where
  | input (seg : Segment)
  | fasttimo
  | slowtimo
  | notify (e : Errno)
  | quench
  | abort
  | accept
  | connect
  | listen
  | send (m : Mbuf) (oob : Bool)
  | rcvd (n : Nat)
  | rcvoob (peek : Bool)
  | shutdown (rd wr : Bool)
  | disconnect
  | detach
  | sockopt (o : SockOpt)

/-- `soconnect` lets a request through to the protocol. -/
def soconnectOk (so : Socket) : Bool := !so.soAcceptconn && !(so.ssIsconnected || so.ssIsconnecting)

/-- `sodisconnect` lets a request through to the protocol. -/
def sodisconnectOk (so : Socket) : Bool := so.ssIsconnected && !so.ssIsdisconnecting

def soshutdown (s : Sys) (rd wr : Bool) : Outcome Unit :=
  let s := if rd then { s with so := sorflush s.so } else s
  if wr then tcpShutdown s else .ok () s

/-- A request of the user. -/
def userStep (s : Sys) : Op → Outcome Unit
  | .connect => if soconnectOk s.so then tcpConnect s else .ok () s
  | .listen =>
    .ok () { s with
      tp := { s.tp with tState := .listen }
      so := { s.so with soAcceptconn := true } }
  | .send m oob =>
    if sosendOk s.so m.mLen oob then (if oob then tcpSendoob s m else tcpSend s m) else .ok () s
  | .rcvd n => tcpRcvd s n
  | .rcvoob peek => tcpRcvoob s peek
  | .shutdown rd wr => soshutdown s rd wr
  | .disconnect => if sodisconnectOk s.so then tcpDisconnect s else .ok () s
  | .detach => tcpDetach s
  | .sockopt o => .ok () (sosetopt s o)
  | _ => .ok () s

def stepOp (s : Sys) : Op → Outcome Unit
  | .input seg => tcpInput s seg
  | .fasttimo => tcpFasttimo s
  | .slowtimo => tcpSlowtimo s
  | .notify e => .ok () (tcpNotify s e)
  | .quench => .ok () { s with tp := tcpQuench s.tp }
  | .abort =>
    -- `soclose` of the listening socket aborts the connections on its queues
    if s.so.soQueue = .none then .ok () s else tcpDrop s .dropped (some .econnaborted) id
  | .accept =>
    if s.so.soQueue = .q then
      .ok () { s with so := { s.so with soQueue := .none, ssNofdref := false } }
    else .ok () s
  | op => if s.so.ssNofdref then .ok () s else userStep s op

/-- The state an operation starts from: the world as it is now, no pass of `tcp_output` made. -/
def enter (s : Sys) (w : World) : Sys := { s with w := w, log := { s.log with passes := [] } }

/-- One operation, carried out in a given `World`. -/
def step (s : Sys) (op : Op) (w : World) : Outcome Unit := stepOp (enter s w) op

/-! ## Initial states -/

/-- `soreserve` on the empty buffers of a new socket. -/
def soreserve (so : Socket) (sndcc rcvcc : Nat) : Option Socket :=
  (sbreserve so.soSnd sndcc).bind fun snd =>
    (sbreserve so.soRcv rcvcc).map fun rcv =>
      let snd := if snd.sbLowat = 0 then { snd with sbLowat := mclbytes } else snd
      { so with
        soRcv := if rcv.sbLowat = 0 then { rcv with sbLowat := 1 } else rcv
        soSnd := if (snd.sbHiwat : Int) < snd.sbLowat then { snd with sbLowat := snd.sbHiwat }
          else snd }

/-- `socreate` for a TCP socket: `tcp_attach` reserves `tcp_sendspace` and `tcp_recvspace`. -/
def socreate (rfc1323 : Bool) : Sys :=
  { tp := tcpNewtcpcb rfc1323, so := (soreserve {} 8192 8192).getD {} }

/-- `sonewconn` for a segment that arrives at the listening socket `head`. The new socket has the
options and the state of `head` and no descriptor; its control block is put in LISTEN. -/
def sonewconn (head : Socket) (rfc1323 : Bool) : Sys :=
  let so : Socket := { head with
    soSnd := {}
    soRcv := {}
    soAcceptconn := false
    ssNofdref := true
    soQueue := .q0
    soError := none
    soOobmark := 0 }
  let so := (soreserve so head.soSnd.sbHiwat head.soRcv.sbHiwat).getD so
  let so :=
    if so.soSnd.sbHiwat = 0 ∨ so.soRcv.sbHiwat = 0 then (soreserve so 8192 8192).getD so else so
  { tp := { tcpNewtcpcb rfc1323 with
      tState := .listen
      requestRScale := scaleLoop so.soRcv.sbHiwat 14 0 }
    so := so }

/-- A socket as `socreate` or `sonewconn` makes it. -/
inductive Init : Outcome Unit → Prop where
  | active (rfc1323 : Bool) : Init (.ok () (socreate rfc1323))
  | passive (head : Socket) (rfc1323 : Bool) : Init (.ok () (sonewconn head rfc1323))

/-! ## Runs -/

/-- A condition on a step: the state before it, the operation, and the world. -/
abbrev Cond := Sys → Op → World → Prop

/-- A step that meets a condition on the state before it and the operation. -/
inductive Next (C : Cond) : Outcome Unit → Outcome Unit → Prop where
  | mk {s : Sys} {op : Op} {w : World} (h : C s op w) : Next C (.ok () s) (step s op w)

/-- Runs of such steps. -/
def Reachable (C : Cond) : Outcome Unit → Prop := Reach Init (Next C)

variable {o : Outcome Unit}

/-- **Invariant rule for runs.** -/
theorem Reachable.invariant {C : Cond} {I : Outcome Unit → Prop} (hinit : ∀ o, Init o → I o)
    (hstep : ∀ s op w, I (.ok () s) → C s op w → I (step s op w))
    (h : Reachable C o) : I o := by
  refine Reach.invariant hinit ?_ h
  intro o o' hI hn
  cases hn with
  | mk hC => exact hstep _ _ _ hI hC

theorem Reachable.mono {C D : Cond} (h : ∀ s op w, C s op w → D s op w)
    (hr : Reachable C o) : Reachable D o := by
  obtain ⟨o0, h0, hrun⟩ := hr
  refine ⟨o0, h0, Relation.ReflTransGen.mono (fun a b hn => ?_) o0 o hrun⟩
  cases hn with
  | mk hC => exact .mk (h _ _ _ hC)

def passesOf (s : Sys) (op : Op) (w : World) : List Pass := (step s op w).st.log.passes

/-- A run given by its operations; nothing happens once the connection has stopped. -/
def runOps (o : Outcome Unit) : List (Op × World) → Outcome Unit
  | [] => o
  | (op, w) :: l => runOps (o.bind fun _ s => step s op w) l

def Meets (C : Cond) : Outcome Unit → List (Op × World) → Prop
  | .ok _ s, (op, w) :: l => C s op w ∧ Meets C (step s op w) l
  | _, _ => True

instance Meets.instDecidable {C : Cond} [∀ s op w, Decidable (C s op w)] (o : Outcome Unit)
    (l : List (Op × World)) : Decidable (Meets C o l) := by
  induction l generalizing o with
  | nil => cases o <;> exact .isTrue trivial
  | cons a l ih =>
    cases o with
    | ok _ s =>
      have := ih (step s a.1 a.2)
      exact inferInstanceAs (Decidable (C s a.1 a.2 ∧ Meets C (step s a.1 a.2) l))
    | stop why s => exact .isTrue trivial

theorem runOps_stop (why : Stop) (s : Sys) (l : List (Op × World)) :
    runOps (.stop why s) l = .stop why s := by
  induction l with
  | nil => rfl
  | cons a l ih => exact ih

theorem Reachable.runOps {C : Cond} (h : Reachable C o)
    (l : List (Op × World)) (hl : Meets C o l) : Reachable C (runOps o l) := by
  induction l generalizing o with
  | nil => exact h
  | cons a l ih =>
    cases o with
    | ok u s =>
      obtain ⟨hC, hl⟩ := hl
      exact ih (Reach.step h (Next.mk hC)) hl
    | stop why s =>
      rw [runOps_stop]
      exact h

theorem reachable_runOps {s : Sys} (h : Init (.ok () s)) (l : List (Op × World)) :
    Reachable (fun _ _ _ => True) (runOps (.ok () s) l) := by
  refine Reachable.runOps (Reach.start h) l ?_
  generalize (Outcome.ok () s) = o
  induction l generalizing o with
  | nil => cases o <;> trivial
  | cons a l ih =>
    cases o with
    | ok u s => exact ⟨trivial, ih _⟩
    | stop why s => trivial

end Anp
