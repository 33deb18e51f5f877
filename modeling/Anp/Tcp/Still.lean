import Anp.Tcp.SendInput

/-!
# Still — bookkeeping that leaves a connection where it is

Most of the code reads a segment, keeps times and flags, and changes nothing a result about
whole runs speaks of. `Still` says so of two states: the same state of the protocol, the same
receive sequence numbers and reassembly queue, the same timers for sending, the same edge
announced to the peer, and no pass of `tcp_output` in between.
-/

namespace Anp

open Cyclic Machine

variable {i i' : Inp} {s s' : Sys}

/-- The fields that count. -/
structure View where
  st : TcpState
  una : Seq
  dup : Int
  wnd : Nat
  wl1 : Seq
  wl2 : Seq
  irs : Seq
  nxt : Seq
  scale : Nat
  reqScale : Nat
  segs : List QSeg
  cant : Bool
  accept : Bool
  got : List Byte
  fins : List Seq
  route : Option Route

/-- The view of a state. -/
def view (s : Sys) : View :=
  { st := s.tp.tState
    una := s.tp.sndUna
    dup := s.tp.tDupacks
    wnd := s.tp.sndWnd
    wl1 := s.tp.sndWl1
    wl2 := s.tp.sndWl2
    irs := s.tp.irs
    nxt := s.tp.rcvNxt
    scale := s.tp.rcvScale
    reqScale := s.tp.requestRScale
    segs := s.tp.segs
    cant := s.so.ssCantrcvmore
    accept := s.so.soAcceptconn
    got := s.log.got
    fins := s.log.fins
    route := s.w.route }

section

variable (h : view s' = view s)
include h

theorem view_st : s'.tp.tState = s.tp.tState := congrArg View.st h

theorem view_una : s'.tp.sndUna = s.tp.sndUna := congrArg View.una h

theorem view_dup : s'.tp.tDupacks = s.tp.tDupacks := congrArg View.dup h

theorem view_nxt : s'.tp.rcvNxt = s.tp.rcvNxt := congrArg View.nxt h

theorem view_wl1 : s'.tp.sndWl1 = s.tp.sndWl1 := congrArg View.wl1 h

theorem view_wl2 : s'.tp.sndWl2 = s.tp.sndWl2 := congrArg View.wl2 h

end

/-- The bytes to send, and their number. -/
def sndBuf (s : Sys) : Nat × List (List Mbuf) := (s.so.soSnd.sbCc, s.so.soSnd.sbMb)

/-- `SbWf` reads only these fields. -/
theorem SbWf.congr (hb : sndBuf s' = sndBuf s) (h : SbWf s.so.soSnd) :
    SbWf s'.so.soSnd := by
  obtain ⟨hcc, hmb⟩ := Prod.mk.inj hb
  unfold SbWf sbBytes at h ⊢
  rw [hcc, hmb]
  exact h

/-- Two states agree in the fields that count. -/
structure Still (s s' : Sys) : Prop where
  view : view s' = view s
  rexmt : s'.tp.rexmt = s.tp.rexmt
  persist : s'.tp.persist = s.tp.persist
  rcvAdv : s'.tp.rcvAdv = s.tp.rcvAdv
  passes : s'.log.passes = s.log.passes
  snd : sndBuf s' = sndBuf s

/-- From an equation of all the fields at once. -/
theorem Still.same (h : (Anp.view s', (s'.tp.rexmt, s'.tp.persist, s'.tp.rcvAdv), s'.log.passes,
      sndBuf s') =
    (Anp.view s, (s.tp.rexmt, s.tp.persist, s.tp.rcvAdv), s.log.passes, sndBuf s)) : Still s s' := by
  simp only [Prod.mk.injEq] at h
  obtain ⟨hv, ⟨hr, hps, hadv⟩, hp, hb⟩ := h
  exact ⟨hv, hr, hps, hadv, hp, hb⟩

theorem Still.refl (s : Sys) : Still s s := .same rfl

theorem Still.trans {s'' : Sys} (h : Still s s') (h' : Still s' s'') : Still s s'' :=
  ⟨h'.view.trans h.view, h'.rexmt.trans h.rexmt, h'.persist.trans h.persist,
    h'.rcvAdv.trans h.rcvAdv, h'.passes.trans h.passes, h'.snd.trans h.snd⟩

/-! ## Options and times -/

theorem still_tcpMss {offer mss : Nat} (h : tcpMss s offer = some (mss, s')) :
    Still s s' := by
  obtain ⟨tp, snd, rcv, rfl, hsnd, -, ⟨a, b, c, d, e, f, g, rfl⟩, -⟩ := tcpMss_eq h
  exact ⟨rfl, rfl, rfl, rfl, rfl, Prod.ext hsnd.1 hsnd.2⟩

/-- Reading the header and the options. -/
theorem reads_still : Reads Still where
  refl := Still.refl
  trans := Still.trans
  mss := still_tcpMss
  note _ _ _ _ _ _ _ _ := .same rfl

theorem still_inHeader {seg : Segment} (h : inHeader s seg = some (i, s')) : Still s s' :=
  reads_still.inHeader h

/-- A timestamp noted, an ACK due. -/
theorem Noted.still (h : Noted s s') : Still s s' := by
  obtain ⟨a, b, c, rfl⟩ := h
  exact .same rfl

/-- A round-trip time taken. -/
theorem still_inXmitTimer (i : Inp) (s : Sys) : Still s (inXmitTimer i s) := by
  unfold inXmitTimer
  split
  · exact .same rfl
  · split <;> exact .same rfl

theorem still_inRcvWnd (s : Sys) : Still s (inRcvWnd s) := .same rfl

/-- An answer sent with `tcp_respond`. -/
theorem still_inRespond (i : Inp) (s : Sys) : Still s (inRespond i s) := by
  unfold inRespond
  split
  · exact Still.refl s
  · split <;> exact .same rfl

/-! ## `tcp_output` -/

/-- The options of a segment. -/
theorem view_outOptions {flags : Flags} {optlen : Nat} (h : outOptions s flags = some (optlen, s')) :
    Still s s' := by
  obtain ⟨-, rfl⟩ | ⟨-, mss, hmss⟩ := outOptions_cases h
  · exact Still.refl _
  · have h0 : Still s { s with tp := { s.tp with sndNxt := s.tp.iss } } := .same rfl
    exact h0.trans (still_tcpMss hmss)

/-- A segment sent. -/
theorem view_outEmit (s : Sys) (win : Int) (flags : Flags) (data : List Byte) :
    view (outEmit s win flags data) = view s ∧
      (outEmit s win flags data).tp.rcvAdv = s.tp.rcvAdv := by
  obtain ⟨a, b, c, d, e, f, g, h, up, x, he, -⟩ := outEmit_eq s win flags data
  rw [he]
  exact ⟨rfl, rfl⟩

/-- `ip_output` has failed. -/
theorem view_outError (s : Sys) (e : Errno) : Still s (outError s e).st := by
  obtain ⟨r, cwnd, soft, he⟩ := outError_eq s e
  rw [he]
  exact .same rfl

/-- A pass with nothing to send. -/
theorem view_outQuiet (s : Sys) : view (outQuiet s).st = view s ∧ (outQuiet s).st.log = s.log ∧
    (outQuiet s).st.tp.rcvAdv = s.tp.rcvAdv := by
  obtain ⟨p, x, he, -⟩ := outQuiet_eq s
  rw [he]
  exact ⟨rfl, rfl, rfl⟩

/-- So every pass keeps the view. -/
theorem passRel_view : PassRel fun s s' => view s' = view s where
  refl _ := rfl
  trans h h' := h'.trans h
  decided s := by
    obtain ⟨r, p, x, nx, hd⟩ := outDecide_tp s.tp s.so
    rw [hd]
    rfl
  options h := (view_outOptions h).view
  error s e := (view_outError s e).view
  emit s win flags data := (view_outEmit s win flags data).1
  acked _ _ := rfl
  quiet s := (view_outQuiet s).1

/-- The log of passes is not touched within one. -/
theorem passRel_passes : PassRel fun s s' => s'.log.passes = s.log.passes where
  refl _ := rfl
  trans h h' := h'.trans h
  decided _ := rfl
  options h := (view_outOptions h).passes
  error s e := (view_outError s e).passes
  emit _ _ _ _ := rfl
  acked _ _ := rfl
  quiet s := congrArg Log.passes (view_outQuiet s).2.1

theorem passes_outPass (s : Sys) (idle : Bool) (env : OutEnv) :
    (outPass s idle env).st.log.passes = s.log.passes :=
  passRel_passes.outPass s idle env

/-- **`tcp_output` leaves the view alone.** -/
theorem view_tcpOutput (s : Sys) : view (tcpOutput s).st = view s :=
  passRel_view.tcpOutput (fun _ _ _ => rfl) (fun _ => rfl) s

/-- A call of `tcp_output` keeps the view. -/
theorem view_callOutput (s : Sys) : view (callOutput s).st = view s := by
  unfold callOutput
  rw [← view_tcpOutput s]
  cases tcpOutput s <;> rfl

end Anp
