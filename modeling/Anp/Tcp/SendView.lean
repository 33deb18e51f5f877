import Anp.Tcp.Checks
import Anp.Tcp.OutputLemmas
import Anp.Tcp.System

/-!
# SendView — the sending half of a connection

`Snd` is what the sending side of a connection is made of: the send sequence numbers, the
contents of `so_snd`, the flags of the socket that let a user write, and the log of what was
written, acknowledged and sent. Most of `tcp_input` never touches it, nor the two timers that
guard it. `Calm` says so, one lemma for each part of the code, so that an invariant of the
sending half only has to look at the rest.
-/

namespace Anp

open Cyclic Machine

/-- The sending half. -/
structure Snd where
  st : TcpState
  iss : Seq
  una : Seq
  nxt : Seq
  max : Seq
  sentfin : Bool
  cc : Nat
  mb : List (List Mbuf)
  cant : Bool
  conn : Bool
  nofd : Bool
  accept : Bool
  queue : SoQueue
  wrote : List Byte
  acked : Nat
  sent : List Sent

/-- The sending half of a state. -/
def sndView (s : Sys) : Snd :=
  { st := s.tp.tState
    iss := s.tp.iss
    una := s.tp.sndUna
    nxt := s.tp.sndNxt
    max := s.tp.sndMax
    sentfin := s.tp.tfSentfin
    cc := s.so.soSnd.sbCc
    mb := s.so.soSnd.sbMb
    cant := s.so.ssCantsendmore
    conn := s.so.ssIsconnected
    nofd := s.so.ssNofdref
    accept := s.so.soAcceptconn
    queue := s.so.soQueue
    wrote := s.log.wrote
    acked := s.log.acked
    sent := s.log.sent }

/-- A retransmit timer that is started runs. -/
structure TimeBase (s : Sys) : Prop where
  rttmin : 1 ≤ s.tp.tRttmin ∧ s.tp.tRttmin < 65536
  rxtcur : s.tp.tRxtcur ≠ 0
  route : ∀ rt, s.w.route = some rt → LockOk rt

/-- Nothing of the sending half has changed, and no pass of `tcp_output` was made. -/
structure Calm (s s' : Sys) : Prop where
  view : sndView s' = sndView s
  rexmt : s'.tp.rexmt = s.tp.rexmt
  persist : s'.tp.persist = s.tp.persist
  passes : s'.log.passes = s.log.passes
  maxseg : s.tp.tMaxseg < 65536 → s'.tp.tMaxseg < 65536
  time : TimeBase s → TimeBase s'

theorem Calm.refl (s : Sys) : Calm s s := ⟨rfl, rfl, rfl, rfl, id, id⟩

theorem Calm.trans {s s' s'' : Sys} (h : Calm s s') (h' : Calm s' s'') : Calm s s'' :=
  ⟨h'.view.trans h.view, h'.rexmt.trans h.rexmt, h'.persist.trans h.persist,
    h'.passes.trans h.passes, h'.maxseg ∘ h.maxseg, h'.time ∘ h.time⟩

/-- All that `Calm` looks at. -/
def calmView (s : Sys) : Snd × (Int × Int × Nat × Nat × Int) × Option Route × List Pass :=
  (sndView s, (s.tp.rexmt, s.tp.persist, s.tp.tMaxseg, s.tp.tRttmin, s.tp.tRxtcur), s.w.route,
    s.log.passes)

variable {s s' : Sys}

/-! What an equation of views says of the fields. -/

section

variable (h : sndView s' = sndView s)
include h

theorem snd_st : s'.tp.tState = s.tp.tState := congrArg Snd.st h

theorem snd_iss : s'.tp.iss = s.tp.iss := congrArg Snd.iss h

theorem snd_una : s'.tp.sndUna = s.tp.sndUna := congrArg Snd.una h

theorem snd_max : s'.tp.sndMax = s.tp.sndMax := congrArg Snd.max h

theorem snd_cc : s'.so.soSnd.sbCc = s.so.soSnd.sbCc := congrArg Snd.cc h

theorem snd_acked : s'.log.acked = s.log.acked := congrArg Snd.acked h

end

/-- From an equation of all the fields at once. -/
theorem Calm.same (h : calmView s' = calmView s) : Calm s s' := by
  simp only [calmView, Prod.mk.injEq] at h
  obtain ⟨hv, ⟨hr, hps, hmax, hmin, hcur⟩, hw, hp⟩ := h
  refine ⟨hv, hr, hps, hp, fun h => by rw [hmax]; exact h, fun h => ⟨?_, ?_, ?_⟩⟩
  · rw [hmin]; exact h.rttmin
  · rw [hcur]; exact h.rxtcur
  · rw [hw]; exact h.route

/-! ## `tcp_mss` and options -/

/-- `tcp_mss` sets sizes and times. -/
theorem calm_tcpMss {offer mss : Nat} (h : tcpMss s offer = some (mss, s')) :
    Calm s s' := by
  obtain ⟨tp, snd, rcv, rfl, hsnd, -, htp, hmax, htime⟩ := tcpMss_eq h
  obtain ⟨a, b, c, d, e, f, g, rfl⟩ := htp
  refine ⟨by simp only [sndView, hsnd], rfl, rfl, rfl, hmax, ?_⟩
  intro ht
  have hb := htime ht.route ht.rttmin ht.rxtcur
  exact ⟨hb.1, hb.2, ht.route⟩

/-- Reading the header and the options. -/
theorem reads_calm : Reads Calm where
  refl := Calm.refl
  trans := Calm.trans
  mss := calm_tcpMss
  note _ _ _ _ _ _ _ _ := Calm.same rfl

/-- A timestamp noted, an ACK due. -/
theorem Noted.calm (h : Noted s s') : Calm s s' := by
  obtain ⟨a, b, c, rfl⟩ := h
  exact Calm.same rfl

/-! ## Receiving -/

/-- Reassembly is about the other half. -/
theorem calm_tcpReass (s : Sys) (ti : Option QSeg) : Calm s (tcpReass s ti).1 := by
  obtain ⟨nxt, segs, rcv, got, h⟩ := tcpReass_shape s ti
  rw [h]
  exact Calm.same rfl

/-- The same for the macro `TCP_REASS`. -/
theorem calm_tcpReassFast (s : Sys) (ti : QSeg) : Calm s (tcpReassFast s ti).1 := by
  obtain ⟨nxt, segs, rcv, got, now, late, h⟩ := tcpReassFast_shape s ti
  rw [h]
  exact Calm.same rfl

/-- So is taking the text. -/
theorem calm_inText (i : Inp) (s : Sys) : Calm s (inText i s).2 := by
  unfold inText
  split
  · exact calm_tcpReassFast s _
  · exact Calm.refl s

/-- The window is not part of it. -/
theorem calm_inWindow (i : Inp) (s : Sys) : Calm s (inWindow i s).2 := by
  unfold inWindow
  simp only
  split <;> exact Calm.same rfl

/-- Nor is the urgent pointer. -/
theorem calm_markUrgent (i : Inp) (s : Sys) : Calm s (markUrgent i s) := by
  unfold markUrgent
  simp only
  split <;> exact Calm.same rfl

theorem calm_inTsRecent (i : Inp) (s : Sys) (e : Nat) : Calm s (inTsRecent i s e) :=
  (noted_inTsRecent i s e).calm

/-- An answer sent with `tcp_respond` is not in the log. -/
theorem calm_inRespond (i : Inp) (s : Sys) : Calm s (inRespond i s) := by
  unfold inRespond
  split
  · exact Calm.refl s
  · split <;> exact Calm.same rfl

/-- The receive window. -/
theorem calm_inRcvWnd (s : Sys) : Calm s (inRcvWnd s) := Calm.same rfl

/-! ## Round-trip times -/

/-- A round-trip time. -/
theorem calm_tcpXmitTimer (s : Sys) (rtt : Int) :
    Calm s { s with tp := tcpXmitTimer s.tp rtt } := by
  refine ⟨rfl, rfl, rfl, rfl, id, ?_⟩
  intro h
  exact ⟨h.rttmin, tcptRangeset_ne_zero h.rttmin, h.route⟩

theorem calm_inXmitTimer (i : Inp) (s : Sys) : Calm s (inXmitTimer i s) := by
  unfold inXmitTimer
  split
  · exact calm_tcpXmitTimer s _
  · split
    · exact calm_tcpXmitTimer s _
    · exact Calm.refl s

end Anp
