import Anp.Tcp.Arrival

/-!
# AckFrame — what ACK processing leaves alone

ACK processing moves `snd_una` and counts duplicates, and it may set the state; the window and the
segment it was taken from are not its business, but for SYN_RECEIVED, where the first ACK makes
sure that its window will be adopted.
-/

namespace Anp

open Cyclic Machine

/-- ACK processing in SYN_RECEIVED; in the other states there is nothing to do. -/
def afterSyn (i : Inp) (s : Sys) : Flow :=
  if s.tp.tState = .synReceived then inAckSynRcvd i s else .next i s

/-- The tests that take a segment for a duplicate ACK. -/
def countsDup (i : Inp) (s : Sys) : Bool :=
  seqLEQ i.tiAck s.tp.sndUna && i.tiLen == 0 && i.tiwin == s.tp.sndWnd && s.tp.rexmt != 0 &&
    i.tiAck == s.tp.sndUna

theorem onward_callOutput (s : Sys) : Leads Onward s (callOutput s) :=
  fun a s' h => .of_view (sameView_callOutput s a s' h)

theorem onward_fastRexmt (i : Inp) (s : Sys) : Leads Onward s (fastRexmt i s) := by
  unfold fastRexmt
  split
  · exact Leads.stop _ _
  · simp only
    refine Leads.bind ?_ fun _ s1 => Leads.ok () ⟨rfl, rfl, rfl, rfl, rfl, id⟩
    refine Leads.after ?_ (onward_callOutput _)
    exact ⟨rfl, rfl, rfl, rfl, rfl, id⟩

/-- The count and the segment of the last window update are the same, and the connection does not
go back before ESTABLISHED. -/
structure Steady (s s' : Sys) : Prop where
  dup : s'.tp.tDupacks = s.tp.tDupacks
  wl1 : s'.tp.sndWl1 = s.tp.sndWl1
  wl2 : s'.tp.sndWl2 = s.tp.sndWl2
  est : 4 ≤ s.tp.tState.toNat → 4 ≤ s'.tp.tState.toNat

instance : IsTrans Sys Steady :=
  ⟨fun _ _ _ h h' => ⟨h'.dup.trans h.dup, h'.wl1.trans h.wl1, h'.wl2.trans h.wl2, h'.est ∘ h.est⟩⟩

theorem Onward.steady {s s' : Sys} (h : Onward s s') : Steady s s' := { h with }

theorem steady_inDropafterack (i : Inp) (s : Sys) : FlowLeads Steady s (inDropafterack i s) :=
  (sameView_inDropafterack i s).mono fun _ h => (Onward.of_view h).steady

theorem steady_inAckState (finAcked : Bool) (i : Inp) (s : Sys) :
    FlowLeads Steady s (inAckState finAcked i s) := by
  unfold inAckState
  split
  · split
    · simp only
      split <;> exact ⟨rfl, rfl, rfl, fun _ => show 4 ≤ 9 by decide⟩
    · exact ⟨rfl, rfl, rfl, id⟩
  · split
    · exact ⟨rfl, rfl, rfl, fun _ => show 4 ≤ 10 by decide⟩
    · exact ⟨rfl, rfl, rfl, id⟩
  · split
    · exact leads_tcpClose _ _
    · exact ⟨rfl, rfl, rfl, id⟩
  · refine FlowLeads.after ?_ (steady_inDropafterack i _)
    exact ⟨rfl, rfl, rfl, id⟩
  · exact ⟨rfl, rfl, rfl, id⟩

/-- So does a new ACK, which leaves the window alone. -/
theorem inAckNew_clears (i : Inp) (s : Sys) :
    FlowLeads Steady { s with tp := { s.tp with tDupacks := 0 } } (inAckNew i s) := by
  unfold inAckNew
  simp only
  generalize (if tcpRexmtthresh < s.tp.tDupacks ∧ s.tp.sndSsthresh < s.tp.sndCwnd then
    s.tp.sndSsthresh else s.tp.sndCwnd) = cwnd
  set s1 : Sys := { s with tp := { s.tp with sndCwnd := cwnd, tDupacks := 0 } }
  have hs1 : Steady { s with tp := { s.tp with tDupacks := 0 } } s1 := ⟨rfl, rfl, rfl, id⟩
  refine FlowLeads.after hs1 ?_
  split
  · exact steady_inDropafterack i s1
  · generalize ({ i with needoutput := _ } : Inp) = i2
    have hprep : Steady s1 (ackPrepare i2 s1) := by
      obtain ⟨a, b, c, d, e, f, hx, -⟩ := inXmitTimer_eq i2 s1
      unfold ackPrepare
      simp only [hx, ackTimer_rexmt]
      exact ⟨rfl, rfl, rfl, id⟩
    refine FlowLeads.after hprep ?_
    generalize ackPrepare i2 s1 = s2
    cases ha : ackData i2 s2 with
    | stop why s3 => exact Leads.stop _ _
    | ok fin s3 =>
      refine FlowLeads.after ?_ (steady_inAckState fin i2 s3)
      unfold ackData dropSnd at ha
      simp only at ha
      split at ha
      · cases ha
        exact ⟨rfl, rfl, rfl, id⟩
      · cases ha

variable {s : Sys} {i : Inp}

/-- Header prediction leaves the count and the segment of the last window update alone, and takes a
segment only if its window is the one there is. -/
theorem inPredict_steady {o : Outcome Unit} (h : inPredict i s = .done o) :
    (Steady s o.st ∧ o.st.tp.sndWnd = s.tp.sndWnd) ∧ i.tiwin = s.tp.sndWnd ∧
      i.tiflags.syn = false := by
  obtain ⟨⟨-, -, hflags, -, -, hwin, -⟩, -, ho⟩ := inPredict_done h
  simp only [Bool.or_eq_false_iff] at hflags
  have hfast : Steady s (fastPath i s).st ∧ (fastPath i s).st.tp.sndWnd = s.tp.sndWnd := by
    obtain ⟨val, age, now, hn⟩ := noted_inTsRecent i s 0
    unfold fastPath predictAckTake predictData
    simp only [hn]
    split
    · obtain ⟨a, b, c, d, e, f, hx, -⟩ := inXmitTimer_eq i { s with tp := { s.tp with
        tsRecent := val, tsRecentAge := age, tfAcknow := now } }
      rw [hx]
      unfold dropSnd
      split
      · simp only [Outcome.bind_ok, ackTimer_rexmt]
        exact ⟨⟨rfl, rfl, rfl, id⟩, rfl⟩
      · exact ⟨⟨rfl, rfl, rfl, id⟩, rfl⟩
    · exact ⟨⟨rfl, rfl, rfl, id⟩, rfl⟩
  have hrest : ∀ s1 : Sys, view (sendRest s1).st = view s1 := by
    intro s1
    unfold sendRest
    split
    · exact view_callOutput s1
    · rfl
  refine ⟨?_, hwin, hflags.1.1.1⟩
  rw [ho]
  cases hf : fastPath i s with
  | stop why s1 =>
    rw [hf] at hfast
    exact hfast
  | ok u s1 =>
    rw [hf] at hfast
    split
    · have hon := Onward.of_view (hrest s1)
      exact ⟨IsTrans.trans _ _ _ hfast.1 hon.steady, hon.wnd.trans hfast.2⟩
    · exact hfast

/-- An ACK in SYN_RECEIVED opens the connection or is answered with a reset. -/
theorem afterSyn_cases (i : Inp) (s : Sys) :
    (s.tp.tState = .synReceived ∧ afterSyn i s = inDropwithreset i s) ∨
      ∃ s1, afterSyn i s = .next i s1 ∧ s1.tp.sndUna = s.tp.sndUna ∧
        s1.tp.tDupacks = s.tp.tDupacks ∧ s1.tp.sndWnd = s.tp.sndWnd ∧
        (3 ≤ s.tp.tState.toNat → 4 ≤ s1.tp.tState.toNat) := by
  unfold afterSyn
  split
  · next hst =>
    unfold inAckSynRcvd
    split
    · exact .inl ⟨hst, rfl⟩
    · refine .inr ⟨_, rfl, ?_⟩
      obtain ⟨nxt, segs, rcv, got, h⟩ := tcpReass_shape { s with
        tp := inScale { s.tp with tState := .established }, so := soisconnected s.so } none
      rw [h]
      unfold inScale
      split <;> exact ⟨rfl, rfl, rfl, fun _ => Nat.le_refl 4⟩
  · next hst =>
    refine .inr ⟨s, rfl, rfl, rfl, rfl, fun h => ?_⟩
    cases hs : s.tp.tState <;> simp_all [TcpState.toNat]

/-- A duplicate ACK goes on, or it ends with `tcp_output`; the count is one more. -/
theorem inAckDup_counted (hc : countsDup i s = true) :
    FlowLeads Onward { s with tp := { s.tp with tDupacks := int16 (s.tp.tDupacks + 1) } }
      (inAckDup i s) := by
  unfold countsDup at hc
  simp only [Bool.and_eq_true, beq_iff_eq, bne_iff_ne] at hc
  obtain ⟨⟨⟨⟨-, hlen⟩, hwin⟩, hrex⟩, hack⟩ := hc
  unfold inAckDup
  rw [if_pos ⟨hlen, hwin⟩, if_neg (by simp [hrex, hack])]
  simp only
  split
  · exact onward_fastRexmt i _
  · split
    · refine Leads.after ?_ (onward_callOutput _)
      exact ⟨rfl, rfl, rfl, rfl, rfl, id⟩
    · exact Onward.refl _

/-- An old ACK that does not count as a duplicate ends the count. -/
theorem inAckDup_clears (hle : seqLEQ i.tiAck s.tp.sndUna = true) (hc : countsDup i s = false) :
    inAckDup i s = .next i { s with tp := { s.tp with tDupacks := 0 } } := by
  unfold countsDup at hc
  unfold inAckDup
  split
  · next h =>
    split
    · rfl
    · next h' =>
      simp [hle, h.1, h.2, not_or.mp h'] at hc
  · rfl

/-! ## Connections that do not listen -/

section

variable {s' : Sys} {P Q : Prop} (h : s.so.soAcceptconn = true ∨ P)
include h

theorem unless_listening_input {seg : Segment} {w : World}
    (hs' : step s (.input seg) w = .ok () s') (hin : P → s.so.soAcceptconn = false → Q) :
    s'.so.soAcceptconn = true ∨ Q := by
  cases hacc : s.so.soAcceptconn with
  | true =>
    have hsame : tcpInput (enter s w) seg = .ok () (enter s w) := if_pos (Or.inr hacc)
    have he : Outcome.ok () (enter s w) = .ok () s' := hsame.symm.trans hs'
    cases he
    exact .inl hacc
  | false => exact .inr (hin (h.resolve_left (by simp [hacc])) hacc)

theorem unless_listening_aside {op : Op} {w : World} (hin : ∀ seg, op ≠ .input seg)
    (hop : op ≠ .connect) (hs' : step s op w = .ok () s')
    (hk : P → Aside (enter s w) s' → Closes s.tp.tState s'.tp.tState → Q) :
    s'.so.soAcceptconn = true ∨ Q := by
  have ha := aside_stepOp (enter s w) op hin hop () s' hs'
  rcases h with h | h
  · exact .inl (ha.accept h)
  · exact ha.st.symm.imp_right (hk h ha)

end

end Anp
