import Anp.Tcp.Handshake
import Anp.Tcp.Predict

/-!
# Arrival — the ways of a segment

A segment for a connection past the peer's SYN goes one of three ways: the checks answer or drop
it, and the connection stays as it is; header prediction takes it; or it gets through to ACK
processing, cut to the receive window.
-/

namespace Anp

open Cyclic Machine

variable {f : Flow} {i : Inp} {seg : Segment} {s s' s0 s1 : Sys} {R : Sys → Sys → Prop}

/-- A part of `tcp_input` from `s` on, if the connection is still there after it. -/
def FlowLeads (R : Sys → Sys → Prop) (s : Sys) : Flow → Prop
  | .next _ s' => R s s'
  | .done o => Leads R s o

theorem FlowLeads.mono {S : Sys → Sys → Prop} (h : FlowLeads R s f) (hRS : ∀ s', R s s' → S s s') :
    FlowLeads S s f := by
  cases f with
  | next i s1 => exact hRS s1 h
  | done o => exact fun a s' ho => hRS s' (h a s' ho)

theorem FlowLeads.after [IsTrans Sys R] (h : R s s1) (hf : FlowLeads R s1 f) : FlowLeads R s f := by
  cases f with
  | next i s2 => exact IsTrans.trans _ _ _ h hf
  | done o => exact Leads.after h hf

/-! ## Segments that are answered or dropped -/

/-- Nothing happens to the connection, but for an ACK. -/
def SameView (s s' : Sys) : Prop := view s' = view s

instance : IsTrans Sys SameView := ⟨fun _ _ _ h h' => Eq.trans h' h⟩

theorem sameView_callOutput (s : Sys) : Leads SameView s (callOutput s) := by
  intro a s' h
  have hv := view_callOutput s
  rw [h] at hv
  exact hv

theorem sameView_inDropafterack (i : Inp) (s : Sys) : FlowLeads SameView s (inDropafterack i s) := by
  unfold inDropafterack inDrop
  split
  · exact Leads.ok () rfl
  · refine Leads.after ?_ (sameView_callOutput _)
    rfl

theorem sameView_inDropwithreset (i : Inp) (s : Sys) :
    FlowLeads SameView s (inDropwithreset i s) := by
  unfold inDropwithreset
  exact Leads.ok () (still_inRespond i s).view

theorem Rejected.leads {o : Outcome Unit} (h : Rejected i s o) : Leads SameView s o := by
  cases h with
  | drop => exact Leads.ok () rfl
  | ack =>
    refine Leads.after ?_ (sameView_callOutput _)
    rfl
  | close | gone => exact leads_tcpClose _ _
  | reset => exact leads_tcpDrop _ _ _ _

/-! ## After the window update -/

/-- What is left of the send side when the window has been looked at: the connection does not go
back before ESTABLISHED. -/
structure Onward (s s' : Sys) : Prop where
  una : s'.tp.sndUna = s.tp.sndUna
  dup : s'.tp.tDupacks = s.tp.tDupacks
  wnd : s'.tp.sndWnd = s.tp.sndWnd
  wl1 : s'.tp.sndWl1 = s.tp.sndWl1
  wl2 : s'.tp.sndWl2 = s.tp.sndWl2
  est : 4 ≤ s.tp.tState.toNat → 4 ≤ s'.tp.tState.toNat

instance : IsTrans Sys Onward :=
  ⟨fun _ _ _ h h' => ⟨h'.una.trans h.una, h'.dup.trans h.dup, h'.wnd.trans h.wnd,
    h'.wl1.trans h.wl1, h'.wl2.trans h.wl2, h'.est ∘ h.est⟩⟩

theorem Onward.refl (s : Sys) : Onward s s := ⟨rfl, rfl, rfl, rfl, rfl, id⟩

theorem Onward.of_view (h : view s' = view s) : Onward s s' := by
  refine ⟨congrArg View.una h, congrArg View.dup h, congrArg View.wnd h, congrArg View.wl1 h,
    congrArg View.wl2 h, ?_⟩
  rw [view_st h]
  exact id

theorem onward_inUrgent (i : Inp) (s : Sys) : FlowLeads Onward s (inUrgent i s) := by
  have hmark : Onward s (markUrgent i s) := by
    unfold markUrgent
    simp only
    split <;> exact ⟨rfl, rfl, rfl, rfl, rfl, id⟩
  unfold inUrgent
  split
  · split
    · exact Onward.refl s
    · simp only
      split
      · unfold tcpPulloutofband
        split
        · exact { hmark with }
        · exact Leads.stop _ _
      · exact hmark
  · exact ⟨rfl, rfl, rfl, rfl, rfl, id⟩

theorem onward_inText (i : Inp) (s : Sys) : Onward s (inText i s).2 := by
  unfold inText
  split
  · obtain ⟨nxt, segs, rcv, got, now, late, h⟩ :=
      tcpReassFast_shape s ⟨i.tiSeq, i.tiLen, i.tiFlags.fin, i.m⟩
    simp only [h]
    exact ⟨rfl, rfl, rfl, rfl, rfl, id⟩
  · exact Onward.refl s

theorem onward_inFin (i : Inp) (s : Sys) : Onward s (inFin i s) := by
  have hst : ∀ s : Sys, Onward s (finState6 s) := by
    intro s
    unfold finState6
    split
    · exact ⟨rfl, rfl, rfl, rfl, rfl, fun _ => show 4 ≤ 5 by decide⟩
    · exact ⟨rfl, rfl, rfl, rfl, rfl, fun _ => show 4 ≤ 5 by decide⟩
    · exact ⟨rfl, rfl, rfl, rfl, rfl, fun _ => show 4 ≤ 7 by decide⟩
    · exact ⟨rfl, rfl, rfl, rfl, rfl, fun _ => show 4 ≤ 10 by decide⟩
    · exact ⟨rfl, rfl, rfl, rfl, rfl, id⟩
    · exact Onward.refl s
  unfold inFin
  split
  · refine IsTrans.trans _ _ _ ?_ (hst _)
    split <;> exact ⟨rfl, rfl, rfl, rfl, rfl, id⟩
  · exact Onward.refl s

theorem onward_inStep6 (i : Inp) (s : Sys) : Leads Onward (inWindow i s).2 (inStep6 i s) := by
  unfold inStep6
  simp only
  have hu := onward_inUrgent (inWindow i s).1 (inWindow i s).2
  cases hf : inUrgent (inWindow i s).1 (inWindow i s).2 with
  | done o =>
    rw [hf] at hu
    exact hu
  | next i1 s1 =>
    rw [hf] at hu
    have hs1 : Onward (inWindow i s).2 (inFin (inText i1 s1).1 (inText i1 s1).2) :=
      IsTrans.trans _ _ _ hu (IsTrans.trans _ _ _ (onward_inText i1 s1) (onward_inFin _ _))
    simp only
    split
    · exact Leads.after hs1 fun a s' h => .of_view (sameView_callOutput _ a s' h)
    · exact Leads.ok () hs1

/-! ## Segments that get through -/

/-- Header prediction takes the segment. -/
def predicted (s : Sys) (seg : Segment) : Bool :=
  !s.so.soAcceptconn && (inHeader s seg).any fun r => takesFast r.1 r.2

/-- The segment is not dropped. -/
def acceptable (s : Sys) (seg : Segment) : Bool := predicted s seg || (ackStage s seg).isSome

/-- The segment `i` and the connection `s1` when ACK processing begins. -/
structure Staged (s : Sys) (seg : Segment) (i : Inp) (s1 : Sys) : Prop where
  still : Still s s1
  open_ : s.so.soAcceptconn = false ∧ 3 ≤ s.tp.tState.toNat
  flags : i.tiflags.rst = false ∧ i.tiflags.syn = false ∧ i.tiflags.ack = true
  cut : ∃ i0 i1 b b' tp, Whole s seg i0 ∧ trimLeft s.tp.rcvNxt i0 = .keep i1 b ∧
    trimRight tp i1 = .keep i b' ∧ tp.rcvNxt = s.tp.rcvNxt
  rest : tcpInput s seg =
    match inAck i s1 with
    | .done o => o
    | .next i s => inStep6 i s

theorem ackStage_staged (h : ackStage s seg = some (i, s1)) :
    Staged s seg i s1 := by
  obtain ⟨hst, i0, s0, s2, hh, hp, hc⟩ := ackStage_cases h
  have hpass := inCheck_next hc
  obtain ⟨i4, b, b', tp, hl, hr, htp⟩ := hpass.cut
  have hall : Still s (inRcvWnd s2) :=
    ((still_inHeader hh).trans (inPredict_next hp).2.still).trans (still_inRcvWnd s2)
  have hnxt := view_nxt hall.view
  refine ⟨hall.trans hpass.noted.still, ?_, hpass.flags, ⟨i0, i4, b, b', tp,
    (inHeader_whole hh).1, hnxt ▸ hl, hr, htp.trans hnxt⟩, (ackStage_some h).rest⟩
  simp only [not_or] at hst
  refine ⟨Bool.eq_false_of_not_eq_true hst.2.1, ?_⟩
  cases hs : s.tp.tState <;> simp_all [TcpState.toNat]

/-! ## The three ways -/

/-- The three ways of a segment, when the connection is still there afterwards. -/
theorem tcpInput_ways (hacc : s.so.soAcceptconn = false) (hst : 3 ≤ s.tp.tState.toNat)
    (h : tcpInput s seg = .ok () s') :
    (acceptable s seg = false ∧ view s' = view s) ∨
      (∃ i s1, predicted s seg = true ∧ inHeader s seg = some (i, s1) ∧
        inPredict i s1 = .done (.ok () s')) ∨
      ∃ i s1, ackStage s seg = some (i, s1) := by
  have hno : s.tp.tState ≠ .closed ∧ s.tp.tState ≠ .listen ∧ s.tp.tState ≠ .synSent := by
    refine ⟨?_, ?_, ?_⟩ <;> (intro he; rw [he] at hst; exact absurd hst (by decide))
  cases hs : ackStage s seg with
  | some r => exact .inr (.inr ⟨r.1, r.2, rfl⟩)
  | none =>
    have hwhy := h
    unfold tcpInput at hwhy
    rw [if_neg (by simp [hno.1, hacc])] at hwhy
    cases hh : inHeader s seg with
    | none =>
      rw [hh] at hwhy
      cases hwhy
    | some r =>
      obtain ⟨i, s1⟩ := r
      rw [hh] at hwhy
      simp only at hwhy
      cases hp : inPredict i s1 with
      | done o =>
        rw [hp] at hwhy
        have ho : o = .ok () s' := hwhy
        have hpred : predicted s seg = true := by
          unfold predicted takesFast
          simp only [hacc, hh, Option.any_some, hp]
          rfl
        exact .inr (.inl ⟨i, s1, hpred, rfl, ho ▸ hp⟩)
      | next i2 s2 =>
        refine .inl ⟨?_, ?_⟩
        · unfold acceptable predicted takesFast
          simp only [hh, Option.any_some, hp, hs, Bool.and_false, Option.isSome_none, Bool.or_false]
        · -- the checks have dealt with it
          obtain ⟨rfl, hn⟩ := inPredict_next hp
          have hall : Still s (inRcvWnd s2) :=
            ((still_inHeader hh).trans hn.still).trans (still_inRcvWnd s2)
          rw [hp] at hwhy
          simp only [Flow.bind, inSwitch_late seg i2 ((view_st hall.view) ▸ hno.2)] at hwhy
          cases hc : inCheck i2 (inRcvWnd s2) with
          | next i3 s3 =>
            rw [ackStage_eq (by simp [hno, hacc]) hh hp hc] at hs
            cases hs
          | done o =>
            obtain ⟨j, s3, hn3, hr⟩ := inCheck_done hc
            rw [hc] at hwhy
            exact (hr.leads () s' hwhy).trans (hn3.still.view.trans hall.view)

/-! ## The peer's SYN -/

/-- The segment `i` and the connection `s1` when `step6` begins after the peer's SYN. -/
structure Opened (s : Sys) (seg : Segment) (i : Inp) (s1 : Sys) : Prop where
  tiSeq : i.tiSeq = seg.tiSeq + 1
  tiFlags : i.tiFlags = seg.tiFlags
  st : s1.tp.tState = .synReceived ∨ s1.tp.tState = .established
  ack : i.tiflags.ack = true → s1.tp.tState = .established
  irs : s1.tp.irs = seg.tiSeq
  wl1 : s1.tp.sndWl1 = seg.tiSeq
  dup : s1.tp.tDupacks = s.tp.tDupacks
  fins : s1.log.fins = s.log.fins
  queue : s.tp.segs = [] → s1.tp.rcvNxt = seg.tiSeq + 1 ∧ s1.tp.segs = [] ∧ s1.log.got = s.log.got

/-- A part of `tcp_input` that leaves the connection as it is, or opens it. -/
def Opens (s : Sys) (seg : Segment) : Flow → Prop
  | .next i s1 => Opened s seg i s1
  | .done o => Leads SameView s o

theorem opens_inTrimSyn (hw : Whole s seg i)
    (hst : s0.tp.tState = .synReceived ∨ s0.tp.tState = .established)
    (hack : i.tiflags.ack = true → s0.tp.tState = .established) (hirs : s0.tp.irs = seg.tiSeq)
    (hdup : s0.tp.tDupacks = s.tp.tDupacks) (hfins : s0.log.fins = s.log.fins)
    (hq : s.tp.segs = [] → s0.tp.rcvNxt = seg.tiSeq + 1 ∧ s0.tp.segs = [] ∧
      s0.log.got = s.log.got) : Opens s seg (inTrimSyn i s0) := by
  have hseq : i.tiSeq + 1 - 1 = seg.tiSeq := by
    rw [hw.tiSeq]
    exact add_sub_cancel_right _ _
  unfold inTrimSyn
  simp only
  split <;>
    exact ⟨congrArg (· + 1) hw.tiSeq, hw.tiFlags, hst, hack, hirs, hseq, hdup, hfins, hq⟩

theorem opens_inListen {iss : Seq} (hw : Whole s seg i) (h0 : Still s s0) :
    Opens s seg (inListen iss seg i s0) := by
  refine inListen_elim (fun _ _ _ => leads_tcpDrop _ _ _ _) (Leads.stop _ _)
    fun hnoack iss' s2 ts2 hopt => ?_
  have h1 : Still s { s0 with tp := { s0.tp with tTemplate := true } } := h0.trans (.same rfl)
  have h2 : view s2 = view s := (h1.trans (reads_still.dooptionsLoop _ hopt)).view
  have hw2 : Whole s seg { i with ts := ts2 } := { hw with }
  apply opens_inTrimSyn hw2
  · exact .inl rfl
  · exact fun hack => absurd hack (Bool.eq_false_iff.mp hnoack)
  · exact hw.tiSeq
  · exact congrArg View.dup h2
  · exact congrArg View.fins h2
  · intro hq
    refine ⟨congrArg (· + 1) hw.tiSeq, ?_, congrArg View.got h2⟩
    exact (congrArg View.segs h2).trans hq

theorem tcpReass_empty (h : s.tp.segs = []) : (tcpReass s none).1 = s := by
  unfold tcpReass reassPresent
  simp only
  rw [h]
  split
  · rfl
  · split
    · rfl
    · show { s with tp := { s.tp with segs := [] } } = s
      rw [← h]

theorem inConnected_shape (s : Sys) :
    (inConnected s).tp.tState = .established ∧ (inConnected s).tp.irs = s.tp.irs ∧
      (inConnected s).tp.tDupacks = s.tp.tDupacks ∧ (inConnected s).log.fins = s.log.fins ∧
      (s.tp.segs = [] → (inConnected s).tp.rcvNxt = s.tp.rcvNxt ∧
        (inConnected s).tp.segs = [] ∧ (inConnected s).log.got = s.log.got) := by
  set s0 : Sys := { s with
    tp := inScale { s.tp with tState := .established }, so := soisconnected s.so } with hs0
  have hscale : s0.tp.tState = .established ∧ s0.tp.irs = s.tp.irs ∧
      s0.tp.tDupacks = s.tp.tDupacks ∧ s0.tp.segs = s.tp.segs ∧ s0.tp.rcvNxt = s.tp.rcvNxt := by
    rw [hs0]
    unfold inScale
    split <;> exact ⟨rfl, rfl, rfl, rfl, rfl⟩
  obtain ⟨h1, h2, h3, h4, h5⟩ := hscale
  have hreass : (tcpReass s0 none).1.tp.tState = .established ∧
      (tcpReass s0 none).1.tp.irs = s.tp.irs ∧
      (tcpReass s0 none).1.tp.tDupacks = s.tp.tDupacks ∧
      (tcpReass s0 none).1.log.fins = s.log.fins ∧
      (s.tp.segs = [] → (tcpReass s0 none).1.tp.rcvNxt = s.tp.rcvNxt ∧
        (tcpReass s0 none).1.tp.segs = [] ∧ (tcpReass s0 none).1.log.got = s.log.got) := by
    have hq : s.tp.segs = [] → (tcpReass s0 none).1.tp.rcvNxt = s.tp.rcvNxt ∧
        (tcpReass s0 none).1.tp.segs = [] ∧ (tcpReass s0 none).1.log.got = s.log.got := by
      intro hq
      rw [tcpReass_empty (h4.trans hq)]
      exact ⟨h5, h4.trans hq, rfl⟩
    obtain ⟨nxt, segs, rcv, got, h⟩ := tcpReass_shape s0 none
    rw [h] at hq ⊢
    exact ⟨h1, h2, h3, rfl, hq⟩
  unfold inConnected
  simp only
  split
  · exact hreass
  · exact hreass

theorem opens_inSynSent (hw : Whole s seg i) (h0 : view s0 = view s) :
    Opens s seg (inSynSent i s0) := by
  have hdup := view_dup h0
  have hfins : s0.log.fins = s.log.fins := congrArg View.fins h0
  have hsegs : s0.tp.segs = s.tp.segs := congrArg View.segs h0
  have hgot : s0.log.got = s.log.got := congrArg View.got h0
  have hnxt := congrArg (· + 1) hw.tiSeq
  refine inSynSent_elim (Leads.ok () ((still_inRespond i s0).view.trans h0)) (leads_tcpDrop _ _ _ _)
    (Leads.ok () h0) (fun hnoack => ?_) fun _ _ => ?_
  · exact opens_inTrimSyn hw (Or.inl rfl) (fun hack => absurd hack (Bool.eq_false_iff.mp hnoack))
      hw.tiSeq hdup hfins fun hq => ⟨hnxt, hsegs.trans hq, hgot⟩
  · -- the ACK that comes with the SYN only moves the send sequence
    obtain ⟨cst, cirs, cdup, cfins, cq⟩ :=
      inConnected_shape (inSynSeen i (pullNxt (setUna s0 i.tiAck)))
    refine opens_inTrimSyn hw (Or.inr cst) (fun _ => cst) (cirs.trans hw.tiSeq) (cdup.trans hdup)
      (cfins.trans hfins) fun hq => ?_
    obtain ⟨q1, q2, q3⟩ := cq (hsegs.trans hq)
    exact ⟨q1.trans hnxt, q2, q3.trans hgot⟩

/-- Before the peer's SYN there is no header prediction, and the switch opens the connection or
leaves it. -/
theorem opens_inSwitch (hst : s.tp.tState.toNat < 3) (hcl : s.tp.tState ≠ .closed)
    (hh : inHeader s seg = some (i, s1)) :
    inPredict i s1 = .next i s1 ∧ Opens s seg (inSwitch seg i (inRcvWnd s1)) := by
  have hv := (still_inHeader hh).trans (still_inRcvWnd s1)
  have hst1 := view_st hv.view
  have hpre : inPredict i s1 = .next i s1 := by
    refine inPredict_early fun he => ?_
    rw [hst1.symm.trans he] at hst
    exact absurd hst (by decide)
  refine ⟨hpre, ?_⟩
  have hw := (inHeader_whole hh).1
  unfold inSwitch
  split
  · exact opens_inListen hw hv
  · exact opens_inSynSent hw hv.view
  · exfalso
    cases hs : s.tp.tState <;> simp_all [TcpState.toNat]

/-- **The ways before the peer's SYN.** -/
theorem tcpInput_opens (hst : s.tp.tState.toNat < 3) (h : tcpInput s seg = .ok () s') :
    view s' = view s ∨ ∃ i s1, Opened s seg i s1 ∧ inStep6 i s1 = .ok () s' := by
  unfold tcpInput at h
  split at h
  · cases h
    exact .inl rfl
  · next hno =>
    split at h
    · cases h
    · next i s1 hh =>
      obtain ⟨hpre, hopen⟩ := opens_inSwitch hst (fun he => hno (Or.inl he)) hh
      rw [hpre] at h
      change (match inSwitch seg i (inRcvWnd s1) with
        | .done o => o
        | .next i s => inStep6 i s) = _ at h
      cases hf : inSwitch seg i (inRcvWnd s1) with
      | done o =>
        rw [hf] at h hopen
        exact .inl (hopen () s' h)
      | next i2 s2 =>
        rw [hf] at h hopen
        exact .inr ⟨i2, s2, hopen, h⟩

end Anp
