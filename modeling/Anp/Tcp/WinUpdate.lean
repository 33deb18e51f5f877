import Anp.Tcp.AckFrame
import Anp.Tcp.History

/-!
# WinUpdate — which segments update the send window

A segment's window is adopted when the segment is newer than the one the window was taken from
last: `snd_wl1` is before its `ti_seq`, or they are equal and `snd_wl2` is before its `ti_ack`.
Header prediction takes data and ACKs without a look at either of them, so they stay behind
`rcv_nxt` and `snd_una`, and after 2^31 sequence numbers they seem to be ahead.
-/

namespace Anp

open Cyclic Machine

variable {i : Inp} {seg : Segment} {s s' s1 : Sys}

/-- The test of the window update. -/
def freshWin (i : Inp) (s : Sys) : Bool :=
  let tp := s.tp
  i.tiflags.ack && (seqLT tp.sndWl1 i.tiSeq || (tp.sndWl1 == i.tiSeq && (seqLT tp.sndWl2 i.tiAck ||
      (tp.sndWl2 == i.tiAck && decide (tp.sndWnd < i.tiwin)))))

/-- The segment and the connection when `step6` begins, `none` when the segment does not get
there. -/
def step6Stage (s : Sys) (seg : Segment) : Option (Inp × Sys) :=
  if s.tp.tState = .closed ∨ s.so.soAcceptconn then none
  else
    (inHeader s seg).bind fun r =>
      match (inPredict r.1 r.2).bind fun i s => inSwitch seg i (inRcvWnd s) with
      | .next i s => some (i, s)
      | .done _ => none

/-- Where `rcv_nxt` and `snd_una` are, counted from the segment whose window was adopted last. One
out of order begins beyond `rcv_nxt`. -/
structure Since where
  rcvd : Int
  acked : Nat
  deriving DecidableEq, Repr

variable {x : Option Since}

/-- How far `q` is past `q0`. -/
def past (q q0 : Seq) : Nat := (q - q0).toNat

theorem adv_past (q q0 : Seq) : adv q0 (past q q0) = q := by
  unfold past
  rw [← add_ofNat_eq_adv, BitVec.ofNat_toNat, BitVec.setWidth_eq, add_sub_cancel]

/-- What is received and acknowledged between two states. -/
def Since.on (l : Since) (s s' : Sys) : Since :=
  { rcvd := l.rcvd + past s'.tp.rcvNxt s.tp.rcvNxt
    acked := l.acked + past s'.tp.sndUna s.tp.sndUna }

/-- The segment's window is adopted in `s1`, and `s'` is the end of the operation. -/
def Since.from (i : Inp) (s1 s' : Sys) : Since :=
  { rcvd := gap s1.tp.rcvNxt i.tiSeq + past s'.tp.rcvNxt s1.tp.rcvNxt
    acked := past s1.tp.sndUna i.tiAck }

/-- The history; `none` while no window has been adopted on the connection. -/
def wlHistory : History (Option Since) where
  start := none
  note s op w x :=
    let s' := (step s op w).st
    match op with
    | .input seg =>
      match step6Stage (enter s w) seg with
      | some (i, s1) => if freshWin i s1 then some (.from i s1 s') else x.map fun l => l.on s s'
      | none => x.map fun l => l.on s s'
    | .connect => if connects s w then none else x.map fun l => l.on s s'
    | _ => x.map fun l => l.on s s'

/-! ## One segment -/

theorem step6Stage_some (h : step6Stage s seg = some (i, s1)) :
    (s.tp.tState ≠ .closed ∧ s.so.soAcceptconn = false) ∧ tcpInput s seg = inStep6 i s1 := by
  unfold step6Stage at h
  split at h
  · cases h
  · next hno =>
    obtain ⟨⟨i0, s0⟩, hh, h1⟩ := Option.bind_eq_some_iff.mp h
    simp only at h1
    split at h1
    · next i2 s2 hf =>
      cases h1
      refine ⟨⟨fun he => hno (Or.inl he), by simpa using fun he => hno (Or.inr he)⟩, ?_⟩
      unfold tcpInput
      rw [if_neg hno, hh]
      simp only [hf]
    · cases h1

theorem inStep6_wl (h : inStep6 i s = .ok () s') :
    s'.tp.sndUna = s.tp.sndUna ∧
      if freshWin i s = true then
        s'.tp.sndWl1 = i.tiSeq ∧ s'.tp.sndWl2 = i.tiAck ∧ s'.tp.sndWnd = i.tiwin
      else s'.tp.sndWl1 = s.tp.sndWl1 ∧ s'.tp.sndWl2 = s.tp.sndWl2 := by
  have ho := onward_inStep6 i s () s' h
  have hwin : inWindow i s = if freshWin i s = true then
      ({ i with needoutput := true },
        { s with tp := { s.tp with
          sndWnd := i.tiwin
          sndWl1 := i.tiSeq
          sndWl2 := i.tiAck
          maxSndwnd := max s.tp.maxSndwnd i.tiwin } })
    else (i, s) := rfl
  rw [hwin] at ho
  split
  · next hf =>
    rw [if_pos hf] at ho
    exact ⟨ho.una, ho.wl1, ho.wl2, ho.wnd⟩
  · next hf =>
    rw [if_neg hf] at ho
    exact ⟨ho.una, ho.wl1, ho.wl2⟩

/-- `snd_wl1` and `snd_wl2` are the same, and the connection does not go back before
ESTABLISHED. -/
structure SameWl (s s' : Sys) : Prop where
  wl1 : s'.tp.sndWl1 = s.tp.sndWl1
  wl2 : s'.tp.sndWl2 = s.tp.sndWl2
  est : 4 ≤ s.tp.tState.toNat → 4 ≤ s'.tp.tState.toNat

instance : IsTrans Sys SameWl :=
  ⟨fun _ _ _ h h' => ⟨h'.wl1.trans h.wl1, h'.wl2.trans h.wl2, h'.est ∘ h.est⟩⟩

theorem Steady.sameWl (h : Steady s s') : SameWl s s' := { h with }

theorem SameWl.of_view (h : view s' = view s) : SameWl s s' := (Onward.of_view h).steady.sameWl

theorem sameWl_compare (i : Inp) (s : Sys) :
    FlowLeads SameWl s (if seqLEQ i.tiAck s.tp.sndUna then inAckDup i s else inAckNew i s) := by
  split
  · next hle =>
    cases hc : countsDup i s with
    | true =>
      refine FlowLeads.after ?_ ((inAckDup_counted hc).mono fun _ h => h.steady.sameWl)
      exact ⟨rfl, rfl, id⟩
    | false =>
      rw [inAckDup_clears hle hc]
      exact ⟨rfl, rfl, id⟩
  · refine FlowLeads.after ?_ ((inAckNew_clears i s).mono fun _ h => h.sameWl)
    exact ⟨rfl, rfl, id⟩

theorem step6Stage_eq (hst : 3 ≤ s.tp.tState.toNat) :
    step6Stage s seg = (ackStage s seg).bind fun r =>
      match inAck r.1 r.2 with
      | .next i s => some (i, s)
      | .done _ => none := by
  have hno : s.tp.tState ≠ .closed ∧ s.tp.tState ≠ .listen ∧ s.tp.tState ≠ .synSent := by
    refine ⟨?_, ?_, ?_⟩ <;> (intro he; rw [he] at hst; exact absurd hst (by decide))
  unfold step6Stage ackStage
  simp only [hno, false_or, or_false]
  split
  · rfl
  · cases hh : inHeader s seg with
    | none => rfl
    | some r =>
      obtain ⟨i, s1⟩ := r
      simp only [Option.bind_some]
      cases hp : inPredict i s1 with
      | done o => rfl
      | next i2 s2 =>
        have hst2 : (inRcvWnd s2).tp.tState = s.tp.tState := congrArg View.st
          (((still_inHeader hh).trans (inPredict_next hp).2.still).trans (still_inRcvWnd s2)).view
        simp only [Flow.bind, inSwitch_late seg i2 (hst2 ▸ hno.2)]
        cases inCheck i2 (inRcvWnd s2) <;> rfl

theorem sameWl_inAck (i : Inp) (hst : s.tp.tState ≠ .synReceived) :
    FlowLeads SameWl s (inAck i s) := by
  unfold inAck
  simp only
  rw [if_neg hst]
  exact sameWl_compare i s

/-- What a segment makes of `snd_wl1` and `snd_wl2`, in ESTABLISHED and later. -/
theorem sameWl_before6 (seg : Segment) (h4 : 4 ≤ s.tp.tState.toNat) :
    match step6Stage s seg with
    | some (_, s1) => SameWl s s1
    | none => Leads SameWl s (tcpInput s seg) := by
  have h3 : 3 ≤ s.tp.tState.toNat := by omega
  have hnsr : s.tp.tState ≠ .synReceived := by
    intro he
    rw [he] at h4
    exact absurd h4 (by decide)
  rw [step6Stage_eq h3]
  cases hi : ackStage s seg with
  | some r =>
    obtain ⟨i, s1⟩ := r
    have hs := ackStage_staged hi
    have hst1 := view_st hs.still.view
    have hack := sameWl_inAck i (s := s1) (by rw [hst1]; exact hnsr)
    have h01 : SameWl s s1 := .of_view hs.still.view
    have hrest := hs.rest
    rw [Option.bind_some]
    cases ha : inAck i s1 with
    | next i2 s2 =>
      rw [ha] at hack
      exact IsTrans.trans _ _ _ h01 hack
    | done o =>
      rw [ha] at hack hrest
      simp only
      rw [hrest]
      exact Leads.after h01 hack
  | none =>
    intro a s' h
    cases hacc : s.so.soAcceptconn with
    | true =>
      have : tcpInput s seg = .ok () s := if_pos (Or.inr hacc)
      rw [this] at h
      cases h
      exact ⟨rfl, rfl, id⟩
    | false =>
      rcases tcpInput_ways hacc h3 h with ⟨-, hv⟩ | ⟨i, s1, -, hh, hd⟩ | ⟨i, s1, hi'⟩
      · exact .of_view hv
      · exact IsTrans.trans _ _ _ (SameWl.of_view (still_inHeader hh).view) (inPredict_steady hd).1.1.sameWl
      · rw [hi] at hi'
        cases hi'

theorem step6Stage_opened (hst : s.tp.tState.toNat < 3) (h : step6Stage s seg = some (i, s1)) :
    Opened s seg i s1 := by
  unfold step6Stage at h
  split at h
  · cases h
  · next hno =>
    obtain ⟨⟨i0, s0⟩, hh, h1⟩ := Option.bind_eq_some_iff.mp h
    obtain ⟨hpre, hopen⟩ := opens_inSwitch hst (fun he => hno (Or.inl he)) hh
    simp only at h1
    rw [hpre] at h1
    change (match inSwitch seg i0 (inRcvWnd s0) with
      | .next i s => some (i, s)
      | .done _ => none) = _ at h1
    cases hf : inSwitch seg i0 (inRcvWnd s0) with
    | done o =>
      rw [hf] at h1
      cases h1
    | next i2 s2 =>
      rw [hf] at h1 hopen
      cases h1
      exact hopen

theorem step6Stage_est (h3 : 3 ≤ s.tp.tState.toNat) (h : step6Stage s seg = some (i, s1)) :
    4 ≤ s1.tp.tState.toNat := by
  rw [step6Stage_eq h3] at h
  obtain ⟨⟨i0, s0⟩, hi, h1⟩ := Option.bind_eq_some_iff.mp h
  have hs := ackStage_staged hi
  simp only at h1
  split at h1
  · next i2 s2 ha =>
    cases h1
    change (afterSyn i0 s0).bind _ = _ at ha
    rcases afterSyn_cases i0 s0 with ⟨-, hno⟩ | ⟨s3, hyes, -, -, -, hest⟩
    · rw [hno] at ha
      cases ha
    · rw [hyes] at ha
      have hcmp := sameWl_compare i0 s3
      rw [show (if seqLEQ i0.tiAck s3.tp.sndUna then inAckDup i0 s3 else inAckNew i0 s3) =
        .next i s1 from ha] at hcmp
      exact hcmp.est (hest ((view_st hs.still.view).symm ▸ h3))
  · cases h1

theorem fresh_established (h : step6Stage s seg = some (i, s1)) (hf : freshWin i s1 = true) :
    4 ≤ s1.tp.tState.toNat := by
  by_cases h3 : 3 ≤ s.tp.tState.toNat
  · exact step6Stage_est h3 h
  · have ho := step6Stage_opened (by omega) h
    unfold freshWin at hf
    simp only [Bool.and_eq_true] at hf
    rw [ho.ack hf.1]
    decide

/-! ## Runs -/

/-- `snd_wl1` and `snd_wl2` are where the history says; before ESTABLISHED there is none. -/
structure WlInv (s : Sys) (x : Option Since) : Prop where
  early : s.tp.tState.toNat < 4 → x = none
  since : ∀ l, x = some l →
    s.tp.rcvNxt = adv s.tp.sndWl1 l.rcvd ∧ s.tp.sndUna = adv s.tp.sndWl2 l.acked

theorem WlInv.none (s : Sys) : WlInv s none := ⟨fun _ => rfl, by simp⟩

theorem WlInv.late {l : Since} (h : WlInv s (some l)) : 4 ≤ s.tp.tState.toNat :=
  Nat.le_of_not_lt fun hlt => nomatch h.early hlt

theorem WlInv.on (h : WlInv s x) (hw : x.isSome → SameWl s s') :
    WlInv s' (x.map fun l => l.on s s') := by
  cases x with
  | none => exact .none s'
  | some l =>
    obtain ⟨hr, hu⟩ := h.since l rfl
    have hwl := hw rfl
    refine ⟨fun hlt => absurd (hwl.est h.late) (by omega), ?_⟩
    rintro _ ⟨⟩
    refine ⟨?_, ?_⟩
    · rw [hwl.wl1]
      show _ = adv _ (l.rcvd + past s'.tp.rcvNxt s.tp.rcvNxt)
      rw [← adv_adv, ← hr, adv_past]
    · rw [hwl.wl2]
      show _ = adv _ ((l.acked + past s'.tp.sndUna s.tp.sndUna : Nat) : Int)
      rw [Nat.cast_add, ← adv_adv, ← hu, adv_past]

theorem WlInv.from (h4 : 4 ≤ s1.tp.tState.toNat) (hf : freshWin i s1 = true)
    (h : inStep6 i s1 = .ok () s') : WlInv s' (some (.from i s1 s')) := by
  have ho := onward_inStep6 i s1 () s' h
  obtain ⟨huna, hwl⟩ := inStep6_wl h
  rw [if_pos hf] at hwl
  have hst : (inWindow i s1).2.tp.tState = s1.tp.tState := by
    unfold inWindow
    simp only
    split <;> rfl
  have h4' : 4 ≤ s'.tp.tState.toNat := ho.est (hst.symm ▸ h4)
  refine ⟨fun hlt => absurd h4' (by omega), ?_⟩
  rintro _ ⟨⟩
  refine ⟨?_, ?_⟩
  · rw [hwl.1]
    show _ = adv _ (gap s1.tp.rcvNxt i.tiSeq + past s'.tp.rcvNxt s1.tp.rcvNxt)
    rw [← adv_adv, adv_gap, adv_past]
  · rw [hwl.2.1, huna]
    exact (adv_past _ _).symm

theorem wlInv_input {w : World} (h : WlInv s x) (hs' : step s (.input seg) w = .ok () s') :
    WlInv s' (wlHistory.note s (.input seg) w x) := by
  have hin : tcpInput (enter s w) seg = .ok () s' := hs'
  have henter : WlInv (enter s w) x := ⟨h.early, h.since⟩
  -- a window was adopted before: the connection is established
  have h4 : x.isSome → 4 ≤ s.tp.tState.toNat := by
    intro hx
    obtain ⟨l, rfl⟩ := Option.isSome_iff_exists.mp hx
    exact h.late
  show WlInv s' (match step6Stage (enter s w) seg with
    | some (i, s1) => if freshWin i s1 then some (.from i s1 (step s (.input seg) w).st) else
        x.map fun l => l.on s (step s (.input seg) w).st
    | none => x.map fun l => l.on s (step s (.input seg) w).st)
  rw [hs']
  cases hst : step6Stage (enter s w) seg with
  | none =>
    refine henter.on fun hx => ?_
    have hb := sameWl_before6 (s := enter s w) seg (h4 hx)
    rw [hst] at hb
    exact hb () s' hin
  | some r =>
    obtain ⟨i, s1⟩ := r
    have h6 : inStep6 i s1 = .ok () s' := (step6Stage_some hst).2.symm.trans hin
    simp only
    split
    · next hf => exact .from (fresh_established hst hf) hf h6
    · next hf =>
      refine henter.on fun hx => ?_
      have hb := sameWl_before6 (s := enter s w) seg (h4 hx)
      rw [hst] at hb
      have hwl := (inStep6_wl h6).2
      rw [if_neg hf] at hwl
      have ho := onward_inStep6 i s1 () s' h6
      have hno : inWindow i s1 = (i, s1) := if_neg hf
      rw [hno] at ho
      exact IsTrans.trans _ _ _ hb ⟨hwl.1, hwl.2, ho.est⟩

theorem wlInv_step {op : Op} {w : World} (h : s.so.soAcceptconn = true ∨ WlInv s x)
    (hs' : step s op w = .ok () s') :
    s'.so.soAcceptconn = true ∨ WlInv s' (wlHistory.note s op w x) := by
  cases op with
  | input seg => exact unless_listening_input h hs' fun h _ => wlInv_input h hs'
  | connect =>
    cases hc : connects s w with
    | false =>
      have he := step_connect_refused hc
      rw [he] at hs'
      cases hs'
      simp only [wlHistory, hc, he]
      exact h.imp id fun h => h.on fun _ => ⟨rfl, rfl, id⟩
    | true =>
      right
      simp only [wlHistory, hc, if_true]
      exact .none s'
  | _ =>
    refine unless_listening_aside h (by simp) (by simp) hs' fun h ha hst => ?_
    simp only [wlHistory, hs']
    refine h.on fun _ => ⟨congrArg View.wl1 ha.view, congrArg View.wl2 ha.view, fun h4 => ?_⟩
    by_contra hlt
    have h4' : s.tp.tState.toNat < 4 := hst.early (by omega)
    have h4 : 4 ≤ s.tp.tState.toNat := h4
    omega

/-- **Where `snd_wl1` and `snd_wl2` are, in every run.** -/
theorem wlHistory_inv {C : Cond} (h : wlHistory.Reachable C (.ok () s, x)) :
    s.so.soAcceptconn = true ∨ WlInv s x := by
  refine History.Reachable.invariant (g := wlHistory) (C := C)
    (I := fun o x => ∀ s, o = .ok () s → s.so.soAcceptconn = true ∨ WlInv s x) ?_ ?_ h s rfl
  · rintro o - s rfl
    exact .inr (.none s)
  · intro s op w x hI _ s' hs'
    exact wlInv_step (hI s rfl) hs'

/-! ## A new ACK in order -/

theorem wnd_inStep6 (i : Inp) (s : Sys) :
    (inStep6 i s).st.tp.sndWnd = (inWindow i s).2.tp.sndWnd := by
  unfold inStep6
  simp only
  generalize (inWindow i s).1 = i1
  generalize (inWindow i s).2 = s1
  have hmark : (markUrgent i1 s1).tp.sndWnd = s1.tp.sndWnd := by
    unfold markUrgent
    simp only
    split <;> rfl
  cases hf : inUrgent i1 s1 with
  | done o =>
    -- only `tcp_pulloutofband` panics
    unfold inUrgent at hf
    split at hf
    · split at hf
      · cases hf
      · simp only at hf
        split at hf
        · unfold tcpPulloutofband at hf
          split at hf
          · cases hf
          · cases hf
            exact hmark
        · cases hf
    · cases hf
  | next i2 s2 =>
    have hu := onward_inUrgent i1 s1
    rw [hf] at hu
    have hw : (inFin (inText i2 s2).1 (inText i2 s2).2).tp.sndWnd = s1.tp.sndWnd :=
      (onward_inFin _ _).wnd.trans ((onward_inText i2 s2).wnd.trans hu.wnd)
    simp only
    split
    · exact (congrArg View.wnd (view_callOutput _)).trans hw
    · exact hw

theorem sbdrop_ok {sb : Sockbuf} {n : Int} (hwf : SbWf sb) (h : n ≤ sb.sbCc) :
    ∃ sb', sbdrop sb n = some sb' := by
  have hnat : sbdrop sb n = sbdrop sb n.toNat := by
    unfold sbdrop
    rw [Int.toNat_natCast]
  obtain ⟨sb', hs, -⟩ := sbdrop_spec sb n.toNat hwf (by omega)
  exact ⟨sb', hnat.trans hs⟩

/-- A new ACK of what was sent comes to the window update, unless the connection is over. -/
theorem inAckNew_next (hwf : SbWf s.so.soSnd)
    (hst : s.tp.tState ≠ .lastAck ∧ s.tp.tState ≠ .timeWait)
    (hmax : seqGT i.tiAck s.tp.sndMax = false) :
    ∃ b s', inAckNew i s = .next { i with needoutput := b } s' := by
  unfold inAckNew
  simp only
  generalize (if tcpRexmtthresh < s.tp.tDupacks ∧ s.tp.sndSsthresh < s.tp.sndCwnd then
    s.tp.sndSsthresh else s.tp.sndCwnd) = cwnd
  rw [if_neg (by simpa using hmax)]
  set s1 : Sys := { s with tp := { s.tp with sndCwnd := cwnd, tDupacks := 0 } }
  generalize (i.needoutput || i.tiAck == s.tp.sndMax) = b
  have hprep : (ackPrepare { i with needoutput := b } s1).so = s.so ∧
      (ackPrepare { i with needoutput := b } s1).tp.tState = s.tp.tState := by
    obtain ⟨a1, a2, a3, a4, a5, a6, hx, -⟩ := inXmitTimer_eq { i with needoutput := b } s1
    unfold ackPrepare
    simp only [hx, ackTimer_rexmt]
    exact ⟨rfl, rfl⟩
  generalize ackPrepare { i with needoutput := b } s1 = s2 at hprep
  have hdata : ∃ fin s3, ackData { i with needoutput := b } s2 = .ok fin s3 ∧
      s3.tp.tState = s.tp.tState := by
    unfold ackData dropSnd
    simp only
    set n : Int := if decide (s2.so.soSnd.sbCc < u32 (gap i.tiAck s2.tp.sndUna)) = true then
      (s2.so.soSnd.sbCc : Int) else gap i.tiAck s2.tp.sndUna with hn
    have hle : n ≤ s2.so.soSnd.sbCc := by
      rw [hn]
      split
      · exact Int.le_refl _
      · next hcc =>
        rw [decide_eq_true_eq] at hcc
        obtain ⟨hlo, hhi⟩ := gap_range i.tiAck s2.tp.sndUna
        by_cases h0 : 0 ≤ gap i.tiAck s2.tp.sndUna
        · rw [u32_of_range h0 (by omega)] at hcc
          omega
        · omega
    obtain ⟨sb', hsb⟩ := sbdrop_ok (hprep.1 ▸ hwf : SbWf s2.so.soSnd) hle
    rw [hsb]
    exact ⟨_, _, rfl, hprep.2⟩
  obtain ⟨fin, s3, hd, hst3⟩ := hdata
  rw [hd]
  simp only
  unfold inAckState
  split
  · split <;> exact ⟨b, _, rfl⟩
  · split <;> exact ⟨b, _, rfl⟩
  · next he => exact absurd (hst3.symm.trans he) hst.1
  · next he => exact absurd (hst3.symm.trans he) hst.2
  · exact ⟨b, _, rfl⟩

/-- A segment at `rcv_nxt` that gets to ACK processing still begins there. -/
theorem Staged.inOrder (h : Staged s seg i s1) (hseq : seg.tiSeq = s.tp.rcvNxt) :
    i.tiSeq = s.tp.rcvNxt ∧ i.tiAck = seg.tiAck ∧
      i.tiwin = u32 (seg.tiWin * 2 ^ s.tp.sndScale) := by
  obtain ⟨i0, i1, b, b', tp, hw, hl, hr, -⟩ := h.cut
  have hkeep : trimLeft s.tp.rcvNxt i0 = .keep i0 false := by
    unfold trimLeft
    simp only
    rw [hw.tiSeq, hseq, gap_self]
    rfl
  rw [hkeep] at hl
  cases hl
  have hsyn : seg.tiFlags.syn = false := by
    rw [← hw.tiflags]
    have hf := h.flags.2.1
    rcases trimRight_keep hr with rfl | rfl <;> exact hf
  have hseq1 : i.tiSeq = i0.tiSeq := by
    rcases trimRight_keep hr with rfl | rfl <;> rfl
  refine ⟨hseq1.trans (hw.tiSeq.trans hseq), (trimRight_header hr).tiAck.trans hw.tiAck, ?_⟩
  rw [trimRight_tiwin hr, hw.tiwin, hsyn]
  rfl

/-- An acceptable segment was taken by header prediction, or it gets to ACK processing. -/
theorem acceptable_cases (h : acceptable s seg = true) :
    (∃ i s1 o, inHeader s seg = some (i, s1) ∧ inPredict i s1 = .done o ∧ tcpInput s seg = o) ∨
      ∃ r, ackStage s seg = some r := by
  unfold acceptable at h
  rcases Bool.or_eq_true_iff.mp h with hp | hi
  · left
    unfold predicted at hp
    rw [Bool.and_eq_true] at hp
    obtain ⟨hacc, hany⟩ := hp
    cases hh : inHeader s seg with
    | none =>
      rw [hh] at hany
      cases hany
    | some r =>
      obtain ⟨i, s1⟩ := r
      rw [hh] at hany
      obtain ⟨o, hpr⟩ := takesFast_done (show takesFast i s1 = true from hany)
      refine ⟨i, s1, o, rfl, hpr, ?_⟩
      have hst : s.tp.tState = .established :=
        (view_st (still_inHeader hh).view).symm.trans (inPredict_done hpr).1.1
      unfold tcpInput
      rw [if_neg (by simpa [hst] using hacc), hh]
      simp only [hpr]
      rfl
  · exact .inr (Option.isSome_iff_exists.mp hi)

theorem acceptable_open (h : acceptable s seg = true) :
    s.so.soAcceptconn = false := by
  rcases Bool.or_eq_true_iff.mp h with hp | hi
  · unfold predicted at hp
    rw [Bool.and_eq_true] at hp
    simpa using hp.1
  · obtain ⟨⟨i, s1⟩, hi⟩ := Option.isSome_iff_exists.mp hi
    exact (ackStage_staged hi).open_.1

/-- What the history says makes a segment at `rcv_nxt` with a new ACK fresh. -/
theorem fresh_of_since {tp : Tcpcb} {l : Since} {ack : Seq}
    (hr : tp.rcvNxt = adv tp.sndWl1 l.rcvd) (hu : tp.sndUna = adv tp.sndWl2 l.acked)
    (hnew : 0 < gap ack tp.sndUna) (hrcvd : 0 ≤ l.rcvd ∧ l.rcvd < 2147483648)
    (hacked : l.rcvd = 0 → l.acked + gap ack tp.sndUna ≤ 2147483648) :
    gap tp.rcvNxt tp.sndWl1 = l.rcvd ∧ (seqLT tp.sndWl1 tp.rcvNxt ||
        (tp.sndWl1 == tp.rcvNxt && seqLT tp.sndWl2 ack)) = true := by
  have hback : ∀ (q : Seq) (z : Int), 0 < z → z ≤ 2147483648 → seqLT q (adv q z) = true := by
    intro q z h0 h1
    have h := @gap_adv q 0 z (by omega) (by omega)
    rw [adv_zero] at h
    exact decide_eq_true (by omega)
  refine ⟨?_, ?_⟩
  · have h := @gap_adv tp.sndWl1 l.rcvd 0 (by omega) (by omega)
    rw [adv_zero, ← hr] at h
    omega
  · by_cases h0 : l.rcvd = 0
    · have hwl1 : tp.sndWl1 = tp.rcvNxt := by
        rw [hr, h0, adv_zero]
      have hack : ack = adv tp.sndWl2 (l.acked + gap ack tp.sndUna) := by
        rw [← adv_adv, ← hu, adv_gap]
      have hlt := hback tp.sndWl2 (l.acked + gap ack tp.sndUna) (by omega) (hacked h0)
      rw [← hack] at hlt
      simp [hwl1, hlt]
    · have hlt := hback tp.sndWl1 l.rcvd (by omega) (by omega)
      rw [← hr] at hlt
      simp [hlt]

/-- **Window updates do not go stale.** In every run, on a connection that is not over: when the
segment of the last window update began at or before `rcv_nxt`, and less than 2^31 sequence numbers
have come since, `snd_wl1` is behind `rcv_nxt` by that much, and the window of an acceptable segment
at `rcv_nxt` that acknowledges new data is adopted. Right after the update, what has been
acknowledged since counts as well. -/
theorem window_adopted {s : Sys} {w : World} {seg : Segment} {l : Since}
    (h : wlHistory.Reachable (fun _ _ _ => True) (.ok () s, some l))
    (hst : s.tp.tState ≠ .lastAck ∧ s.tp.tState ≠ .timeWait)
    (hseq : seg.tiSeq = s.tp.rcvNxt) (hacpt : acceptable (enter s w) seg = true)
    (hnew : seqGT seg.tiAck s.tp.sndUna = true) (hmax : seqGT seg.tiAck s.tp.sndMax = false)
    (hrcvd : 0 ≤ l.rcvd ∧ l.rcvd < 2147483648)
    (hacked : l.rcvd = 0 → l.acked + gap seg.tiAck s.tp.sndUna ≤ 2147483648) :
    gap s.tp.rcvNxt s.tp.sndWl1 = l.rcvd ∧
      (step s (.input seg) w).st.tp.sndWnd = u32 (seg.tiWin * 2 ^ s.tp.sndScale) := by
  have hnew' : 0 < gap seg.tiAck s.tp.sndUna := of_decide_eq_true hnew
  have hwf : SbWf s.so.soSnd := h.state.sndWf
  have hopen : s.so.soAcceptconn = false := acceptable_open (s := enter s w) hacpt
  have hinv : WlInv s (some l) := (wlHistory_inv h).resolve_left (by simp [hopen])
  obtain ⟨hr, hu⟩ := hinv.since l rfl
  obtain ⟨hgap, hfresh⟩ := fresh_of_since hr hu hnew' hrcvd hacked
  have h4 := hinv.late
  refine ⟨hgap, ?_⟩
  show (tcpInput (enter s w) seg).st.tp.sndWnd = _
  rcases acceptable_cases hacpt with ⟨i, s1, o, hh, hp, ho⟩ | ⟨⟨i, s1⟩, hi⟩
  · obtain ⟨⟨-, hwnd⟩, hwin, hsyn⟩ := inPredict_steady hp
    have hw := (inHeader_whole hh).1
    rw [ho, hwnd, ← hwin, hw.tiwin, ← hw.tiflags, hsyn]
    rfl
  · have hs := ackStage_staged hi
    obtain ⟨hseq1, hack1, hwin1⟩ := hs.inOrder hseq
    have hst1 : s1.tp.tState = s.tp.tState := congrArg View.st hs.still.view
    have huna1 : s1.tp.sndUna = s.tp.sndUna := congrArg View.una hs.still.view
    have hnsr : s1.tp.tState ≠ .synReceived := by
      intro he
      rw [hst1.symm.trans he] at h4
      exact absurd h4 (by decide)
    have hle : ¬seqLEQ i.tiAck s1.tp.sndUna = true := by
      rw [seqLEQ_eq_not_seqGT, hack1, huna1, hnew]
      simp
    have hin : inAck i s1 = inAckNew i s1 := by
      unfold inAck
      simp only
      rw [if_neg hnsr]
      exact if_neg hle
    obtain ⟨b, s2, hnext⟩ := @inAckNew_next i s1 (.congr hs.still.snd hwf) (hst1.symm ▸ hst)
      (by rw [hack1, snd_max (ackStage_some hi).calm.view]; exact hmax)
    have hwl := sameWl_inAck i hnsr
    rw [hin, hnext] at hwl
    have hwl1 : s2.tp.sndWl1 = s.tp.sndWl1 := hwl.wl1.trans (congrArg View.wl1 hs.still.view)
    have hwl2 : s2.tp.sndWl2 = s.tp.sndWl2 := hwl.wl2.trans (congrArg View.wl2 hs.still.view)
    have hf : freshWin { i with needoutput := b } s2 = true := by
      unfold freshWin
      simp only [hs.flags.2.2, Bool.true_and, hwl1, hwl2, hseq1, hack1]
      simp only [Bool.or_eq_true, Bool.and_eq_true] at hfresh ⊢
      exact hfresh.imp id fun hx => ⟨hx.1, .inl hx.2⟩
    have hwin : (inWindow { i with needoutput := b } s2).2.tp.sndWnd = i.tiwin := by
      unfold inWindow
      simp only
      exact congrArg (fun r : Inp × Sys => r.2.tp.sndWnd) (if_pos hf)
    rw [hs.rest, hin, hnext, wnd_inStep6, hwin, hwin1]
    rfl

def wlRun (ops : List (Op × World)) : Outcome Unit × Option Since :=
  wlHistory.run (.ok () (socreate true), none) ops

def roomier : Segment := bareSeg 501 111 { ack := true } 6000 []

theorem window_adopted_after_syn :
    gap (wlRun sentTwenty).1.st.tp.rcvNxt (wlRun sentTwenty).1.st.tp.sndWl1 = 0 ∧
      (step (wlRun sentTwenty).1.st (.input roomier) (calmWorld 3)).st.tp.sndWnd = 6000 := by
  have hr : wlHistory.Reachable (fun _ _ _ => True) (wlRun sentTwenty) :=
    History.Reachable.run (Runs.Reach.start ⟨.active true, rfl⟩) _ (by decide +kernel)
  have hp : wlRun sentTwenty = (.ok () (wlRun sentTwenty).1.st, some ⟨0, 0⟩) := by decide +kernel
  rw [hp] at hr
  exact window_adopted (l := ⟨0, 0⟩) hr (by decide +kernel) (by decide +kernel) (by decide +kernel)
    (by decide +kernel) (by decide +kernel) (by decide +kernel) (fun _ => by decide +kernel)

/-- A byte ten places beyond `rcv_nxt`, whose window is adopted. -/
def outOfOrder : Segment :=
  { tiSeq := 511, tiAck := 101, tiFlags := { ack := true }, tiWin := 4000, m := [{ mData := [7] }]
    len_lt := octet_len_lt }

/-- `snd_wl1` is then ahead of `rcv_nxt`, and the window of the segment in order is not adopted. -/
theorem window_out_of_order :
    let s := (wlRun (sentTwenty ++ [(.input outOfOrder, calmWorld 3)])).1.st
    Reachable (fun _ _ _ => True) (.ok () s) ∧
      (s.tp.tState = .established ∧ roomier.tiSeq = s.tp.rcvNxt ∧
        acceptable (enter s (calmWorld 3)) roomier = true ∧
        seqGT roomier.tiAck s.tp.sndUna = true ∧ seqGT roomier.tiAck s.tp.sndMax = false) ∧
      gap s.tp.rcvNxt s.tp.sndWl1 = -10 ∧
      (step s (.input roomier) (calmWorld 3)).st.tp.sndWnd = 3990 := by
  refine ⟨?_, by decide +kernel, by decide +kernel, by decide +kernel⟩
  have hr := reachable_runOps (.active true) (sentTwenty ++ [(.input outOfOrder, calmWorld 3)])
  have he : runOps (.ok () (socreate true)) (sentTwenty ++ [(.input outOfOrder, calmWorld 3)]) =
      .ok () (wlRun (sentTwenty ++ [(.input outOfOrder, calmWorld 3)])).1.st := by decide +kernel
  rw [he] at hr
  exact hr

end Anp
