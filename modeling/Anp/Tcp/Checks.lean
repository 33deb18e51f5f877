import Anp.Tcp.Input

/-!
# Checks — what `tcp_input` does before ACK processing

Reading the header, header prediction that does not apply and the checks that follow note a
timestamp or an ACK that is due, and leave the connection alone otherwise. Each of them is taken
apart here once; what they keep of a connection follows from the shapes.
-/

namespace Anp

open Cyclic Machine

variable {i i' : Inp} {seg : Segment} {s s' : Sys} {R : Sys → Sys → Prop}

/-! ## The header and its options -/

/-- The relations that reading a header and its options keep. -/
structure Reads (R : Sys → Sys → Prop) : Prop where
  refl : ∀ s, R s s
  trans : ∀ {s s' s''}, R s s' → R s' s'' → R s s''
  mss : ∀ {s s' offer mss}, tcpMss s offer = some (mss, s') → R s s'
  note : ∀ (s : Sys) idle keep scaled scale stamped val age, R s { s with tp := { s.tp with
    tIdle := idle, keep := keep, tfRcvdScale := scaled, requestedSScale := scale
    tfRcvdTstmp := stamped, tsRecent := val, tsRecentAge := age } }

theorem Reads.dooption (hR : Reads R) {ts ts' : Option Tstamp} {cp : List Byte} {opt : Byte}
    {optlen : Nat} {syn : Bool} (h : dooption s ts cp opt optlen syn = some (s', ts')) : R s s' := by
  unfold Anp.dooption at h
  split at h
  · obtain ⟨r, hr, he⟩ := Option.map_eq_some_iff.mp h
    cases he
    exact hR.mss hr
  · split at h
    · cases h
      exact hR.note s _ _ _ _ _ _ _
    · split at h
      · cases h
        split
        · exact hR.note s _ _ _ _ _ _ _
        · exact hR.refl s
      · cases h
        exact hR.refl s

theorem Reads.dooptionsLoop (hR : Reads R) {syn : Bool} (n : Nat) {ts ts' : Option Tstamp}
    {cp : List Byte} {cnt : Int} (h : dooptionsLoop syn n s ts cp cnt = some (s', ts')) :
    R s s' := by
  induction n generalizing s ts cp cnt with
  | zero =>
    cases h
    exact hR.refl _
  | succ n ih =>
    rw [Anp.dooptionsLoop] at h
    split at h
    · cases h
      exact hR.refl _
    · obtain ⟨r, hr, he⟩ := Option.bind_eq_some_iff.mp h
      exact hR.trans (hR.dooption hr) (ih he)

theorem Reads.inHeader (hR : Reads R) (h : inHeader s seg = some (i, s')) : R s s' := by
  unfold Anp.inHeader at h
  simp only at h
  split at h
  · cases h
    exact hR.note s _ _ _ _ _ _ _
  · obtain ⟨r, hr, he⟩ := Option.map_eq_some_iff.mp h
    cases he
    exact hR.trans (hR.note s _ _ _ _ _ _ _) (hR.dooptionsLoop _ hr)

/-- The segment before anything is cut from it. -/
structure Whole (s : Sys) (seg : Segment) (i : Inp) : Prop where
  tiSeq : i.tiSeq = seg.tiSeq
  tiAck : i.tiAck = seg.tiAck
  tiLen : i.tiLen = chainLen seg.m
  tiUrp : i.tiUrp = seg.tiUrp
  m : i.m = seg.m
  tiFlags : i.tiFlags = seg.tiFlags
  tiflags : i.tiflags = seg.tiFlags
  tiwin : i.tiwin = if seg.tiFlags.syn then seg.tiWin else u32 (seg.tiWin * 2 ^ s.tp.sndScale)

theorem inHeader_whole (h : inHeader s seg = some (i, s')) :
    Whole s seg i ∧ i.bcast = seg.bcast := by
  unfold inHeader at h
  simp only at h
  split at h
  · cases h
    exact ⟨⟨rfl, rfl, rfl, rfl, rfl, rfl, rfl, rfl⟩, rfl⟩
  · obtain ⟨r, -, he⟩ := Option.map_eq_some_iff.mp h
    cases he
    exact ⟨⟨rfl, rfl, rfl, rfl, rfl, rfl, rfl, rfl⟩, rfl⟩

/-! ## A segment that goes on -/

/-- The connection, but for the timestamp and an ACK that is due. -/
def Noted (s s' : Sys) : Prop :=
  ∃ val age now, s' = { s with tp := { s.tp with
    tsRecent := val, tsRecentAge := age, tfAcknow := now } }

theorem Noted.refl (s : Sys) : Noted s s := ⟨_, _, _, rfl⟩

theorem Noted.trans {s'' : Sys} (h : Noted s s') (h' : Noted s' s'') : Noted s s'' := by
  obtain ⟨a, b, c, rfl⟩ := h
  obtain ⟨d, e, f, rfl⟩ := h'
  exact ⟨d, e, f, rfl⟩

theorem noted_inTsRecent (i : Inp) (s : Sys) (e : Nat) : Noted s (inTsRecent i s e) := by
  unfold inTsRecent
  split
  · exact .refl s
  · split
    · exact ⟨_, _, _, rfl⟩
    · exact .refl s

theorem inPredict_next (h : inPredict i s = .next i' s') : i' = i ∧ Noted s s' := by
  have hts := noted_inTsRecent i s 0
  unfold inPredict at h
  simp only at h
  split at h
  · split at h
    · split at h <;> cases h
      exact ⟨rfl, hts⟩
    · split at h <;> cases h
      exact ⟨rfl, hts⟩
  · cases h
    exact ⟨rfl, .refl s⟩

theorem inPredict_early (h : s.tp.tState ≠ .established) : inPredict i s = .next i s := by
  exact if_neg fun he => h he.1

theorem inSwitch_late (seg : Segment) (i : Inp)
    (hst : s.tp.tState ≠ .listen ∧ s.tp.tState ≠ .synSent) :
    inSwitch seg i s = (inCheck i s).bind inAck := by
  unfold inSwitch
  split
  · next he => exact absurd he hst.1
  · next he => exact absurd he hst.2
  · rfl

/-! ## Before the peer's SYN -/

theorem seqLEQ_eq_not_seqGT (a b : Seq) : seqLEQ a b = !seqGT a b := by
  unfold seqLEQ seqGT
  rw [← decide_not]
  exact decide_eq_decide.mpr Int.not_lt.symm

/-- **LISTEN.** A segment is dropped with the connection, or its SYN starts one. -/
theorem inListen_elim {P : Flow → Prop} {iss : Seq}
    (drop : ∀ s' e, s' = s ∨ s' = inRespond i s → P (.done (tcpDrop s' .dropped (some e) id)))
    (divide : P (.done (.stop (.panic .divide) { s with tp := { s.tp with tTemplate := true } })))
    (syn : i.tiflags.ack = false → ∀ iss' s' ts, tcpDooptions
      { s with tp := { s.tp with tTemplate := true } } i.ts (seg.opts ++ seg.optTail)
      seg.opts.length i.tiFlags.syn = some (s', ts) → P (inTrimSyn { i with ts }
        { s' with tp :=
          { tcpRcvseqinit (tcpSendseqinit { s'.tp with iss := iss', irs := i.tiSeq }) with
            tfAcknow := true, tState := .synReceived, keep := tcptvKeepInit } })) :
    P (inListen iss seg i s) := by
  unfold inListen listenDrop
  split
  · exact drop s _ (.inl rfl)
  · split
    · exact drop _ _ (.inr rfl)
    · next hack =>
      split
      · exact drop s _ (.inl rfl)
      · split
        · exact drop s _ (.inl rfl)
        · simp only
          split
          · exact divide
          · next hopt => exact syn (Bool.eq_false_iff.mpr hack) _ _ _ hopt

/-- **SYN_SENT.** A segment is no answer to our SYN, or it brings the peer's, with or without an
ACK of ours. -/
theorem inSynSent_elim {P : Flow → Prop} (reset : P (inDropwithreset i s))
    (refused : P (.done (tcpDrop s .reset (some .econnrefused) id))) (drop : P (inDrop s))
    (both : i.tiflags.ack = false → P (inTrimSyn i
      { inSynSeen i s with tp := { (inSynSeen i s).tp with tState := .synReceived } }))
    (acked : seqLEQ i.tiAck s.tp.iss = false → seqGT i.tiAck s.tp.sndMax = false →
      P (inTrimSyn i (inConnected (inSynSeen i (pullNxt (setUna s i.tiAck)))))) :
    P (inSynSent i s) := by
  unfold inSynSent
  simp only
  split
  · exact reset
  · next htest =>
    split
    · split
      · exact refused
      · exact drop
    · split
      · exact drop
      · cases hack : i.tiflags.ack with
        | false =>
          exact both hack
        | true =>
          rw [hack] at htest
          simp only [Bool.true_and, Bool.or_eq_true, not_or, Bool.not_eq_true] at htest
          simp only [Bool.true_and, if_true]
          have hnew : seqGT i.tiAck s.tp.iss = true := by simpa [seqLEQ_eq_not_seqGT] using htest.1
          rw [if_pos (show seqGT (inSynSeen i (pullNxt (setUna s i.tiAck))).tp.sndUna
            (inSynSeen i (pullNxt (setUna s i.tiAck))).tp.iss = true from hnew)]
          exact acked htest.1 htest.2

/-! ## The checks -/

/-- A segment that the checks do not let pass is dropped or answered, or it ends the connection. -/
inductive Rejected (i : Inp) (s : Sys) : Outcome Unit → Prop
  | drop : Rejected i s (.ok () s)
  | ack : Rejected i s (callOutput { s with tp := { s.tp with tfAcknow := true } })
  | close (why : Why) (e : Option Errno) (hw : why ≠ .finAcked) :
      Rejected i s (tcpClose why { s with so := { s.so with soError := e } })
  | gone : Rejected i s (tcpClose .afterClose (inRespond i s))
  | reset : Rejected i s (tcpDrop s .reset (some .econnreset) (inRespond i))

theorem rejected_inDropafterack (i : Inp) (s : Sys) :
    ∃ o, inDropafterack i s = .done o ∧ Rejected i s o := by
  unfold inDropafterack inDrop
  split
  · exact ⟨_, rfl, .drop⟩
  · exact ⟨_, rfl, .ack⟩

theorem inPaws_cases (i : Inp) (s : Sys) :
    (∃ s', inPaws i s = .next i s' ∧ Noted s s') ∨ ∃ o, inPaws i s = .done o ∧ Rejected i s o := by
  unfold inPaws
  split
  · exact .inl ⟨s, rfl, .refl s⟩
  · split
    · split
      · exact .inl ⟨_, rfl, _, _, _, rfl⟩
      · exact .inr (rejected_inDropafterack i s)
    · exact .inl ⟨s, rfl, .refl s⟩

theorem inTrimRes_cases (i : Inp) (s : Sys) (r : Trim) :
    (∃ i' b s', r = .keep i' b ∧ inTrimRes i s r = .next i' s' ∧ Noted s s') ∨
      ∃ o, inTrimRes i s r = .done o ∧ Rejected i s o := by
  cases r with
  | keep i' b => exact .inl ⟨i', b, _, rfl, rfl, _, _, _, rfl⟩
  | dropafterack => exact .inr (rejected_inDropafterack i s)
  | reopen => exact .inr ⟨_, rfl, .close .reopened s.so.soError (by simp)⟩

theorem inGone_cases (i : Inp) (s : Sys) :
    inGone i s = .next i s ∨ ∃ o, inGone i s = .done o ∧ Rejected i s o := by
  unfold inGone
  split
  · exact .inr ⟨_, rfl, .gone⟩
  · exact .inl rfl

theorem inReset_cases (i : Inp) (s : Sys) :
    (inReset i s = .next i s ∧
        i.tiflags.rst = false ∧ i.tiflags.syn = false ∧ i.tiflags.ack = true) ∨
      ∃ o, inReset i s = .done o ∧ Rejected i s o := by
  unfold inReset
  split
  · right
    split <;> exact ⟨_, rfl, .close .reset _ (by simp)⟩
  · next hr =>
    split
    · exact .inr ⟨_, rfl, .reset⟩
    · next hs =>
      split
      · exact .inr ⟨_, rfl, .drop⟩
      · next ha =>
        exact .inl ⟨rfl, Bool.eq_false_of_not_eq_true hr, Bool.eq_false_of_not_eq_true hs,
          by simpa using ha⟩

/-- A segment that passes the checks has been cut on its left and on its right. -/
structure Passed (i : Inp) (s : Sys) (i' : Inp) (s' : Sys) : Prop where
  noted : Noted s s'
  flags : i'.tiflags.rst = false ∧ i'.tiflags.syn = false ∧ i'.tiflags.ack = true
  cut : ∃ i1 b b' tp, trimLeft s.tp.rcvNxt i = .keep i1 b ∧ trimRight tp i1 = .keep i' b' ∧
    tp.rcvNxt = s.tp.rcvNxt

theorem Passed.header (h : Passed i s i' s') : SameHeader i i' := by
  obtain ⟨i1, b, b', tp, hl, hr, -⟩ := h.cut
  have h1 := trimLeft_header hl
  have h2 := trimRight_header hr
  exact ⟨h2.tiAck.trans h1.tiAck, h2.tiFlags.trans h1.tiFlags, h2.bcast.trans h1.bcast⟩

/-- **The checks before ACK processing.** -/
theorem inCheck_cases (i : Inp) (s : Sys) :
    (∃ i' s', inCheck i s = .next i' s' ∧ Passed i s i' s') ∨
      ∃ j s1 o, inCheck i s = .done o ∧ Noted s s1 ∧ Rejected j s1 o := by
  unfold inCheck inTrim
  rcases inPaws_cases i s with ⟨s1, e1, n1⟩ | ⟨o, e1, hr⟩
  · rw [e1]
    simp only [Flow.bind]
    have hnxt : s1.tp.rcvNxt = s.tp.rcvNxt := by
      obtain ⟨a, b, c, rfl⟩ := n1
      rfl
    rcases inTrimRes_cases i s1 (trimLeft s1.tp.rcvNxt i) with ⟨i2, b, s2, hl, e2, n2⟩ | ⟨o, e2, hr⟩
    · have hnxt2 : s2.tp.rcvNxt = s1.tp.rcvNxt := by
        obtain ⟨a, b, c, rfl⟩ := n2
        rfl
      rw [e2]
      simp only
      rcases inGone_cases i2 s2 with e3 | ⟨o, e3, hr⟩
      · rw [e3]
        simp only
        rcases inTrimRes_cases i2 s2 (trimRight s2.tp i2) with
          ⟨i4, b', s4, hr, e4, n4⟩ | ⟨o, e4, hr⟩
        · rw [e4]
          simp only
          generalize (if i4.tiflags.syn || i4.tiflags.fin then 1 else 0) = e
          have hn := (n1.trans n2).trans (n4.trans (noted_inTsRecent i4 s4 e))
          rcases inReset_cases i4 (inTsRecent i4 s4 e) with ⟨e5, hf⟩ | ⟨o, e5, hr⟩
          · exact .inl ⟨i4, _, e5, hn, hf, i2, b, b', s2.tp, hnxt ▸ hl, hr, hnxt2.trans hnxt⟩
          · exact .inr ⟨i4, _, o, e5, hn, hr⟩
        · rw [e4]
          exact .inr ⟨i2, s2, o, rfl, n1.trans n2, hr⟩
      · rw [e3]
        exact .inr ⟨i2, s2, o, rfl, n1.trans n2, hr⟩
    · rw [e2]
      exact .inr ⟨i, s1, o, rfl, n1, hr⟩
  · rw [e1]
    exact .inr ⟨i, s, o, rfl, .refl s, hr⟩

theorem inCheck_next (h : inCheck i s = .next i' s') : Passed i s i' s' := by
  rcases inCheck_cases i s with ⟨j, s1, e, hp⟩ | ⟨j, s1, o, e, -⟩
  · rw [e] at h
    cases h
    exact hp
  · rw [e] at h
    cases h

theorem inCheck_done {o : Outcome Unit} (h : inCheck i s = .done o) :
    ∃ j s1, Noted s s1 ∧ Rejected j s1 o := by
  rcases inCheck_cases i s with ⟨j, s1, e, -⟩ | ⟨j, s1, o', e, hn, hr⟩
  · rw [e] at h
    cases h
  · rw [e] at h
    cases h
    exact ⟨j, s1, hn, hr⟩

/-! ## The way to ACK processing -/

/-- The way to ACK processing. -/
theorem ackStage_cases (h : ackStage s seg = some (i, s')) :
    ¬(s.tp.tState = .closed ∨ s.so.soAcceptconn ∨ s.tp.tState = .listen ∨ s.tp.tState = .synSent) ∧
      ∃ i1 s1 s2, inHeader s seg = some (i1, s1) ∧ inPredict i1 s1 = .next i1 s2 ∧
        inCheck i1 (inRcvWnd s2) = .next i s' := by
  unfold ackStage at h
  split at h
  · cases h
  · next hst =>
    obtain ⟨⟨i1, s1⟩, hh, h⟩ := Option.bind_eq_some_iff.mp h
    refine ⟨hst, i1, s1, ?_⟩
    cases hp : inPredict i1 s1 with
    | done o =>
      rw [hp] at h
      cases h
    | next i2 s2 =>
      obtain ⟨rfl, -⟩ := inPredict_next hp
      rw [hp] at h
      split at h
      · next i3 s3 hc =>
        cases h
        exact ⟨s2, hh, rfl, hc⟩
      · cases h

theorem ackStage_eq {i1 : Inp} {s1 s2 : Sys}
    (hst : ¬(s.tp.tState = .closed ∨ s.so.soAcceptconn ∨ s.tp.tState = .listen ∨
      s.tp.tState = .synSent)) (hh : inHeader s seg = some (i1, s1))
    (hp : inPredict i1 s1 = .next i1 s2) (hc : inCheck i1 (inRcvWnd s2) = .next i s') :
    ackStage s seg = some (i, s') := by
  unfold ackStage
  rw [if_neg hst, hh, Option.bind_some]
  simp only [hp, Flow.bind, hc]

end Anp
