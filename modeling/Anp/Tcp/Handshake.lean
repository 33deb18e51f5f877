import Anp.Tcp.Acts
import Anp.Tcp.Stream

/-!
# Handshake — from SYN_RECEIVED to ESTABLISHED

Until our SYN is acknowledged `snd_una` is at `iss`, in every run (`SynUna`). So the test in
SYN_RECEIVED, which compares with `snd_una`, lets `iss` itself pass; the test in SYN_SENT, which
compares with `iss`, does not. `handshake_iff` says exactly which numbers are mistaken.
-/

namespace Anp

open Cyclic Machine

variable {i : Inp} {seg : Segment} {α : Type}

/-! ## Before our SYN is acknowledged -/

def SynUna (s : Sys) : Prop :=
  s.tp.tState = .synSent ∨ s.tp.tState = .synReceived → s.tp.sndUna = s.tp.iss

variable {ack : Seq} {s s' : Sys}

theorem SynUna.of_synced (h : Synced s.tp.tState) : SynUna s := by
  rintro (h1 | h1)
  · exact absurd h1 h.1
  · exact absurd h1 h.2

theorem SynUna.move (h : SynUna s) (hm : AckMove ack s s') : SynUna s' := by
  rcases hm.st with hst | hst
  · rcases hm.una with ⟨-, hun⟩ | ⟨-, hs⟩
    · intro h1
      rw [hst] at h1
      rw [hun, hm.iss]
      exact h h1
    · exact .of_synced hs
  · exact .of_synced hst

theorem SynUna.congr (h : SynUna s) (hst : s'.tp.tState = s.tp.tState)
    (hun : s'.tp.sndUna = s.tp.sndUna) (hiss : s'.tp.iss = s.tp.iss) : SynUna s' := by
  intro h1
  rw [hst] at h1
  rw [hun, hiss]
  exact h h1

theorem Does.synUna {o : Outcome α} (hd : Does False ack s o) (h : SynUna s) : SynUna o.st :=
  h.move hd.move

theorem synUna_tcpDrop (h : SynUna s) (why : Why) (errno : Option Errno) :
    SynUna (tcpDrop s why errno id : Outcome α).st := by
  have hd : Does False 0 s (tcpDrop s why errno id : Outcome α) := does_tcpDrop s why errno .refl
  exact hd.synUna h

theorem synUna_userStep (h : SynUna s) (op : Op) (hop : op = .connect ∨ ∃ m oob, op = .send m oob) :
    SynUna (userStep s op).st := by
  have hout : ∀ s', Does False 0 s' (callOutput s') := does_callOutput
  have hforce : ∀ s', Does False 0 s' (forceOutput s') := does_forceOutput
  rcases hop with rfl | ⟨m, oob, rfl⟩
  · rw [userStep]
    split
    · unfold tcpConnect
      split
      · exact h
      · exact (hout _).synUna fun _ => rfl
    · exact h
  · have happ : SynUna (appendSnd s m) := h.congr rfl rfl rfl
    rw [userStep]
    split
    · split
      · unfold tcpSendoob
        split
        · exact h
        · refine (hforce _).synUna ?_
          exact happ.congr rfl rfl rfl
      · exact (hout _).synUna happ
    · exact h

/-! ## Segments -/

theorem SynUna.calm (h : SynUna s) (hc : Calm s s') : SynUna s' :=
  h.congr (congrArg Snd.st hc.view) (congrArg Snd.una hc.view) (congrArg Snd.iss hc.view)

def FlowSyn : Flow → Prop
  | .next _ s => SynUna s
  | .done o => SynUna o.st

theorem flowSyn_inTrimSyn (h : SynUna s) : FlowSyn (inTrimSyn i s) := h.congr rfl rfl rfl

theorem flowSyn_inListen {iss : Seq} (h : SynUna s) :
    FlowSyn (inListen iss seg i s) := by
  refine inListen_elim ?_ (h.congr rfl rfl rfl) fun _ _ _ _ _ => flowSyn_inTrimSyn fun _ => rfl
  rintro s' e (rfl | rfl)
  · exact synUna_tcpDrop h _ _
  · exact synUna_tcpDrop (h.calm (calm_inRespond i s)) _ _

theorem flowSyn_inSynSent (h : SynUna s) (hst : s.tp.tState = .synSent) :
    FlowSyn (inSynSent i s) := by
  refine inSynSent_elim (h.calm (calm_inRespond i s)) (synUna_tcpDrop h _ _) h
    (fun _ => flowSyn_inTrimSyn fun _ => h (Or.inl hst)) fun _ _ => ?_
  refine flowSyn_inTrimSyn (.of_synced ?_)
  have hc := calm_inConnected (inSynSeen i (pullNxt (setUna s i.tiAck)))
  have hest : (inConnected (inSynSeen i (pullNxt (setUna s i.tiAck)))).tp.tState =
      .established := by
    refine (congrArg Snd.st hc.view).trans ?_
    unfold inScale
    split <;> rfl
  rw [hest]
  simp [Synced]

theorem synUna_tcpInput (h : SynUna s) (hp : s.log.passes = []) : SynUna (tcpInput s seg).st := by
  by_cases hst : s.tp.tState ≠ .listen ∧ s.tp.tState ≠ .synSent
  · exact (does_tcpInput seg hp hst).synUna h
  · unfold tcpInput
    split
    · exact h
    · split
      · exact h
      · next i1 s1 hh =>
        have hc1 := (inHeader_calm hh).1
        rw [inPredict_early fun he => hst (by simp [(snd_st hc1.view).symm.trans he])]
        have hc2 := hc1.trans (calm_inRcvWnd s1)
        have hst2 := snd_st hc2.view
        have hflow : FlowSyn (inSwitch seg i1 (inRcvWnd s1)) := by
          unfold inSwitch
          split
          · exact flowSyn_inListen (h.calm hc2)
          · next hs => exact flowSyn_inSynSent (h.calm hc2) hs
          · next hl hs =>
            rw [hst2] at hl hs
            exact absurd ⟨hl, hs⟩ hst
        rw [Flow.bind]
        cases hf : inSwitch seg i1 (inRcvWnd s1) with
        | done o =>
          rw [hf] at hflow
          exact hflow
        | next i2 s2 =>
          rw [hf] at hflow
          have hgo : FlowGoes True (inRcvWnd s1) (inSwitch seg i1 (inRcvWnd s1)) :=
            goes_inSwitch trivial seg i1 (hc2.passes.trans hp) fun hs => hst (hst2 ▸ hs)
          rw [hf] at hgo
          have hp2 := (hgo.2.trans hc2.passes).trans hp
          exact (does_inStep6 rfl hp2).synUna hflow

theorem synUna_step (h : SynUna s) (op : Op) (w : World) : SynUna (step s op w).st := by
  have he : SynUna (enter s w) := h.congr rfl rfl rfl
  have huser : ∀ op, op = .connect ∨ (∃ m oob, op = .send m oob) →
      SynUna (if (enter s w).so.ssNofdref then .ok () (enter s w)
        else userStep (enter s w) op : Outcome Unit).st := by
    intro op hop
    split
    · exact he
    · exact synUna_userStep he op hop
  by_cases hc : op = .connect ∨ ∃ m oob, op = .send m oob
  · rcases hc with rfl | ⟨m, oob, rfl⟩
    · exact huser _ (Or.inl rfl)
    · exact huser _ (.inr ⟨m, oob, rfl⟩)
  by_cases hi : ∃ seg, op = .input seg
  · obtain ⟨seg, rfl⟩ := hi
    exact synUna_tcpInput he rfl
  · have hd : Does False 0 (enter s w) (step s op w) := (plays_stepOp op
      (fun seg he => hi ⟨seg, he⟩) (fun he => hc (Or.inl he))
      fun m oob he => hc (.inr ⟨m, oob, he⟩)).does
    exact hd.synUna he

/-- **`snd_una` is at `iss` until our SYN is acknowledged**, in every run. -/
theorem Reachable.synUna {C : Cond} {o : Outcome Unit} (h : Reachable C o) : SynUna o.st := by
  refine Reachable.invariant (I := fun o => SynUna o.st) ?_ (fun s op w hs _ => synUna_step hs op w) h
  intro o ho
  cases ho with
  | active rfc1323 => exact .of_synced (by simp [socreate, tcpNewtcpcb, Synced])
  | passive head rfc1323 => exact .of_synced (by simp [sonewconn, Synced])

/-! ## The segment when ACK processing begins -/

theorem reads_log : Reads fun s s' => s'.log = s.log where
  refl _ := rfl
  trans h h' := h'.trans h
  mss h := by
    obtain ⟨tp, snd, rcv, rfl, -⟩ := tcpMss_eq h
    rfl
  note _ _ _ _ _ _ _ _ := rfl

theorem Noted.log (h : Noted s s') : s'.log = s.log := by
  obtain ⟨a, b, c, rfl⟩ := h
  rfl

/-- The segment and the connection when ACK processing begins, and what happens from there. -/
structure Stage (s : Sys) (seg : Segment) (i : Inp) (s' : Sys) : Prop where
  calm : Calm s s'
  log : s'.log = s.log
  tiAck : i.tiAck = seg.tiAck
  bcast : i.bcast = seg.bcast
  flags : i.tiflags.rst = false ∧ i.tiflags.ack = true
  rest : tcpInput s seg =
    match inAck i s' with
    | .done o => o
    | .next i s => inStep6 i s

theorem ackStage_some (h : ackStage s seg = some (i, s')) :
    Stage s seg i s' := by
  obtain ⟨hst, i1, s1, s2, hh, hp, hc⟩ := ackStage_cases h
  have hpass := inCheck_next hc
  have hn := (inPredict_next hp).2
  obtain ⟨hw, hb⟩ := inHeader_whole hh
  have hcalm : Calm s (inRcvWnd s2) :=
    ((reads_calm.inHeader hh).trans hn.calm).trans (calm_inRcvWnd s2)
  have hlog : s'.log = s.log := hpass.noted.log.trans (hn.log.trans (reads_log.inHeader hh))
  refine ⟨hcalm.trans hpass.noted.calm, hlog, hpass.header.tiAck.trans hw.tiAck,
    hpass.header.bcast.trans hb, ⟨hpass.flags.1, hpass.flags.2.2⟩, ?_⟩
  simp only [not_or] at hst
  unfold tcpInput
  rw [if_neg (by simp [hst.1, hst.2.1]), hh]
  dsimp only
  rw [hp, Flow.bind, inSwitch_late seg i1 ((snd_st hcalm.view) ▸ hst.2.2), hc]
  rfl

/-- An operation that ends, in SYN_RECEIVED, before ACK processing. -/
structure Unestablished (s s' : Sys) : Prop where
  st : s'.tp.tState = .synReceived
  conn : s'.so.ssIsconnected = s.so.ssIsconnected
  queue : s'.so.soQueue = s.so.soQueue

theorem tcpDrop_ne_ok (s s' : Sys) (why : Why) (errno : Option Errno) (after : Sys → Sys) :
    (tcpDrop s why errno after : Outcome Unit) ≠ .ok () s' := by
  intro he
  unfold tcpDrop at he
  simp only at he
  split at he
  · cases ho : tcpOutput { s with tp := { s.tp with tState := .closed } } with
    | ok | stop => rw [ho] at he; cases he
  · cases he

theorem Rejected.ok {o : Outcome Unit} (h : Rejected i s o) (ho : o = .ok () s') :
    s'.tp.tState = s.tp.tState ∧ s'.so.ssIsconnected = s.so.ssIsconnected ∧
      s'.so.soQueue = s.so.soQueue := by
  cases h with
  | drop =>
    cases ho
    exact ⟨rfl, rfl, rfl⟩
  | ack =>
    have hout := outOnly_callOutput { s with tp := { s.tp with tfAcknow := true } }
    rw [ho] at hout
    have h2 := congrArg Socket.ssIsconnected hout.so
    have h3 := congrArg Socket.soQueue hout.so
    exact ⟨hout.tState, h2, h3⟩
  | close why e hw => cases ho
  | gone => cases ho
  | reset => exact absurd ho (tcpDrop_ne_ok _ _ _ _ _)

/-! ## The test in SYN_RECEIVED -/

/-- `iss < ti_ack <= snd_max`: the number acknowledges our SYN. -/
def AcksSyn (tp : Tcpcb) (ack : Seq) : Prop := seqGT ack tp.iss = true ∧ seqLEQ ack tp.sndMax = true
deriving Decidable

/-- The numbers SYN_RECEIVED does not refuse. -/
def SynPasses (tp : Tcpcb) (ack : Seq) : Prop :=
  seqGT tp.sndUna ack = false ∧ seqGT ack tp.sndMax = false

theorem SynPasses.acksSyn {tp : Tcpcb} (h : SynPasses tp ack) (hun : tp.sndUna = tp.iss)
    (hbad : ¬SynAckBad tp ack) : AcksSyn tp ack := by
  have hnew := synRcvd_ack_new hun hbad h.1 h.2
  rw [hun, seqLEQ_eq_not_seqGT] at hnew
  exact ⟨by simpa using hnew, by rw [seqLEQ_eq_not_seqGT, h.2]; rfl⟩

theorem gap_opposite (a : Seq) :
    gap a (adv a 2147483648) = -2147483648 ∧ gap (adv a 2147483648) a = -2147483648 := by
  have h1 := gap_adv_adv_bmod a 0 2147483648
  have h2 := gap_adv_adv_bmod a 2147483648 0
  rw [adv_zero] at h1 h2
  rw [h1, h2]
  decide

theorem SynAckBad.passes {tp : Tcpcb} (h : SynAckBad tp ack) (hun : tp.sndUna = tp.iss) :
    SynPasses tp ack ∧ ¬AcksSyn tp ack := by
  obtain ⟨hack, hle⟩ := h
  rw [seqLEQ_eq_not_seqGT] at hle
  have hmax : seqGT ack tp.sndMax = false := by simpa using hle
  unfold SynPasses AcksSyn
  rw [hun]
  rcases hack with rfl | rfl
  · have hz : gap tp.iss tp.iss = 0 := gap_eq_zero_iff.mpr rfl
    have hgt : seqGT tp.iss tp.iss = false := by simp [seqGT, hz]
    exact ⟨⟨hgt, hmax⟩, fun h => by rw [hgt] at h; simp at h⟩
  · obtain ⟨h1, h2⟩ := gap_opposite tp.iss
    refine ⟨⟨by simp [seqGT, h1], hmax⟩, fun h => ?_⟩
    have hgt := h.1
    simp [seqGT, h2] at hgt

/-- A segment that arrives in SYN_RECEIVED is handled as it should be: one that does not get to the
test leaves the connection unestablished; one that does, without acknowledging our SYN, is answered
with a reset (unless it was broadcast) and leaves it so too. -/
structure HandshakeOk (s : Sys) (seg : Segment) (o : Outcome Unit) : Prop where
  early : ackStage s seg = none → ∀ s', o = .ok () s' → Unestablished s s'
  refused : (ackStage s seg).isSome = true → ¬AcksSyn s.tp seg.tiAck →
    ∃ s', o = .ok () s' ∧ Unestablished s s' ∧ (seg.bcast = false →
      s'.log.resp = ⟨0, seg.tiAck, { rst := true }⟩ :: s.log.resp)

theorem tcpInput_early (hst : s.tp.tState = .synReceived) (hstage : ackStage s seg = none)
    (hok : tcpInput s seg = .ok () s') : Unestablished s s' := by
  unfold tcpInput at hok
  split at hok
  · cases hok
    exact ⟨hst, rfl, rfl⟩
  · next hacc =>
    split at hok
    · cases hok
    · next i1 s1 hh =>
      have hc1 := (inHeader_calm hh).1
      have hst1 : s1.tp.tState = .synReceived := (congrArg Snd.st hc1.view).trans hst
      have hp : inPredict i1 s1 = .next i1 s1 := inPredict_early (by rw [hst1]; simp)
      have hc2 := hc1.trans (calm_inRcvWnd s1)
      have hst2 : (inRcvWnd s1).tp.tState = .synReceived := (congrArg Snd.st hc2.view).trans hst
      simp only [hp, Flow.bind, inSwitch_late seg i1 (s := inRcvWnd s1) (by rw [hst2]; simp)] at hok
      cases hc : inCheck i1 (inRcvWnd s1) with
      | done o =>
        rw [hc] at hok
        obtain ⟨j, s2, hn, hr⟩ := inCheck_done hc
        obtain ⟨h1, h2, h3⟩ := hr.ok hok
        have hv := (hc2.trans hn.calm).view
        exact ⟨h1.trans ((congrArg Snd.st hv).trans hst), h2.trans (congrArg Snd.conn hv),
          h3.trans (congrArg Snd.queue hv)⟩
      | next i2 s2 =>
        have hno : ¬(s.tp.tState = .closed ∨ s.so.soAcceptconn ∨ s.tp.tState = .listen ∨
            s.tp.tState = .synSent) := by
          simp only [not_or] at hacc ⊢
          exact ⟨hacc.1, hacc.2, by rw [hst]; simp, by rw [hst]; simp⟩
        rw [ackStage_eq hno hh hp hc] at hstage
        cases hstage

theorem Stage.refused (h : Stage s seg i s') (hst : s.tp.tState = .synReceived)
    (hno : ¬SynPasses s.tp seg.tiAck) :
    tcpInput s seg = .ok () (inRespond i s') := by
  have hst' : s'.tp.tState = .synReceived := (congrArg Snd.st h.calm.view).trans hst
  have hrej : inAckSynRcvd i s' = inDropwithreset i s' := by
    unfold inAckSynRcvd
    rw [if_pos]
    rw [snd_una h.calm.view, snd_max h.calm.view, h.tiAck]
    by_contra hp
    simp only [Bool.or_eq_true, not_or, Bool.not_eq_true] at hp
    exact hno hp
  rw [h.rest]
  unfold inAck
  simp only
  rw [if_pos hst', hrej]
  rfl

theorem Stage.passes (h : Stage s seg i s') (hst : s.tp.tState = .synReceived)
    (hp : SynPasses s.tp seg.tiAck) (hlog : s.log.passes = []) :
    Synced (tcpInput s seg).st.tp.tState := by
  have hst' : s'.tp.tState = .synReceived := (congrArg Snd.st h.calm.view).trans hst
  obtain ⟨s4, hnext⟩ : ∃ s4, inAckSynRcvd i s' = .next i s4 := by
    unfold inAckSynRcvd
    rw [if_neg]
    · exact ⟨_, rfl⟩
    · rw [snd_una h.calm.view, snd_max h.calm.view, h.tiAck, hp.1, hp.2]
      simp
  have hest := synced_of_inAckSynRcvd hnext
  have hsyn : Synced s4.tp.tState := by
    rw [hest]
    simp [Synced]
  have hack : inAck i s' =
      if seqLEQ i.tiAck s4.tp.sndUna = true then inAckDup i s4 else inAckNew i s4 := by
    unfold inAck
    simp only
    rw [if_pos hst', hnext]
    rfl
  have hp4 : s4.log.passes = [] := by
    have hd : FlowDoes False seg.tiAck s' (inAckSynRcvd i s') :=
      does_inAckSynRcvd h.tiAck (h.log ▸ hlog)
    rw [hnext] at hd
    exact hd.1.2.trans (h.log ▸ hlog)
  have hmove : FlowDoes False seg.tiAck s4 (inAck i s') := by
    rw [hack]
    split
    · exact does_inAckDup h.tiAck
    · exact does_inAckNew h.tiAck hsyn
  rw [h.rest]
  cases hf : inAck i s' with
  | done o =>
    rw [hf] at hmove
    exact hmove.move.synced hsyn
  | next i5 s5 =>
    rw [hf] at hmove
    have h6 : Does False seg.tiAck s5 (inStep6 i5 s5) := does_inStep6 hmove.2 (hmove.1.2.trans hp4)
    exact (hmove.1.1.move.trans h6.move).synced hsyn

theorem inRespond_ack (hf : i.tiflags.rst = false ∧ i.tiflags.ack = true) (hb : i.bcast = false) :
    (inRespond i s).log.resp = ⟨0, i.tiAck, { rst := true }⟩ :: s.log.resp := by
  unfold inRespond
  rw [hf.1, hf.2, hb]
  rfl

/-- **The handshake.** In every run a segment in SYN_RECEIVED is handled as it should be exactly if
it does not bring one of the two numbers that are mistaken for an ACK of our SYN. -/
theorem handshake_iff {seg : Segment} {w : World}
    (h : Reachable (fun _ _ _ => True) (.ok () s)) (hst : s.tp.tState = .synReceived) :
    HandshakeOk (enter s w) seg (step s (.input seg) w) ↔
      ((ackStage (enter s w) seg).isSome = true → ¬SynAckBad s.tp seg.tiAck) := by
  have hun : s.tp.sndUna = s.tp.iss := h.synUna (Or.inr hst)
  constructor
  · intro hok hsome hbad
    obtain ⟨hpass, hno⟩ := hbad.passes hun
    obtain ⟨⟨i, s1⟩, hi⟩ := Option.isSome_iff_exists.mp hsome
    obtain ⟨s', hs', hu, -⟩ := hok.refused hsome hno
    have hsyn := (ackStage_some hi).passes hst hpass rfl
    have hst' : (tcpInput (enter s w) seg).st.tp.tState = .synReceived := by
      rw [show tcpInput (enter s w) seg = .ok () s' from hs']
      exact hu.st
    exact hsyn.2 hst'
  · intro hfair
    refine ⟨fun hnone s' hs' => tcpInput_early hst hnone hs', fun hsome hno => ?_⟩
    obtain ⟨⟨i, s1⟩, hi⟩ := Option.isSome_iff_exists.mp hsome
    have hstage := ackStage_some hi
    have hrej : ¬SynPasses (enter s w).tp seg.tiAck := fun hp =>
      hno (hp.acksSyn hun (hfair hsome))
    have hc := hstage.calm.trans (calm_inRespond i s1)
    refine ⟨_, hstage.refused hst hrej, ⟨?_, ?_, ?_⟩, fun hb => ?_⟩
    · exact (congrArg Snd.st hc.view).trans hst
    · exact congrArg Snd.conn hc.view
    · exact congrArg Snd.queue hc.view
    · rw [inRespond_ack hstage.flags (hstage.bcast.trans hb), hstage.tiAck, hstage.log]

/-- A listening socket as `socreate` and `solisten` leave it. -/
def listenHead : Socket := { (socreate false).so with soAcceptconn := true }

def synRcvd : Sys := (runOps (.ok () (sonewconn listenHead false))
    [(.input (bareSeg 500 0 { syn := true } 1000 []), calmWorld 3)]).st

theorem synRcvd_reachable : Reachable (fun _ _ _ => True) (.ok () synRcvd) ∧
    synRcvd.tp.tState = .synReceived := by
  refine ⟨?_, by decide +kernel⟩
  have hrun := reachable_runOps (.passive listenHead false)
    [(.input (bareSeg 500 0 { syn := true } 1000 []), calmWorld 3)]
  rw [show runOps (.ok () (sonewconn listenHead false)) _ = .ok () synRcvd by
    decide +kernel] at hrun
  exact hrun

def issAck : Segment := bareSeg 501 100 { ack := true } 1000 []

/-- The connection is established, and ready to be accepted. -/
theorem iss_ack_establishes :
    (Reachable (fun _ _ _ => True) (.ok () synRcvd) ∧ synRcvd.tp.tState = .synReceived) ∧
    (step synRcvd (.input issAck) (calmWorld 3)).st.tp.tState = .established ∧
    (step synRcvd (.input issAck) (calmWorld 3)).st.so.soQueue = .q ∧
    ¬HandshakeOk (enter synRcvd (calmWorld 3)) issAck
      (step synRcvd (.input issAck) (calmWorld 3)) := by
  have hst : (step synRcvd (.input issAck) (calmWorld 3)).st.tp.tState = .established := by
    decide +kernel
  refine ⟨synRcvd_reachable, hst, by decide +kernel, fun h => ?_⟩
  obtain ⟨s', hs', hu, -⟩ := h.refused (by decide +kernel) (by decide +kernel)
  rw [hs', Outcome.st_ok, hu.st] at hst
  cases hst

def farAck : Segment := bareSeg 501 102 { ack := true } 1000 []

theorem handshake_iff_far :
    HandshakeOk (enter synRcvd (calmWorld 3)) farAck (step synRcvd (.input farAck) (calmWorld 3)) :=
  (handshake_iff synRcvd_reachable.1 synRcvd_reachable.2).mpr (by decide +kernel)

end Anp
