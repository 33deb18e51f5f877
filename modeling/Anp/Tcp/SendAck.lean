import Anp.Tcp.SendMoves

/-!
# SendAck — ACK processing keeps the send invariant

The two paths of `tcp_input` that move `snd_una`: header prediction and `inAckNew`. Both drop
acknowledged bytes from `so_snd`; the invariant says how many there are.
-/

namespace Anp

open Cyclic Machine

variable {α : Type} {m : Mode}

variable {i : Inp} {mx n : Int} {k : Nat} {s : Sys}

/-! ## Leaving -/

/-- The invariant, apart from the timers, if the passes made so far went well. -/
def Pre (m : Mode) (s : Sys) : Prop := PassesOk m s → SendInv m s

/-- The invariant holds here if the passes made so far went well. -/
def Good (m : Mode) (s : Sys) : Prop := PassesOk m s → SendInv m s ∧ Timed m s

theorem Good.pre (h : Good m s) : Pre m s := fun hp => (h hp).1

theorem Good.calm {s' : Sys} (h : Good m s) (hc : Calm s s') : Good m s' := by
  intro hp
  obtain ⟨hi, ht⟩ := h (PassesOk.calm hc hp)
  exact ⟨hi.calm hc, ht.calm hc⟩

theorem Pre.calm {s' : Sys} (h : Pre m s) (hc : Calm s s') : Pre m s' := fun hp =>
  (h (PassesOk.calm hc hp)).calm hc

/-- The invariant for a segment on its way through `tcp_input`, before ACK processing. -/
def FlowGood (m : Mode) : Flow → Prop
  | .next _ s => Good m s
  | .done o => Kept m 0 o

/-- The invariant after it: a timer may be missing until `tcp_output` is called. -/
def FlowKept (m : Mode) : Flow → Prop
  | .next i s => PassesOk m s → SendInv m s ∧ (Timed m s ∨ i.needoutput = true)
  | .done o => Kept m 0 o

theorem FlowGood.kept {f : Flow} (h : FlowGood m f) : FlowKept m f := by
  cases f with
  | next i s => exact fun hp => ⟨(h hp).1, .inl (h hp).2⟩
  | done o => exact h

theorem tcpClose_kept (h : Pre m s) {why : Why} (hw : why ≠ .finAcked) :
    Kept m 0 (tcpClose why s : Outcome α) := by
  intro hp
  obtain ⟨n, mx, -, hat⟩ := h hp
  have hstop : StopOk m (.closed why) s := hat.stop (by simp) (by simpa using hw)
  exact { hstop with }

theorem SendAt.toClosed (h : SendAt m s n mx) :
    SendAt m { s with tp := { s.tp with tState := .closed } } n mx := by
  have henter : MayEnter m (sndView s) .closed := by
    refine ⟨fun _ => rfl, ?_, ?_, by decide, ?_, fun he => by cases he⟩ <;> intro hf <;> simp_all
      [finState, tcpOutflags, TcpState.toNat]
  exact h.moved (h.pos.setSt henter) ⟨h.settled.early, fun he => by cases he⟩ rfl

theorem tcpDrop_kept (h : Pre m s) {why : Why} (hw : why ≠ .finAcked) (errno : Option Errno)
    {after : Sys → Sys} (ha : ∀ s, Calm s (after s)) :
    Kept m 0 (tcpDrop s why errno after : Outcome α) := by
  unfold tcpDrop
  have hlast : Kept m 0 (if haveRcvdSyn s.tp.tState then
      tcpOutput { s with tp := { s.tp with tState := .closed } } else .ok none s) ∨
      (haveRcvdSyn s.tp.tState = false) := by
    cases haveRcvdSyn s.tp.tState with
    | false => exact .inr rfl
    | true =>
      refine .inl (tcpOutput_kept ?_)
      intro hp
      obtain ⟨n, mx, hb, hat⟩ := h hp
      exact ⟨n, mx, hb, hat.toClosed⟩
  have hafter : ∀ (e : Option Errno) (s' : Sys), Pre m s' →
      Kept m 0 (tcpClose why (after { s' with so := { s'.so with soError := e } }) : Outcome α) := by
    intro e s' hs'
    refine tcpClose_kept (Pre.calm ?_ (ha _)) hw
    exact hs'.calm (Calm.same rfl)
  rcases hlast with hk | hf
  · exact hk.bind fun _ s' hs' => hafter _ s' fun hp => (hs' hp).1
  · rw [hf]
    exact hafter _ s h

theorem inDropafterack_good (h : Good m s) : FlowGood m (inDropafterack i s) := by
  unfold inDropafterack
  split
  · exact h
  · refine callOutput_kept ?_
    exact h.pre.calm (Calm.same rfl)

theorem inDropwithreset_good (h : Good m s) :
    FlowGood m (inDropwithreset i s) :=
  h.calm (calm_inRespond i s)

/-! ## Dropping acknowledged data -/

theorem SendPos.sbWf (h : SendPos m (sndView s) n mx) : SbWf s.so.soSnd := by
  have hb : sbBytes s.so.soSnd = s.log.wrote.drop (s.log.wrote.length - s.so.soSnd.sbCc) := h.bytes
  have hcc : s.so.soSnd.sbCc ≤ s.log.wrote.length := h.cc_le
  unfold SbWf
  rw [hb, List.length_drop]
  omega

theorem dropSnd_eq (h : SendPos m (sndView s) n mx) (hk : k ≤ s.so.soSnd.sbCc) :
    ∃ sb, dropSnd s k = .ok () { s with so := { s.so with soSnd := sb } } ∧
      sb.sbMb.flatMap chainBytes = (s.so.soSnd.sbMb.flatMap chainBytes).drop k ∧
      sb.sbCc = s.so.soSnd.sbCc - k ∧ (m.one → sb.sbMb.length ≤ 1) := by
  obtain ⟨sb, hsb, hbytes, hcc, hone⟩ := sbdrop_spec s.so.soSnd k h.sbWf hk
  refine ⟨sb, ?_, hbytes, hcc, fun hm => hone (h.one hm)⟩
  rw [dropSnd, hsb]

theorem pullNxt_pos {iss : Seq} {u : Int} (hlo : -2147483648 ≤ n - u) (hhi : n - u < 2147483648) :
    (if seqLT (adv iss n) (adv iss u) = true then adv iss u else adv iss n) = adv iss (max n u) := by
  unfold seqLT
  rw [gap_adv hlo hhi]
  simp only [decide_eq_true_eq]
  split <;> congr 1 <;> omega

theorem ackData_st {o : Outcome Bool} (h : ackData i s = o) :
    o.st.log.passes = s.log.passes ∧ o.st.tp.tState = s.tp.tState ∧
      o.st.tp.rexmt = s.tp.rexmt ∧ o.st.tp.persist = s.tp.persist := by
  rw [← h]
  unfold ackData dropSnd
  simp only
  split <;> exact ⟨rfl, rfl, rfl, rfl⟩

/-! ## After `ackData` -/

/-- What `ackData` has done: `k` more numbers are acknowledged. `s` is the state before, `s'`
after it, and `f` its verdict on our FIN. -/
structure AckDone (m : Mode) (s s' : Sys) (f : Bool) (n mx : Int) (k : Nat) : Prop where
  pos : SendPos m (sndView s) n mx
  one_le : 1 ≤ k
  le_max : s.log.acked + k ≤ mx
  fin : f = decide (s.so.soSnd.sbCc < k)
  view : ∃ mb : List (List Mbuf), sndView s' = { sndView s with
      una := adv s.tp.iss (s.log.acked + k), acked := s.log.acked + k
      nxt := adv s.tp.iss (max n (s.log.acked + k))
      cc := s.so.soSnd.sbCc - min k s.so.soSnd.sbCc, mb := mb } ∧
    mb.flatMap chainBytes = (s.so.soSnd.sbMb.flatMap chainBytes).drop (min k s.so.soSnd.sbCc) ∧
    (m.one → mb.length ≤ 1)
  maxseg : s'.tp.tMaxseg < 65536
  time : m.timer → TimeBase s'

/-- **`ackData`** drops what is acknowledged, caps it at what the buffer holds, and moves
`snd_una` and, if need be, `snd_nxt`. -/
theorem ackData_done (h : SendPos m (sndView s) n mx) (hone : 1 ≤ k)
    (hk : gap i.tiAck s.tp.sndUna = k) (hack : i.tiAck = adv s.tp.iss (s.log.acked + k))
    (hle : s.log.acked + k ≤ mx) (hkc : (k : Int) ≤ s.so.soSnd.sbCc + 2)
    (hmax : s.tp.tMaxseg < 65536) (ht : m.timer → TimeBase s) :
    ∃ f s', ackData i s = .ok f s' ∧ AckDone m s s' f n mx k := by
  have hcc : s.so.soSnd.sbCc < 2147483645 := h.cc_lt
  have hun : (s.log.acked : Int) ≤ n + 1 := h.una_nxt
  have hrange : n ≤ s.log.acked + s.so.soSnd.sbCc + 2 := h.range.2
  have hu : u32 (k : Int) = k := u32_natCast (by omega)
  have hmin : (if decide (s.so.soSnd.sbCc < k) = true then (s.so.soSnd.sbCc : Int) else (k : Int)) =
      ((min k s.so.soSnd.sbCc : Nat) : Int) := by
    simp only [decide_eq_true_eq]
    split <;> omega
  have hnxt : (if seqLT s.tp.sndNxt i.tiAck = true then i.tiAck else s.tp.sndNxt) =
      adv s.tp.iss (max n (s.log.acked + k)) := by
    have hn : s.tp.sndNxt = adv s.tp.iss n := h.nxt_eq
    rw [hn, hack, pullNxt_pos (by omega) (by omega)]
  obtain ⟨sb, hdrop, hbytes, hsbcc, h1⟩ := dropSnd_eq h (min_le_right k s.so.soSnd.sbCc)
  unfold ackData
  simp only [hk, hu, hmin, hdrop, Outcome.bind_ok]
  unfold setUna pullNxt
  simp only [hk, Int.toNat_natCast, hnxt]
  refine ⟨_, _, rfl, h, hone, hle, rfl, ⟨sb.sbMb, ?_, hbytes, h1⟩, hmax, fun hm => { ht hm with }⟩
  unfold sndView
  simp only [hack, hsbcc]

/-- The SYNs are behind. -/
abbrev PastSyn (st : TcpState) : Prop := st ≠ .synSent ∧ st ≠ .synReceived ∧ st ≠ .listen

namespace AckDone

variable {s s' : Sys} {f : Bool} {n mx : Int} {k : Nat}

section

variable (h : AckDone m s s' f n mx k)
include h

/-- Our FIN is acknowledged, as the code sees it: the ACK is the last there can be, or covers only
the SYN of a connection closed early. -/
theorem covers (hf : f = true) :
    s.so.soSnd.sbCc < k ∧ (s.log.acked + k = s.log.wrote.length + 2 ∨
      (s.log.acked = 0 ∧ k = 1 ∧ s.log.wrote.length = 0)) := by
  have hlt : s.so.soSnd.sbCc < k := by
    have := h.fin
    rw [hf] at this
    simpa using this.symm
  have hm := h.pos.max_le
  have hle := h.le_max
  have hwv : (sndView s).wrote.length = s.log.wrote.length := rfl
  refine ⟨hlt, ?_⟩
  rcases h.pos.acct with ⟨h1, h2⟩ | ⟨h1, h2⟩ | ⟨h1, h2⟩
  · have h1' : s.log.acked = 0 := h1
    have h2' : s.log.wrote.length = 0 := by
      have : s.log.wrote = [] := h2
      simp [this]
    omega
  · have h2' : s.log.acked + s.so.soSnd.sbCc = s.log.wrote.length + 1 := h2
    omega
  · have h1' : s.log.acked = s.log.wrote.length + 2 := h1
    omega

theorem enter {st' : TcpState} (he : AckEnter m (sndView s) k st') :
    SendPos m { sndView s' with st := st' } (max n (s.log.acked + k)) mx := by
  obtain ⟨mb, hview, hmb, hone⟩ := h.view
  rw [hview]
  exact h.pos.ack h.one_le h.le_max he hmb hone

theorem stay (hf : finState s.tp.tState = true → f = false) (hst : PastSyn s.tp.tState) :
    AckEnter m (sndView s) k s.tp.tState := by
  refine ⟨rfl, fun h1 => ⟨h1, ?_⟩, id, ⟨hst.1, hst.2.1⟩, fun h1 => ?_, fun h1 => absurd h1 hst.2.2⟩
  · have h2 := h.fin
    rw [hf h1] at h2
    have h3 : ¬s.so.soSnd.sbCc < k := by simpa using h2.symm
    show k ≤ s.so.soSnd.sbCc
    omega
  · obtain ⟨h2, h3⟩ := h.pos.drained h1
    refine ⟨by rw [h2]; exact Nat.zero_le _, fun hm => ?_⟩
    have h4 := h3 hm
    have hm' := h.pos.max_le
    have hle := h.le_max
    have hak : (sndView s).acked = s.log.acked := rfl
    omega

theorem finish (hf : f = true) (hfs : finState s.tp.tState = true) {st' : TcpState}
    (hst' : st' = .finWait2 ∨ st' = .timeWait)
    (hlate : m.late → s.log.acked = 0 → k ≠ 1) : AckEnter m (sndView s) k st' := by
  obtain ⟨hlt, hcov⟩ := h.covers hf
  have hso : stillOpen s.tp.tState = false := stillOpen_of_finState hfs
  have hge : TcpState.finWait1.toNat ≤ s.tp.tState.toNat := finWait1_le_of_finState hfs
  have hfin : m.late → s.log.acked + k = s.log.wrote.length + 2 := by
    intro hm
    rcases hcov with h1 | ⟨h1, h2, -⟩
    · exact h1
    · exact absurd h2 (hlate hm h1)
  have hcc : (sndView s).cc ≤ k := le_of_lt hlt
  have hopen : stillOpen st' = stillOpen (sndView s).st := by
    rcases hst' with rfl | rfl <;> exact hso.symm
  refine ⟨hopen, ?_, fun _ => hge, ?_, fun _ => ⟨hcc, hfin⟩, ?_⟩
  · rcases hst' with rfl | rfl <;> simp [finState, tcpOutflags]
  · rcases hst' with rfl | rfl <;> simp
  · rcases hst' with rfl | rfl <;> simp

theorem quiet (hfin : s.log.acked + k = s.log.wrote.length + 2)
    (hcc : s.so.soSnd.sbCc ≤ k) : s'.so.soSnd.sbCc = 0 ∧ s'.tp.sndUna = s'.tp.sndMax := by
  obtain ⟨mb, hview, -⟩ := h.view
  have h1 : s'.so.soSnd.sbCc = s.so.soSnd.sbCc - min k s.so.soSnd.sbCc := congrArg Snd.cc hview
  have h2 : s'.tp.sndUna = adv s.tp.iss (s.log.acked + k) := congrArg Snd.una hview
  have h3 : s'.tp.sndMax = s.tp.sndMax := congrArg Snd.max hview
  have h4 : s.tp.sndMax = adv s.tp.iss mx := h.pos.max_eq
  have hm := h.pos.max_le
  have hle := h.le_max
  have hwv : (sndView s).wrote.length = s.log.wrote.length := rfl
  refine ⟨by omega, ?_⟩
  rw [h2, h3, h4]
  congr 1
  omega

theorem acked_eq :
    s'.log.acked = s.log.acked + k ∧ s'.log.wrote = s.log.wrote ∧ s'.log.sent = s.log.sent := by
  obtain ⟨mb, hview, -⟩ := h.view
  exact ⟨congrArg Snd.acked hview, congrArg Snd.wrote hview, congrArg Snd.sent hview⟩

end

end AckDone

variable {v : Snd}

theorem settled_of_acked (h : 1 ≤ v.acked) : Settled v := ⟨fun h0 => by omega, fun _ => h⟩

/-- A timer is running, or `tcp_output` will be called. -/
def Armed (m : Mode) (i : Inp) (s : Sys) : Prop :=
  m.timer → (s.tp.rexmt ≠ 0 ∨ s.tp.persist ≠ 0) ∨ i.needoutput = true

theorem Armed.timed (h : Armed m i s) :
    Timed m s ∨ i.needoutput = true := by
  by_cases hn : i.needoutput = true
  · exact .inr hn
  · exact .inl fun hm _ _ _ => (h hm).resolve_right hn

theorem timed_of_quiet (h : m.timer → s.so.soSnd.sbCc = 0 ∧ s.tp.sndUna = s.tp.sndMax) :
    Timed m s := by
  intro hm _ _ hpend
  obtain ⟨h1, h2⟩ := h hm
  rcases hpend with h3 | h3
  · exact absurd h1 h3
  · exact absurd h2 h3

section AckState

variable {s s' : Sys} {f : Bool} {i : Inp}

/-- What is known when `inAckState` is called, with the one ACK that misleads it left out. -/
def AckKnown (m : Mode) (s s' : Sys) (f : Bool) : Prop := ∃ n mx k, AckDone m s s' f n mx k ∧
    (m.late → finState s.tp.tState = true → s.log.acked = 0 → k ≠ 1)

theorem AckKnown.stay (h : AckKnown m s s' f) (hf : finState s.tp.tState = true → f = false)
    (hst : PastSyn s.tp.tState)
    (hst' : s'.tp.tState = s.tp.tState) : SendInv m s' := by
  obtain ⟨n, mx, k, hd, -⟩ := h
  have hak : 1 ≤ s'.log.acked := by
    rw [hd.acked_eq.1]
    have := hd.one_le
    omega
  have hpos := hd.enter (hd.stay hf hst)
  rw [← hst'] at hpos
  have hat : SendAt m s' _ mx := ⟨hpos, settled_of_acked hak, hd.maxseg, hd.time⟩
  exact hat.inv

theorem AckKnown.beyond {s'' : Sys} {st'' : TcpState} {b : Bool} (h : AckKnown m s s' f)
    (htl : m.timer → m.late) (hst'' : st'' = .finWait2 ∨ st'' = .timeWait) (hft : f = true)
    (hfs : finState s.tp.tState = true)
    (hview : sndView s'' = { sndView s' with st := st'' } ∨ sndView s'' =
      { sndView s' with st := st'', cant := true, conn := false })
    (htp : s''.tp.tMaxseg = s'.tp.tMaxseg ∧ s''.tp.tRttmin = s'.tp.tRttmin ∧
      s''.tp.tRxtcur = s'.tp.tRxtcur) (hw : s''.w = s'.w) :
    SendInv m s'' ∧ (Timed m s'' ∨ b = true) := by
  obtain ⟨n, mx, k, hd, hk1⟩ := h
  obtain ⟨hlt, hcov⟩ := hd.covers hft
  have hak : 1 ≤ s'.log.acked := by
    rw [hd.acked_eq.1]
    omega
  have hpos := hd.enter (hd.finish hft hfs hst'' fun hm => hk1 hm hfs)
  have hcc : s'.so.soSnd.sbCc = 0 := by
    obtain ⟨mb, hv, -⟩ := hd.view
    have h1 : s'.so.soSnd.sbCc = s.so.soSnd.sbCc - min k s.so.soSnd.sbCc := congrArg Snd.cc hv
    omega
  have hpos'' : SendPos m (sndView s'') (max n (s.log.acked + k)) mx := by
    rcases hview with hv | hv
    · rw [hv]
      exact hpos
    · rw [hv]
      exact hpos.setSo (fun _ => rfl) (absurd hcc)
  have hsame : s''.log.acked = s'.log.acked ∧ s''.so.soSnd.sbCc = s'.so.soSnd.sbCc ∧
      s''.tp.sndUna = s'.tp.sndUna ∧ s''.tp.sndMax = s'.tp.sndMax := by
    rcases hview with hv | hv <;> exact ⟨congrArg Snd.acked hv, congrArg Snd.cc hv,
      congrArg Snd.una hv, congrArg Snd.max hv⟩
  have htime : m.timer → TimeBase s'' := by
    intro hm
    have hb := hd.time hm
    exact ⟨by rw [htp.2.1]; exact hb.rttmin, by rw [htp.2.2]; exact hb.rxtcur,
      by rw [hw]; exact hb.route⟩
  have hat : SendAt m s'' (max n (s.log.acked + k)) mx :=
    ⟨hpos'', settled_of_acked (by show 1 ≤ s''.log.acked; omega), by rw [htp.1]; exact hd.maxseg,
      htime⟩
  refine ⟨hat.inv, .inl (timed_of_quiet fun hm => ?_)⟩
  have hlast : s.log.acked + k = s.log.wrote.length + 2 := by
    rcases hcov with h1 | ⟨h1, h2, -⟩
    · exact h1
    · exact absurd h2 (hk1 (htl hm) hfs h1)
  rw [hsame.2.1, hsame.2.2.1, hsame.2.2.2]
  exact hd.quiet hlast (le_of_lt hlt)

theorem AckKnown.last (h : AckKnown m s s' f) (hft : f = true)
    (hfs : finState s.tp.tState = true) : StopOk m (.closed .finAcked) s' := by
  obtain ⟨n, mx, k, hd, hk1⟩ := h
  obtain ⟨-, hcov⟩ := hd.covers hft
  obtain ⟨h1, h2, h3⟩ := hd.acked_eq
  refine ⟨fun hm => ?_, by simp, fun hm _ => ?_⟩
  · rw [h2, h3]
    exact (hd.pos.exact_ hm).sent
  · obtain ⟨mb, hview, -⟩ := hd.view
    have hun : s'.tp.sndUna = adv s.tp.iss (s.log.acked + k) := congrArg Snd.una hview
    have hiss : s'.tp.iss = s.tp.iss := congrArg Snd.iss hview
    rw [h1, h2, hun, hiss]
    rcases hcov with h4 | ⟨h4, h5, -⟩
    · exact ⟨h4, by rw [Nat.cast_add]⟩
    · exact absurd h5 (hk1 hm hfs h4)

/-- In TIME_WAIT everything was acknowledged before: no ACK is new. -/
theorem AckKnown.timeWait (h : AckKnown m s s' f) (hm : m.late)
    (hst : s.tp.tState = .timeWait) : False := by
  obtain ⟨n, mx, k, hd, -⟩ := h
  have hge : TcpState.finWait2.toNat ≤ (sndView s).st.toNat := by
    show _ ≤ s.tp.tState.toNat
    rw [hst]
    decide
  have h1 := (hd.pos.drained hge).2 hm
  have h2 := hd.pos.max_le
  have h3 := hd.le_max
  have h4 := hd.one_le
  have h5 : (sndView s).acked = s.log.acked := rfl
  omega

/-- **What a new ACK does to the state.** The verdict on our FIN is right, unless the ACK covers
only the SYN of a connection closed early. -/
theorem inAckState_kept (htl : m.timer → m.late) (hknown : PassesOk m s' → AckKnown m s s' f)
    (hst : PastSyn s.tp.tState)
    (hst' : s'.tp.tState = s.tp.tState) (harm : PassesOk m s' → Armed m i s') :
    FlowKept m (inAckState f i s') := by
  have hstay : (finState s.tp.tState = true → f = false) → FlowKept m (.next i s') :=
    fun hf hp => ⟨(hknown hp).stay hf hst hst', (harm hp).timed⟩
  have hfs : ∀ {st}, s'.tp.tState = st → finState st = true → finState s.tp.tState = true := by
    intro st h1 h2
    rw [← hst', h1]
    exact h2
  have hnf : ∀ {st}, s'.tp.tState = st → finState st = false →
      finState s.tp.tState = true → f = false := by
    intro st h1 h2 h3
    rw [← hst', h1, h2] at h3
    simp at h3
  -- the states that wait for the ACK of our FIN
  have hfin : ∀ {o : Flow}, (f = true → FlowKept m o) → FlowKept m (if f then o else .next i s') := by
    intro o ho
    split
    · next hf => exact ho hf
    · next hf => exact hstay fun _ => Bool.eq_false_iff.mpr hf
  unfold inAckState
  cases hcase : s'.tp.tState with
  | finWait1 =>
    refine hfin fun hf hp => ?_
    by_cases hc : s'.so.ssCantrcvmore = true
    · simp only [if_pos hc] at hp ⊢
      exact (hknown hp).beyond htl (Or.inl rfl) hf (hfs hcase rfl) (Or.inr rfl) ⟨rfl, rfl, rfl⟩ rfl
    · simp only [if_neg hc] at hp ⊢
      exact (hknown hp).beyond htl (Or.inl rfl) hf (hfs hcase rfl) (Or.inl rfl) ⟨rfl, rfl, rfl⟩ rfl
  | closing =>
    exact hfin fun hf hp =>
      (hknown hp).beyond htl (Or.inr rfl) hf (hfs hcase rfl) (Or.inr rfl) ⟨rfl, rfl, rfl⟩ rfl
  | lastAck =>
    refine hfin fun hf hp => ?_
    have hstop := (hknown hp).last hf (hfs hcase rfl)
    exact { hstop with }
  | timeWait =>
    refine (inDropafterack_good ?_).kept
    intro hp
    obtain ⟨n, mx, hb, hat⟩ := (hknown hp).stay (hnf hcase rfl) hst hst'
    refine ⟨⟨n, mx, hb, hat.congr rfl ⟨rfl, rfl, rfl⟩ rfl⟩, timed_of_quiet fun hm => ?_⟩
    exact ((hknown hp).timeWait (htl hm) (hst' ▸ hcase)).elim
  | closed | listen | synSent | synReceived | established | closeWait | finWait2 =>
    exact hstay (hnf hcase rfl)

end AckState

/-! ## New ACKs -/

/-- Everything but the timers and who may write. -/
structure Mid (m : Mode) (s : Sys) (n mx : Int) : Prop where
  pos : SendPos m (sndView s) n mx
  maxseg : s.tp.tMaxseg < 65536
  time : m.timer → TimeBase s

theorem ackTimer_eq (ack : Seq) (tp : Tcpcb) : ∃ r, ackTimer ack tp = { tp with rexmt := r } ∧
    (ack ≠ tp.sndMax → tp.tRxtcur ≠ 0 → r ≠ 0 ∨ tp.persist ≠ 0) := by
  unfold ackTimer
  split
  · next he => exact ⟨0, rfl, absurd he⟩
  · split
    · exact ⟨tp.tRxtcur, rfl, fun _ hc => .inl hc⟩
    · next hp => exact ⟨tp.rexmt, rfl, fun _ _ => .inr hp⟩

theorem ackPrepare_spec (i : Inp) (s : Sys) :
    sndView (ackPrepare i s) = sndView s ∧ (ackPrepare i s).log = s.log ∧
      (s.tp.tMaxseg < 65536 → (ackPrepare i s).tp.tMaxseg < 65536) ∧
      (TimeBase s → TimeBase (ackPrepare i s) ∧ (i.tiAck ≠ s.tp.sndMax →
        (ackPrepare i s).tp.rexmt ≠ 0 ∨ (ackPrepare i s).tp.persist ≠ 0)) := by
  have hc := calm_inXmitTimer i s
  have hlog : (inXmitTimer i s).log = s.log := by
    unfold inXmitTimer
    split
    · rfl
    · split <;> rfl
  obtain ⟨r, hr, hrun⟩ := ackTimer_eq i.tiAck (inXmitTimer i s).tp
  have hprep : ∃ c, ackPrepare i s = { inXmitTimer i s with
      tp := { (inXmitTimer i s).tp with rexmt := r, sndCwnd := c } } := by
    unfold ackPrepare openCwnd
    simp only [hr]
    exact ⟨_, rfl⟩
  obtain ⟨c, hprep⟩ := hprep
  rw [hprep]
  refine ⟨hc.view, hlog, hc.maxseg, fun hb => ?_⟩
  have hb' := hc.time hb
  exact ⟨{ hb' with }, fun hne => hrun (by rw [snd_max hc.view]; exact hne) hb'.rxtcur⟩

/-- **A new ACK keeps the invariant.** -/
theorem inAckNew_kept (htl : m.timer → m.late) (hmid : PassesOk m s → ∃ n mx, Mid m s n mx)
    (hdrop : seqGT i.tiAck s.tp.sndMax = true → Good m s)
    (hnew : seqLEQ i.tiAck s.tp.sndUna = false)
    (hst : PastSyn s.tp.tState)
    (hlate : m.late → finState s.tp.tState = true → s.log.acked = 0 → i.tiAck ≠ s.tp.iss + 1) :
    FlowKept m (inAckNew i s) := by
  unfold inAckNew
  simp only
  split
  · next hgt =>
    refine (inDropafterack_good ?_).kept
    exact (hdrop hgt).calm (Calm.same rfl)
  · next hgt =>
    set i1 : Inp := { i with needoutput := i.needoutput || i.tiAck == s.tp.sndMax } with hi1
    -- the congestion window and the count of duplicates are no part of the send half
    generalize hs1 : ({ s with tp := { s.tp with
      sndCwnd := if tcpRexmtthresh < s.tp.tDupacks ∧ s.tp.sndSsthresh < s.tp.sndCwnd then
        s.tp.sndSsthresh else s.tp.sndCwnd
      tDupacks := 0 } } : Sys) = s1
    have hc1 : Calm s s1 := by
      rw [← hs1]
      exact Calm.same rfl
    obtain ⟨hview, hlog, hmaxseg, htime⟩ := ackPrepare_spec i1 s1
    generalize hs2 : ackPrepare i1 s1 = s2 at hview hlog hmaxseg htime
    have hview2 : sndView s2 = sndView s := hview.trans hc1.view
    have hpass : ∀ {s3 : Sys}, s3.log.passes = s2.log.passes → PassesOk m s3 → PassesOk m s := by
      intro s3 he hp
      have : s3.log.passes = s.log.passes := by rw [he, hlog, hc1.passes]
      intro p hmem
      exact hp p (by rw [this]; exact hmem)
    have hak := snd_acked hview2
    have hst2 := snd_st hview2
    -- where the ACK is, and what `ackData` does with it
    have hplace : PassesOk m s → ∃ n mx k f s3, Mid m s n mx ∧ ackData i1 s2 = .ok f s3 ∧
        AckDone m s2 s3 f n mx k ∧ i.tiAck = adv s2.tp.iss (s2.log.acked + k) := by
      intro hp
      obtain ⟨n, mx, hm⟩ := hmid hp
      have hgap : 0 < gap i.tiAck (sndView s2).una := by
        have : ¬gap i.tiAck s.tp.sndUna ≤ 0 := by
          unfold seqLEQ at hnew
          simpa using hnew
        rw [hview2]
        show 0 < gap i.tiAck s.tp.sndUna
        omega
      have hle : seqGT i.tiAck (sndView s2).max = false := by
        rw [hview2]
        exact Bool.eq_false_iff.mpr hgt
      have hpos : SendPos m (sndView s2) n mx := hview2 ▸ hm.pos
      obtain ⟨k, h1, h2, h3, h4, h5⟩ := hpos.ack_place hgap hle
      obtain ⟨f, s3, hok, hd⟩ := ackData_done (i := i1) hpos h1 h2 h3 h4 h5
        (hmaxseg (hc1.maxseg hm.maxseg)) fun ht => (htime (hc1.time (hm.time ht))).1
      exact ⟨n, mx, k, f, s3, hm, hok, hd, h3⟩
    cases hd : ackData i1 s2 with
    | stop why s3 =>
      intro hp
      obtain ⟨n, mx, k, f, s4, -, hok, -⟩ := hplace (hpass (ackData_st hd).1 hp)
      rw [hok] at hd
      cases hd
    | ok f s3 =>
      obtain ⟨hp3, ht3, hr3, hpe3⟩ : s3.log.passes = s2.log.passes ∧
          s3.tp.tState = s2.tp.tState ∧ s3.tp.rexmt = s2.tp.rexmt ∧
          s3.tp.persist = s2.tp.persist := ackData_st hd
      refine inAckState_kept (s := s2) htl ?_ (by rw [hst2]; exact hst) ht3 ?_
      · intro hp
        obtain ⟨n, mx, k, f', s4, -, hok, hdone, h3⟩ := hplace (hpass hp3 hp)
        rw [hok] at hd
        cases hd
        refine ⟨n, mx, k, hdone, fun hml hfs hz hk1 => ?_⟩
        rw [hst2] at hfs
        rw [hak] at hz
        refine hlate hml hfs hz ?_
        rw [h3, hk1, hak, hz, snd_iss hview2, add_one_eq_adv]
        rfl
      · intro hp hmt
        obtain ⟨n, mx, k, -, -, hm, -⟩ := hplace (hpass hp3 hp)
        by_cases he : i.tiAck = s.tp.sndMax
        · right
          show (i.needoutput || i.tiAck == s.tp.sndMax) = true
          simp [he]
        · left
          rw [hr3, hpe3]
          exact (htime (hc1.time (hm.time hmt))).2 (by rw [snd_max hc1.view]; exact he)

/-! ## Duplicate ACKs -/

theorem setNxt_max (n' : Int) (h : SendAt m s n mx) (hlo : (s.log.acked : Int) ≤ n' + 1)
    (hhi : n' ≤ mx) (hfin : m.fin → (s.log.acked : Int) ≤ n') {cwnd : Nat} {nxt : Seq}
    (hnxt : nxt = if seqGT (adv s.tp.iss n') s.tp.sndNxt = true then adv s.tp.iss n'
      else s.tp.sndNxt) :
    SendInv m { s with tp := { s.tp with sndCwnd := cwnd, sndNxt := nxt } } := by
  have hn : s.tp.sndNxt = adv s.tp.iss n := h.pos.nxt_eq
  have hun : (s.log.acked : Int) ≤ n + 1 := h.pos.una_nxt
  have hrange : mx ≤ s.log.acked + s.so.soSnd.sbCc + 2 := h.pos.range.1
  have hnm := h.pos.nxt_max
  have hcc : s.so.soSnd.sbCc < 2147483645 := h.pos.cc_lt
  have hx : nxt = adv s.tp.iss (max n n') := by
    rw [hnxt, hn, seqGT_adv (by omega) (by omega)]
    simp only [decide_eq_true_eq]
    split <;> congr 1 <;> omega
  have hpos := h.pos.setNxt (show ((sndView s).acked : Int) ≤ max n n' + 1 by
    show (s.log.acked : Int) ≤ _
    omega) (by omega) (fun hm => by
    show (s.log.acked : Int) ≤ _
    have := hfin hm
    omega)
  have hat : SendAt m { s with tp := { s.tp with sndCwnd := cwnd, sndNxt := nxt } } (max n n') mx := by
    rw [hx]
    exact h.moved hpos ⟨h.settled.early, h.settled.est⟩ rfl
  exact hat.inv

/-- **Fast retransmit.** `snd_nxt` goes back to `snd_una` for one segment. -/
theorem fastRexmt_kept (h : Pre m s) (hack : i.tiAck = s.tp.sndUna) :
    Kept m 0 (fastRexmt i s) := by
  unfold fastRexmt
  split
  · intro hp
    obtain ⟨n, mx, -, hat⟩ := h hp
    exact hat.stop (by simp) (by simp)
  · simp only
    generalize hs1 : ({ s with tp := { s.tp with
      sndSsthresh := u32 (halfWindow s.tp * s.tp.tMaxseg)
      rexmt := 0
      tRtt := 0
      sndNxt := i.tiAck
      sndCwnd := s.tp.tMaxseg } } : Sys) = s1
    have hat1 : ∀ {n mx : Int}, SendAt m s n mx → SendAt m s1 s.log.acked mx := by
      intro n mx hat
      rw [← hs1, hack]
      exact hat.moved hat.pos.setNxt_una ⟨hat.settled.early, hat.settled.est⟩ rfl
    have hp1 : PassesOk m s1 → PassesOk m s := by
      rw [← hs1]
      exact id
    have hiss1 : s1.tp.iss = s.tp.iss := by rw [← hs1]
    have hak1 : s1.log.acked = s.log.acked := by rw [← hs1]
    have hout := outOnly_callOutput s1
    cases ho : callOutput s1 with
    | stop why s2 =>
      have hk : Kept m 0 (callOutput s1) := by
        refine callOutput_kept fun hp => ?_
        obtain ⟨n, mx, -, hat⟩ := h (hp1 hp)
        exact (hat1 hat).inv
      rw [ho] at hk
      exact hk
    | ok _ s2 =>
      rw [ho] at hout
      intro hp
      -- the passes before the call went well too
      have hps : PassesOk m s := hp1 fun p hmem => hp p (hout.passes.subset hmem)
      obtain ⟨n, mx, -, hat⟩ := h hps
      have hk : Kept m mx (callOutput s1) := callOutput_kept fun _ => ⟨_, mx, le_refl _, hat1 hat⟩
      rw [ho] at hk
      obtain ⟨⟨n2, mx2, hmx, hat2⟩, ht⟩ := hk hp
      have hak2 : s2.log.acked = s.log.acked := hout.acked.trans hak1
      have hiss2 : s2.tp.iss = s.tp.iss := hout.iss.trans hiss1
      have hn : s.tp.sndNxt = adv s.tp.iss n := hat.pos.nxt_eq
      have hnm := hat.pos.nxt_max
      refine ⟨setNxt_max n hat2 ?_ (by omega) ?_ ?_, ht⟩
      · rw [hak2]
        exact hat.pos.una_nxt
      · intro hm
        rw [hak2]
        exact (hat.pos.exact_ hm).una_nxt
      · rw [hiss2, ← hn]

/-- An ACK that is not new leaves the invariant alone, or makes `tcp_output` send. -/
theorem inAckDup_good (h : Good m s) : FlowGood m (inAckDup i s) := by
  have hcalm : ∀ d c, Calm s { s with tp := { s.tp with tDupacks := d, sndCwnd := c } } :=
    fun d c => Calm.same rfl
  unfold inAckDup
  split
  · split
    · exact h.calm (hcalm 0 s.tp.sndCwnd)
    · next hdup =>
      simp only
      split
      · refine fastRexmt_kept (h.pre.calm (hcalm _ s.tp.sndCwnd)) ?_
        by_contra hne
        exact hdup (Or.inr hne)
      · split
        · exact callOutput_kept (h.pre.calm (hcalm _ _))
        · exact h.calm (hcalm _ s.tp.sndCwnd)
  · exact h.calm (hcalm 0 s.tp.sndCwnd)

/-! ## ACK processing -/

/-- The numbers that SYN_RECEIVED takes although they do not acknowledge our SYN: `iss` and the
number opposite to it. -/
def SynAckBad (tp : Tcpcb) (ack : Seq) : Prop :=
  (ack = tp.iss ∨ ack = adv tp.iss 2147483648) ∧ seqLEQ ack tp.sndMax = true
deriving Decidable

theorem synRcvd_ack_new {tp : Tcpcb} {ack : Seq} (hun : tp.sndUna = tp.iss)
    (hbad : ¬SynAckBad tp ack) (h1 : seqGT tp.sndUna ack = false)
    (h2 : seqGT ack tp.sndMax = false) : seqLEQ ack tp.sndUna = false := by
  have hle : seqLEQ ack tp.sndMax = true := by rw [seqLEQ_eq_not_seqGT, h2]; rfl
  have hne : ack ≠ tp.iss := fun he => hbad ⟨.inl he, hle⟩
  have hopp : ack ≠ adv tp.iss 2147483648 := fun he => hbad ⟨.inr he, hle⟩
  set g := gap ack tp.iss with hg
  have hgr := gap_range ack tp.iss
  have hack : ack = adv tp.iss g := (adv_gap ack tp.iss).symm
  have hlow : g ≠ -2147483648 := by
    intro h0
    refine hopp ?_
    rw [hack, h0]
    unfold adv
    congr 1
  have hgap : gap tp.iss ack = -g := by
    conv_lhs => rw [hack, show tp.iss = adv tp.iss 0 from (adv_zero _).symm, adv_adv]
    rw [gap_adv (by omega) (by omega)]
    omega
  have hz : g ≠ 0 := fun h0 => hne (gap_eq_zero_iff.mp h0)
  rw [hun] at h1 ⊢
  unfold seqGT at h1
  rw [hgap, decide_eq_false_iff_not] at h1
  unfold seqLEQ
  rw [← hg, decide_eq_false_iff_not]
  omega

theorem SendPos.una_of_syn (h : SendPos m v n mx)
    (hst : v.st = .synSent ∨ v.st = .synReceived) : v.una = v.iss := by
  rw [h.una_eq, (h.syn hst).1]
  exact adv_zero _

theorem SendPos.established {n mx : Int} (h : SendPos m v n mx) (queue : SoQueue)
    (hst : v.st = .synReceived) :
    SendPos m { v with st := .established, conn := true, queue := queue } n mx := by
  have henter : MayEnter m v .established := by
    refine ⟨fun h1 => ?_, by simp [finState, tcpOutflags], by simp [TcpState.toNat], by simp,
      by simp [TcpState.toNat], by simp⟩
    rw [hst] at h1
    simp [stillOpen] at h1
  exact (h.setSt henter).setSo id fun _ => rfl

/-- What SYN_RECEIVED does with an ACK: a RST, or the connection is established. -/
theorem inAckSynRcvd_cases (i : Inp) (s : Sys) :
    inAckSynRcvd i s = inDropwithreset i s ∨
      ((seqGT s.tp.sndUna i.tiAck = false ∧ seqGT i.tiAck s.tp.sndMax = false) ∧
        ∃ s' s1, inAckSynRcvd i s = .next i s' ∧ Calm s1 s' ∧ s1.log = s.log ∧
          sndView s1 = { sndView s with
            st := .established, conn := true, queue := (soisconnected s.so).soQueue } ∧
          (∀ n mx, Mid m s n mx → s.tp.tState = .synReceived → Mid m s1 n mx)) := by
  unfold inAckSynRcvd
  split
  · exact .inl rfl
  · next htest =>
    simp only [Bool.or_eq_true, not_or, Bool.not_eq_true] at htest
    refine .inr ⟨htest, _, { s with
      tp := inScale { s.tp with tState := .established }, so := soisconnected s.so }, rfl, ?_, rfl,
      ?_, ?_⟩
    · exact (calm_tcpReass _ none).trans (Calm.same rfl)
    · unfold inScale
      split <;> rfl
    · intro n mx hm hrcv
      have hpos := hm.pos.established (soisconnected s.so).soQueue hrcv
      unfold inScale
      split <;> exact ⟨hpos, hm.maxseg, fun ht => ⟨(hm.time ht).rttmin, (hm.time ht).rxtcur,
        (hm.time ht).route⟩⟩

/-- **ACK processing keeps the invariant**, apart from the two numbers it mistakes: one that does
not acknowledge our SYN, and one that acknowledges only the SYN after a close. -/
theorem inAck_kept (htl : m.timer → m.late) (h : Good m s)
    (hst : s.tp.tState ≠ .synSent ∧ s.tp.tState ≠ .listen)
    (hsyn : s.tp.tState = .synReceived → ¬SynAckBad s.tp i.tiAck)
    (hlate : m.late → finState s.tp.tState = true → s.log.acked = 0 → i.tiAck ≠ s.tp.iss + 1) :
    FlowKept m (inAck i s) := by
  have hmid : PassesOk m s → ∃ n mx, Mid m s n mx := by
    intro hp
    obtain ⟨⟨n, mx, -, hat⟩, -⟩ := h hp
    exact ⟨n, mx, hat.pos, hat.maxseg, hat.time⟩
  unfold inAck
  split
  · next hrcv =>
    rcases inAckSynRcvd_cases (m := m) i s with he | ⟨htest, s', s1, he, hc, hlog, hv1, hmid1⟩
    · rw [he]
      exact (inDropwithreset_good h).kept
    · rw [he]
      have hv := hc.view.trans hv1
      have hun : s'.tp.sndUna = s.tp.sndUna := congrArg Snd.una hv
      have hmx : s'.tp.sndMax = s.tp.sndMax := congrArg Snd.max hv
      have hst' : s'.tp.tState = .established := congrArg Snd.st hv
      have hp' : PassesOk m s' → PassesOk m s := by
        intro hp p hmem
        exact hp p (by rw [hc.passes, hlog]; exact hmem)
      show FlowKept m (if seqLEQ i.tiAck s'.tp.sndUna = true then inAckDup i s' else inAckNew i s')
      by_cases hleq : seqLEQ i.tiAck s'.tp.sndUna = true
      · -- no ACK that gets here is old
        rw [if_pos hleq]
        rw [hun] at hleq
        refine (inAckDup_good fun hp => ?_).kept
        obtain ⟨n, mx, hm⟩ := hmid (hp' hp)
        have hui : s.tp.sndUna = s.tp.iss := hm.pos.una_of_syn (Or.inr hrcv)
        have := synRcvd_ack_new hui (hsyn hrcv) htest.1 htest.2
        rw [hleq] at this
        simp at this
      · rw [if_neg hleq]
        refine inAckNew_kept htl ?_ ?_ (by simpa using hleq) (by simp [PastSyn, hst']) ?_
        · intro hp
          obtain ⟨n, mx, hm⟩ := hmid (hp' hp)
          have hm1 := hmid1 n mx hm hrcv
          exact ⟨n, mx, by rw [hc.view]; exact hm1.pos, hc.maxseg hm1.maxseg,
            fun ht => hc.time (hm1.time ht)⟩
        · intro hgt
          rw [hmx, htest.2] at hgt
          simp at hgt
        · intro _ hfs
          rw [hst'] at hfs
          simp [finState, tcpOutflags] at hfs
  · next hrcv =>
    show FlowKept m (if seqLEQ i.tiAck s.tp.sndUna = true then inAckDup i s else inAckNew i s)
    split
    · exact (inAckDup_good h).kept
    · next hleq =>
      exact inAckNew_kept htl hmid (fun _ => h) (by simpa using hleq) ⟨hst.1, hrcv, hst.2⟩ hlate

end Anp
