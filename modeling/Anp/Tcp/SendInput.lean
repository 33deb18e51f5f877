import Anp.Tcp.SendAck

/-!
# SendInput — `tcp_input` keeps the send invariant

ACK processing is in `SendAck`; here are the parts around it: header prediction, the states before
the connection is synchronized, the checks that drop a segment, and everything from `step6` on.
-/

namespace Anp

open Cyclic Machine

variable {i : Inp} {mx n : Int} {seg : Segment} {s : Sys}

variable {m : Mode}

/-! ## Header prediction -/

theorem SendAt.ack_le_cc (h : SendAt m s n mx) (hst : s.tp.tState = .established) {k : Nat}
    (hk : s.log.acked + k ≤ mx) :
    k ≤ s.so.soSnd.sbCc := by
  have hak : 1 ≤ s.log.acked := h.settled.est hst
  have hmx : mx ≤ s.log.wrote.length + 2 := h.pos.max_le
  have hne : mx ≠ s.log.wrote.length + 2 := by
    intro he
    have h1 : stillOpen s.tp.tState = false := (h.pos.max_fin he).2
    rw [hst] at h1
    cases h1
  rcases h.pos.acct with ⟨h1, -⟩ | ⟨-, h2⟩ | ⟨h1, -⟩
  · have h1' : s.log.acked = 0 := h1
    omega
  · have h2' : s.log.acked + s.so.soSnd.sbCc = s.log.wrote.length + 1 := h2
    omega
  · have h1' : s.log.acked = s.log.wrote.length + 2 := h1
    omega

theorem predictAck_inv {k : Nat} (h : SendAt m s n mx) (hst : s.tp.tState = .established)
    (hk : 1 ≤ k) (hkm : s.log.acked + k ≤ mx) (hnm : s.tp.sndNxt = s.tp.sndMax) {sb : Sockbuf}
    {r : Int} (hmb : sb.sbMb.flatMap chainBytes = (s.so.soSnd.sbMb.flatMap chainBytes).drop k)
    (hcc : sb.sbCc = s.so.soSnd.sbCc - k) (hone : m.one → sb.sbMb.length ≤ 1) :
    SendInv m { s with
      tp := { s.tp with sndUna := adv s.tp.iss (s.log.acked + k), rexmt := r }
      so := { s.so with soSnd := sb }
      log := { s.log with acked := s.log.acked + k } } := by
  have hle := h.ack_le_cc hst hkm
  have hstv : (sndView s).st = .established := hst
  have hn : n = mx := by
    have h1 : s.tp.sndNxt = adv s.tp.iss n := h.pos.nxt_eq
    have h2 : s.tp.sndMax = adv s.tp.iss mx := h.pos.max_eq
    have h3 := h.pos.nxt_max
    have h4 : (s.log.acked : Int) ≤ n + 1 := h.pos.una_nxt
    have h5 : mx ≤ s.log.acked + s.so.soSnd.sbCc + 2 := h.pos.range.1
    have h6 : s.so.soSnd.sbCc < 2147483645 := h.pos.cc_lt
    rw [h1, h2] at hnm
    exact adv_inj s.tp.iss (by norm_num; omega) (by norm_num; omega) hnm
  have henter : AckEnter m (sndView s) k .established := by
    refine ⟨by rw [hstv], by simp [finState, tcpOutflags], by simp [TcpState.toNat], by simp,
      by simp [TcpState.toNat], by simp⟩
  have hmin : min k (sndView s).cc = k := min_eq_left hle
  have hmax : max n ((sndView s).acked + k : Int) = n := by
    have : (sndView s).acked = s.log.acked := rfl
    omega
  have hmb' : sb.sbMb.flatMap chainBytes =
      ((sndView s).mb.flatMap chainBytes).drop (min k (sndView s).cc) := by
    rw [hmin]
    exact hmb
  have hpos := h.pos.ack hk hkm henter hmb' hone
  rw [hmax, hmin] at hpos
  have hview : sndView { s with
      tp := { s.tp with sndUna := adv s.tp.iss (s.log.acked + k), rexmt := r }
      so := { s.so with soSnd := sb }
      log := { s.log with acked := s.log.acked + k } } = { sndView s with
      st := .established, una := adv s.tp.iss (s.log.acked + k), acked := s.log.acked + k
      nxt := adv s.tp.iss n, cc := s.so.soSnd.sbCc - k, mb := sb.sbMb } := by
    have h1 : s.tp.sndNxt = adv s.tp.iss n := h.pos.nxt_eq
    unfold sndView
    simp only [hcc, hst, h1]
  refine SendAt.inv (h.moved (hview ▸ hpos) (settled_of_acked ?_) rfl)
  show 1 ≤ s.log.acked + k
  omega

/-- **A predicted ACK.** -/
theorem predictAck_kept (h : Good m s) (hst : s.tp.tState = .established)
    (hgt : seqGT i.tiAck s.tp.sndUna = true) (hle : seqLEQ i.tiAck s.tp.sndMax = true)
    (hnm : s.tp.sndNxt = s.tp.sndMax) : Kept m 0 (predictAck i s) := by
  have hc := calm_inXmitTimer i s
  unfold predictAck
  generalize inXmitTimer i s = s1 at hc ⊢
  have hmx1 := snd_max hc.view
  have hst1 : s1.tp.tState = .established := (congrArg Snd.st hc.view).trans hst
  have hnm1 : s1.tp.sndNxt = s1.tp.sndMax := by
    have : s1.tp.sndNxt = s.tp.sndNxt := congrArg Snd.nxt hc.view
    rw [this, hmx1, hnm]
  -- where the ACK is, and what is dropped for it
  have hplace : PassesOk m s1 → ∃ n mx k, SendAt m s1 n mx ∧ 1 ≤ k ∧
      gap i.tiAck s1.tp.sndUna = (k : Nat) ∧ i.tiAck = adv s1.tp.iss (s1.log.acked + k) ∧
      s1.log.acked + k ≤ mx := by
    intro hp
    obtain ⟨⟨n, mx, -, hat⟩, -⟩ := (h.calm hc) hp
    have hgap : 0 < gap i.tiAck (sndView s1).una := by
      have : 0 < gap i.tiAck s.tp.sndUna := by
        unfold seqGT at hgt
        simpa using hgt
      show 0 < gap i.tiAck s1.tp.sndUna
      rw [snd_una hc.view]
      exact this
    have hnot : seqGT i.tiAck (sndView s1).max = false := by
      show seqGT i.tiAck s1.tp.sndMax = false
      rw [hmx1]
      simpa [seqLEQ_eq_not_seqGT] using hle
    obtain ⟨k, h1, h2, h3, h4, -⟩ := hat.pos.ack_place hgap hnot
    exact ⟨n, mx, k, hat, h1, h2, h3, h4⟩
  cases hsb : sbdrop s1.so.soSnd (gap i.tiAck s1.tp.sndUna) with
  | none =>
    simp only [dropSnd, hsb]
    intro hp
    obtain ⟨n, mx, k, hat, h1, h2, -, h4⟩ := hplace hp
    obtain ⟨sb, hok, -⟩ := dropSnd_eq hat.pos (hat.ack_le_cc hst1 h4)
    rw [← h2, dropSnd, hsb] at hok
    cases hok
  | some sb =>
    simp only [dropSnd, hsb, Outcome.bind_ok]
    obtain ⟨r, hr, hrun⟩ := ackTimer_eq i.tiAck { s1.tp with sndUna := i.tiAck }
    have hstate : ({ setUna { s1 with so := { s1.so with soSnd := sb } } i.tiAck with
        tp := ackTimer i.tiAck (setUna { s1 with so := { s1.so with soSnd := sb } } i.tiAck).tp } :
        Sys) = { s1 with
          tp := { s1.tp with sndUna := i.tiAck, rexmt := r }
          so := { s1.so with soSnd := sb }
          log := { s1.log with acked := s1.log.acked + (gap i.tiAck s1.tp.sndUna).toNat } } := by
      show ({ s1 with tp := ackTimer i.tiAck { s1.tp with sndUna := i.tiAck }, so := _, log := _ } :
        Sys) = _
      rw [hr]
      rfl
    rw [hstate]
    generalize hs2 : ({ s1 with
      tp := { s1.tp with sndUna := i.tiAck, rexmt := r }
      so := { s1.so with soSnd := sb }
      log := { s1.log with acked := s1.log.acked + (gap i.tiAck s1.tp.sndUna).toNat } } : Sys) = s2
    have hpass : PassesOk m s2 → PassesOk m s1 := by
      rw [← hs2]
      exact id
    have hpre : Pre m s2 := by
      intro hp
      obtain ⟨n, mx, k, hat, h1, h2, h3, h4⟩ := hplace (hpass hp)
      obtain ⟨sb', hok, hmb, hcc, hone⟩ := dropSnd_eq hat.pos (hat.ack_le_cc hst1 h4)
      rw [← h2, dropSnd, hsb] at hok
      have hsbe : sb = sb' := by
        injection hok with _ hok
        exact congrArg (fun s : Sys => s.so.soSnd) hok
      subst hsbe
      rw [← hs2, h2, Int.toNat_natCast, h3]
      exact predictAck_inv hat hst1 h1 h4 hnm1 hmb hcc hone
    unfold sendRest
    split
    · exact callOutput_kept hpre
    · next hz =>
      intro hp
      refine ⟨hpre hp, ?_⟩
      intro hm _ _ hpend
      obtain ⟨n, mx, k, hat, -⟩ := hplace (hpass hp)
      have hne := hpend.resolve_left hz
      rw [← hs2] at hne ⊢
      exact hrun hne (hat.time hm).rxtcur

/-! ## Up to ACK processing -/

/-- A part of `tcp_input` that does not touch the send half of a connection it lets pass, and
keeps the invariant of one it does not. -/
def Check (m : Mode) (i : Inp) (s : Sys) : Flow → Prop
  | .next i' s' => Calm s s' ∧ i'.tiAck = i.tiAck
  | .done o => Good m s → Kept m 0 o

theorem check_inPredict (i : Inp) (s : Sys) : Check m i s (inPredict i s) := by
  unfold inPredict
  simp only
  split
  · next hc =>
    obtain ⟨hst, -, -, -, -, -, -, hnm⟩ := hc
    have hts := calm_inTsRecent i s 0
    split
    · split
      · next hack =>
        intro hg
        simp only [Bool.and_eq_true] at hack
        refine predictAck_kept (hg.calm hts) ?_ hack.1.1 hack.1.2 ?_
        · exact (congrArg Snd.st hts.view).trans hst
        · exact ((congrArg Snd.nxt hts.view).trans hnm).trans (congrArg Snd.max hts.view).symm
      · exact ⟨hts, rfl⟩
    · split
      · intro hg
        refine (hg.calm hts).calm ?_
        exact Calm.same rfl
      · exact ⟨hts, rfl⟩
  · exact ⟨Calm.refl s, rfl⟩

theorem Rejected.kept {o : Outcome Unit} (h : Rejected i s o) (hg : Good m s) : Kept m 0 o := by
  cases h with
  | drop => exact hg
  | ack => exact callOutput_kept (hg.pre.calm (Calm.same rfl))
  | close why e hw =>
    refine tcpClose_kept (hg.pre.calm ?_) hw
    exact Calm.same rfl
  | gone => exact tcpClose_kept (hg.pre.calm (calm_inRespond i s)) (by simp)
  | reset => exact tcpDrop_kept hg.pre (by simp) _ fun s => calm_inRespond i s

/-- **The checks before ACK processing.** -/
theorem check_inCheck (i : Inp) (s : Sys) : Check m i s (inCheck i s) := by
  rcases inCheck_cases i s with ⟨i', s', e, hp⟩ | ⟨j, s1, o, e, hn, hr⟩
  · rw [e]
    exact ⟨hp.noted.calm, hp.header.tiAck⟩
  · rw [e]
    exact fun hg => hr.kept (hg.calm hn.calm)

theorem inHeader_calm {s' : Sys} (h : inHeader s seg = some (i, s')) :
    Calm s s' ∧ i.tiAck = seg.tiAck :=
  ⟨reads_calm.inHeader h, (inHeader_whole h).1.tiAck⟩

/-! ## LISTEN and SYN_SENT -/

theorem inTrimSyn_good (h : Good m s) : FlowKept m (inTrimSyn i s) := by
  refine fun hp => And.imp_right .inl (h.calm ?_ hp)
  exact Calm.same rfl

theorem timed_of_early (h : s.tp.tState.toNat < TcpState.established.toNat) :
    Timed m s := by
  intro _ _ hst
  omega

/-- A connection that a listening socket made has not sent anything: it may start. -/
theorem SendAt.accepted (h : SendAt m s n mx) (hst : s.tp.tState = .listen)
    (hacc : s.so.soAcceptconn = false) {tp : Tcpcb}
    (hseq : tp.sndUna = tp.iss ∧ tp.sndNxt = tp.iss ∧ tp.sndMax = tp.iss)
    (hst' : tp.tState = .synReceived) (hsf : tp.tfSentfin = s.tp.tfSentfin)
    (htp : tp.tMaxseg = s.tp.tMaxseg ∧ tp.tRttmin = s.tp.tRttmin ∧ tp.tRxtcur = s.tp.tRxtcur) :
    SendAt m { s with tp := tp } 0 0 := by
  obtain ⟨hak, hnofin⟩ : s.log.acked = 0 ∧ s.tp.tfSentfin = false := by
    rcases h.pos.listen hst with h1 | h1
    · exact nomatch hacc.symm.trans h1
    · exact h1
  obtain ⟨hwr, hcc⟩ : s.log.wrote = [] ∧ s.so.soSnd.sbCc = 0 := h.pos.empty hak
  have hmb : s.so.soSnd.sbMb.flatMap chainBytes = [] := by
    have hb : s.so.soSnd.sbMb.flatMap chainBytes =
      s.log.wrote.drop (s.log.wrote.length - s.so.soSnd.sbCc) := h.pos.bytes
    rw [hb, hwr, List.drop_nil]
  refine ⟨SendPos.start ⟨hak, hwr⟩ ⟨hcc, hmb⟩ hseq ?_ ?_ ?_ ?_ h.pos.one, ⟨h.settled.early, ?_⟩, ?_, ?_⟩
  · show tp.tState.toNat < _
    rw [hst']
    decide
  · exact fun h1 => nomatch (hsf.trans hnofin).symm.trans h1
  · exact fun h1 => nomatch hst'.symm.trans h1
  · intro hm
    have hx := h.pos.exact_ hm
    exact ⟨hsf.trans hnofin, fun g hg => ⟨hx.sent g hg, hx.fin_cant g hg⟩⟩
  · exact fun h1 => nomatch hst'.symm.trans h1
  · show tp.tMaxseg < 65536
    rw [htp.1]
    exact h.maxseg
  · intro hm
    exact ⟨by show 1 ≤ tp.tRttmin ∧ _; rw [htp.2.1]; exact (h.time hm).rttmin,
      by show tp.tRxtcur ≠ 0; rw [htp.2.2]; exact (h.time hm).rxtcur, (h.time hm).route⟩

theorem inListen_kept {iss : Seq} (h : Good m s) (hst : s.tp.tState = .listen)
    (hacc : s.so.soAcceptconn = false) :
    FlowKept m (inListen iss seg i s) := by
  have htm : Calm s { s with tp := { s.tp with tTemplate := true } } := Calm.same rfl
  refine inListen_elim (fun s' e hs' => ?_) (fun hp => ?_) fun _ iss' s' ts hsome => ?_
  · refine tcpDrop_kept (h.pre.calm ?_) (by simp) _ fun s => Calm.refl s
    rcases hs' with rfl | rfl
    · exact Calm.refl s'
    · exact calm_inRespond i s
  · obtain ⟨n, mx, -, hat⟩ := (h.calm htm hp).1
    exact hat.stop (by simp) (by simp)
  · have hc := htm.trans (reads_calm.dooptionsLoop _ hsome)
    refine inTrimSyn_good fun hp => ?_
    have hc' : Good m s' := h.calm hc
    obtain ⟨⟨n, mx, -, hat⟩, -⟩ := hc' hp
    have hst' : s'.tp.tState = .listen := (congrArg Snd.st hc.view).trans hst
    have hacc' : s'.so.soAcceptconn = false := (congrArg Snd.accept hc.view).trans hacc
    refine ⟨SendAt.inv (hat.accepted hst' hacc' ⟨rfl, rfl, rfl⟩ rfl rfl ⟨rfl, rfl, rfl⟩),
      timed_of_early (show TcpState.synReceived.toNat < _ by decide)⟩

/-- A simultaneous open: the SYN of the peer arrives before its ACK. -/
theorem SendPos.toSynReceived {v : Snd} (h : SendPos m v n mx) (hst : v.st = .synSent) :
    SendPos m { v with st := .synReceived } n mx := by
  have hsyn := h.syn (Or.inl hst)
  have hopen : stillOpen v.st = true := by rw [hst]; rfl
  have hlow : ¬TcpState.finWait1.toNat ≤ TcpState.synReceived.toNat := by decide
  exact
    { h with
      max_fin := fun he => nomatch hopen.symm.trans (h.max_fin he).2
      fin_ack := fun _ => rfl
      cant := by
        rintro (h1 | h1)
        · exact h.cant (Or.inl h1)
        · exact absurd h1 hlow
      syn := fun _ => hsyn
      drained := fun h1 => absurd (le_trans (by decide) h1) hlow
      listen := fun h1 => by cases h1
      exact_ := by
        intro hm
        have hx := h.exact_ hm
        refine ⟨hx.una_nxt, ?_, fun _ _ h3 => (by cases h3), hx.fin_cant, hx.sent⟩
        exact fun h1 => nomatch hopen.symm.trans (hx.sentfin h1).1 }

theorem SendPos.synAcked {v : Snd} (h : SendPos m v n mx) (hst : v.st = .synSent) {ack : Seq}
    (h1 : seqLEQ ack v.iss = false) (h2 : seqGT ack v.max = false) :
    ack = adv v.iss 1 ∧ mx = 1 ∧ v.acked = 0 ∧ v.una = v.iss := by
  obtain ⟨hak, hmx⟩ := h.syn (Or.inl hst)
  have hun : v.una = v.iss := h.una_of_syn (Or.inl hst)
  have hgt : 0 < gap ack v.una := by
    rw [hun]
    unfold seqLEQ at h1
    rw [decide_eq_false_iff_not] at h1
    omega
  obtain ⟨k, hk1, -, hack, hkm, -⟩ := h.ack_place hgt h2
  have hk : k = 1 := by omega
  refine ⟨?_, by omega, hak, hun⟩
  rw [hack, hak, hk]
  rfl

theorem SendAt.connected {s' : Sys} (h : SendAt m s n mx) (hst : s.tp.tState = .synSent) {ack : Seq}
    (h1 : seqLEQ ack s.tp.iss = false) (h2 : seqGT ack s.tp.sndMax = false) {queue : SoQueue}
    (hview : sndView s' = { sndView s with
      st := .established, una := ack, acked := s.log.acked + (gap ack s.tp.sndUna).toNat
      nxt := if seqLT s.tp.sndNxt ack = true then ack else s.tp.sndNxt
      conn := true, queue := queue })
    (htp : s'.tp.tMaxseg = s.tp.tMaxseg ∧ s'.tp.tRttmin = s.tp.tRttmin ∧
      s'.tp.tRxtcur = s.tp.tRxtcur) (hw : s'.w = s.w) :
    SendInv m s' ∧ Timed m s' := by
  obtain ⟨hack, hmx, hak, hun⟩ := h.pos.synAcked hst h1 h2
  obtain ⟨hwr, hcc⟩ := h.pos.empty hak
  have henter : AckEnter m (sndView s) 1 .established := by
    have hopen : stillOpen (sndView s).st = true := by
      show stillOpen s.tp.tState = true
      rw [hst]
      rfl
    exact ⟨hopen.symm, by simp [finState, tcpOutflags], by simp [TcpState.toNat], by simp,
      by simp [TcpState.toNat], by simp⟩
  have hn0 : (-1 : Int) ≤ n ∧ n ≤ 1 := by
    have := h.pos.una_nxt
    have := h.pos.nxt_max
    omega
  have hgap : (gap ack s.tp.sndUna).toNat = 1 := by
    have hu : s.tp.sndUna = adv s.tp.iss 0 := hun.trans (adv_zero _).symm
    have ha : ack = adv s.tp.iss 1 := hack
    rw [hu, ha, gap_adv (by omega) (by omega)]
    rfl
  have hnxt : (if seqLT s.tp.sndNxt ack = true then ack else s.tp.sndNxt) =
      adv s.tp.iss (max n 1) := by
    have hn : s.tp.sndNxt = adv s.tp.iss n := h.pos.nxt_eq
    have ha : ack = adv s.tp.iss 1 := hack
    rw [hn, ha, pullNxt_pos (by omega) (by omega)]
  have hak' : s.log.acked = 0 := hak
  have hcc' : s.so.soSnd.sbCc = 0 := hcc
  have hmb : (sndView s).mb.flatMap chainBytes =
      ((sndView s).mb.flatMap chainBytes).drop (min 1 (sndView s).cc) := by
    rw [hcc]
    rfl
  have hview' : sndView s' = { sndView s with
      st := .established, una := adv s.tp.iss ((sndView s).acked + (1 : Nat))
      acked := (sndView s).acked + 1, nxt := adv s.tp.iss (max n ((sndView s).acked + (1 : Nat)))
      cc := (sndView s).cc - min 1 (sndView s).cc, conn := true, queue := queue } := by
    have ha : ack = adv s.tp.iss 1 := hack
    rw [hview, hgap, hnxt, hcc, hak, ha]
    simp only [sndView, hak', hcc']
    rfl
  have hpos : SendPos m (sndView s') (max n ((sndView s).acked + (1 : Nat))) mx := by
    rw [hview']
    exact (h.pos.ack (le_refl 1) (by omega) henter hmb h.pos.one).setSo id fun _ => rfl
  have hak1 : 1 ≤ s'.log.acked := by
    have : s'.log.acked = s.log.acked + 1 := congrArg Snd.acked hview'
    omega
  have hat := h.moved hpos (settled_of_acked hak1) (by simp only [baseView, htp, hw])
  refine ⟨hat.inv, timed_of_quiet fun _ => ⟨?_, ?_⟩⟩
  · have : s'.so.soSnd.sbCc = s.so.soSnd.sbCc - min 1 s.so.soSnd.sbCc := congrArg Snd.cc hview'
    omega
  · have hu : s'.tp.sndUna = ack := congrArg Snd.una hview
    have hm : s'.tp.sndMax = s.tp.sndMax := congrArg Snd.max hview
    have hme : s.tp.sndMax = adv s.tp.iss mx := h.pos.max_eq
    rw [hu, hm, hme, hmx]
    exact hack

theorem calm_inConnected (s : Sys) :
    Calm { s with
      tp := inScale { s.tp with tState := .established }, so := soisconnected s.so }
      (inConnected s) := by
  unfold inConnected
  simp only
  split
  · exact (calm_tcpReass _ none).trans (calm_tcpXmitTimer _ _)
  · exact calm_tcpReass _ none

theorem inSynSent_kept (h : Good m s) (hst : s.tp.tState = .synSent) :
    FlowKept m (inSynSent i s) := by
  refine inSynSent_elim (inDropwithreset_good h).kept
    (tcpDrop_kept h.pre (by simp) _ fun s => Calm.refl s) h (fun _ => ?_) fun h1 h2 => ?_
  · refine inTrimSyn_good fun hp => ?_
    obtain ⟨⟨n, mx, hmx, hat⟩, -⟩ := h hp
    refine ⟨⟨n, mx, hmx, hat.moved (hat.pos.toSynReceived hst)
      ⟨hat.settled.early, fun he => by cases he⟩ rfl⟩,
      timed_of_early (show TcpState.synReceived.toNat < _ by decide)⟩
  · refine inTrimSyn_good (Good.calm ?_ (calm_inConnected _))
    generalize hs2 : ({ inSynSeen i (pullNxt (setUna s i.tiAck)) with tp := _, so := _ } : Sys) = s2
    intro hp
    have hw : s2.w = s.w := by rw [← hs2]; rfl
    have hpass : s2.log.passes = s.log.passes := by rw [← hs2]; rfl
    have hview : sndView s2 = { sndView s with
        st := .established, una := i.tiAck
        acked := s.log.acked + (gap i.tiAck s.tp.sndUna).toNat
        nxt := if seqLT s.tp.sndNxt i.tiAck = true then i.tiAck else s.tp.sndNxt
        conn := true, queue := (soisconnected s.so).soQueue } := by
      rw [← hs2]
      unfold inScale
      split <;> rfl
    have htp : s2.tp.tMaxseg = s.tp.tMaxseg ∧ s2.tp.tRttmin = s.tp.tRttmin ∧
        s2.tp.tRxtcur = s.tp.tRxtcur := by
      rw [← hs2]
      unfold inScale
      split <;> exact ⟨rfl, rfl, rfl⟩
    obtain ⟨⟨n, mx, -, hat⟩, -⟩ := h (by unfold PassesOk at hp; rwa [hpass] at hp)
    exact hat.connected hst h1 h2 hview htp hw

/-! ## `step6` and after -/

theorem inUrgent_cases (i : Inp) (s : Sys) :
    (∃ i' s', inUrgent i s = .next i' s' ∧ Calm s s' ∧ i'.needoutput = i.needoutput) ∨
      ∃ s', inUrgent i s = .done (.stop (.panic .tcpPulloutofband) s') ∧ Calm s s' := by
  unfold inUrgent
  simp only
  split
  · split
    · exact .inl ⟨_, _, rfl, Calm.refl s, rfl⟩
    · split
      · unfold tcpPulloutofband
        split
        · refine .inl ⟨_, _, rfl, (calm_markUrgent i s).trans ?_, rfl⟩
          exact Calm.same rfl
        · exact .inr ⟨_, rfl, calm_markUrgent i s⟩
      · exact .inl ⟨_, _, rfl, calm_markUrgent i s, rfl⟩
  · exact .inl ⟨_, _, rfl, Calm.same rfl, rfl⟩

theorem SendAt.setSt (h : SendAt m s n mx) {st' : TcpState} (he : MayEnter m (sndView s) st')
    (hest : st' ≠ .established) :
    SendAt m { s with tp := { s.tp with tState := st' } } n mx :=
  h.moved (h.pos.setSt he) ⟨h.settled.early, fun he => absurd he hest⟩ rfl

theorem Timed.setSt (h : Timed m s) {st' : TcpState}
    (hst : 1 ≤ s.log.acked → TcpState.established.toNat ≤ s.tp.tState.toNat) :
    Timed m { s with tp := { s.tp with tState := st' } } :=
  fun hm hak _ hpend => h hm hak (hst hak) hpend

theorem SendAt.drained_quiet (h : SendAt m s n mx)
    (hst : TcpState.finWait2.toNat ≤ s.tp.tState.toNat) (hm : m.late) :
    s.so.soSnd.sbCc = 0 ∧ s.tp.sndUna = s.tp.sndMax := by
  obtain ⟨hcc, hak⟩ := h.pos.drained hst
  refine ⟨hcc, ?_⟩
  have h1 : s.tp.sndUna = adv s.tp.iss (s.log.acked : Int) := h.pos.una_eq
  have h2 : s.tp.sndMax = adv s.tp.iss mx := h.pos.max_eq
  have h3 : s.log.acked = s.log.wrote.length + 2 := hak hm
  have h4 : mx ≤ s.log.wrote.length + 2 := h.pos.max_le
  have h5 : (s.log.acked : Int) ≤ mx := h.pos.una_max
  rw [h1, h2]
  congr 1
  omega

theorem finState6_kept (htl : m.timer → m.late) {b : Bool} (h : SendInv m s)
    (ht : Timed m s ∨ b = true) :
    SendInv m (finState6 s) ∧ (Timed m (finState6 s) ∨ b = true) := by
  obtain ⟨n, mx, -, hat⟩ := h
  have hsame : ∀ st', MayEnter m (sndView s) st' → st' ≠ .established →
      (1 ≤ s.log.acked → TcpState.established.toNat ≤ s.tp.tState.toNat) →
      SendInv m { s with tp := { s.tp with tState := st' } } ∧
        (Timed m { s with tp := { s.tp with tState := st' } } ∨ b = true) := by
    intro st' he hest hge
    exact ⟨(hat.setSt he hest).inv, ht.imp_left fun ht => ht.setSt hge⟩
  have hwait (hopen : stillOpen s.tp.tState = true) : MayEnter m (sndView s) .closeWait := by
    refine ⟨fun h1 => (nomatch hopen.symm.trans h1), ?_, ?_, by simp, ?_, by simp⟩
    all_goals simp [finState, tcpOutflags, TcpState.toNat]
  unfold finState6
  split
  · next hst =>
    -- our SYN is not acknowledged yet
    have hak : s.log.acked = 0 := (hat.pos.syn (Or.inr hst)).1
    exact hsame .closeWait (hwait (by rw [hst]; rfl)) (by simp) (by omega)
  · next hst =>
    exact hsame .closeWait (hwait (by rw [hst]; rfl)) (by simp) fun _ => by rw [hst]
  · next hst =>
    have hcant : (sndView s).cant = true := hat.pos.cant (.inr (by
      show _ ≤ s.tp.tState.toNat
      rw [hst]))
    refine hsame .closing ⟨fun _ => rfl, fun _ => .inl ?_, fun _ => hcant, by simp, ?_, by simp⟩
      (by simp) (fun _ => by rw [hst]; decide)
    · show finState s.tp.tState = true
      rw [hst]
      rfl
    · simp [TcpState.toNat]
  · next hst =>
    have hge : TcpState.finWait2.toNat ≤ s.tp.tState.toNat := by rw [hst]
    have hcant : (sndView s).cant = true := hat.pos.cant (.inr (le_trans (by decide) hge))
    have hcc : s.so.soSnd.sbCc = 0 := (hat.pos.drained hge).1
    have hq := hat.drained_quiet hge
    have he : MayEnter m (sndView s) .timeWait :=
      ⟨fun _ => rfl, by simp [finState, tcpOutflags], fun _ => hcant, by simp,
        fun _ => hat.pos.drained hge, by simp⟩
    have hat' := hat.setSt he (by simp)
    refine ⟨⟨n, mx, le_trans (by omega) hat.pos.una_max, hat.moved
      (hat'.pos.setSo (fun _ => rfl) (absurd hcc)) ?_ rfl⟩, .inl ?_⟩
    · exact ⟨fun _ hc => (by cases hc), fun hc => (by cases hc)⟩
    · exact timed_of_quiet fun hm => hq (htl hm)
  · have hc : Calm s { s with tp := { s.tp with msl2 := 2 * tcptvMsl } } := Calm.same rfl
    exact ⟨(hat.calm hc).inv, ht.imp_left fun ht => ht.calm hc⟩
  · exact ⟨hat.inv, ht⟩

theorem inFin_kept (htl : m.timer → m.late) (i : Inp) {b : Bool} (h : SendInv m s)
    (ht : Timed m s ∨ b = true) : SendInv m (inFin i s) ∧ (Timed m (inFin i s) ∨ b = true) := by
  unfold inFin
  split
  · split
    · have hc : Calm s { s with
          so := socantrcvmore s.so
          tp := { s.tp with tfAcknow := true, rcvNxt := s.tp.rcvNxt + 1 }
          log := { s.log with fins := s.tp.rcvNxt :: s.log.fins } } :=
        Calm.same rfl
      exact finState6_kept htl (h.calm hc) (ht.imp_left fun ht => ht.calm hc)
    · exact finState6_kept htl h ht
  · exact ⟨h, ht⟩

theorem passes_inFin (i : Inp) (s : Sys) : (inFin i s).log.passes = s.log.passes := by
  unfold inFin finState6
  split
  · split <;> split <;> rfl
  · rfl

theorem needoutput_inWindow (i : Inp) (s : Sys) (h : i.needoutput = true) :
    (inWindow i s).1.needoutput = true := by
  unfold inWindow
  simp only
  split
  · rfl
  · exact h

/-- **From `step6` on**: where a timer may be missing, `tcp_output` is called. -/
theorem inStep6_kept (htl : m.timer → m.late)
    (h : PassesOk m s → SendInv m s ∧ (Timed m s ∨ i.needoutput = true)) :
    Kept m 0 (inStep6 i s) := by
  have hw := calm_inWindow i s
  have hn := needoutput_inWindow i s
  unfold inStep6
  simp only
  rcases inUrgent_cases (inWindow i s).1 (inWindow i s).2 with
    ⟨i2, s2, he, hc, hno⟩ | ⟨s2, he, hc⟩
  · rw [he]
    have hcalm := (hw.trans hc).trans (calm_inText i2 s2)
    have hfin : PassesOk m (inFin (inText i2 s2).1 (inText i2 s2).2) →
        SendInv m (inFin (inText i2 s2).1 (inText i2 s2).2) ∧
          (Timed m (inFin (inText i2 s2).1 (inText i2 s2).2) ∨ i2.needoutput = true) := by
      intro hp
      unfold PassesOk at hp
      rw [passes_inFin, hcalm.passes] at hp
      obtain ⟨h1, h2⟩ := h hp
      refine inFin_kept htl _ (h1.calm hcalm) (h2.imp (fun h3 => h3.calm hcalm) fun h3 => ?_)
      rw [hno]
      exact hn h3
    show Kept m 0 (if _ then _ else _)
    split
    · exact callOutput_kept fun hp => (hfin hp).1
    · next hout =>
      intro hp
      obtain ⟨h1, h2⟩ := hfin hp
      refine ⟨h1, h2.resolve_right fun h3 => hout ?_⟩
      rw [h3]
      rfl
  · rw [he]
    intro hp
    obtain ⟨h1, -⟩ := h (PassesOk.calm (hw.trans hc) hp)
    obtain ⟨n, mx, -, hat⟩ := h1.calm (hw.trans hc)
    exact hat.stop (by simp) (by simp)

/-! ## `tcp_input` -/

/-- The segment does not bring one of the two acknowledgement numbers that ACK processing
mistakes. -/
structure AckFair (m : Mode) (s : Sys) (seg : Segment) : Prop where
  syn : (ackStage s seg).isSome → s.tp.tState = .synReceived → ¬SynAckBad s.tp seg.tiAck
  late : (ackStage s seg).isSome → m.late → finState s.tp.tState = true →
    s.tp.sndUna = s.tp.iss → seg.tiAck ≠ s.tp.iss + 1

/-- ACK processing is reached with the send half and the acknowledgement number unchanged. -/
theorem inCheck_ackStage {s1 s2 s3 : Sys} {i1 i2 i3 : Inp}
    (hst : ¬(s.tp.tState = .closed ∨ s.so.soAcceptconn ∨ s.tp.tState = .listen ∨
      s.tp.tState = .synSent)) (hh : inHeader s seg = some (i1, s1))
    (hp : inPredict i1 s1 = .next i2 s2) (hc : inCheck i2 (inRcvWnd s2) = .next i3 s3) :
    (ackStage s seg).isSome ∧ Calm s s3 ∧ i3.tiAck = seg.tiAck := by
  obtain ⟨rfl, hn⟩ := inPredict_next hp
  obtain ⟨hc1, ha1⟩ := inHeader_calm hh
  have hpass := inCheck_next hc
  refine ⟨?_, ((hc1.trans hn.calm).trans (calm_inRcvWnd s2)).trans hpass.noted.calm,
    hpass.header.tiAck.trans ha1⟩
  rw [ackStage_eq hst hh hp hc]
  rfl

theorem inSwitch_kept (htl : m.timer → m.late) {s1 s2 : Sys} {i1 i2 : Inp} (h : Good m s)
    (hun : s.log.acked = 0 → s.tp.sndUna = s.tp.iss) (hf : AckFair m s seg)
    (hcl : s.tp.tState ≠ .closed) (hacc : s.so.soAcceptconn = false)
    (hh : inHeader s seg = some (i1, s1)) (hp : inPredict i1 s1 = .next i2 s2) :
    FlowKept m (inSwitch seg i2 (inRcvWnd s2)) := by
  have hcalm : Calm s (inRcvWnd s2) :=
    ((inHeader_calm hh).1.trans (inPredict_next hp).2.calm).trans (calm_inRcvWnd s2)
  have hgood := h.calm hcalm
  unfold inSwitch
  split
  · next hl =>
    exact inListen_kept hgood hl ((congrArg Snd.accept hcalm.view).trans hacc)
  · next hs => exact inSynSent_kept hgood hs
  · next hnl hns =>
    have hc := check_inCheck (m := m) i2 (inRcvWnd s2)
    cases hr : inCheck i2 (inRcvWnd s2) with
    | done o =>
      rw [hr] at hc
      exact hc hgood
    | next i3 s3 =>
      rw [snd_st hcalm.view] at hnl hns
      have hstage : ¬(s.tp.tState = .closed ∨ s.so.soAcceptconn ∨ s.tp.tState = .listen ∨
          s.tp.tState = .synSent) := by
        rintro (h1 | h1 | h1 | h1)
        · exact hcl h1
        · exact nomatch hacc.symm.trans h1
        · exact hnl h1
        · exact hns h1
      obtain ⟨hsome, hc3, hack⟩ := inCheck_ackStage hstage hh hp hr
      have hst3 := snd_st hc3.view
      have hiss := snd_iss hc3.view
      refine inAck_kept htl (h.calm hc3) ?_ ?_ ?_
      · rw [hst3]
        exact ⟨hns, hnl⟩
      · intro h1
        rw [hst3] at h1
        have hbad := hf.syn hsome h1
        unfold SynAckBad at hbad ⊢
        rw [hiss, snd_max hc3.view, hack]
        exact hbad
      · intro hm hfs hak
        rw [hst3] at hfs
        rw [snd_acked hc3.view] at hak
        rw [hiss, hack]
        exact hf.late hsome hm hfs (hun hak)

/-- **`tcp_input` keeps the send invariant.** -/
theorem tcpInput_kept (htl : m.timer → m.late) (h : Good m s)
    (hun : s.log.acked = 0 → s.tp.sndUna = s.tp.iss) (hf : AckFair m s seg) :
    Kept m 0 (tcpInput s seg) := by
  unfold tcpInput
  split
  · exact h
  · next hst =>
    simp only [not_or, Bool.not_eq_true] at hst
    split
    · intro hp
      obtain ⟨n, mx, -, hat⟩ := (h hp).1
      exact hat.stop (by simp) (by simp)
    · next i1 s1 hh =>
      have hc1 := (inHeader_calm hh).1
      have hflow : FlowKept m ((inPredict i1 s1).bind fun i s => inSwitch seg i (inRcvWnd s)) := by
        have hp2 := check_inPredict (m := m) i1 s1
        cases hp : inPredict i1 s1 with
        | done o =>
          rw [hp] at hp2
          exact hp2 (h.calm hc1)
        | next i2 s2 => exact inSwitch_kept htl h hun hf hst.1 hst.2 hh hp
      split
      · next o ho =>
        rw [ho] at hflow
        exact hflow
      · next i3 s3 hn =>
        rw [hn] at hflow
        exact inStep6_kept htl hflow

end Anp
