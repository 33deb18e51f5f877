import Anp.Tcp.SendInv

/-!
# SendOutput — `tcp_output` keeps the send invariant

A pass sends, moves `snd_nxt` and sets a timer; `SendAt` holds again when it is over.
-/

namespace Anp

open Cyclic Machine List

variable {flags : Flags} {b mx n win : Int} {data : List Byte} {len : Nat} {env : OutEnv}
  {s s' : Sys} {tp : Tcpcb}

/-! ## Between two operations -/

/-- Before our SYN is acknowledged nobody can write. -/
structure Settled (v : Snd) : Prop where
  early : v.acked = 0 → v.conn = true → v.nofd = true ∧ v.queue ≠ .q
  est : v.st = .established → 1 ≤ v.acked

/-- Where a connection stands between two operations. -/
structure SendAt (m : Mode) (s : Sys) (n mx : Int) : Prop where
  pos : SendPos m (sndView s) n mx
  settled : Settled (sndView s)
  maxseg : s.tp.tMaxseg < 65536
  time : m.timer → TimeBase s

/-- What `SendAt` needs besides the view. -/
def baseView (s : Sys) : Nat × Nat × Int × Option Route :=
  (s.tp.tMaxseg, s.tp.tRttmin, s.tp.tRxtcur, s.w.route)

theorem SendAt.moved {s s' : Sys} {n n' mx mx' : Int} (h : SendAt m s n mx)
    (hpos : SendPos m (sndView s') n' mx') (hset : Settled (sndView s'))
    (hb : baseView s' = baseView s) : SendAt m s' n' mx' := by
  simp only [baseView, Prod.mk.injEq] at hb
  obtain ⟨hmax, hmin, hcur, hw⟩ := hb
  refine ⟨hpos, hset, by rw [hmax]; exact h.maxseg, fun hm => ⟨?_, ?_, ?_⟩⟩
  · rw [hmin]; exact (h.time hm).rttmin
  · rw [hcur]; exact (h.time hm).rxtcur
  · rw [hw]; exact (h.time hm).route

/-- Data waiting to be sent or acknowledged has a timer. -/
def Timed (m : Mode) (s : Sys) : Prop :=
  m.timer → 1 ≤ s.log.acked → TcpState.established.toNat ≤ s.tp.tState.toNat →
    s.so.soSnd.sbCc ≠ 0 ∨ s.tp.sndUna ≠ s.tp.sndMax → s.tp.rexmt ≠ 0 ∨ s.tp.persist ≠ 0

/-- The invariant holds with `snd_max` at place `b` or later. -/
def Above (m : Mode) (b : Int) (s : Sys) : Prop := ∃ n mx, b ≤ mx ∧ SendAt m s n mx

abbrev SendInv (m : Mode) (s : Sys) : Prop := Above m 0 s

/-- What is still true when the connection stops. -/
structure StopOk (m : Mode) (why : Stop) (s : Sys) : Prop where
  sent : m.fin → ∀ g ∈ s.log.sent, SentOk s.log.wrote g
  panic : m.fin → m.one → why ≠ .panic .sbdropSnd ∧ why ≠ .panic .mCopydata ∧ why ≠ .panic .mCopym
  fin : m.late → why = .closed .finAcked →
    s.log.acked = s.log.wrote.length + 2 ∧ s.tp.sndUna = adv s.tp.iss s.log.acked

def PassOk (m : Mode) (p : Pass) : Prop := (m.fin → finCut p = false) ∧ (m.timer → stalls p = false)

def PassesOk (m : Mode) (s : Sys) : Prop := ∀ p ∈ s.log.passes, PassOk m p

variable {α β : Type} {m : Mode}

def Holds (m : Mode) (b : Int) : Outcome α → Prop
  | .ok _ s => Above m b s ∧ Timed m s
  | .stop why s => StopOk m why s

/-- What an operation leaves, provided its passes went well. -/
def Kept (m : Mode) (b : Int) (o : Outcome α) : Prop := PassesOk m o.st → Holds m b o

theorem SendAt.inv (h : SendAt m s n mx) : SendInv m s := by
  have hmx : (0 : Int) ≤ mx := le_trans (by omega) h.pos.una_max
  exact ⟨n, mx, hmx, h⟩

theorem SendAt.calm (h : SendAt m s n mx) (hc : Calm s s') :
    SendAt m s' n mx :=
  ⟨by rw [hc.view]; exact h.pos, by rw [hc.view]; exact h.settled, hc.maxseg h.maxseg,
    fun hm => hc.time (h.time hm)⟩

theorem Above.calm (h : Above m b s) (hc : Calm s s') : Above m b s' := by
  obtain ⟨n, mx, hb, hat⟩ := h
  exact ⟨n, mx, hb, hat.calm hc⟩

theorem Timed.calm (h : Timed m s) (hc : Calm s s') : Timed m s' := by
  intro hm
  have hak := snd_acked hc.view
  rw [snd_st hc.view, snd_una hc.view, snd_max hc.view, snd_cc hc.view, hak, hc.rexmt, hc.persist]
  exact h hm

theorem PassesOk.calm (hc : Calm s s') (h : PassesOk m s') : PassesOk m s := by
  unfold PassesOk at h
  rw [hc.passes] at h
  exact h

/-- A connection in the middle of its life may stop, unless our FIN is said to be acknowledged or
`so_snd` is at fault. -/
theorem SendAt.stop (h : SendAt m s n mx) {why : Stop}
    (hp : why ≠ .panic .sbdropSnd ∧ why ≠ .panic .mCopydata ∧ why ≠ .panic .mCopym)
    (hf : why ≠ .closed .finAcked) : StopOk m why s :=
  ⟨fun hm => (h.pos.exact_ hm).sent, fun _ _ => hp, fun _ he => absurd he hf⟩

theorem Kept.bind {o : Outcome α} {f : α → Sys → Outcome β} (h : Kept m b o)
    (hf : ∀ a s, (PassesOk m s → Above m b s ∧ Timed m s) → Kept m b (f a s)) :
    Kept m b (o.bind f) := by
  cases o with
  | ok a s => exact hf a s h
  | stop why s => exact h

/-! ## Emitting a segment -/

theorem outResendFin_pos (flags : Flags) {iss : Seq} (hn : tp.sndNxt = adv iss n)
    (hm : tp.sndMax = adv iss mx) (hlo : -4294967296 < n - mx) (hhi : n - mx < 4294967296) :
    ∃ n1, outResendFin tp flags = { tp with sndNxt := adv iss n1 } ∧
      (flags.fin = true → tp.tfSentfin = true → n = mx → n1 = n - 1) ∧
      (¬(flags.fin = true ∧ tp.tfSentfin = true ∧ n = mx) → n1 = n) := by
  unfold outResendFin
  by_cases hc : (flags.fin && tp.tfSentfin && tp.sndNxt == tp.sndMax) = true
  · simp only [Bool.and_eq_true, beq_iff_eq] at hc
    have heq : n = mx := by
      have hadv := hc.2
      rw [hn, hm] at hadv
      exact adv_inj iss (by norm_num; omega) (by norm_num; omega) hadv
    refine ⟨n - 1, ?_, fun _ _ _ => rfl, fun hno => absurd ⟨hc.1.1, hc.1.2, heq⟩ hno⟩
    rw [if_pos (by simp [hc.1.1, hc.1.2, hc.2]), hn, adv_sub_one]
  · refine ⟨n, ?_, fun hf hsf he => ?_, fun _ => rfl⟩
    · rw [if_neg hc, ← hn]
    · exact absurd (by simp [hf, hsf, hn, hm, he]) hc

/-- **`outEmit` sends from `snd_nxt`.** -/
theorem outEmit_pos (h : SendPos m (sndView s) n mx) (hc : Carries m (sndView s) n flags data) :
    ∃ n2 mx2, mx ≤ mx2 ∧ SendPos m (sndView (outEmit s win flags data)) n2 mx2 := by
  have hrange := h.range
  have hun := h.una_nxt
  have hum := h.una_max
  have hcc := h.cc_lt
  obtain ⟨n1, htp, hre, hel⟩ := outResendFin_pos flags h.nxt_eq h.max_eq (by omega)
    (by have := h.nxt_max; omega)
  have hs : Starts (sndView s) flags n mx n1 := ⟨hre, hel⟩
  obtain ⟨h1, h2, h3, hend, -⟩ := end_le h hc hs
  have hw : (sndView s).wrote.length + 2 ≤ (sndView s).acked + (sndView s).cc + 2 := by
    rcases h.acct with ⟨ha, hw⟩ | ⟨ha, hw⟩ | ⟨ha, hw⟩
    · rw [hw]; simp
    · omega
    · omega
  -- the control block that `outAdvance` starts from
  have hpull : ∃ tp1, outPullUp (outResendFin s.tp flags) = tp1 ∧
      tp1.sndNxt = adv s.tp.iss n1 ∧ tp1.sndMax = adv s.tp.iss mx ∧ tp1.iss = s.tp.iss ∧
      tp1.sndUna = s.tp.sndUna ∧ tp1.tState = s.tp.tState ∧ tp1.tfSentfin = s.tp.tfSentfin := by
    obtain ⟨up, hup⟩ := outPullUp_eq { s.tp with sndNxt := adv s.tp.iss n1 }
    rw [htp]
    exact ⟨_, hup, rfl, h.max_eq, rfl, rfl, rfl, rfl⟩
  obtain ⟨tp1, htp1, hfn, hfm, hfi, hfu, hft, hff⟩ := hpull
  have hiss : (outResendFin s.tp flags).iss = s.tp.iss := by rw [htp]
  obtain ⟨⟨hi, hu, ht⟩, hseq⟩ :=
    outAdvance_seq (rfl : outAdvance tp1 flags data.length = _) hfn hfm (by omega) (by omega)
  have hland : ∃ n2 mx2 sf, Lands (sndView s) flags data.length mx n1 n2 mx2 sf ∧
      (outAdvance tp1 flags data.length).sndNxt = adv s.tp.iss n2 ∧
      (outAdvance tp1 flags data.length).sndMax = adv s.tp.iss mx2 ∧
      (outAdvance tp1 flags data.length).tfSentfin = sf := by
    rcases hseq with ⟨ha, hb, hcs⟩ | ⟨-, ha, hb, hcs⟩
    · exact ⟨_, _, _, .inl ⟨rfl, rfl, rfl⟩, ha, hb, by rw [hcs, hff]; rfl⟩
    · exact ⟨_, _, _, .inr ⟨rfl, rfl, rfl⟩, ha, hb, by rw [hcs, hff]; rfl⟩
  obtain ⟨n2, mx2, sf, hl, hn2, hm2, hsf⟩ := hland
  set seg : OutSeg := outHeader (outResendFin s.tp flags) win flags data with hseg
  have htiSeq : data ≠ [] ∨ flags.fin = true → seg.tiSeq = adv (sndView s).iss n1 := by
    intro hne
    have hcond : data.length ≠ 0 ∨ flags.syn = true ∨ flags.fin = true ∨
        (outResendFin s.tp flags).persist ≠ 0 := by
      rcases hne with hd | hf
      · exact .inl (by simpa using hd)
      · exact .inr (.inr (Or.inl hf))
    show outSeq (outResendFin s.tp flags) flags data.length = _
    rw [outSeq, if_pos hcond, htp]
  obtain ⟨hmx, hadv⟩ := h.advance hc hs hl (show seg.data = data from rfl) rfl htiSeq
  refine ⟨n2, mx2, hmx, ?_⟩
  have hemit : outEmit s win flags data = { s with
      tp := outAdvance tp1 flags data.length
      log := { s.log with sent := ⟨s.tp.iss, s.log.acked, seg⟩ :: s.log.sent } } := by
    unfold outEmit
    simp only [htp1, hiss, hseg]
  have hview : sndView (outEmit s win flags data) = { sndView s with
      nxt := adv (sndView s).iss n2, max := adv (sndView s).iss mx2, sentfin := sf
      sent := ⟨(sndView s).iss, (sndView s).acked, seg⟩ :: (sndView s).sent } := by
    rw [hemit]
    unfold sndView
    simp only [hi, hu, ht, hn2, hm2, hsf, hfi, hfu, hft]
  rw [hview]
  exact hadv

/-! ## Timers after a segment -/

theorem outAdvance_sndNxt (tp : Tcpcb) (flags : Flags) (len : Nat) :
    (outAdvance tp flags len).sndNxt =
      if (!tp.tForce || tp.persist == 0) = true then segEnd tp.sndNxt flags len else tp.sndNxt := by
  by_cases hforce : (!tp.tForce || tp.persist == 0) = true
  · obtain ⟨c, d, e, f, g, x, ha, -⟩ := outAdvance_transmit flags len hforce
    rw [ha, if_pos hforce]
  · rw [outAdvance_persist flags len hforce, if_neg hforce]

theorem outArm_timer {tp' : Tcpcb} (htp : outArm tp = tp') (hcur : tp.tRxtcur ≠ 0) :
    tp'.rexmt ≠ 0 ∨ tp'.persist ≠ 0 ∨ (tp.rexmt = 0 ∧ tp.persist = 0 ∧ tp'.sndNxt = tp.sndUna) := by
  rw [← htp]
  unfold outArm
  split
  · exact .inl hcur
  · next harm =>
    by_cases hr : tp.rexmt = 0
    · by_cases hp : tp.persist = 0
      · exact .inr (.inr ⟨hr, hp, by_contra fun hne => harm ⟨hr, hne⟩⟩)
      · exact .inr (Or.inl hp)
    · exact .inl hr

theorem outAdvance_timer {tp' : Tcpcb} (htp : outAdvance tp flags len = tp') (hcur : tp.tRxtcur ≠ 0) :
    tp'.rexmt ≠ 0 ∨ tp'.persist ≠ 0 ∨ (tp.rexmt = 0 ∧ tp.persist = 0 ∧ tp'.sndNxt = tp.sndUna) := by
  by_cases hforce : (!tp.tForce || tp.persist == 0) = true
  · obtain ⟨c, d, e, hm, -⟩ := outMeasure_eq { tp with
      tfSentfin := tp.tfSentfin || flags.fin, sndNxt := segEnd tp.sndNxt flags len } tp.sndNxt
    have htp' := ((congrArg outArm hm).symm.trans (if_pos hforce).symm).trans htp
    have harm := outArm_timer htp' hcur
    exact harm
  · have hp : tp.persist ≠ 0 := by
      intro hp
      simp [hp] at hforce
    rw [outAdvance_persist flags len hforce] at htp
    rw [← htp]
    exact .inr (Or.inl hp)

theorem outAdvance_sndMax (hp : tp.persist = 0) (h : (outAdvance tp flags len).sndNxt = tp.sndMax) :
    (outAdvance tp flags len).sndMax = tp.sndMax := by
  have hforce : (!tp.tForce || tp.persist == 0) = true := by simp [hp]
  obtain ⟨c, d, e, f, g, x, ha, hc⟩ := outAdvance_transmit flags len hforce
  rw [ha] at h ⊢
  simp only at h ⊢
  rw [hc, h]
  split <;> rfl

theorem outEmit_timer (hcur : s.tp.tRxtcur ≠ 0) :
    (outEmit s win flags data).tp.rexmt ≠ 0 ∨ (outEmit s win flags data).tp.persist ≠ 0 ∨
      (s.tp.rexmt = 0 ∧ s.tp.persist = 0 ∧
        (outAdvance (outResendFin s.tp flags) flags data.length).sndNxt = s.tp.sndUna ∧
        (s.tp.sndUna = s.tp.sndMax → (outEmit s win flags data).tp.sndMax = s.tp.sndMax)) := by
  obtain ⟨nx, hnx⟩ := outResendFin_eq s.tp flags
  obtain ⟨up, hup⟩ := outPullUp_eq { s.tp with sndNxt := nx }
  have htp : outAdvance { s.tp with sndNxt := nx, sndUp := up } flags data.length =
      (outEmit s win flags data).tp := by
    show _ = outAdvance (outPullUp (outResendFin s.tp flags)) flags data.length
    rw [hnx, hup]
  rcases outAdvance_timer htp hcur with h | h | ⟨h1, h2, h3⟩
  · exact .inl h
  · exact .inr (Or.inl h)
  · refine .inr (.inr ⟨h1, h2, ?_, ?_⟩)
    · rw [← htp, outAdvance_sndNxt] at h3
      rw [hnx, outAdvance_sndNxt]
      exact h3
    · intro hum
      rw [← htp] at h3 ⊢
      exact outAdvance_sndMax h2 (h3.trans hum)

/-! ## What a pass decides -/

/-- The decision of a pass that starts with `snd_nxt` at `n`: the offset, the length and the flags,
and `snd_nxt` at `n'`. -/
structure Decided (m : Mode) (s : Sys) (n mx : Int) (v : OutVars) (n' : Int) : Prop where
  sendAt : SendAt m { s with tp := v.tp } n' mx
  off : v.off = n - s.log.acked
  len : 0 ≤ v.len ∧ v.len < 65536
  text : 0 < v.len → v.off + v.len ≤ s.so.soSnd.sbCc ∧ n' = n
  syn : v.flags.syn = true →
    (s.tp.tState = .synSent ∨ s.tp.tState = .synReceived) ∧ v.flags.fin = false
  fin : v.flags.fin = true → finState s.tp.tState = true ∧ v.flags.rst = false ∧
    (s.log.acked + s.so.soSnd.sbCc : Int) ≤ n' + v.len

theorem Decided.not_syn {v : OutVars} {n' : Int} (hd : Decided m s n mx v n')
    (hf : v.flags.fin = true) : v.flags.syn = false := by
  by_contra hsy
  rw [(hd.syn (Bool.eq_true_of_not_eq_false hsy)).2] at hf
  cases hf

theorem outDecide_pend (tp : Tcpcb) (so : Socket) :
    (outDecide tp so).tp.sndUna = tp.sndUna ∧ (outDecide tp so).tp.sndMax = tp.sndMax := by
  obtain ⟨r, p, x, nx, htp⟩ := outDecide_tp tp so
  rw [htp]
  exact ⟨rfl, rfl⟩

theorem outDecide_decided (h : SendAt m s n mx) :
    ∃ n', Decided m s n mx (outDecide s.tp s.so) n' := by
  have hp := h.pos
  have hun := hp.una_nxt
  have hrange := hp.range
  obtain ⟨hoff, hl0, hlm, htext, n', hn', hnx, hfin⟩ :=
    outDecide_len hp.una_eq hp.nxt_eq hun (by exact hrange.2) hp.cc_lt
  obtain ⟨r, p, x, nx, htp⟩ := outDecide_tp s.tp s.so
  obtain ⟨b, hflags, hb⟩ := outDecide_flags s.tp s.so
  have hmax := h.maxseg
  have hnx' : nx = adv s.tp.iss n' := by
    rw [htp] at hnx
    exact hnx
  have hsend : SendPos m { sndView s with nxt := adv (sndView s).iss n' } n' mx := by
    rcases hn' with rfl | rfl
    · rw [← hp.nxt_eq]
      exact hp
    · exact hp.setNxt (by omega) hp.una_max (fun _ => le_refl _)
  refine ⟨n', ?_, hoff, ⟨hl0, by omega⟩, ?_, ?_, ?_⟩
  · rw [htp, hnx']
    exact h.moved hsend ⟨h.settled.early, h.settled.est⟩ rfl
  · intro hpos
    obtain ⟨h1, h2⟩ := htext hpos
    refine ⟨h1, ?_⟩
    rcases hn' with rfl | rfl
    · rfl
    · rw [hnx] at h2
      have hcc := hp.cc_lt
      exact adv_inj s.tp.iss (by norm_num; omega) (by norm_num; omega) h2
  · intro hsyn
    rw [hflags] at hsyn ⊢
    have hst : s.tp.tState = .synSent ∨ s.tp.tState = .synReceived := by
      cases hst : s.tp.tState <;> simp_all [tcpOutflags]
    refine ⟨hst, ?_⟩
    cases hbv : b with
    | false => rfl
    | true =>
      have := hb hbv
      rcases hst with hst | hst <;> simp [hst, finState, tcpOutflags] at this
  · intro hf
    have hfb : b = true := by
      rw [hflags] at hf
      exact hf
    refine ⟨hb hfb, ?_, hfin hf⟩
    cases hst : s.tp.tState <;> simp_all [tcpOutflags, finState]

/-! ## One pass -/

theorem SendAt.congr (h : SendAt m s n mx) (hv : sndView s' = sndView s)
    (htp : s'.tp.tMaxseg = s.tp.tMaxseg ∧
      s'.tp.tRttmin = s.tp.tRttmin ∧ s'.tp.tRxtcur = s.tp.tRxtcur) (hw : s'.w.route = s.w.route) :
    SendAt m s' n mx :=
  h.moved (hv ▸ h.pos) (hv ▸ h.settled) (by simp only [baseView, htp, hw])

theorem outQuiet_holds (h : SendAt m s n mx)
    (ht : m.timer → s.so.soSnd.sbCc = 0 → s.tp.sndUna ≠ s.tp.sndMax →
      s.tp.rexmt ≠ 0 ∨ s.tp.persist ≠ 0) : Holds m mx (outQuiet s) := by
  unfold outQuiet
  split
  · next hc =>
    rw [tcpSetpersist, if_neg (by simpa using hc.2.1)]
    refine ⟨⟨n, mx, le_refl _, h.congr rfl ⟨rfl, rfl, rfl⟩ rfl⟩, ?_⟩
    intro _ _ _ _
    exact .inr (ne_of_gt (tcptRangeset_persist_pos _))
  · next hc =>
    refine ⟨⟨n, mx, le_refl _, h⟩, ?_⟩
    intro hm _ _ hpend
    by_cases hcc : s.so.soSnd.sbCc = 0
    · exact ht hm hcc (hpend.resolve_left (by simpa using hcc))
    · by_contra hno
      simp only [not_or, not_not] at hno
      exact hc ⟨hcc, hno.1, hno.2⟩

theorem outOptions_at {optlen : Nat} (h : SendAt m s n mx)
    (hsyn : flags.syn = true → s.log.acked = 0) (ho : outOptions s flags = some (optlen, s')) :
    ∃ n', SendAt m s' n' mx ∧ (flags.syn = true → n' = 0) ∧
      (flags.syn = false → s' = s ∧ n' = n) := by
  obtain ⟨hs, rfl⟩ | ⟨hs, mss, hmss⟩ := outOptions_cases ho
  · exact ⟨n, h, by simp [hs], fun _ => ⟨rfl, rfl⟩⟩
  · have hak : (sndView s).acked = 0 := hsyn hs
    have hmx := h.pos.una_max
    have hpos := h.pos.setNxt (show ((sndView s).acked : Int) ≤ 0 + 1 by omega)
      (show (0 : Int) ≤ mx by omega) (fun _ => by omega)
    rw [adv_zero] at hpos
    have h0 : SendAt m { s with tp := { s.tp with sndNxt := s.tp.iss } } 0 mx :=
      h.moved hpos ⟨h.settled.early, h.settled.est⟩ rfl
    exact ⟨0, h0.calm (calm_tcpMss hmss), fun _ => rfl, by simp [hs]⟩

theorem outError_holds (hb : b ≤ mx) (h : SendAt m s n mx) (ht : Timed m s) (e : Errno) :
    Holds m b (outError s e) := by
  unfold outError
  split
  · exact ⟨⟨n, mx, hb, h.congr rfl ⟨rfl, rfl, rfl⟩ rfl⟩, ht⟩
  · split
    · exact ⟨⟨n, mx, hb, h.congr rfl ⟨rfl, rfl, rfl⟩ rfl⟩, ht⟩
    · exact ⟨⟨n, mx, hb, h⟩, ht⟩

theorem outAcked_holds (hb : b ≤ mx) (h : SendAt m s n mx) (ht : Timed m s) (win : Int)
    (r : PassRes) :
    Holds m b (.ok r { s with tp := outAcked s.tp win }) :=
  ⟨⟨n, mx, hb, h.congr rfl ⟨rfl, rfl, rfl⟩ rfl⟩, ht⟩

theorem take_drop_headD (mb : List (List Mbuf)) {off : Nat} (h : off + len ≤ chainLen (mb.headD [])) :
    ((chainBytes (mb.headD [])).drop off).take len = ((mb.flatMap chainBytes).drop off).take len := by
  cases mb with
  | nil => rfl
  | cons r rs =>
    simp only [headD_cons, flatMap_cons] at h ⊢
    have hlen : (chainBytes r).length = chainLen r := rfl
    rw [drop_append_of_le_length (by omega), take_append_of_le_length]
    rw [length_drop]
    omega

theorem OutOnly.acked (h : OutOnly s s') : s'.log.acked = s.log.acked :=
  (congrArg Log.acked h.log :)

theorem OutOnly.wrote (h : OutOnly s s') : s'.log.wrote = s.log.wrote :=
  (congrArg Log.wrote h.log :)

theorem SendPos.chainLen_headD {v : Snd} (h : SendPos m v n mx) :
    chainLen (v.mb.headD []) ≤ v.cc ∧ (v.mb.length ≤ 1 → chainLen (v.mb.headD []) = v.cc) := by
  have hlen : (v.mb.flatMap chainBytes).length = v.cc := by
    have hcc := h.cc_le
    rw [h.bytes, length_drop]
    omega
  rw [← hlen]
  match v.mb with
  | [] => exact ⟨Nat.zero_le _, fun _ => rfl⟩
  | [r] => simp [chainLen]
  | r :: r' :: rs => simp [chainLen]

theorem Decided.carries {s2 : Sys} {n' n2 : Int} {v : OutVars} {maxseg optlen : Nat} {b : Bool}
    (hd : Decided m s n mx v n') (hoo : OutOnly s s2) (hat : SendAt m s2 n2 mx)
    (hsyn : v.flags.syn = true → n2 = 0) (hns : v.flags.syn = false → n2 = n')
    (hcopy : outCopy s2.so env (tcpiphdrLen + optlen) v.off
      (outClamp maxseg optlen v.len v.sendalot).1 = .data data)
    (hcut : m.fin → v.flags.fin = true → 1 ≤ s.log.acked → (data.length : Int) = v.len) :
    Carries m (sndView s2) n2 { v.flags with push := b } data := by
  have hak : (sndView s2).acked = s.log.acked := hoo.acked
  have hcc : (sndView s2).cc = s.so.soSnd.sbCc := hoo.snd.1
  have hst : (sndView s2).st = s.tp.tState := hoo.tState
  have hlen := hd.len
  have hclamp := outClamp_le maxseg optlen v.sendalot hlen.1 (by omega)
  have hhead := hat.pos.chainLen_headD
  have hfin : v.flags.fin = true → finState (sndView s2).st = true ∧
      (m.fin → 1 ≤ (sndView s2).acked →
        ((sndView s2).acked + (sndView s2).cc : Int) ≤ n2 + data.length) := by
    intro hf
    obtain ⟨hfs, -, hge⟩ := hd.fin hf
    rw [hst, hak, hcc, hns (hd.not_syn hf)]
    exact ⟨hfs, fun hm ha => by rw [hcut hm hf ha]; exact hge⟩
  rcases outCopy_data hclamp.1 (by unfold mCopyall; omega) hcopy with hnil | ⟨hoff, hpos, hle, hdata⟩
  · exact ⟨fun hsy => ⟨hsyn hsy, hnil, (hd.syn hsy).2⟩, absurd hnil, hfin⟩
  · set l := (outClamp maxseg optlen v.len v.sendalot).1 with hl
    have hle' : v.off + l ≤ chainLen ((sndView s2).mb.headD []) := hle
    have hns' : v.flags.syn = false := by
      cases hsy : v.flags.syn with
      | false => rfl
      | true =>
        have hst' := (hd.syn hsy).1
        have hz := hat.pos.empty (hat.pos.syn (by rw [hst]; exact hst')).1
        omega
    obtain ⟨htext, hn⟩ := hd.text (by omega)
    have hdl : data.length = l.toNat := by
      rw [hdata, length_take, length_drop, length_chainBytes]
      omega
    refine ⟨fun hsy => ?_, fun _ => ?_, hfin⟩
    · rw [hns'] at hsy
      simp at hsy
    · rw [hak, hcc, hns hns', hn]
      have hdo := hd.off
      refine ⟨by omega, by omega, ?_⟩
      rw [hdl, hdata, take_drop_headD _ (by omega), ← hd.off]
      rfl

theorem passLen_of_not_finCut {p : Pass} (h : finCut p = false)
    (hf : (outDecide p.tp p.so).flags.fin = true)
    (hw : outWants p.so p.idle (outDecide p.tp p.so) = true) (hg : p.env.mgethdr = true) :
    passLen p = (outDecide p.tp p.so).len ∧
      ((outDecide p.tp p.so).len ≠ 0 → passCopy p ≠ .data []) := by
  simp only [finCut, hf, hw, hg, Bool.true_and, Bool.and_eq_false_iff, Bool.or_eq_false_iff,
    decide_eq_false_iff_not, not_not] at h
  refine ⟨h.1, fun hne hcopy => ?_⟩
  rcases h.2 with h2 | h2
  · exact hne h2
  · exact h2 hcopy

theorem of_not_stalls {p : Pass} (h : stalls p = false)
    (hpend : p.so.soSnd.sbCc ≠ 0 ∨ p.tp.sndUna ≠ p.tp.sndMax)
    (hr : (outDecide p.tp p.so).tp.rexmt = 0) (hp : (outDecide p.tp p.so).tp.persist = 0) :
    (outWants p.so p.idle (outDecide p.tp p.so) = true → p.env.mgethdr = true ∧
      ∀ bytes, passCopy p = .data bytes →
        (outAdvance (outResendFin (outDecide p.tp p.so).tp (outDecide p.tp p.so).flags)
          (outDecide p.tp p.so).flags bytes.length).sndNxt ≠ p.tp.sndUna) ∧
    (outWants p.so p.idle (outDecide p.tp p.so) = false → p.so.soSnd.sbCc ≠ 0) := by
  have hpend' : (decide (p.so.soSnd.sbCc ≠ 0) || decide (p.tp.sndUna ≠ p.tp.sndMax)) = true := by
    simpa using hpend
  unfold stalls at h
  simp only [hpend', hr, hp, decide_true, Bool.true_and] at h
  refine ⟨fun hw => ?_, fun hw => ?_⟩
  · rw [if_pos hw, Bool.or_eq_false_iff] at h
    refine ⟨by simpa using h.1, fun bytes hb he => ?_⟩
    have h2 := h.2
    rw [hb] at h2
    simp [he] at h2
  · rw [if_neg (by simp [hw])] at h
    simpa using h

theorem Settled.outOnly (h : OutOnly s s') (hs : Settled (sndView s)) :
    Settled (sndView s') := by
  have hso := h.so
  have hconn : s'.so.ssIsconnected = s.so.ssIsconnected := (congrArg Socket.ssIsconnected hso :)
  have hnofd : s'.so.ssNofdref = s.so.ssNofdref := (congrArg Socket.ssNofdref hso :)
  have hq : s'.so.soQueue = s.so.soQueue := (congrArg Socket.soQueue hso :)
  refine ⟨?_, ?_⟩
  · show s'.log.acked = 0 → s'.so.ssIsconnected = true → s'.so.ssNofdref = true ∧ s'.so.soQueue ≠ .q
    rw [h.acked, hconn, hnofd, hq]
    exact hs.early
  · show s'.tp.tState = .established → 1 ≤ s'.log.acked
    rw [h.acked, h.tState]
    exact hs.est

theorem outEmit_at (h : SendAt m s n mx) (hc : Carries m (sndView s) n flags data)
    (ht : m.timer → TcpState.established.toNat ≤ s.tp.tState.toNat →
      s.so.soSnd.sbCc ≠ 0 ∨ s.tp.sndUna ≠ s.tp.sndMax → s.tp.rexmt = 0 → s.tp.persist = 0 →
      (outAdvance (outResendFin s.tp flags) flags data.length).sndNxt ≠ s.tp.sndUna) :
    (∃ n2 mx2, mx ≤ mx2 ∧ SendAt m (outEmit s win flags data) n2 mx2) ∧
      Timed m (outEmit s win flags data) := by
  have hoo := outOnly_outEmit s win flags data
  obtain ⟨n2, mx2, hmx, hpos⟩ := outEmit_pos h.pos hc
  obtain ⟨a, b, c, d, e, f, g, x, up, sent, hemit, -⟩ := outEmit_eq s win flags data
  have hbase : baseView (outEmit s win flags data) = baseView s := by
    rw [baseView, hemit]
    rfl
  refine ⟨⟨n2, mx2, hmx, h.moved hpos (h.settled.outOnly hoo) hbase⟩, ?_⟩
  · intro hm _ hge hpend
    rcases outEmit_timer (h.time hm).rxtcur with h1 | h1 | ⟨h1, h2, h3, h4⟩
    · exact .inl h1
    · exact .inr h1
    · -- both timers were off and the segment took `snd_nxt` nowhere
      rw [hoo.tState] at hge
      have hpend' : s.so.soSnd.sbCc ≠ 0 ∨ s.tp.sndUna ≠ s.tp.sndMax := by
        by_contra hno
        simp only [not_or, not_not] at hno
        rw [hoo.snd.1, hoo.sndUna, h4 hno.2] at hpend
        rcases hpend with h5 | h5
        · exact h5 hno.1
        · exact h5 hno.2
      exact absurd h3 (ht hm hge hpend' h1 h2)

/-- From ESTABLISHED on the flags are plain ones. -/
theorem outDecide_established (hge : TcpState.established.toNat ≤ s.tp.tState.toNat) :
    (outDecide s.tp s.so).flags.syn = false ∧ (outDecide s.tp s.so).flags.rst = false := by
  obtain ⟨b, hfl, -⟩ := outDecide_flags s.tp s.so
  cases hst : s.tp.tState <;> simp_all [tcpOutflags, TcpState.toNat]

/-- Outside of a SYN the options leave the state of the pass. -/
theorem outOptions_same {optlen : Nat} (ho : outOptions s flags = some (optlen, s'))
    (hsy : flags.syn = false) (hrst : flags.rst = false) : s' = s ∧ optlen = passOptlen s.tp := by
  rw [outOptions_of_not_syn hsy] at ho
  cases ho
  exact ⟨rfl, by simp [passOptlen, hrst]⟩

/-- With a FIN that is not cut, all the data that was decided on is copied. -/
theorem passCopy_length {p : Pass} (h : finCut p = false)
    (hf : (outDecide p.tp p.so).flags.fin = true)
    (hw : outWants p.so p.idle (outDecide p.tp p.so) = true) (hg : p.env.mgethdr = true)
    (hlen : 0 ≤ (outDecide p.tp p.so).len ∧ (outDecide p.tp p.so).len < 65536)
    (hcopy : passCopy p = .data data) : (data.length : Int) = (outDecide p.tp p.so).len := by
  obtain ⟨hpl, hpc⟩ := passLen_of_not_finCut h hf hw hg
  have hcopy' := hcopy
  rw [passCopy, hpl] at hcopy'
  rcases outCopy_data hlen.1 (by unfold mCopyall; omega) hcopy' with hnil | ⟨h1, h2, h3, h4⟩
  · by_cases h0 : (outDecide p.tp p.so).len = 0
    · rw [hnil, h0]
      rfl
    · rw [hnil] at hcopy
      exact absurd hcopy (hpc h0)
  · rw [h4, length_take, length_drop, length_chainBytes]
    omega

/-- **The send half of a pass.** -/
theorem outSend_holds {n' : Int} {idle : Bool} (h : SendAt m s n mx)
    (hd : Decided m s n mx (outDecide s.tp s.so) n')
    (hw : outWants s.so idle (outDecide s.tp s.so) = true) (hp : PassOk m ⟨s.tp, s.so, idle, env⟩) :
    Holds m mx (outSend s (outDecide s.tp s.so) env) := by
  obtain ⟨hun, hmx⟩ := outDecide_pend s.tp s.so
  set v := outDecide s.tp s.so with hv
  unfold outSend
  cases ho : outOptions { s with tp := v.tp } v.flags with
  | none => exact h.stop (by simp) (by simp)
  | some r =>
    obtain ⟨optlen, s2⟩ := r
    have hak : v.flags.syn = true → s.log.acked = 0 := by
      intro hsy
      exact (h.pos.syn (hd.syn hsy).1).1
    obtain ⟨n2, hat, hsyn, hns⟩ := outOptions_at hd.sendAt hak ho
    have hoo : OutOnly s s2 := (outOnly_outDecide s).trans (outOnly_outOptions ho)
    have hsame : v.flags.syn = false → v.flags.rst = false →
        s2 = { s with tp := v.tp } ∧ optlen = passOptlen v.tp := outOptions_same ho
    have hest : TcpState.established.toNat ≤ s2.tp.tState.toNat →
        v.flags.syn = false ∧ v.flags.rst = false := by
      rw [hoo.tState]
      exact outDecide_established
    set l := (outClamp s2.tp.tMaxseg optlen v.len v.sendalot).1 with hl
    have hlen := hd.len
    have hclamp := outClamp_le s2.tp.tMaxseg optlen v.sendalot hlen.1 (by omega)
    simp only [← hl]
    cases hmg : env.mgethdr with
    | false =>
      -- `MGETHDR` failed: nothing has changed but the congestion window
      refine outError_holds (le_refl mx) hat ?_ .enobufs
      intro hm _ hge hpend
      obtain ⟨hsy, hrst⟩ := hest hge
      obtain ⟨hs2, -⟩ := hsame hsy hrst
      by_contra hno
      simp only [not_or, not_not] at hno
      rw [hs2] at hpend hno
      rw [hun, hmx] at hpend
      have := ((of_not_stalls (hp.2 hm) hpend hno.1 hno.2).1 hw).1
      simp [hmg] at this
    | true =>
      cases hcopy : outCopy s2.so env (tcpiphdrLen + optlen) v.off l with
      | panic p =>
        refine ⟨fun hm => (hat.pos.exact_ hm).sent, fun hm h1 => ?_, by simp⟩
        have hun := (h.pos.exact_ hm).una_nxt
        have hhead := (hat.pos.chainLen_headD).2 (hat.pos.one h1)
        have hcc : (sndView s2).cc = s.so.soSnd.sbCc := hoo.snd.1
        have hoff := hd.off
        have hak2 : (sndView s).acked = s.log.acked := rfl
        refine absurd hcopy (outCopy_ne_panic (by omega) hclamp.1 (by unfold mCopyall; omega) ?_)
        intro hpos
        have htext := (hd.text (by omega)).1
        have hhead' : chainLen (s2.so.soSnd.sbMb.headD []) = s.so.soSnd.sbCc := hhead.trans hcc
        omega
      | fault => exact hat.stop (by simp) (by simp)
      | data data =>
        simp only
        cases htem : s2.tp.tTemplate with
        | false => exact hat.stop (by simp) (by simp)
        | true =>
          have hcut : m.fin → v.flags.fin = true → 1 ≤ s.log.acked →
              (data.length : Int) = v.len := by
            intro hm hf _
            obtain ⟨-, hrst, -⟩ := hd.fin hf
            obtain ⟨hs2, hopt⟩ := hsame (hd.not_syn hf) hrst
            refine passCopy_length (p := ⟨s.tp, s.so, idle, env⟩) (hp.1 hm) hf hw hmg hlen ?_
            rw [← hcopy, hl, hs2, hopt]
            rfl
          have hcar : ∀ b, Carries m (sndView s2) n2 { v.flags with push := b } data := fun b =>
            hd.carries hoo hat hsyn (fun hsy => (hns hsy).2) hcopy hcut
          have hem : ∀ win b, (∃ n3 mx3, mx ≤ mx3 ∧
              SendAt m (outEmit s2 win { v.flags with push := b } data) n3 mx3) ∧
              Timed m (outEmit s2 win { v.flags with push := b } data) := by
            intro win b
            refine outEmit_at hat (hcar b) ?_
            intro hm hge hpend hr hpe
            obtain ⟨hsy, hrst⟩ := hest hge
            obtain ⟨hs2, hopt⟩ := hsame hsy hrst
            have hcopy' : passCopy ⟨s.tp, s.so, idle, env⟩ = .data data := by
              rw [← hcopy, hl, hs2, hopt]
              rfl
            rw [hs2] at hpend hr hpe ⊢
            rw [hun, hmx] at hpend
            have hno := ((of_not_stalls (hp.2 hm) hpend hr hpe).1 hw).2 data hcopy'
            rw [hun, outAdvance_sndNxt]
            rw [outAdvance_sndNxt] at hno
            exact hno
          generalize (decide (l ≠ 0) && decide (u32 (v.off + data.length) = s2.so.soSnd.sbCc)) = b
          generalize outWin _ s2.tp s2.so = win
          obtain ⟨⟨n3, mx3, hmx, hat3⟩, htm⟩ := hem win b
          cases hip : env.ipError with
          | some e => exact outError_holds hmx hat3 htm e
          | none => exact outAcked_holds hmx hat3 htm _ _

/-- **One pass of `tcp_output`.** -/
theorem outPass_holds {idle : Bool} (h : SendAt m s n mx) (hp : PassOk m ⟨s.tp, s.so, idle, env⟩) :
    Holds m mx (outPass s idle env) := by
  obtain ⟨n', hd⟩ := outDecide_decided h
  unfold outPass
  simp only
  cases hw : outWants s.so idle (outDecide s.tp s.so) with
  | true =>
    exact outSend_holds h hd hw hp
  | false =>
    obtain ⟨hun, hmx⟩ := outDecide_pend s.tp s.so
    have hq := outQuiet_holds hd.sendAt (by
      intro hm hcc hne
      by_contra hno
      simp only [not_or, not_not, hun, hmx] at hno hne
      exact (of_not_stalls (hp.2 hm) (Or.inr hne) hno.1 hno.2).2 hw hcc)
    cases hquiet : outQuiet { s with tp := (outDecide s.tp s.so).tp } with
    | ok | stop =>
      rw [hquiet] at hq
      exact hq

/-! ## The loop -/

/-- The passes go on from a state that meets the invariant, if those before went well. -/
theorem outLoop_kept (idle : Bool) (outs : List OutEnv) (s : Sys) (h : PassesOk m s → Above m b s) :
    Kept m b (outLoop idle outs s) := by
  induction outs generalizing s with
  | nil =>
    intro hp
    obtain ⟨n, mx, -, hat⟩ := h hp
    exact hat.stop (by simp) (by simp)
  | cons env outs ih =>
    rw [outLoop]
    set s1 : Sys := { s with
      w := { s.w with outs := outs }
      log := { s.log with passes := ⟨s.tp, s.so, idle, env⟩ :: s.log.passes } } with hs1
    -- what one pass leaves, once this and the passes before went well
    have hpass : PassesOk m s1 → Holds m b (outPass s1 idle env) := by
      intro hp
      have hp1 : PassOk m ⟨s1.tp, s1.so, idle, env⟩ := hp _ (by simp [hs1])
      have hp0 : PassesOk m s := fun p hmem => hp p (by simp [hs1, hmem])
      obtain ⟨n, mx, hb, hat⟩ := h hp0
      have hat1 : SendAt m s1 n mx := hat.congr rfl ⟨rfl, rfl, rfl⟩ rfl
      have hh := outPass_holds hat1 hp1
      cases ho : outPass s1 idle env with
      | ok r s' =>
        rw [ho] at hh
        obtain ⟨⟨n', mx', hmx, hat'⟩, ht⟩ := hh
        exact ⟨⟨n', mx', le_trans hb hmx, hat'⟩, ht⟩
      | stop why s' =>
        rw [ho] at hh
        exact hh
    have hsuf := (outOnly_outPass s1 idle env).passes
    cases ho : outPass s1 idle env with
    | stop why s' =>
      rw [ho] at hpass hsuf
      intro hp
      exact hpass fun p hmem => hp p (hsuf.subset hmem)
    | ok r s' =>
      rw [ho] at hpass hsuf
      have hs' : PassesOk m s' → Above m b s' ∧ Timed m s' := fun hp =>
        hpass fun p hmem => hp p (hsuf.subset hmem)
      cases r with
      | done e => exact hs'
      | again => exact ih s' fun hp => (hs' hp).1

/-- **`tcp_output` keeps the invariant**, and whatever it was called for, it leaves a timer for
what is outstanding. -/
theorem tcpOutput_kept (h : PassesOk m s → Above m b s) :
    Kept m b (tcpOutput s) := by
  unfold tcpOutput
  simp only
  split
  · refine outLoop_kept _ _ _ ?_
    intro hp
    obtain ⟨n, mx, hb, hat⟩ := h hp
    exact ⟨n, mx, hb, hat.congr rfl ⟨rfl, rfl, rfl⟩ rfl⟩
  · exact outLoop_kept _ _ _ h

theorem callOutput_kept (h : PassesOk m s → Above m b s) :
    Kept m b (callOutput s) :=
  (tcpOutput_kept h).bind fun _ _ hs => hs

theorem outOnly_callOutput (s : Sys) : OutOnly s (callOutput s).st :=
  (outOnly_tcpOutput s).bind fun _ s' => OutOnly.refl s'

end Anp
