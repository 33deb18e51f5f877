import Anp.Tcp.Output

/-!
# OutputLemmas — what each part of `tcp_output` decides
-/

namespace Anp

open Cyclic Machine

variable {flags : Flags} {len n : Int} {iss : Seq} {so : Socket} {s : Sys} {tp : Tcpcb}

/-! ## The flags and the control block -/

theorem outForce_off (cc : Nat) (v : OutVars) : (outForce cc v).off = v.off := by
  unfold outForce
  split
  · split <;> rfl
  · rfl

/-- What happens to the control block before the label `send`: the timers, the shift, and `snd_nxt`,
which may be pulled back. -/
theorem outDecide_tp (tp : Tcpcb) (so : Socket) :
    ∃ r p x nx, (outDecide tp so).tp =
      { tp with rexmt := r, persist := p, tRxtshift := x, sndNxt := nx } := by
  have hforce : ∃ p x, (outForce so.soSnd.sbCc (outStart tp)).tp =
      { tp with persist := p, tRxtshift := x } := by
    unfold outForce
    split
    · split
      · exact ⟨tp.persist, tp.tRxtshift, rfl⟩
      · exact ⟨0, 0, rfl⟩
    · exact ⟨tp.persist, tp.tRxtshift, rfl⟩
  obtain ⟨p, x, hp⟩ := hforce
  have hlen : ∃ r nx, (outLen so.soSnd.sbCc (outForce so.soSnd.sbCc (outStart tp))).tp =
      { tp with rexmt := r, persist := p, tRxtshift := x, sndNxt := nx } := by
    unfold outLen
    simp only
    split
    · split
      · exact ⟨0, tp.sndUna, by rw [hp]⟩
      · exact ⟨tp.rexmt, tp.sndNxt, by rw [hp]⟩
    · exact ⟨tp.rexmt, tp.sndNxt, by rw [hp]⟩
  obtain ⟨r, nx, hl⟩ := hlen
  refine ⟨r, p, x, nx, ?_⟩
  rw [← hl]
  have hcap : ∀ v, (outCap v).tp = v.tp := by
    intro v
    unfold outCap
    split <;> rfl
  have hfin : ∀ v, (outFin so.soSnd.sbCc v).tp = v.tp := by
    intro v
    unfold outFin
    split <;> rfl
  rw [outDecide, hfin, hcap]

theorem outDecide_flags (tp : Tcpcb) (so : Socket) :
    ∃ b, (outDecide tp so).flags = { tcpOutflags tp.tState with fin := b } ∧
      (b = true → finState tp.tState = true) := by
  have hforce : ∃ b, (outForce so.soSnd.sbCc (outStart tp)).flags =
      { tcpOutflags tp.tState with fin := b } ∧ (b = true → finState tp.tState = true) := by
    unfold outForce
    split
    · split
      · exact ⟨_, rfl, fun h => (Bool.and_eq_true _ _ ▸ h).1⟩
      · exact ⟨_, rfl, id⟩
    · exact ⟨_, rfl, id⟩
  obtain ⟨b, hb, hfs⟩ := hforce
  have hlen : ∀ v, (outLen so.soSnd.sbCc v).flags = v.flags := by
    intro v
    unfold outLen
    simp only
    split
    · split <;> rfl
    · rfl
  have hcap : ∀ v, (outCap v).flags = v.flags := by
    intro v
    unfold outCap
    split <;> rfl
  unfold outDecide outFin
  simp only
  split
  · exact ⟨false, by rw [hcap, hlen, hb], by simp⟩
  · exact ⟨b, by rw [hcap, hlen, hb], hfs⟩

/-! ## The length -/

/-- **The data to send lies in the buffer, and a FIN only follows the last byte.** `u` and `n` are
the places of `snd_una` and `snd_nxt`. -/
theorem outDecide_len {u : Int} (hu : tp.sndUna = adv iss u) (hn : tp.sndNxt = adv iss n)
    (hun : u ≤ n + 1) (hnc : n ≤ u + so.soSnd.sbCc + 2) (hcc : so.soSnd.sbCc < 2147483645) :
    let d := outDecide tp so
    d.off = n - u ∧ 0 ≤ d.len ∧ d.len ≤ tp.tMaxseg ∧
      (0 < d.len → d.off + d.len ≤ so.soSnd.sbCc ∧ d.tp.sndNxt = adv iss n) ∧
      ∃ n', (n' = n ∨ n' = u) ∧ d.tp.sndNxt = adv iss n' ∧
        (d.flags.fin = true → u + so.soSnd.sbCc ≤ n' + d.len) := by
  intro d
  set cc := so.soSnd.sbCc with hccdef
  have hoff : (outStart tp).off = n - u := by
    show gap tp.sndNxt tp.sndUna = _
    rw [hu, hn, gap_adv (by omega) (by omega)]
  set f := outForce cc (outStart tp) with hf
  have hfoff : f.off = n - u := by rw [hf, outForce_off, hoff]
  set l := outLen cc f with hl
  -- the length before the cap, and where `snd_nxt` is then
  have hfnxt : f.tp.sndNxt = adv iss n ∧ f.tp.sndUna = adv iss u ∧ f.tp.tMaxseg = tp.tMaxseg := by
    rw [hf]
    unfold outForce
    split
    · split <;> exact ⟨hn, hu, rfl⟩
    · exact ⟨hn, hu, rfl⟩
  have hraw : int32 ((min cc f.win : Nat) - f.off) = (min cc f.win : Nat) - f.off := by
    exact int32_of_range (by omega) (by omega)
  have hlspec : l.off = n - u ∧ 0 ≤ l.len ∧ l.tp.sndUna = adv iss u ∧
      l.tp.tMaxseg = tp.tMaxseg ∧ (0 < l.len → n - u + l.len ≤ cc ∧ l.tp.sndNxt = adv iss n) ∧
      ∃ n', (n' = n ∨ n' = u) ∧ l.tp.sndNxt = adv iss n' := by
    rw [hl]
    unfold outLen
    simp only [hraw]
    split
    · split
      · exact ⟨hfoff, by simp, hfnxt.2.1, hfnxt.2.2, by simp, u, .inr rfl, hfnxt.2.1⟩
      · exact ⟨hfoff, by simp, hfnxt.2.1, hfnxt.2.2, by simp, n, .inl rfl, hfnxt.1⟩
    · next hge =>
      refine ⟨hfoff, by simp only; omega, hfnxt.2.1, hfnxt.2.2, fun _ => ⟨?_, hfnxt.1⟩,
        n, .inl rfl, hfnxt.1⟩
      simp only [hfoff]
      omega
  obtain ⟨hloff, hl0, hluna, hlmax, hlpos, n', hn', hlnxt⟩ := hlspec
  have hcap : (outCap l).tp = l.tp ∧ (outCap l).off = l.off ∧ 0 ≤ (outCap l).len ∧
      (outCap l).len ≤ l.len ∧ (outCap l).len ≤ tp.tMaxseg := by
    unfold outCap
    split
    · exact ⟨rfl, rfl, by simp only; omega, by simp only; omega, by simp only; omega⟩
    · exact ⟨rfl, rfl, hl0, le_refl _, by omega⟩
  obtain ⟨hctp, hcoff, hc0, hcle, hcmax⟩ := hcap
  have hfin : d = outFin cc (outCap l) := rfl
  have hd : d.tp = l.tp ∧ d.off = l.off ∧ d.len = (outCap l).len ∧
      (d.flags.fin = true → seqLT (adv l.tp.sndNxt (outCap l).len) (adv l.tp.sndUna cc) = false) := by
    rw [hfin]
    unfold outFin
    rw [hctp]
    split
    · exact ⟨rfl, hcoff, rfl, by simp⟩
    · next hlt => exact ⟨hctp, hcoff, rfl, fun _ => by simpa using hlt⟩
  obtain ⟨hdtp, hdoff, hdlen, hdfin⟩ := hd
  refine ⟨by rw [hdoff, hloff], by omega, by omega, ?_, n', hn', by rw [hdtp, hlnxt], ?_⟩
  · intro hpos
    obtain ⟨hle, hnx⟩ := hlpos (by omega)
    exact ⟨by rw [hdoff, hloff]; omega, by rw [hdtp, hnx]⟩
  · intro hb
    have hseq := hdfin hb
    rw [hlnxt, hluna, adv_adv, adv_adv] at hseq
    unfold seqLT at hseq
    rw [gap_adv (by omega) (by omega), decide_eq_false_iff_not] at hseq
    omega

/-! ## Options, clamp and copy -/

theorem outOptions_of_not_syn (h : flags.syn = false) :
    outOptions s flags =
      some (if s.tp.tfReqTstmp && !flags.rst && s.tp.tfRcvdTstmp then 12 else 0, s) := by
  simp [outOptions, h]

theorem u32_natCast {n : Nat} (h : n < 4294967296) : u32 n = n := by
  rw [u32_of_range (by omega) (by omega), Int.toNat_natCast]

theorem outClamp_le (maxseg optlen : Nat) (sendalot : Bool) (h0 : 0 ≤ len) (hlt : len < 2147483648) :
    0 ≤ (outClamp maxseg optlen len sendalot).1 ∧
      (outClamp maxseg optlen len sendalot).1 ≤ len := by
  have hlen : u32 len = len.toNat := u32_of_range h0 (by omega)
  unfold outClamp
  simp only [hlen]
  split
  · next hroom =>
    rw [int32_of_range (by omega) (by omega)]
    omega
  · omega

variable {env : OutEnv}

/-- The data that is copied is a slice of the first record of the send buffer, or nothing. -/
theorem outCopy_data {hdrlen : Nat} {off : Int} {data : List Byte} (h0 : 0 ≤ len)
    (hlt : len < mCopyall) (h : outCopy so env hdrlen off len = .data data) :
    data = [] ∨ (0 ≤ off ∧ 0 < len ∧ off + len ≤ chainLen (so.soSnd.sbMb.headD []) ∧
      data = ((chainBytes (so.soSnd.sbMb.headD [])).drop off.toNat).take len.toNat) := by
  unfold outCopy at h
  simp only at h
  split at h
  · cases h
    exact .inl rfl
  · next hne =>
    have hpos : 0 < len := by omega
    split at h
    · cases hc : mCopydata (so.soSnd.sbMb.headD []) off len with
      | none => rw [hc] at h; simp at h
      | some b =>
        rw [hc] at h
        cases h
        obtain ⟨hoff, hle, hb⟩ := mCopydata_some hpos hc
        exact .inr ⟨hoff, hpos, hle, hb⟩
    · cases hc : mCopym (so.soSnd.sbMb.headD []) off len env.mcopy with
      | panic => rw [hc] at h; simp at h
      | fault => rw [hc] at h; simp at h
      | nospace => rw [hc] at h; cases h; exact .inl rfl
      | ok n =>
        rw [hc] at h
        cases h
        obtain ⟨hoff, hle, hb⟩ := mCopym_ok hpos hlt hc
        exact .inr ⟨hoff, hpos, hle, hb⟩

theorem outCopy_ne_panic {hdrlen : Nat} {off : Int} {p : Panic} (hoff : 0 ≤ off)
    (h0 : 0 ≤ len) (hlt : len < mCopyall)
    (hle : 0 < len → off + len ≤ chainLen (so.soSnd.sbMb.headD [])) :
    outCopy so env hdrlen off len ≠ .panic p := by
  obtain ⟨o, rfl⟩ := Int.eq_ofNat_of_zero_le hoff
  obtain ⟨l, rfl⟩ := Int.eq_ofNat_of_zero_le h0
  unfold outCopy
  simp only
  split
  · simp
  · next hne =>
    have hle' : o + l ≤ chainLen (so.soSnd.sbMb.headD []) := by omega
    split
    · rw [mCopydata_eq _ o l hle']
      simp
    · rcases mCopym_spec (so.soSnd.sbMb.headD []) o l env.mcopy hle' (by omega) with
        ⟨hno, -⟩ | ⟨hf, -⟩ | ⟨n, hn, -⟩
      · rw [hno]; simp
      · rw [hf]; simp
      · rw [hn]; simp

/-! ## Sequence numbers after a segment -/

theorem seqGT_adv {x y : Int} (hlo : -2147483648 ≤ x - y) (hhi : x - y < 2147483648) :
    seqGT (adv iss x) (adv iss y) = decide (y < x) := by
  unfold seqGT
  rw [gap_adv hlo hhi]
  congr 1
  exact propext ⟨fun h => by omega, fun h => by omega⟩

/-- How many sequence numbers a segment occupies. -/
def segUnits (flags : Flags) (len : Nat) : Int :=
  (if flags.syn then 1 else 0) + (if flags.fin then 1 else 0) + len

/-- The sequence number after a segment that starts at `q`. -/
def segEnd (q : Seq) (flags : Flags) (len : Nat) : Seq :=
  q + (if flags.syn then 1 else 0) + (if flags.fin then 1 else 0) + BitVec.ofNat 32 len

theorem segEnd_adv (flags : Flags) (len : Nat) :
    segEnd (adv iss n) flags len = adv iss (n + segUnits flags len) := by
  have hone (b : Bool) (x : Int) :
      adv iss x + (if b then (1 : Seq) else 0) = adv iss (x + if b then 1 else 0) := by
    cases b with
    | false => simp
    | true =>
      simp only [if_true]
      rw [← adv_adv, ← add_one_eq_adv]
  rw [segEnd, hone, hone, adv_add_ofNat]
  congr 1
  unfold segUnits
  omega

theorem outMeasure_eq (tp : Tcpcb) (q : Seq) : ∃ c d e, outMeasure tp q =
    { tp with sndMax := c, tRtt := d, tRtseq := e } ∧
      c = if seqGT tp.sndNxt tp.sndMax = true then tp.sndNxt else tp.sndMax := by
  unfold outMeasure
  split
  · exact ⟨_, _, _, rfl, rfl⟩
  · exact ⟨tp.sndMax, tp.tRtt, tp.tRtseq, rfl, rfl⟩

theorem outArm_eq (tp : Tcpcb) : ∃ f g h, outArm tp =
    { tp with rexmt := f, persist := g, tRxtshift := h } := by
  unfold outArm
  split <;> exact ⟨_, _, _, rfl⟩

theorem outAdvance_transmit (flags : Flags) (len : Nat) (h : (!tp.tForce || tp.persist == 0) = true) :
    ∃ c d e f g x, outAdvance tp flags len = { tp with
      tfSentfin := tp.tfSentfin || flags.fin
      sndNxt := segEnd tp.sndNxt flags len
      sndMax := c, tRtt := d, tRtseq := e, rexmt := f, persist := g, tRxtshift := x } ∧
      c = if seqGT (segEnd tp.sndNxt flags len) tp.sndMax = true then segEnd tp.sndNxt flags len
        else tp.sndMax := by
  obtain ⟨c, d, e, hm, hc⟩ := outMeasure_eq { tp with
    tfSentfin := tp.tfSentfin || flags.fin, sndNxt := segEnd tp.sndNxt flags len } tp.sndNxt
  obtain ⟨f, g, x, ha⟩ := outArm_eq { tp with
    tfSentfin := tp.tfSentfin || flags.fin, sndNxt := segEnd tp.sndNxt flags len
    sndMax := c, tRtt := d, tRtseq := e }
  have hadv : outAdvance tp flags len = outArm _ := (if_pos h).trans (congrArg outArm hm)
  exact ⟨c, d, e, f, g, x, hadv.trans ha, hc⟩

theorem outAdvance_persist (flags : Flags) (len : Nat) (h : ¬(!tp.tForce || tp.persist == 0) = true) :
    outAdvance tp flags len = { tp with
      sndMax := if seqGT (tp.sndNxt + BitVec.ofNat 32 len) tp.sndMax = true then
        tp.sndNxt + BitVec.ofNat 32 len else tp.sndMax } := by
  unfold outAdvance
  rw [if_neg h]
  simp only
  split <;> rfl

/-- **What a segment does to the send sequence numbers.** In transmit state `snd_nxt` moves over
it; in persist state only `snd_max` may move. -/
theorem outAdvance_seq {tp' : Tcpcb} {len : Nat} {mx : Int} (htp : outAdvance tp flags len = tp')
    (hn : tp.sndNxt = adv iss n) (hm : tp.sndMax = adv iss mx) (hlo : -2147483648 ≤ n - mx)
    (hhi : n + segUnits flags len - mx < 2147483648) :
    (tp'.iss = tp.iss ∧ tp'.sndUna = tp.sndUna ∧ tp'.tState = tp.tState) ∧
      ((tp'.sndNxt = adv iss (n + segUnits flags len) ∧
          tp'.sndMax = adv iss (max mx (n + segUnits flags len)) ∧
          tp'.tfSentfin = (tp.tfSentfin || flags.fin)) ∨
        ((tp.tForce = true ∧ tp.persist ≠ 0) ∧ tp'.sndNxt = adv iss n ∧
          tp'.sndMax = adv iss (max mx (n + len)) ∧ tp'.tfSentfin = tp.tfSentfin)) := by
  have hunits : (len : Int) ≤ segUnits flags len := by
    unfold segUnits
    split <;> split <;> omega
  -- `snd_max` after a segment that ends at place `z`
  have hmax : ∀ z, mx - 2147483648 ≤ z → z < mx + 2147483648 →
      (if seqGT (adv iss z) (adv iss mx) = true then adv iss z else adv iss mx) =
        adv iss (max mx z) := by
    intro z h1 h2
    rw [seqGT_adv (by omega) (by omega)]
    simp only [decide_eq_true_eq]
    split <;> congr 1 <;> omega
  by_cases hforce : (!tp.tForce || tp.persist == 0) = true
  · obtain ⟨c, d, e, f, g, x, ha, hc⟩ := outAdvance_transmit flags len hforce
    rw [hn, hm, segEnd_adv, hmax _ (by omega) (by omega)] at hc
    rw [← htp, ha, hn, segEnd_adv]
    exact ⟨⟨rfl, rfl, rfl⟩, .inl ⟨rfl, hc, rfl⟩⟩
  · have hcond : tp.tForce = true ∧ tp.persist ≠ 0 := by simpa using hforce
    rw [← htp, outAdvance_persist flags len hforce, hn, hm, adv_add_ofNat, hmax _ (by omega) (by omega)]
    exact ⟨⟨rfl, rfl, rfl⟩, .inr ⟨hcond, rfl, rfl, rfl⟩⟩

/-! ## The parts of a pass -/

theorem outQuiet_eq (s : Sys) :
    ∃ p x, outQuiet s = .ok none { s with tp := { s.tp with persist := p, tRxtshift := x } } ∧
      (p = s.tp.persist ∨ s.tp.rexmt = 0) := by
  unfold outQuiet
  split
  · next h =>
    unfold tcpSetpersist
    rw [if_neg (not_not.mpr h.2.1)]
    exact ⟨_, _, rfl, .inr h.2.1⟩
  · exact ⟨_, _, rfl, .inl rfl⟩

theorem outError_eq (s : Sys) (e : Errno) :
    ∃ r cwnd soft, outError s e = .ok (.done r) { s with tp := { s.tp with
      sndCwnd := cwnd, tSofterror := soft } } := by
  unfold outError
  split
  · exact ⟨_, _, _, rfl⟩
  · split <;> exact ⟨_, _, _, rfl⟩

theorem outAdvance_eq (tp : Tcpcb) (flags : Flags) (len : Nat) :
    ∃ a b c d e f g h, outAdvance tp flags len = { tp with
      tfSentfin := a, sndNxt := b, sndMax := c, tRtt := d, tRtseq := e, rexmt := f, persist := g,
      tRxtshift := h } := by
  by_cases hforce : (!tp.tForce || tp.persist == 0) = true
  · obtain ⟨c, d, e, f, g, x, ha, -⟩ := outAdvance_transmit flags len hforce
    exact ⟨_, _, c, d, e, f, g, x, ha⟩
  · exact ⟨_, _, _, _, _, _, _, _, outAdvance_persist flags len hforce⟩

theorem outResendFin_eq (tp : Tcpcb) (flags : Flags) :
    ∃ nx, outResendFin tp flags = { tp with sndNxt := nx } := by
  unfold outResendFin
  split <;> exact ⟨_, rfl⟩

theorem outPullUp_eq (tp : Tcpcb) : ∃ up, outPullUp tp = { tp with sndUp := up } := by
  unfold outPullUp
  split
  · exact ⟨tp.sndUp, rfl⟩
  · exact ⟨tp.sndUna, rfl⟩

theorem outEmit_eq (s : Sys) (win : Int) (flags : Flags) (data : List Byte) :
    ∃ a b c d e f g h up x, outEmit s win flags data = { s with
      tp := { s.tp with
        tfSentfin := a, sndNxt := b, sndMax := c, tRtt := d, tRtseq := e, rexmt := f, persist := g
        tRxtshift := h, sndUp := up }
      log := { s.log with sent := x :: s.log.sent } } ∧ x.seg.data = data := by
  obtain ⟨nx, hnx⟩ := outResendFin_eq s.tp flags
  obtain ⟨up, hup⟩ := outPullUp_eq { s.tp with sndNxt := nx }
  obtain ⟨a, b, c, d, e, f, g, h, ha⟩ :=
    outAdvance_eq { s.tp with sndNxt := nx, sndUp := up } flags data.length
  unfold outEmit
  simp only [hnx, hup, ha]
  exact ⟨a, b, c, d, e, f, g, h, up, _, rfl, rfl⟩

/-- A relation that every part of a pass keeps. -/
structure PassRel (R : Sys → Sys → Prop) : Prop where
  refl : ∀ s, R s s
  trans : ∀ {s s' s''}, R s s' → R s' s'' → R s s''
  decided : ∀ s, R s { s with tp := (outDecide s.tp s.so).tp }
  options : ∀ {s s' flags optlen}, outOptions s flags = some (optlen, s') → R s s'
  error : ∀ s e, R s (outError s e).st
  emit : ∀ s win flags data, R s (outEmit s win flags data)
  acked : ∀ (s : Sys) win, R s { s with tp := outAcked s.tp win }
  quiet : ∀ s, R s (outQuiet s).st

variable {R : Sys → Sys → Prop}

theorem PassRel.outPass (h : PassRel R) (s : Sys) (idle : Bool) (env : OutEnv) :
    R s (outPass s idle env).st := by
  have h0 := h.decided s
  unfold Anp.outPass
  simp only
  split
  · unfold outSend
    split
    · exact h.refl s
    · next optlen s1 hopt =>
      have h1 : R s s1 := h.trans h0 (h.options hopt)
      simp only
      split
      · exact h.trans h1 (h.error s1 _)
      · split
        · exact h1
        · exact h1
        · split
          · exact h1
          · have h2 := fun win fl data => h.trans h1 (h.emit s1 win fl data)
            split
            · exact h.trans (h2 _ _ _) (h.error _ _)
            · exact h.trans (h2 _ _ _) (h.acked _ _)
  · have hq := h.trans h0 (h.quiet _)
    obtain ⟨p, x, he, -⟩ := outQuiet_eq { s with tp := (outDecide s.tp s.so).tp }
    rw [he] at hq ⊢
    exact hq

theorem PassRel.outLoop (h : PassRel R) (hnote : ∀ (s : Sys) outs p, R s { s with
      w := { s.w with outs := outs }, log := { s.log with passes := p :: s.log.passes } })
    (idle : Bool) (outs : List OutEnv) (s : Sys) : R s (outLoop idle outs s).st := by
  induction outs generalizing s with
  | nil => exact h.refl s
  | cons env outs ih =>
    rw [Anp.outLoop]
    have h1 := h.trans (hnote s outs ⟨s.tp, s.so, idle, env⟩) (h.outPass _ idle env)
    cases hp : Anp.outPass _ idle env with
    | stop why s1 =>
      rw [hp] at h1
      exact h1
    | ok r s1 =>
      rw [hp] at h1
      cases r with
      | done e => exact h1
      | again => exact h.trans h1 (ih s1)

theorem PassRel.tcpOutput (h : PassRel R) (hnote : ∀ (s : Sys) outs p, R s { s with
      w := { s.w with outs := outs }, log := { s.log with passes := p :: s.log.passes } })
    (hslow : ∀ s : Sys, R s { s with tp := { s.tp with sndCwnd := s.tp.tMaxseg } }) (s : Sys) :
    R s (tcpOutput s).st := by
  unfold Anp.tcpOutput
  simp only
  split
  · exact h.trans (hslow s) (h.outLoop hnote _ _ _)
  · exact h.outLoop hnote _ _ _

theorem outPass_stop {s' : Sys} {idle : Bool} {why : Stop} (h : outPass s idle env = .stop why s') :
    why = .fault ∨ ∃ p, why = .panic p ∧ p ≠ .tcpSetpersist := by
  have hcopy : ∀ {so hdrlen off len p}, outCopy so env hdrlen off len = .panic p →
      p ≠ .tcpSetpersist := by
    intro so hdrlen off len p hc
    unfold outCopy at hc
    simp only at hc
    split at hc
    · cases hc
    · split at hc
      · split at hc <;> cases hc
        simp
      · split at hc <;> cases hc
        simp
  have herr : ∀ (s1 : Sys) (e : Errno), outError s1 e ≠ .stop why s' := by
    intro s1 e
    obtain ⟨r, cwnd, soft, he⟩ := outError_eq s1 e
    rw [he]
    simp
  unfold outPass at h
  simp only at h
  split at h
  · unfold outSend at h
    split at h
    · cases h
      exact .inr ⟨.divide, rfl, by simp⟩
    · simp only at h
      split at h
      · exact absurd h (herr _ _)
      · split at h
        · next p hp =>
          cases h
          exact .inr ⟨p, rfl, hcopy hp⟩
        · cases h
          exact .inl rfl
        · split at h
          · cases h
            exact .inr ⟨.tcpOutput, rfl, by simp⟩
          · split at h
            · exact absurd h (herr _ _)
            · cases h
  · obtain ⟨p, x, he, -⟩ := outQuiet_eq { s with tp := (outDecide s.tp s.so).tp }
    rw [he] at h
    cases h

/-! ## What a call leaves alone -/

/-- `tcp_output` does not change the state, the data in the two buffers, what was received, or what
was written and acknowledged. -/
structure OutOnly (s s' : Sys) : Prop where
  tState : s'.tp.tState = s.tp.tState
  iss : s'.tp.iss = s.tp.iss
  sndUna : s'.tp.sndUna = s.tp.sndUna
  segs : s'.tp.segs = s.tp.segs
  rcvNxt : s'.tp.rcvNxt = s.tp.rcvNxt
  snd : s'.so.soSnd.sbCc = s.so.soSnd.sbCc ∧ s'.so.soSnd.sbMb = s.so.soSnd.sbMb
  rcv : s'.so.soRcv.sbCc = s.so.soRcv.sbCc ∧ s'.so.soRcv.sbMb = s.so.soRcv.sbMb
  so : { s'.so with soSnd := s.so.soSnd, soRcv := s.so.soRcv } = s.so
  log : { s'.log with sent := s.log.sent, passes := s.log.passes } = s.log
  route : s'.w.route = s.w.route
  passes : s.log.passes <:+ s'.log.passes

theorem OutOnly.refl (s : Sys) : OutOnly s s :=
  ⟨rfl, rfl, rfl, rfl, rfl, ⟨rfl, rfl⟩, ⟨rfl, rfl⟩, rfl, rfl, rfl, List.suffix_refl _⟩

theorem OutOnly.trans {s' s'' : Sys} (h : OutOnly s s') (h' : OutOnly s' s'') :
    OutOnly s s'' where
  tState := h'.tState.trans h.tState
  iss := h'.iss.trans h.iss
  sndUna := h'.sndUna.trans h.sndUna
  segs := h'.segs.trans h.segs
  rcvNxt := h'.rcvNxt.trans h.rcvNxt
  snd := ⟨h'.snd.1.trans h.snd.1, h'.snd.2.trans h.snd.2⟩
  rcv := ⟨h'.rcv.1.trans h.rcv.1, h'.rcv.2.trans h.rcv.2⟩
  so := by
    rw [← h.so]
    conv_rhs => rw [← h'.so]
  log := by
    rw [← h.log]
    conv_rhs => rw [← h'.log]
  route := h'.route.trans h.route
  passes := h.passes.trans h'.passes

theorem OutOnly.ofTp (h : tp.tState = s.tp.tState ∧ tp.iss = s.tp.iss ∧
    tp.sndUna = s.tp.sndUna ∧ tp.segs = s.tp.segs ∧ tp.rcvNxt = s.tp.rcvNxt) :
    OutOnly s { s with tp := tp } :=
  ⟨h.1, h.2.1, h.2.2.1, h.2.2.2.1, h.2.2.2.2, ⟨rfl, rfl⟩, ⟨rfl, rfl⟩, rfl, rfl, rfl,
    List.suffix_refl _⟩

theorem OutOnly.bind {α β : Type} {o : Outcome α} {f : α → Sys → Outcome β} (h : OutOnly s o.st)
    (hf : ∀ a s', OutOnly s' (f a s').st) : OutOnly s (o.bind f).st := by
  cases o with
  | ok a s' => exact h.trans (hf a s')
  | stop why s' => exact h

theorem outOnly_outDecide (s : Sys) : OutOnly s { s with tp := (outDecide s.tp s.so).tp } := by
  obtain ⟨r, p, x, nx, hd⟩ := outDecide_tp s.tp s.so
  rw [hd]
  exact OutOnly.ofTp ⟨rfl, rfl, rfl, rfl, rfl⟩

/-- For a SYN the window is set up for the route, and nothing else is done. -/
theorem outOptions_cases {s' : Sys} {optlen : Nat} (h : outOptions s flags = some (optlen, s')) :
    flags.syn = false ∧ s' = s ∨ flags.syn = true ∧
      ∃ mss, tcpMss { s with tp := { s.tp with sndNxt := s.tp.iss } } 0 = some (mss, s') := by
  unfold outOptions at h
  simp only [Option.map_eq_some_iff] at h
  obtain ⟨⟨n, s1⟩, h1, h2⟩ := h
  cases h2
  split at h1
  · next hsyn =>
    obtain ⟨⟨mss, s2⟩, h3, h4⟩ := Option.map_eq_some_iff.mp h1
    cases h4
    exact .inr ⟨hsyn, mss, h3⟩
  · next hsyn =>
    cases h1
    exact .inl ⟨Bool.eq_false_iff.mpr hsyn, rfl⟩

theorem outOnly_outOptions {s' : Sys} {optlen : Nat} (h : outOptions s flags = some (optlen, s')) :
    OutOnly s s' := by
  obtain ⟨-, rfl⟩ | ⟨-, mss, hmss⟩ := outOptions_cases h
  · exact OutOnly.refl _
  · obtain ⟨tp, snd, rcv, rfl, hsnd, hrcv, ⟨a, b, c, d, e, f, g, rfl⟩, -⟩ := tcpMss_eq hmss
    exact ⟨rfl, rfl, rfl, rfl, rfl, hsnd, hrcv, rfl, rfl, rfl, List.suffix_refl _⟩

theorem outOnly_outEmit (s : Sys) (win : Int) (flags : Flags) (data : List Byte) :
    OutOnly s (outEmit s win flags data) := by
  obtain ⟨a, b, c, d, e, f, g, h, up, x, he, -⟩ := outEmit_eq s win flags data
  rw [he]
  exact ⟨rfl, rfl, rfl, rfl, rfl, ⟨rfl, rfl⟩, ⟨rfl, rfl⟩, rfl, rfl, rfl, List.suffix_refl _⟩

theorem passRel_outOnly : PassRel OutOnly where
  refl := OutOnly.refl
  trans := OutOnly.trans
  decided := outOnly_outDecide
  options := outOnly_outOptions
  error s e := by
    obtain ⟨r, cwnd, soft, he⟩ := outError_eq s e
    rw [he]
    exact OutOnly.ofTp ⟨rfl, rfl, rfl, rfl, rfl⟩
  emit := outOnly_outEmit
  acked _ _ := OutOnly.ofTp ⟨rfl, rfl, rfl, rfl, rfl⟩
  quiet s := by
    obtain ⟨p, x, he, -⟩ := outQuiet_eq s
    rw [he]
    exact OutOnly.ofTp ⟨rfl, rfl, rfl, rfl, rfl⟩

theorem outOnly_note (s : Sys) (outs : List OutEnv) (p : Pass) : OutOnly s { s with
    w := { s.w with outs := outs }, log := { s.log with passes := p :: s.log.passes } } :=
  ⟨rfl, rfl, rfl, rfl, rfl, ⟨rfl, rfl⟩, ⟨rfl, rfl⟩, rfl, rfl, rfl, List.suffix_cons _ _⟩

theorem outOnly_outPass (s : Sys) (idle : Bool) (env : OutEnv) : OutOnly s (outPass s idle env).st :=
  passRel_outOnly.outPass s idle env

theorem outOnly_outLoop (idle : Bool) (outs : List OutEnv) (s : Sys) :
    OutOnly s (outLoop idle outs s).st :=
  passRel_outOnly.outLoop outOnly_note idle outs s

theorem outOnly_tcpOutput (s : Sys) : OutOnly s (tcpOutput s).st :=
  passRel_outOnly.tcpOutput outOnly_note (fun _ => OutOnly.ofTp ⟨rfl, rfl, rfl, rfl, rfl⟩) s

end Anp
