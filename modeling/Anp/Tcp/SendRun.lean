import Anp.Tcp.SendInput

/-!
# SendRun — the send invariant along a run

The timeouts and the requests of the user keep the send invariant, as `tcp_input` does; so it
holds along every run whose steps avoid what the mode excludes.
-/

namespace Anp

open Cyclic Machine

variable {op : Op} {s : Sys}

variable {m : Mode}

theorem Pre.congr {s' : Sys} (h : Pre m s) (hv : sndView s' = sndView s)
    (htp : s'.tp.tMaxseg = s.tp.tMaxseg ∧ s'.tp.tRttmin = s.tp.tRttmin ∧
      s'.tp.tRxtcur = s.tp.tRxtcur) (hw : s'.w.route = s.w.route)
    (hp : s'.log.passes = s.log.passes) : Pre m s' := by
  intro hps
  unfold PassesOk at hps
  rw [hp] at hps
  obtain ⟨n, mx, hmx, hat⟩ := h hps
  exact ⟨n, mx, hmx, hat.congr hv htp hw⟩

theorem Pre.stop (h : Pre m s) {p : Panic} {α : Type}
    (hp : p ≠ .sbdropSnd ∧ p ≠ .mCopydata ∧ p ≠ .mCopym) :
    Kept m 0 (.stop (.panic p) s : Outcome α) := by
  intro hps
  obtain ⟨n, mx, -, hat⟩ := h hps
  exact hat.stop (by simpa using hp) (by simp)

/-! ## Timeouts -/

theorem forceOutput_kept (h : Pre m s) : Kept m 0 (forceOutput s) := by
  have h' : Pre m { s with tp := { s.tp with tForce := true } } :=
    h.congr rfl ⟨rfl, rfl, rfl⟩ rfl rfl
  refine (tcpOutput_kept h').bind fun _ s hs => ?_
  have hg : Good m s := hs
  exact hg.calm (Calm.same rfl)

theorem timerRexmt_kept (h : Pre m s) : Kept m 0 (timerRexmt s) := by
  unfold timerRexmt
  simp only
  split
  · refine tcpDrop_kept ?_ (by simp) _ fun s => Calm.refl s
    exact h.congr rfl ⟨rfl, rfl, rfl⟩ rfl rfl
  · split
    · exact h.stop (by simp)
    · refine callOutput_kept fun hp => ?_
      obtain ⟨n, mx, hmx, hat⟩ := h hp
      exact ⟨s.log.acked, mx, hmx, hat.pos.setNxt_una, ⟨hat.settled.early, hat.settled.est⟩,
        hat.maxseg, fun hm => ⟨(hat.time hm).rttmin, tcptRangeset_ne_zero (hat.time hm).rttmin,
          (hat.time hm).route⟩⟩

theorem timerPersist_kept (h : Pre m s) : Kept m 0 (timerPersist s) := by
  unfold timerPersist tcpSetpersist
  split
  · next tp htp =>
    split at htp
    · simp at htp
    · cases htp
      exact forceOutput_kept (h.congr rfl ⟨rfl, rfl, rfl⟩ rfl rfl)
  · exact h.stop (by simp)

theorem timerKeep_kept (h : Good m s) : Kept m 0 (timerKeep s) := by
  have hset : ∀ k, Calm s { s with tp := { s.tp with keep := k } } := fun k =>
    Calm.same rfl
  unfold timerKeep
  split
  · exact tcpDrop_kept h.pre (by simp) _ fun s => Calm.refl s
  · split
    · split
      · exact tcpDrop_kept h.pre (by simp) _ fun s => Calm.refl s
      · refine (h : Good m s).calm ?_
        split <;> exact Calm.same rfl
    · exact h.calm (hset _)

theorem timerMsl2_kept (h : Good m s) : Kept m 0 (timerMsl2 s) := by
  unfold timerMsl2
  split
  · exact h.calm (Calm.same rfl)
  · exact tcpClose_kept h.pre (by simp)

theorem tickTimer_kept (h : Good m s) (t : TimerId) : Kept m 0 (tickTimer s t) := by
  unfold tickTimer
  split
  · exact h
  · simp only
    generalize int16 (getTimer s.tp t - 1) = v
    have hpre : Pre m { s with tp := setTimer s.tp v t } := by
      cases t <;> exact h.pre.congr rfl ⟨rfl, rfl, rfl⟩ rfl rfl
    split
    · cases t with
      | rexmt => exact timerRexmt_kept hpre
      | persist => exact timerPersist_kept hpre
      | keep => exact timerKeep_kept (h.calm (Calm.same rfl))
      | msl2 => exact timerMsl2_kept (h.calm (Calm.same rfl))
    · next hv =>
      cases t with
      | rexmt => exact fun hp => ⟨hpre hp, fun _ _ _ _ => .inl hv⟩
      | persist => exact fun hp => ⟨hpre hp, fun _ _ _ _ => .inr hv⟩
      | keep | msl2 => exact h.calm (Calm.same rfl)

theorem tcpSlowtimo_kept (h : Good m s) : Kept m 0 (tcpSlowtimo s) := by
  refine (tickTimer_kept h .rexmt).bind fun _ s h => ?_
  refine (tickTimer_kept h .persist).bind fun _ s h => ?_
  refine (tickTimer_kept h .keep).bind fun _ s h => ?_
  refine (tickTimer_kept h .msl2).bind fun _ s h => ?_
  exact Good.calm h (Calm.same rfl)

theorem tcpFasttimo_kept (h : Good m s) : Kept m 0 (tcpFasttimo s) := by
  unfold tcpFasttimo
  split
  · exact callOutput_kept (h.pre.congr rfl ⟨rfl, rfl, rfl⟩ rfl rfl)
  · exact h

/-! ## Opening and closing -/

/-- A connection that is not connected has nothing in `so_snd`: it may start. -/
theorem tcpConnect_kept (h : SendInv m s) (ht : Timed m s) (hok : soconnectOk s.so = true)
    (hfin : m.fin → s.tp.tfSentfin = false) : Kept m 0 (tcpConnect s) := by
  unfold soconnectOk at hok
  simp only [Bool.and_eq_true, Bool.not_eq_true', Bool.or_eq_false_iff] at hok
  unfold tcpConnect
  split
  · exact fun _ => ⟨h, ht⟩
  · refine callOutput_kept fun _ => ?_
    obtain ⟨n, mx, -, hat⟩ := h
    have hcc : s.so.soSnd.sbCc = 0 := by
      by_contra hne
      have hc : s.so.ssIsconnected = true := hat.pos.conn hne
      rw [hok.2.1] at hc
      simp at hc
    have hmb : s.so.soSnd.sbMb.flatMap chainBytes = [] := by
      have hb : s.so.soSnd.sbMb.flatMap chainBytes =
        s.log.wrote.drop (s.log.wrote.length - s.so.soSnd.sbCc) := hat.pos.bytes
      rw [hb, hcc, Nat.sub_zero, List.drop_length]
    refine ⟨0, 0, le_refl _, hat.moved (SendPos.start ⟨rfl, rfl⟩ ⟨hcc, hmb⟩ ⟨rfl, rfl, rfl⟩ ?_ ?_ ?_ ?_
      hat.pos.one) ⟨fun _ hc => (by cases hc), fun hc => (by cases hc)⟩ rfl⟩
    · show TcpState.synSent.toNat < _
      decide
    · exact fun hsf => hat.pos.cant (Or.inl hsf)
    · intro hl
      cases hl
    · exact fun hm => ⟨hfin hm, fun g hg => by cases hg⟩

theorem listen_kept (h : Good m s) : Kept m 0 (.ok () { s with
    tp := { s.tp with tState := .listen }, so := { s.so with soAcceptconn := true } }) := by
  intro hp
  obtain ⟨n, mx, hmx, hat⟩ := (h hp).1
  have hacc : SendPos m { sndView s with accept := true } n mx :=
    { hat.pos with
      listen := fun _ => .inl rfl
      exact_ := fun hm => { hat.pos.exact_ hm with } }
  have he : MayEnter m { sndView s with accept := true } .listen :=
    ⟨fun _ => rfl, by simp [finState, tcpOutflags], by simp [TcpState.toNat], by simp,
      by simp [TcpState.toNat], fun _ => rfl⟩
  refine ⟨⟨n, mx, hmx, hat.moved (hacc.setSt he) ⟨hat.settled.early, fun hc => (by cases hc)⟩ rfl⟩, ?_⟩
  exact timed_of_early (show TcpState.listen.toNat < _ by decide)

theorem tcpUsrclosed_pre (h : Pre m s) (hcant : s.so.ssCantsendmore = true) :
    tcpUsrclosed s = tcpClose .user s ∨ ∃ s', tcpUsrclosed s = .ok () s' ∧ Pre m s' := by
  have hclose : ∀ st', st' = .finWait1 ∨ st' = .lastAck → stillOpen s.tp.tState = true →
      Pre m { s with tp := { s.tp with tState := st' } } := by
    intro st' hst' hopen hp
    obtain ⟨n, mx, hmx, hat⟩ := h hp
    have he : MayEnter m (sndView s) st' := by
      refine ⟨?_, fun _ => .inr hopen, fun _ => hcant, ?_, ?_, ?_⟩ <;>
        rcases hst' with rfl | rfl <;> simp [stillOpen, TcpState.toNat]
    have hest : st' ≠ .established := by rcases hst' with rfl | rfl <;> simp
    exact ⟨n, mx, hmx, hat.setSt he hest⟩
  -- the states the user has closed already
  have hstay : ∀ t, s.tp.tState = t → Pre m { s with
      so := if TcpState.finWait2.toNat ≤ t.toNat then soisdisconnected s.so else s.so } := by
    rintro t rfl hp
    obtain ⟨n, mx, hmx, hat⟩ := h hp
    split
    · next hge =>
      have hcc : s.so.soSnd.sbCc = 0 := (hat.pos.drained hge).1
      exact ⟨n, mx, hmx, hat.moved (hat.pos.setSo (fun _ => rfl) (absurd hcc))
        ⟨fun _ hc => (by cases hc), hat.settled.est⟩ rfl⟩
    · exact ⟨n, mx, hmx, hat⟩
  unfold tcpUsrclosed
  split
  · exact .inl rfl
  · exact .inl rfl
  · exact .inl rfl
  · next hst => exact .inr ⟨_, rfl, hclose .finWait1 (Or.inl rfl) (by rw [hst]; rfl)⟩
  · next hst => exact .inr ⟨_, rfl, hclose .finWait1 (Or.inl rfl) (by rw [hst]; rfl)⟩
  · next hst => exact .inr ⟨_, rfl, hclose .lastAck (Or.inr rfl) (by rw [hst]; rfl)⟩
  · exact .inr ⟨_, rfl, hstay _ rfl⟩

theorem usrclosed_output_kept (h : Pre m s) (hcant : s.so.ssCantsendmore = true) :
    Kept m 0 ((tcpUsrclosed s).bind fun _ s => callOutput s) := by
  rcases tcpUsrclosed_pre h hcant with he | ⟨s', he, hs'⟩
  · rw [he]
    have hk : Kept m 0 (tcpClose .user s : Outcome Unit) := tcpClose_kept h (by simp)
    exact hk
  · rw [he]
    exact callOutput_kept hs'

theorem Pre.cutOff (h : Pre m s) {so : Socket} (hsnd : so.soSnd = s.so.soSnd)
    (hcant : so.ssCantsendmore = true)
    (hso : so.ssIsconnected = s.so.ssIsconnected ∧ so.ssNofdref = s.so.ssNofdref ∧
      so.soAcceptconn = s.so.soAcceptconn ∧ so.soQueue = s.so.soQueue) :
    Pre m { s with so := so } := by
  intro hp
  obtain ⟨n, mx, hmx, hat⟩ := h hp
  have hv : sndView { s with so := so } = { sndView s with cant := true } := by
    simp only [sndView, hsnd, hcant, hso]
  refine ⟨n, mx, hmx, hat.moved ?_ ?_ rfl⟩
  · rw [hv]
    exact hat.pos.setSo (fun _ => rfl) hat.pos.conn
  · rw [hv]
    exact ⟨hat.settled.early, hat.settled.est⟩

theorem tcpDisconnect_kept (h : Good m s) : Kept m 0 (tcpDisconnect s) := by
  unfold tcpDisconnect
  split
  · exact tcpClose_kept h.pre (by simp)
  · split
    · exact tcpDrop_kept h.pre (by simp) _ fun s => Calm.refl s
    · simp only
      split
      · exact h.pre.stop (by simp)
      · exact usrclosed_output_kept (h.pre.cutOff rfl rfl ⟨rfl, rfl, rfl, rfl⟩) rfl

theorem soshutdown_kept (h : Good m s) (rd wr : Bool) : Kept m 0 (soshutdown s rd wr) := by
  have hrd : Good m (if rd then { s with so := sorflush s.so } else s) := by
    split
    · exact h.calm (Calm.same rfl)
    · exact h
  unfold soshutdown
  simp only
  split
  · exact usrclosed_output_kept (hrd.pre.cutOff rfl rfl ⟨rfl, rfl, rfl, rfl⟩) rfl
  · exact hrd

theorem tcpDetach_kept (h : Good m s) : Kept m 0 (tcpDetach s) := by
  have hdis : Kept m 0 (if TcpState.listen.toNat < s.tp.tState.toNat then tcpDisconnect s
      else tcpClose .user s) := by
    split
    · exact tcpDisconnect_kept h
    · exact tcpClose_kept h.pre (by simp)
  refine hdis.bind fun _ s hs hp => ?_
  obtain ⟨⟨n, mx, hmx, hat⟩, ht⟩ := hs hp
  exact ⟨⟨n, mx, hmx, hat.moved (hat.pos.setSo id hat.pos.conn)
    ⟨fun h0 hc => ⟨rfl, (hat.settled.early h0 hc).2⟩, hat.settled.est⟩ rfl⟩, ht⟩

/-! ## Sending and receiving -/

/-- **The user writes.** Nobody has a descriptor for a connection before our SYN is acknowledged. -/
theorem appendSnd_pre (h : Pre m s) {mb : Mbuf} (hfd : s.so.ssNofdref = false)
    (hcant : s.so.ssCantsendmore = false) (hconn : s.so.ssIsconnected = true)
    (hlt : s.so.soSnd.sbCc + mb.mLen < 2147483645)
    (heor : m.one → (s.so.soSnd.sbMb.getLast?.getD []).any (·.mEor) = false) :
    Pre m (appendSnd s mb) := by
  intro hp
  obtain ⟨n, mx, hmx, hat⟩ := h hp
  obtain ⟨hbytes, hcc, -⟩ := sbappend_spec s.so.soSnd [mb]
  rw [show chainBytes [mb] = mb.mData by simp] at hbytes
  rw [show chainLen [mb] = mb.mData.length by simp [Mbuf.mLen]] at hcc
  have hak : 1 ≤ s.log.acked := by
    by_contra h0
    have hn : s.so.ssNofdref = true := (hat.settled.early (by show s.log.acked = 0; omega) hconn).1
    rw [hfd] at hn
    simp at hn
  have hv : sndView (appendSnd s mb) = { sndView s with
      cc := s.so.soSnd.sbCc + mb.mData.length, mb := (sbappend s.so.soSnd [mb]).sbMb
      wrote := s.log.wrote ++ mb.mData } := by
    simp only [sndView, appendSnd, hcc]
  refine ⟨n, mx, hmx, hat.moved ?_ ?_ rfl⟩
  · rw [hv]
    exact hat.pos.write hcant hconn hak hbytes hlt
      fun hm => sbappend_oneRec (hat.pos.one hm) (heor hm)
  · rw [hv]
    exact ⟨hat.settled.early, hat.settled.est⟩

theorem send_kept (h : Good m s) {mb : Mbuf} {oob : Bool} (hfd : s.so.ssNofdref = false)
    (hok : sosendOk s.so mb.mLen oob = true) (hlt : s.so.soSnd.sbCc + mb.mLen < 2147483645)
    (heor : m.one → (s.so.soSnd.sbMb.getLast?.getD []).any (·.mEor) = false) :
    Kept m 0 (if oob then tcpSendoob s mb else tcpSend s mb) := by
  unfold sosendOk at hok
  simp only [Bool.and_eq_true, Bool.not_eq_true'] at hok
  have hpre := appendSnd_pre h.pre hfd hok.1.1.1 hok.1.2 hlt heor
  split
  · unfold tcpSendoob
    split
    · exact h
    · exact forceOutput_kept (hpre.congr rfl ⟨rfl, rfl, rfl⟩ rfl rfl)
  · exact callOutput_kept hpre

theorem tcpRcvd_kept (h : Good m s) (n : Nat) : Kept m 0 (tcpRcvd s n) := by
  unfold tcpRcvd
  split
  · exact h
  · split
    · exact h.pre.stop (by simp)
    · exact callOutput_kept (h.pre.congr rfl ⟨rfl, rfl, rfl⟩ rfl rfl)

theorem calm_sosetopt (s : Sys) (o : SockOpt) : Calm s (sosetopt s o) := by
  cases o with
  | sndbuf n =>
    obtain ⟨h1, h2⟩ := sbreserve_getD s.so.soSnd n
    exact Calm.same (by simp only [sosetopt, calmView, sndView, h1, h2])
  | maxseg i =>
    rw [sosetopt]
    split
    · next hi =>
      refine ⟨rfl, rfl, rfl, rfl, fun hlt => ?_, fun ht => { ht with }⟩
      show i.toNat < 65536
      omega
    · exact Calm.refl s
  | _ => exact Calm.same rfl

/-! ## The condition -/

/-- What the mode excludes of one operation, in the state it starts from. -/
def OpFair (m : Mode) (s : Sys) : Op → Prop
  | .input seg => AckFair m s seg
  | .send mb oob => sosendOk s.so mb.mLen oob = true → s.so.soSnd.sbCc + mb.mLen < 2147483645 ∧
      (m.one → (s.so.soSnd.sbMb.getLast?.getD []).any (·.mEor) = false)
  | .connect => m.fin → soconnectOk s.so = true → s.tp.tfSentfin = false
  | _ => True

/-- The condition on a step, for a given mode. -/
structure SendCond (m : Mode) (s : Sys) (op : Op) (w : World) : Prop where
  fair : OpFair m (enter s w) op
  passes : ∀ p ∈ passesOf s op w, PassOk m p
  route : m.timer → ∀ rt, w.route = some rt → LockOk rt

theorem userStep_kept (h : SendInv m s) (ht : Timed m s) (hop : OpFair m s op)
    (hfd : s.so.ssNofdref = false) : Kept m 0 (userStep s op) := by
  have hg : Good m s := fun _ => ⟨h, ht⟩
  cases op with
  | connect =>
    rw [userStep]
    split
    · next hok => exact tcpConnect_kept h ht hok fun hm => hop hm hok
    · exact hg
  | listen => exact listen_kept hg
  | send mb oob =>
    rw [userStep]
    split
    · next hok => exact send_kept hg hfd hok (hop hok).1 (hop hok).2
    · exact hg
  | rcvd n => exact tcpRcvd_kept hg n
  | rcvoob peek =>
    rw [userStep, tcpRcvoob]
    split
    · exact hg
    · exact hg.calm (Calm.same rfl)
  | shutdown rd wr => exact soshutdown_kept hg rd wr
  | disconnect =>
    rw [userStep]
    split
    · exact tcpDisconnect_kept hg
    · exact hg
  | detach => exact tcpDetach_kept hg
  | sockopt o => exact hg.calm (calm_sosetopt s o)
  | _ => exact hg

theorem accept_kept (h : Good m s) (hq : s.so.soQueue = .q) :
    Kept m 0 (.ok () { s with so := { s.so with soQueue := .none, ssNofdref := false } }) := by
  intro hp
  obtain ⟨⟨n, mx, hmx, hat⟩, ht⟩ := h hp
  refine ⟨⟨n, mx, hmx, hat.moved (hat.pos.setSo id hat.pos.conn)
    ⟨fun h0 hc => ?_, hat.settled.est⟩ rfl⟩, ht⟩
  exact absurd hq (hat.settled.early h0 hc).2

theorem stepOp_kept (htl : m.timer → m.late) (h : SendInv m s) (ht : Timed m s)
    (hop : OpFair m s op) : Kept m 0 (stepOp s op) := by
  have hg : Good m s := fun _ => ⟨h, ht⟩
  have huser : Kept m 0 (if s.so.ssNofdref then .ok () s else userStep s op) := by
    split
    · exact hg
    · next hfd => exact userStep_kept h ht hop (by simpa using hfd)
  cases op with
  | input seg =>
    refine tcpInput_kept htl hg (fun h0 => ?_) hop
    obtain ⟨n, mx, -, hat⟩ := h
    have hu : s.tp.sndUna = adv s.tp.iss (s.log.acked : Int) := hat.pos.una_eq
    rw [hu, h0]
    exact adv_zero _
  | fasttimo => exact tcpFasttimo_kept hg
  | slowtimo => exact tcpSlowtimo_kept hg
  | notify e =>
    refine hg.calm ?_
    show Calm s (tcpNotify s e)
    unfold tcpNotify
    split
    · exact Calm.refl s
    · split <;> exact Calm.same rfl
  | quench => exact hg.calm (Calm.same rfl)
  | abort =>
    rw [stepOp]
    split
    · exact hg
    · exact tcpDrop_kept hg.pre (by simp) _ fun s => Calm.refl s
  | accept =>
    rw [stepOp]
    split
    · next hq => exact accept_kept hg hq
    · exact hg
  | _ => exact huser

/-! ## Runs -/

theorem enter_inv {w : World} (h : SendInv m s) (hr : m.timer → ∀ rt, w.route = some rt → LockOk rt) :
    SendInv m (enter s w) := by
  obtain ⟨n, mx, hmx, hat⟩ := h
  exact ⟨n, mx, hmx, hat.pos, hat.settled, hat.maxseg, fun hm =>
    ⟨(hat.time hm).rttmin, (hat.time hm).rxtcur, hr hm⟩⟩

/-- **One step.** -/
theorem step_holds (htl : m.timer → m.late) {w : World} (h : Holds m 0 (.ok () s))
    (hc : SendCond m s op w) : Holds m 0 (step s op w) :=
  stepOp_kept htl (enter_inv h.1 hc.route) h.2 hc.fair hc.passes

theorem soreserve_getD (so : Socket) (a b : Nat) :
    ∃ snd rcv, (soreserve so a b).getD so = { so with soSnd := snd, soRcv := rcv } ∧
      snd.sbCc = so.soSnd.sbCc ∧ snd.sbMb = so.soSnd.sbMb := by
  unfold soreserve
  cases hs : sbreserve so.soSnd a with
  | none => exact ⟨so.soSnd, so.soRcv, rfl, rfl, rfl⟩
  | some snd =>
    cases hr : sbreserve so.soRcv b with
    | none => exact ⟨so.soSnd, so.soRcv, rfl, rfl, rfl⟩
    | some rcv =>
      have hsnd := sbreserve_getD so.soSnd a
      rw [hs, Option.getD_some] at hsnd
      refine ⟨_, _, rfl, ?_⟩
      split <;> split <;> exact hsnd

theorem idle_holds (hlog : s.log = {}) (hbuf : s.so.soSnd.sbCc = 0 ∧ s.so.soSnd.sbMb = [])
    (hseq : s.tp.sndUna = s.tp.iss ∧ s.tp.sndNxt = s.tp.iss ∧ s.tp.sndMax = s.tp.iss)
    (hst : s.tp.tState.toNat < TcpState.synSent.toNat) (hsf : s.tp.tfSentfin = false)
    (hconn : s.so.ssIsconnected = true → s.so.ssNofdref = true ∧ s.so.soQueue ≠ .q)
    (hmax : s.tp.tMaxseg < 65536) (htime : TimeBase s) : Holds m 0 (.ok () s) := by
  have hpos : SendPos m (sndView s) 0 0 := by
    refine SendPos.start ?_ ?_ hseq ?_ ?_ (fun _ => Or.inr hsf) ?_ ?_
    · show s.log.acked = 0 ∧ s.log.wrote = []
      rw [hlog]
      exact ⟨rfl, rfl⟩
    · refine ⟨hbuf.1, ?_⟩
      show s.so.soSnd.sbMb.flatMap chainBytes = []
      rw [hbuf.2]
      rfl
    · exact lt_of_lt_of_le hst (by decide)
    · intro h1
      have h1' : s.tp.tfSentfin = true := h1
      rw [hsf] at h1'
      simp at h1'
    · refine fun _ => ⟨hsf, fun g hg => ?_⟩
      have hg' : g ∈ s.log.sent := hg
      rw [hlog] at hg'
      cases hg'
    · intro _
      show s.so.soSnd.sbMb.length ≤ 1
      rw [hbuf.2]
      exact Nat.zero_le 1
  refine ⟨⟨0, 0, le_refl 0, hpos, ⟨fun _ => hconn, fun h1 => ?_⟩, hmax, fun _ => htime⟩, ?_⟩
  · have h1' : s.tp.tState = .established := h1
    rw [h1'] at hst
    exact absurd hst (by decide)
  · exact timed_of_early (lt_of_lt_of_le hst (by decide))

theorem init_holds {o : Outcome Unit} (h : Init o) : Holds m 0 o := by
  have hnew : ∀ {s : Sys}, s.tp.tRttmin = 2 → s.tp.tRxtcur = 12 → s.w.route = none → TimeBase s := by
    intro s h1 h2 h3
    exact ⟨by rw [h1]; decide, by rw [h2]; decide, by rw [h3]; simp⟩
  cases h with
  | active rfc1323 =>
    obtain ⟨snd, rcv, he, hcc, hmb⟩ := soreserve_getD {} 8192 8192
    unfold socreate
    rw [he]
    exact idle_holds rfl ⟨hcc, hmb⟩ ⟨rfl, rfl, rfl⟩ (show TcpState.closed.toNat < _ by decide) rfl
      (by simp) (show 512 < 65536 by decide) (hnew rfl rfl rfl)
  | passive head rfc1323 =>
    unfold sonewconn
    simp only
    generalize hso : ({ head with
      soSnd := {}, soRcv := {}, soAcceptconn := false, ssNofdref := true, soQueue := .q0
      soError := none, soOobmark := 0 } : Socket) = so
    obtain ⟨snd, rcv, he, hcc, hmb⟩ := soreserve_getD so head.soSnd.sbHiwat head.soRcv.sbHiwat
    rw [he]
    obtain ⟨snd', rcv', he', hcc', hmb'⟩ :=
      soreserve_getD { so with soSnd := snd, soRcv := rcv } 8192 8192
    rw [he']
    subst hso
    split
    · exact idle_holds rfl ⟨hcc'.trans hcc, hmb'.trans hmb⟩ ⟨rfl, rfl, rfl⟩
        (show TcpState.listen.toNat < _ by decide) rfl (fun _ => ⟨rfl, by simp⟩)
        (show 512 < 65536 by decide) (hnew rfl rfl rfl)
    · exact idle_holds rfl ⟨hcc, hmb⟩ ⟨rfl, rfl, rfl⟩
        (show TcpState.listen.toNat < _ by decide) rfl (fun _ => ⟨rfl, by simp⟩)
        (show 512 < 65536 by decide) (hnew rfl rfl rfl)

/-- **A run.** -/
theorem Reachable.holds (htl : m.timer → m.late) {o : Outcome Unit}
    (h : Reachable (SendCond m) o) : Holds m 0 o :=
  Reachable.invariant (fun _ => init_holds) (fun _ _ _ => step_holds htl) h

end Anp
