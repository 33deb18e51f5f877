import Anp.Tcp.Acts
import Anp.Tcp.Stream

/-!
# OutputLoop — the loop of `tcp_output` ends

A pass that was cut to a segment's size sets `sendalot` and goes back to `again`. What is left to
send, `backlog`, gets smaller with every such pass, as long as the pass sends some of it and moves
`snd_nxt` past it. `stuck` describes the passes that ask for another one and do not: nothing was
copied (`t_maxseg` is the length of the options, or zero, or `m_copy` found no mbuf), `snd_nxt`
went back to `iss` for a SYN, or stays where it is for a window probe.
-/

namespace Anp

open Cyclic Machine List

variable {idle : Bool} {env : OutEnv} {so : Socket} {s s' : Sys} {tp : Tcpcb}

/-! ## What is left to send -/

/-- The send window as `tcp_output` uses it: one byte when it is forced into a closed window. -/
def sendWin (tp : Tcpcb) : Nat :=
  if tp.tForce ∧ min tp.sndWnd tp.sndCwnd = 0 then 1 else min tp.sndWnd tp.sndCwnd

/-- The data in the buffer and the window that `snd_nxt` has not passed. -/
def backlog (tp : Tcpcb) (cc : Nat) : Int :=
  int32 ((min cc (sendWin tp) : Nat) - gap tp.sndNxt tp.sndUna)

theorem outForce_sendWin (cc : Nat) (tp : Tcpcb) : (outForce cc (outStart tp)).win = sendWin tp := by
  unfold outForce sendWin outStart
  simp only
  by_cases hf : tp.tForce = true
  · by_cases hw : min tp.sndWnd tp.sndCwnd = 0
    · rw [if_pos hf, if_pos hw, if_pos ⟨hf, hw⟩]
    · rw [if_pos hf, if_neg hw, if_neg fun h => hw h.2]
  · rw [if_neg hf, if_neg fun h => hf h.1]

/-- A pass takes what the backlog and `t_maxseg` allow; `sendalot` says that this was not all. -/
theorem outDecide_backlog (tp : Tcpcb) (so : Socket) :
    (outDecide tp so).off = gap tp.sndNxt tp.sndUna ∧
      (outDecide tp so).len = min (max 0 (backlog tp so.soSnd.sbCc)) tp.tMaxseg ∧
      ((outDecide tp so).sendalot = true ↔ (tp.tMaxseg : Int) < backlog tp so.soSnd.sbCc) ∧
      (0 < backlog tp so.soSnd.sbCc → (outDecide tp so).tp.sndNxt = tp.sndNxt) := by
  set v := outForce so.soSnd.sbCc (outStart tp) with hv
  have hoff : v.off = gap tp.sndNxt tp.sndUna := outForce_off _ _
  have hlen : int32 ((min so.soSnd.sbCc v.win : Nat) - v.off) = backlog tp so.soSnd.sbCc := by
    rw [hv, outForce_sendWin, ← hv, hoff]
    rfl
  have hforce : v.tp.sndNxt = tp.sndNxt ∧ v.tp.tMaxseg = tp.tMaxseg ∧ v.sendalot = false := by
    rw [hv]
    unfold outForce
    split
    · split <;> exact ⟨rfl, rfl, rfl⟩
    · exact ⟨rfl, rfl, rfl⟩
  have hlast : ∀ u : OutVars, (outFin so.soSnd.sbCc u).off = u.off ∧
      (outFin so.soSnd.sbCc u).len = u.len ∧ (outFin so.soSnd.sbCc u).sendalot = u.sendalot ∧
      (outFin so.soSnd.sbCc u).tp = u.tp := by
    intro u
    unfold outFin
    split <;> exact ⟨rfl, rfl, rfl, rfl⟩
  have hdec : outDecide tp so = outFin so.soSnd.sbCc (outCap (outLen so.soSnd.sbCc v)) := rfl
  obtain ⟨h1, h2, h3, h4⟩ := hlast (outCap (outLen so.soSnd.sbCc v))
  rw [hdec, h1, h2, h3, h4]
  unfold outLen
  simp only [hlen]
  by_cases hneg : backlog tp so.soSnd.sbCc < 0
  · -- nothing is left: the cap does not cut
    rw [if_pos hneg]
    split
    all_goals
      unfold outCap
      simp only [hforce.2.1]
      rw [if_neg (by omega)]
      exact ⟨hoff, by simp only; omega, by simp only [hforce.2.2, Bool.false_eq_true, false_iff]; omega,
        fun h => by omega⟩
  · rw [if_neg hneg]
    unfold outCap
    simp only [hforce.2.1]
    split
    · next hcut => exact ⟨hoff, by simp only; omega, iff_of_true rfl hcut, fun _ => hforce.1⟩
    · next hcut =>
      refine ⟨hoff, by simp only; omega, ?_, fun _ => hforce.1⟩
      rw [hforce.2.2]
      exact iff_of_false Bool.false_ne_true hcut

theorem outDecide_probe (hf : tp.tForce = true) (hp : (outDecide tp so).tp.persist ≠ 0) :
    min tp.sndWnd tp.sndCwnd = 0 ∧ tp.persist ≠ 0 := by
  have hkeep : (outDecide tp so).tp.persist =
      (outForce so.soSnd.sbCc (outStart tp)).tp.persist := by
    unfold outDecide outFin outCap outLen
    simp only
    split <;> split <;> split <;> (try split) <;> rfl
  rw [hkeep] at hp
  unfold outForce at hp
  rw [if_pos (show (outStart tp).tp.tForce = true from hf)] at hp
  by_cases hw : (outStart tp).win = 0
  · rw [if_pos hw] at hp
    exact ⟨hw, hp⟩
  · rw [if_neg hw] at hp
    exact absurd rfl hp

theorem backlog_adv {tp' : Tcpcb} {cc : Nat} {k : Int} (hwin : sendWin tp' = sendWin tp)
    (huna : tp'.sndUna = tp.sndUna) (hnxt : tp'.sndNxt = adv tp.sndNxt k) (hk0 : 0 ≤ k)
    (hk : k ≤ backlog tp cc + 1) : backlog tp' cc = backlog tp cc - k := by
  have hbound : -2147483648 ≤ backlog tp cc ∧ backlog tp cc < 2147483648 := by
    unfold backlog int32
    have h1 := @Int.bmod_lt ((min cc (sendWin tp) : Nat) - gap tp.sndNxt tp.sndUna) 4294967296
      (by decide)
    have h2 := @Int.le_bmod ((min cc (sendWin tp) : Nat) - gap tp.sndNxt tp.sndUna) 4294967296
      (by decide)
    omega
  have hgap : gap tp'.sndNxt tp.sndUna = (gap tp.sndNxt tp.sndUna + k).bmod 4294967296 := by
    have h := gap_adv_adv_bmod tp.sndUna (gap tp.sndNxt tp.sndUna + k) 0
    rw [adv_zero, ← adv_adv, adv_gap] at h
    rw [hnxt, h]
    simp
  have hcong : backlog tp' cc = (backlog tp cc - k).bmod 4294967296 := by
    show int32 ((min cc (sendWin tp') : Nat) - gap tp'.sndNxt tp'.sndUna) =
      (int32 ((min cc (sendWin tp) : Nat) - gap tp.sndNxt tp.sndUna) - k).bmod 4294967296
    rw [hwin, huna, hgap]
    unfold int32
    rw [Int.sub_bmod_bmod, Int.bmod_sub_bmod]
    congr 1
    omega
  rw [hcong]
  exact Int.bmod_eq_of_le_mul_two (by omega) (by omega)

/-! ## A pass that asks for another one -/

/-- A connection with its route, and nothing else of the world. -/
def bare (tp : Tcpcb) (so : Socket) (rt : Option Route) : Sys :=
  { tp := tp, so := so, w := { route := rt } }

/-- The length of a pass's options, and the data it then has room for: the difference of
`t_maxseg` and the options is unsigned. `none` is the division by zero of `tcp_mss`. -/
def segRoom (rt : Option Route) (p : Pass) : Option (Nat × Nat) :=
  let v := outDecide p.tp p.so
  (outOptions (bare v.tp p.so rt) v.flags).map fun r =>
    (r.1, min p.tp.tMaxseg (u32 ((r.2.tp.tMaxseg : Int) - r.1)))

/-- A pass sends while more is left than it has room for, and will not make it less: it is a SYN,
which goes back to `iss`, or a window probe, or nothing is copied, for want of room or of an mbuf.
-/
def stuck (rt : Option Route) (p : Pass) : Bool :=
  outWants p.so p.idle (outDecide p.tp p.so) && p.env.mgethdr && p.env.ipError.isNone &&
    match segRoom rt p with
    | some (optlen, room) =>
      decide ((room : Int) < backlog p.tp p.so.soSnd.sbCc) && ((tcpOutflags p.tp.tState).syn ||
          (p.tp.tForce && min p.tp.sndWnd p.tp.sndCwnd == 0 && p.tp.persist != 0) ||
          outCopy p.so p.env (tcpiphdrLen + optlen) (gap p.tp.sndNxt p.tp.sndUna) room == .data [])
    | none => false

theorem outOptions_bare (s : Sys) (flags : Flags) :
    outOptions s flags = (outOptions (bare s.tp s.so s.w.route) flags).map fun r =>
      (r.1, { r.2 with w := s.w, log := s.log }) := by
  have hmss : ∀ s : Sys, tcpMss s 0 = (tcpMss (bare s.tp s.so s.w.route) 0).map fun r =>
      (r.1, { r.2 with w := s.w, log := s.log }) := by
    intro s
    unfold tcpMss bare
    cases s.w.route with
    | none => rfl
    | some rt =>
      simp only [Option.map_map]
      congr 1
  unfold outOptions
  simp only
  split
  · rw [hmss]
    simp only [Option.map_map]
    rfl
  · rfl

theorem outError_ne_again (s s' : Sys) (e : Errno) : outError s e ≠ .ok .again s' := by
  unfold outError
  split
  · simp
  · split <;> simp

/-- The flags of the segment of a pass. -/
def passFlags (v : OutVars) (len : Int) (cc : Nat) (data : List Byte) : Flags :=
  { v.flags with push := len ≠ 0 && decide (u32 (v.off + data.length) = cc) }

theorem outPass_again_iff :
    outPass s idle env = .ok .again s' ↔
      (outWants s.so idle (outDecide s.tp s.so) = true ∧ env.mgethdr = true ∧ env.ipError = none) ∧
        ∃ optlen s1 data, outOptions { s with tp := (outDecide s.tp s.so).tp }
            (outDecide s.tp s.so).flags = some (optlen, s1) ∧
          let v := outDecide s.tp s.so
          let c := outClamp s1.tp.tMaxseg optlen v.len v.sendalot
          let win := outWin (sbspace s.so.soRcv) s1.tp s1.so
          let s2 := outEmit s1 win (passFlags v c.1 s1.so.soSnd.sbCc data) data
          c.2 = true ∧ outCopy s1.so env (tcpiphdrLen + optlen) v.off c.1 = .data data ∧
          s1.tp.tTemplate = true ∧
          s' = { s2 with tp := outAcked s2.tp win } := by
  constructor
  · intro h
    unfold outPass at h
    simp only at h
    split at h
    · next hwants =>
      unfold outSend at h
      split at h
      · cases h
      · next optlen s1 hopt =>
        simp only at h
        split at h
        · exact absurd h (outError_ne_again _ _ _)
        · next hget =>
          split at h
          · cases h
          · cases h
          · next data hdata =>
            split at h
            · cases h
            · next htmp =>
              split at h
              · exact absurd h (outError_ne_again _ _ _)
              · next hip =>
                obtain ⟨hagain, hs'⟩ := Outcome.ok.inj h
                refine ⟨⟨hwants, by simpa using hget, hip⟩, optlen, s1, data, hopt, ?_, hdata,
                  by simpa using htmp, hs'.symm⟩
                by_contra hno
                rw [if_neg hno] at hagain
                cases hagain
    · generalize outQuiet _ = o at h
      cases o with
      | ok e s1 => cases h
      | stop why s1 => cases h
  · rintro ⟨⟨hwants, hget, hip⟩, optlen, s1, data, hopt, hagain, hdata, htmp, rfl⟩
    unfold outPass
    simp only
    rw [if_pos hwants]
    unfold outSend
    simp only [hopt, hget, hdata, htmp, hip, hagain, if_true, Bool.not_true, Bool.false_eq_true,
      if_false]
    rfl

/-- The world and the log do not decide whether a pass goes back to `again`, nor what it makes of
the connection. -/
theorem outPass_again_bare (h : outPass (bare s.tp s.so s.w.route) idle env = .ok .again s') :
    ∃ log, outPass s idle env = .ok .again ⟨s'.tp, s'.so, s.w, log⟩ := by
  obtain ⟨hsends, optlen, s1, data, hopt, hagain, hdata, htmp, rfl⟩ := outPass_again_iff.mp h
  have hopt' : outOptions { s with tp := (outDecide s.tp s.so).tp } (outDecide s.tp s.so).flags =
      some (optlen, { s1 with w := s.w, log := s.log }) := by
    rw [outOptions_bare]
    exact congrArg (Option.map _) hopt
  exact ⟨_, outPass_again_iff.mpr ⟨hsends, optlen, _, data, hopt', hagain, hdata, htmp, rfl⟩⟩

/-- What is left to send is counted from fields that a segment on its way does not change. -/
theorem outEmit_same (s : Sys) (win : Int) (flags : Flags) (data : List Byte) :
    (outEmit s win flags data).tp.sndUna = s.tp.sndUna ∧
      sendWin (outEmit s win flags data).tp = sendWin s.tp ∧
      (outEmit s win flags data).tp.tMaxseg = s.tp.tMaxseg ∧ (outEmit s win flags data).so = s.so ∧
      (outEmit s win flags data).w = s.w ∧
      ∃ g, (outEmit s win flags data).log.sent = g :: s.log.sent ∧ g.seg.data = data := by
  obtain ⟨a, b, c, d, e, f, g, h, up, x, he, hx⟩ := outEmit_eq s win flags data
  rw [he]
  exact ⟨rfl, rfl, rfl, rfl, rfl, x, rfl, hx⟩

/-- A segment without a SYN, outside the persist state, takes `snd_nxt` over its data and at most
one place more. -/
theorem outEmit_sndNxt {win : Int} {flags : Flags} {data : List Byte} (hsyn : flags.syn = false)
    (hf : ¬(s.tp.tForce = true ∧ s.tp.persist ≠ 0)) :
    ∃ k : Int, data.length ≤ k ∧ k ≤ data.length + 1 ∧
      (outEmit s win flags data).tp.sndNxt = adv s.tp.sndNxt k := by
  have hres : ∃ e : Int, (e = 0 ∨ (e = 1 ∧ flags.fin = true)) ∧
      outResendFin s.tp flags = { s.tp with sndNxt := adv s.tp.sndNxt (-e) } := by
    unfold outResendFin
    split
    · next h =>
      simp only [Bool.and_eq_true] at h
      refine ⟨1, .inr ⟨rfl, h.1.1⟩, ?_⟩
      have := adv_sub_one s.tp.sndNxt 0
      rw [adv_zero] at this
      rw [this]
      rfl
    · exact ⟨0, .inl rfl, by simp⟩
  obtain ⟨e, he, hr⟩ := hres
  obtain ⟨up, hup⟩ := outPullUp_eq { s.tp with sndNxt := adv s.tp.sndNxt (-e) }
  have hcond : (!s.tp.tForce || s.tp.persist == 0) = true := by
    by_contra hc
    exact hf (by simpa using hc)
  obtain ⟨c, d, g, f, p, x, ha, -⟩ := @outAdvance_transmit { s.tp with
    sndNxt := adv s.tp.sndNxt (-e), sndUp := up } flags data.length hcond
  refine ⟨-e + segUnits flags data.length, ?_, ?_, ?_⟩
  · unfold segUnits
    rcases he with rfl | ⟨rfl, hfin⟩
    · split <;> split <;> omega
    · rw [hfin, if_pos rfl]
      split <;> omega
  · unfold segUnits
    rw [hsyn]
    rcases he with rfl | ⟨rfl, hfin⟩
    · rw [if_neg Bool.false_ne_true]
      split <;> omega
    · rw [hfin, if_neg Bool.false_ne_true, if_pos rfl]
      omega
  · unfold outEmit
    simp only [hr, hup, ha]
    exact segEnd_adv flags data.length

/-- A pass goes on exactly when more is left than it has room for, and it copies as much as that. -/
theorem outClamp_room (maxseg optlen : Nat) (hmax : tp.tMaxseg < 65536)
    (h : (outClamp maxseg optlen (outDecide tp so).len (outDecide tp so).sendalot).2 = true) :
    let room := min tp.tMaxseg (u32 ((maxseg : Int) - optlen))
    (room : Int) < backlog tp so.soSnd.sbCc ∧
      (outClamp maxseg optlen (outDecide tp so).len (outDecide tp so).sendalot).1 = room := by
  obtain ⟨-, hlen, hsend, -⟩ := outDecide_backlog tp so
  have hu : u32 (outDecide tp so).len = (outDecide tp so).len.toNat :=
    u32_of_range (by omega) (by omega)
  unfold outClamp at h ⊢
  simp only [hu] at h ⊢
  split at h
  · next hcut =>
    rw [if_pos hcut]
    refine ⟨by omega, ?_⟩
    simp only
    rw [int32_of_range (by omega) (by omega)]
    omega
  · next hcut =>
    rw [if_neg hcut]
    have hmore := hsend.mp h
    exact ⟨by omega, by simp only; omega⟩

/-- The pass that starts at `p` and leaves `s'` has sent one segment, with data, and moved `snd_nxt`
forward past it. -/
def SendsNew (p : Pass) (s' : Sys) : Prop :=
  ∃ g, s'.log.sent.head? = some g ∧ g.seg.data ≠ [] ∧ 0 < gap s'.tp.sndNxt p.tp.sndNxt

/-- **A pass that is not stuck moves on.** It sends data, moves `snd_nxt` over it, and what is left
has become less. -/
theorem outPass_progress (hmax : s.tp.tMaxseg < 65536) (h : outPass s idle env = .ok .again s')
    (hs : stuck s.w.route ⟨s.tp, s.so, idle, env⟩ = false) :
    SendsNew ⟨s.tp, s.so, idle, env⟩ s' ∧
      backlog s'.tp s'.so.soSnd.sbCc < backlog s.tp s.so.soSnd.sbCc ∧
      0 < backlog s.tp s.so.soSnd.sbCc ∧ s'.tp.tMaxseg = s.tp.tMaxseg ∧ s'.w = s.w := by
  obtain ⟨⟨hwants, hget, hip⟩, optlen, s1, data, hopt, hagain, hdata, -, rfl⟩ :=
    outPass_again_iff.mp h
  obtain ⟨hmore, hc⟩ := outClamp_room s1.tp.tMaxseg optlen hmax hagain
  obtain ⟨hoff, -, -, hnxt⟩ := outDecide_backlog s.tp s.so
  obtain ⟨b, hflags, -⟩ := outDecide_flags s.tp s.so
  rw [hc, hoff] at hdata
  set room := min s.tp.tMaxseg (u32 ((s1.tp.tMaxseg : Int) - optlen)) with hroom
  set v := outDecide s.tp s.so with hv
  -- `stuck` says what this pass is not
  have hplan : segRoom s.w.route ⟨s.tp, s.so, idle, env⟩ = some (optlen, room) := by
    rw [outOptions_bare] at hopt
    obtain ⟨r, hr, he⟩ := Option.map_eq_some_iff.mp hopt
    cases he
    unfold segRoom
    simp only
    rw [← hv, hr, Option.map_some]
  unfold stuck at hs
  rw [← hv] at hs
  simp only [hwants, hget, hip, hplan, Option.isNone_none, Bool.true_and, Bool.and_eq_false_iff,
    Bool.or_eq_false_iff, decide_eq_false_iff_not] at hs
  obtain ⟨⟨hns, hnp⟩, hcopy⟩ := hs.resolve_left (absurd hmore)
  have hns' : v.flags.syn = false := by
    rw [hflags]
    exact hns
  have hforce : ¬(s.tp.tForce = true ∧ v.tp.persist ≠ 0) := by
    rintro ⟨hf, hp⟩
    obtain ⟨hw, hp0⟩ := outDecide_probe hf hp
    simp [hf, hw, hp0] at hnp
  rw [outOptions_of_not_syn hns'] at hopt
  obtain ⟨rfl, rfl⟩ := Prod.mk.inj (Option.some.inj hopt)
  have hne : data ≠ [] := by
    rintro rfl
    rw [show outCopy s.so env _ _ _ = .data [] from hdata] at hcopy
    simp at hcopy
  obtain ⟨-, hcpos, -, hd⟩ := (outCopy_data (by omega) (show (room : Int) < 1000000000 by omega)
    hdata).resolve_left hne
  have hdlen : data.length ≤ room := by
    rw [hd]
    exact length_take_le _ _
  have hdpos : 0 < data.length := length_pos_iff.mpr hne
  obtain ⟨r, pz, x, nx, htp⟩ := outDecide_tp s.tp s.so
  rw [← hv] at htp
  generalize hfl : passFlags v _ _ data = fl
  have hfls : fl.syn = false := by
    rw [← hfl]
    exact hns'
  set win := outWin (sbspace s.so.soRcv) v.tp s.so
  obtain ⟨k, hk1, hk2, hmove⟩ := @outEmit_sndNxt { s with tp := v.tp } win fl data hfls
    (by rw [htp] at hforce ⊢; exact hforce)
  obtain ⟨huna, hwin, hmx, hso, hw, g, hg, hgd⟩ := outEmit_same { s with tp := v.tp } win fl data
  generalize outEmit { s with tp := v.tp } win fl data = s2 at hmove huna hwin hmx hso hw hg
  have hnxt' : s2.tp.sndNxt = adv s.tp.sndNxt k := by
    rw [hmove]
    exact congrArg (fun q => adv q k) (hnxt (by omega))
  have hvwin : sendWin v.tp = sendWin s.tp := by
    rw [htp]
    rfl
  have hvuna : v.tp.sndUna = s.tp.sndUna := by rw [htp]
  have hk : k ≤ backlog s.tp s.so.soSnd.sbCc + 1 := by omega
  have hless : backlog (outAcked s2.tp win) s2.so.soSnd.sbCc =
      backlog s.tp s.so.soSnd.sbCc - k := by
    rw [hso]
    exact backlog_adv (hwin.trans hvwin) (huna.trans hvuna) hnxt' (by omega) hk
  refine ⟨⟨g, ?_, by rw [hgd]; exact hne, ?_⟩, ?_, by omega, ?_, hw⟩
  · show s2.log.sent.head? = some g
    rw [hg]
    rfl
  · show 0 < gap s2.tp.sndNxt s.tp.sndNxt
    have hgap : gap (adv s.tp.sndNxt k) (adv s.tp.sndNxt 0) = k - 0 := gap_adv (by omega) (by omega)
    rw [adv_zero] at hgap
    rw [hnxt', hgap]
    omega
  · simp only
    omega
  · show s2.tp.tMaxseg = s.tp.tMaxseg
    rw [hmx, htp]

/-! ## The loop -/

/-- While no pass is stuck, the loop ends with more answers than there is left to send, and all
its passes start with the same `t_maxseg`. -/
theorem outLoop_ends (idle : Bool) (outs : List OutEnv) (s : Sys) (hmax : s.tp.tMaxseg < 65536)
    (hpass : ∀ p ∈ (outLoop idle outs s).st.log.passes, stuck s.w.route p = false) :
    ((backlog s.tp s.so.soSnd.sbCc).toNat < outs.length →
        ∀ s', outLoop idle outs s ≠ .stop .hang s') ∧
      ∀ p ∈ (outLoop idle outs s).st.log.passes, p ∈ s.log.passes ∨ p.tp.tMaxseg < 65536 := by
  induction outs generalizing s with
  | nil => exact ⟨fun h => absurd h (by simp), fun p hp => .inl hp⟩
  | cons env outs ih =>
    -- the state in which the pass is made
    set s1 : Sys := { s with
      w := { s.w with outs := outs }
      log := { s.log with passes := ⟨s.tp, s.so, idle, env⟩ :: s.log.passes } } with hs1
    have hloop : outLoop idle (env :: outs) s = (outPass s1 idle env).bind _ := rfl
    rw [hloop] at hpass ⊢
    have hrec := passes_outPass s1 idle env
    have hone : ∀ p ∈ s1.log.passes, p ∈ s.log.passes ∨ p.tp.tMaxseg < 65536 := by
      intro p hmem
      rcases mem_cons.mp hmem with rfl | hold
      · exact .inr hmax
      · exact .inl hold
    cases hp : outPass s1 idle env with
    | stop why s2 =>
      rw [hp] at hrec
      refine ⟨fun _ s' h => ?_, fun p hmem => ?_⟩
      · obtain ⟨rfl, rfl⟩ := Outcome.stop.inj h
        rcases outPass_stop hp with hf | ⟨p, hpanic, -⟩
        · cases hf
        · cases hpanic
      · exact hone p (hrec ▸ hmem)
    | ok r s2 =>
      rw [hp] at hrec hpass
      cases r with
      | done e =>
        exact ⟨fun _ s' h => (by cases h), fun p hmem => hone p (hrec ▸ hmem)⟩
      | again =>
        -- this pass is on record at the end too, so it moved on
        have hfree : stuck s1.w.route ⟨s.tp, s.so, idle, env⟩ = false :=
          hpass _ ((outOnly_outLoop idle outs s2).passes.subset (hrec ▸ mem_cons_self))
        obtain ⟨-, hless, hpos, hmx, hw⟩ := outPass_progress (s := s1) hmax hp hfree
        have hroute : s2.w.route = s.w.route := by rw [hw]
        obtain ⟨hend, hall⟩ := ih s2 (hmx.trans_lt hmax) (hroute ▸ hpass)
        refine ⟨fun hlen => hend ?_, fun p hmem => ?_⟩
        · have hcons : (backlog s.tp s.so.soSnd.sbCc).toNat < outs.length + 1 := hlen
          have hl : backlog s2.tp s2.so.soSnd.sbCc < backlog s.tp s.so.soSnd.sbCc := hless
          have h0 : 0 < backlog s.tp s.so.soSnd.sbCc := hpos
          omega
        · rcases hall p hmem with hold | hnew
          · exact hone p (hrec ▸ hold)
          · exact .inr hnew

/-- The connection as the loop finds it: idle for a while, it starts slowly. -/
def restarted (tp : Tcpcb) : Tcpcb :=
  if tp.sndMax = tp.sndUna ∧ tp.tRxtcur ≤ tp.tIdle then { tp with sndCwnd := tp.tMaxseg } else tp

theorem tcpOutput_eq (s : Sys) :
    tcpOutput s = outLoop (s.tp.sndMax == s.tp.sndUna) s.w.outs { s with tp := restarted s.tp } := by
  unfold tcpOutput restarted
  simp only [Bool.and_eq_true, beq_iff_eq, decide_eq_true_eq]
  split <;> rfl

/-- **`tcp_output` terminates** if no pass of the call is stuck: within one pass more than there is
left to send, and every pass that goes back to `again` has sent something new. -/
theorem output_terminates (s : Sys) (w : World) (hmax : s.tp.tMaxseg < 65536)
    (hpass : ∀ p ∈ (tcpOutput (enter s w)).st.log.passes, stuck w.route p = false) :
    ((backlog (restarted s.tp) s.so.soSnd.sbCc).toNat < w.outs.length →
        ∀ s', tcpOutput (enter s w) ≠ .stop .hang s') ∧
      ∀ p ∈ (tcpOutput (enter s w)).st.log.passes, ∀ log s',
        outPass ⟨p.tp, p.so, w, log⟩ p.idle p.env = .ok .again s' → SendsNew p s' := by
  have hmax' : (restarted s.tp).tMaxseg < 65536 := by
    unfold restarted
    split <;> exact hmax
  rw [tcpOutput_eq] at hpass ⊢
  obtain ⟨hend, hall⟩ := outLoop_ends _ _ _ hmax' hpass
  refine ⟨hend, fun p hmem log s' h => ?_⟩
  have hp : p.tp.tMaxseg < 65536 := (hall p hmem).resolve_left (by simp [enter])
  exact (outPass_progress hp h (hpass p hmem)).1

/-- Data written while other data is outstanding waits, and is cut smaller before it goes. -/
def smallSegOps : List (Op × World) := [(.connect, calmWorld 3),
    (.input (bareSeg 500 101 { syn := true, ack := true } 5000 []), calmWorld 3),
    (.send { mData := List.replicate 20 0 } false, calmWorld 3),
    (.send { mData := List.replicate 20 1 } false, calmWorld 3),
    (.sockopt (.maxseg 8), calmWorld 3)]

theorem output_terminates_small :
    let s := (runOps (.ok () (socreate false)) smallSegOps).st
    (tcpOutput (enter s (calmWorld 21))).st.log.passes.length = 3 ∧
      (backlog (restarted s.tp) s.so.soSnd.sbCc).toNat < (calmWorld 21).outs.length ∧
      ∀ s', tcpOutput (enter s (calmWorld 21)) ≠ .stop .hang s' := by
  have hlen : (backlog (restarted (runOps (.ok () (socreate false)) smallSegOps).st.tp)
      (runOps (.ok () (socreate false)) smallSegOps).st.so.soSnd.sbCc).toNat <
      (calmWorld 21).outs.length := by
    decide +kernel
  exact ⟨by decide +kernel, hlen,
    (output_terminates _ (calmWorld 21) (by decide +kernel) (by decide +kernel)).1 hlen⟩

/-! ## A loop that does not end -/

theorem outLoop_repeats {rt : Option Route}
    (h : ∃ s', outPass (bare tp so rt) idle env = .ok .again s' ∧ s'.tp = tp ∧ s'.so = so) (n : Nat)
    (s : Sys) (htp : s.tp = tp) (hso : s.so = so) (hrt : s.w.route = rt) :
    ∃ s', outLoop idle (List.replicate n env) s = .stop .hang s' := by
  induction n generalizing s with
  | zero => exact ⟨s, rfl⟩
  | succ n ih =>
    obtain ⟨s1, h1, h1tp, h1so⟩ := h
    set s0 : Sys := { s with
      w := { s.w with outs := List.replicate n env }
      log := { s.log with passes := ⟨s.tp, s.so, idle, env⟩ :: s.log.passes } } with hs0
    have hbare : outPass (bare s0.tp s0.so s0.w.route) idle env = .ok .again s1 := by
      rw [← h1, ← htp, ← hso, ← hrt]
    obtain ⟨log, hpass⟩ := outPass_again_bare hbare
    obtain ⟨s', hs'⟩ := ih ⟨s1.tp, s1.so, s0.w, log⟩ h1tp h1so hrt
    refine ⟨s', ?_⟩
    rw [replicate_succ, outLoop, ← hs0, hpass]
    exact hs'

theorem step_send {m : Mbuf} {w : World} (hfd : s.so.ssNofdref = false)
    (hok : sosendOk s.so m.mLen false = true) :
    step s (.send m false) w = callOutput (appendSnd (enter s w) m) := by
  show (if s.so.ssNofdref then Outcome.ok () (enter s w) else
    if sosendOk s.so m.mLen false then tcpSend (enter s w) m else .ok () (enter s w)) = _
  rw [hfd, hok]
  rfl

/-- Timestamps are on, and the user has asked for segments of twelve bytes. -/
def twelve : Sys := (runOps (.ok () (socreate true)) [(.connect, calmWorld 3),
      (.input (bareSeg 500 101 { syn := true, ack := true } 5000 tstampOpt), calmWorld 3),
      (.sockopt (.maxseg 12), calmWorld 3)]).st

def twentyBytes : Mbuf := { mData := List.replicate 20 7 }

/-- The timestamp takes the twelve bytes: a write sends empty segments for ever. -/
theorem maxseg_twelve_hangs :
    Reachable (fun _ _ _ => True) (.ok () twelve) ∧
      ∀ n, ∃ s', step twelve (.send twentyBytes false) (calmWorld n) = .stop .hang s' := by
  refine ⟨?_, fun n => ?_⟩
  · have hrun := reachable_runOps (.active true) [(.connect, calmWorld 3),
        (.input (bareSeg 500 101 { syn := true, ack := true } 5000 tstampOpt), calmWorld 3),
        (.sockopt (.maxseg 12), calmWorld 3)]
    rw [show runOps (.ok () (socreate true)) _ = .ok () twelve by decide +kernel] at hrun
    exact hrun
  · set s1 := appendSnd (enter twelve (calmWorld n)) twentyBytes with hs1
    have hsend : step twelve (.send twentyBytes false) (calmWorld n) = callOutput s1 :=
      step_send (by decide +kernel) (by decide +kernel)
    -- one pass, from the buffer with the data
    have hfix : ∃ s', outPass (bare (restarted twelve.tp) (appendSnd twelve twentyBytes).so none)
        true {} = .ok .again s' ∧ s'.tp = restarted twelve.tp ∧
        s'.so = (appendSnd twelve twentyBytes).so :=
      ⟨(outPass (bare (restarted twelve.tp) (appendSnd twelve twentyBytes).so none) true {}).st,
        by decide +kernel⟩
    obtain ⟨s', hs'⟩ := outLoop_repeats hfix n { s1 with tp := restarted s1.tp } rfl rfl rfl
    refine ⟨s', ?_⟩
    have hidle : (s1.tp.sndMax == s1.tp.sndUna) = true := by
      show (twelve.tp.sndMax == twelve.tp.sndUna) = true
      decide +kernel
    rw [hsend, callOutput, tcpOutput_eq, hidle]
    show (outLoop true (List.replicate n {}) _).bind _ = _
    rw [hs']
    rfl

end Anp
