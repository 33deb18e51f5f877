import Anp.Tcp.History
import Anp.Tcp.OutputLoop

/-!
# WinEdge — the right edge of the announced window

Each segment announces the receive window up to an edge, `rcv_nxt + (ti_win << rcv_scale)`, and
`rcv_adv` remembers the highest one so that it is not taken back. But the header has the window
rounded down by the scale, and `rcv_adv` has it as it was. Sequence numbers say where an edge is
only up to 2^32, so the history counts from where `rcv_nxt` was when the peer's SYN had come.
-/

namespace Anp

open Cyclic Machine

/-! ## The edges -/

/-- The segment that is on its way, if `o` is what came of a pass. -/
def taken (env : OutEnv) (o : Outcome PassRes) : Option OutSeg :=
  if env.ipError.isSome then none else o.st.log.sent.head?.map fun g => g.seg

/-- The segment a pass hands to IP, when IP takes it. -/
def passSeg (rt : Option Route) (p : Pass) : Option OutSeg :=
  taken p.env (outPass (bare p.tp p.so rt) p.idle p.env)

/-- The window there is at the start of a pass, before the header rounds it. -/
def passWin (rt : Option Route) (p : Pass) : Int :=
  let v := outDecide p.tp p.so
  match outOptions (bare v.tp p.so rt) v.flags with
  | some (_, s) => outWin (sbspace p.so.soRcv) s.tp s.so
  | none => 0

/-- The edge a segment announces, when `rcv_nxt` is `q` and its place is `n`. -/
def segEdge (n : Int) (q : Seq) (scale : Nat) (g : OutSeg) : Int :=
  n + gap g.tiAck q + g.tiWin * 2 ^ scale

/-- The edges announced in some passes. -/
def passEdges (rt : Option Route) (n : Int) (q : Seq) (ps : List Pass) : List Int :=
  ps.filterMap fun p => (passSeg rt p).map (segEdge n q p.tp.rcvScale)

/-- The place of `rcv_nxt`, and the edges so far. -/
structure Edges where
  place : Int
  edges : List Int
  deriving DecidableEq, Repr

/-- The peer's SYN has not come yet, or there will be another one. -/
def restarts (s : Sys) (op : Op) (w : World) : Bool :=
  decide (s.tp.tState.toNat < 3) ||
    match op with
    | .connect => connects s w
    | _ => false

/-- The edges announced on the connection, the last one first. -/
def edgeHistory : History Edges where
  start := ⟨0, []⟩
  note s op w h :=
    let q := (step s op w).st.tp.rcvNxt
    let n := if restarts s op w then 0 else h.place + (q - s.tp.rcvNxt).toNat
    ⟨n, passEdges w.route n q (passesOf s op w) ++ if restarts s op w then [] else h.edges⟩

/-- The header can announce what the pass has to announce: the scale divides it, and `rcv_adv` is
within the limit and can follow. -/
def WinFair (rt : Option Route) (p : Pass) : Prop := (passSeg rt p).isSome = true →
    (2 ^ p.tp.rcvScale : Int) ∣ passWin rt p ∧
      gap p.tp.rcvAdv p.tp.rcvNxt ≤ tcpMaxwin * 2 ^ p.tp.rcvScale ∧
      passWin rt p - gap p.tp.rcvAdv p.tp.rcvNxt < 2147483648
deriving Decidable

/-- The scale divides the window, and `rcv_adv` is not out of reach. -/
def WinCond : Cond := fun s op w => ∀ p ∈ passesOf s op w, WinFair w.route p

instance WinCond.instDecidable (s : Sys) (op : Op) (w : World) : Decidable (WinCond s op w) := by
  unfold WinCond
  infer_instance

/-! ## One pass -/

/-- The window is at least what `rcv_adv` stands for, and at most the limit unless that is more. -/
theorem outWin_bounds (win : Int) (tp : Tcpcb) (so : Socket) :
    0 ≤ outWin win tp so ∧ gap tp.rcvAdv tp.rcvNxt ≤ outWin win tp so ∧
      (outWin win tp so ≤ tcpMaxwin * 2 ^ tp.rcvScale ∨
        outWin win tp so = gap tp.rcvAdv tp.rcvNxt) := by
  have hlim : (0 : Int) ≤ tcpMaxwin * 2 ^ tp.rcvScale := by positivity
  unfold outWin
  simp only
  generalize (tcpMaxwin * 2 ^ tp.rcvScale : Int) = lim at hlim ⊢
  generalize gap tp.rcvAdv tp.rcvNxt = g
  generalize hw : (if win < (u32 so.soRcv.sbHiwat / 4 : Nat) ∧ win < tp.tMaxseg then 0 else win) = x
  have hx : 0 ≤ x := by
    rw [← hw]
    split
    · exact Int.le_refl 0
    · next h =>
      by_contra hneg
      exact h ⟨by omega, by omega⟩
  split <;> split <;> omega

theorem outOptions_rcv {rt : Option Route} {tp : Tcpcb} {so : Socket} {optlen : Nat} {s1 : Sys}
    (h : outOptions (bare (outDecide tp so).tp so rt) (outDecide tp so).flags = some (optlen, s1)) :
    s1.tp.rcvAdv = tp.rcvAdv ∧ s1.tp.rcvNxt = tp.rcvNxt ∧ s1.tp.rcvScale = tp.rcvScale := by
  have hs := view_outOptions h
  obtain ⟨r, p, x, nx, hd⟩ := outDecide_tp tp so
  have hadv : s1.tp.rcvAdv = (outDecide tp so).tp.rcvAdv := hs.rcvAdv
  have hnxt : s1.tp.rcvNxt = (outDecide tp so).tp.rcvNxt := congrArg View.nxt hs.view
  have hscale : s1.tp.rcvScale = (outDecide tp so).tp.rcvScale := congrArg View.scale hs.view
  rw [hadv, hnxt, hscale, hd]
  exact ⟨rfl, rfl, rfl⟩

theorem taken_nil {env : OutEnv} {o : Outcome PassRes} (h : o.st.log.sent = []) :
    taken env o = none := by
  unfold taken
  rw [h]
  split <;> rfl

theorem sent_outError (s : Sys) (e : Errno) : (outError s e).st.log.sent = s.log.sent := by
  unfold outError
  split
  · rfl
  · split <;> rfl

/-- Building a segment: IP does not take it and `rcv_adv` stays; or the header has the window
rounded by the scale, and `rcv_adv` has it as it was. -/
theorem outSend_edge (s : Sys) (v : OutVars) (env : OutEnv) (hadv : v.tp.rcvAdv = s.tp.rcvAdv) :
    (taken env (outSend (bare s.tp s.so s.w.route) v env) = none ∧
        (outSend s v env).st.tp.rcvAdv = s.tp.rcvAdv) ∨
      ∃ g optlen s1, taken env (outSend (bare s.tp s.so s.w.route) v env) = some g ∧
        outOptions (bare v.tp s.so s.w.route) v.flags = some (optlen, s1) ∧
        let win := outWin (sbspace s.so.soRcv) s1.tp s1.so
        g.tiAck = s1.tp.rcvNxt ∧ g.tiWin = u16 (win / 2 ^ s1.tp.rcvScale) ∧
          (outSend s v env).st.tp.rcvAdv = (outAcked s1.tp win).rcvAdv := by
  have hopt' : outOptions { s with tp := v.tp } v.flags = _ := outOptions_bare _ _
  change _ = (outOptions (bare v.tp s.so s.w.route) v.flags).map _ at hopt'
  have hbare : outOptions { bare s.tp s.so s.w.route with tp := v.tp } v.flags =
    outOptions (bare v.tp s.so s.w.route) v.flags := rfl
  unfold outSend
  rw [hopt', hbare]
  cases hopt : outOptions (bare v.tp s.so s.w.route) v.flags with
  | none => exact .inl ⟨taken_nil rfl, rfl⟩
  | some r =>
    obtain ⟨optlen, s1⟩ := r
    have hadv1 : s1.tp.rcvAdv = s.tp.rcvAdv := (view_outOptions hopt).rcvAdv.trans hadv
    have hlog1 : s1.log = {} := by
      have h := outOptions_bare (bare v.tp s.so s.w.route) v.flags
      change _ = (outOptions (bare v.tp s.so s.w.route) v.flags).map _ at h
      rw [hopt] at h
      exact congrArg (fun s => s.log) (Prod.mk.inj (Option.some.inj h)).2
    have hemit : ∀ (s2 : Sys) win fl data, s2.tp = s1.tp →
        (outEmit s2 win fl data).tp.rcvAdv = s.tp.rcvAdv := by
      intro s2 win fl data h
      rw [(view_outEmit s2 win fl data).2, h, hadv1]
    simp only [Option.map_some]
    cases hget : env.mgethdr with
    | false =>
      simp only [Bool.not_false, if_true]
      refine .inl ⟨taken_nil ?_, ?_⟩
      · exact (sent_outError s1 _).trans (congrArg Log.sent hlog1)
      · exact (view_outError { s1 with w := s.w, log := s.log } _).rcvAdv.trans hadv1
    | true =>
      simp only [Bool.not_true, Bool.false_eq_true, if_false]
      cases hcopy : outCopy s1.so env (tcpiphdrLen + optlen) v.off
          (outClamp s1.tp.tMaxseg optlen v.len v.sendalot).1 with
      | panic p => exact .inl ⟨taken_nil (congrArg Log.sent hlog1), hadv1⟩
      | fault => exact .inl ⟨taken_nil (congrArg Log.sent hlog1), hadv1⟩
      | data data =>
        simp only
        cases htem : s1.tp.tTemplate with
        | false => exact .inl ⟨taken_nil (congrArg Log.sent hlog1), hadv1⟩
        | true =>
          simp only [Bool.not_true, Bool.false_eq_true, if_false]
          cases hip : env.ipError with
          | some e =>
            refine .inl ⟨?_, ?_⟩
            · unfold taken
              rw [hip]
              rfl
            · refine (view_outError _ e).rcvAdv.trans (hemit _ _ _ _ rfl)
          | none =>
            set fl : Flags := { v.flags with
              push := decide ((outClamp s1.tp.tMaxseg optlen v.len v.sendalot).1 ≠ 0) &&
                decide (u32 (v.off + data.length) = s1.so.soSnd.sbCc) }
            set win := outWin (sbspace s.so.soRcv) s1.tp s1.so with hwin
            refine .inr ⟨outHeader (outResendFin s1.tp fl) win fl data, optlen, s1, ?_, rfl, ?_⟩
            · unfold taken
              rw [hip]
              rfl
            · obtain ⟨nx, hfin⟩ := outResendFin_eq s1.tp fl
              have hv2 := view_outEmit { s1 with w := s.w, log := s.log } win fl data
              have hnxt : (outEmit { s1 with w := s.w, log := s.log } win fl data).tp.rcvNxt =
                s1.tp.rcvNxt := congrArg View.nxt hv2.1
              refine ⟨?_, ?_, ?_⟩
              · show (outResendFin s1.tp fl).rcvNxt = _
                rw [hfin]
              · show u16 (win / 2 ^ (outResendFin s1.tp fl).rcvScale) = _
                rw [hfin]
              · show (outAcked (outEmit { s1 with w := s.w, log := s.log } win fl data).tp
                  win).rcvAdv = _
                unfold outAcked
                simp only
                rw [hnxt, hv2.2]

theorem outPass_edge (s : Sys) (idle : Bool) (env : OutEnv) :
    let p : Pass := ⟨s.tp, s.so, idle, env⟩
    let win := passWin s.w.route p
    (passSeg s.w.route p = none ∧ (outPass s idle env).st.tp.rcvAdv = s.tp.rcvAdv) ∨
      ∃ g, passSeg s.w.route p = some g ∧ g.tiAck = s.tp.rcvNxt ∧
        g.tiWin = u16 (win / 2 ^ s.tp.rcvScale) ∧
        (outPass s idle env).st.tp.rcvAdv = (outAcked s.tp win).rcvAdv ∧
        0 ≤ win ∧ gap s.tp.rcvAdv s.tp.rcvNxt ≤ win ∧
        (win ≤ tcpMaxwin * 2 ^ s.tp.rcvScale ∨ win = gap s.tp.rcvAdv s.tp.rcvNxt) := by
  have hvadv : (outDecide s.tp s.so).tp.rcvAdv = s.tp.rcvAdv := by
    obtain ⟨r, p, x, nx, hd⟩ := outDecide_tp s.tp s.so
    rw [hd]
  have hseg : passSeg s.w.route ⟨s.tp, s.so, idle, env⟩ =
    taken env (outPass (bare s.tp s.so s.w.route) idle env) := rfl
  intro p win
  rw [hseg]
  cases hw : outWants s.so idle (outDecide s.tp s.so) with
  | false =>
    have hq : ∀ s1 : Sys, s1.so = s.so → s1.tp = s.tp → outPass s1 idle env =
        (outQuiet { s1 with tp := (outDecide s.tp s.so).tp }).bind fun e s => .ok (.done e) s := by
      intro s1 h1 h2
      unfold outPass
      simp only [h1, h2, hw, Bool.false_eq_true, if_false]
    have hst : ∀ o : Outcome (Option Errno),
        (o.bind fun e s => .ok (PassRes.done e) s).st = o.st := by
      intro o
      cases o <;> rfl
    refine .inl ⟨taken_nil ?_, ?_⟩
    · rw [hq (bare s.tp s.so s.w.route) rfl rfl, hst, (view_outQuiet _).2.1]
      rfl
    · rw [hq s rfl rfl, hst, (view_outQuiet _).2.2]
      exact hvadv
  | true =>
    have hsend : ∀ s1 : Sys, s1.so = s.so → s1.tp = s.tp →
        outPass s1 idle env = outSend s1 (outDecide s.tp s.so) env := by
      intro s1 h1 h2
      unfold outPass
      simp only [h1, h2, hw, if_true]
    rw [hsend (bare s.tp s.so s.w.route) rfl rfl, hsend s rfl rfl]
    rcases outSend_edge s (outDecide s.tp s.so) env hvadv with h | ⟨g, optlen, s1, hg, hopt, hrest⟩
    · exact .inl h
    · obtain ⟨hack, htiwin, hadv⟩ := hrest
      obtain ⟨h1, h2, h3⟩ := outOptions_rcv hopt
      have hwin : win = outWin (sbspace s.so.soRcv) s1.tp s1.so := by
        show passWin _ _ = _
        unfold passWin
        simp only [p, hopt]
      have hb := outWin_bounds (sbspace s.so.soRcv) s1.tp s1.so
      rw [← hwin, h1, h2, h3] at hb
      rw [← hwin] at htiwin hadv
      refine .inr ⟨g, hg, hack.trans h2, h3 ▸ htiwin, ?_, hb⟩
      rw [hadv]
      unfold outAcked
      simp only
      rw [h1, h2]

/-! ## One operation -/

/-- While `rcv_adv` stays where it is, what is left of the window shrinks by no more than `rcv_nxt`
moves. -/
theorem room_le (a q q' : Seq) : max 0 (gap a q) ≤ (q' - q).toNat + max 0 (gap a q') := by
  have hq' : q' = adv q (q' - q).toNat := by
    rw [← add_ofNat_eq_adv, BitVec.ofNat_toNat, BitVec.setWidth_eq, add_sub_cancel]
  generalize (q' - q).toNat = x at hq' ⊢
  obtain ⟨-, hr⟩ := gap_range a q
  by_cases hx : (x : Int) < gap a q
  · have h : gap (adv q (gap a q)) (adv q x) = gap a q - x := gap_adv (by omega) (by omega)
    rw [adv_gap, ← hq'] at h
    omega
  · omega

/-- A pass that meets the condition announces at least what `rcv_adv` stands for, and `rcv_adv`
comes to stand for at least that. -/
theorem edge_of_fair {s : Sys} {idle : Bool} {env : OutEnv} {g : OutSeg} (n : Int)
    (hk : s.tp.rcvScale ≤ 14) (hfair : WinFair s.w.route ⟨s.tp, s.so, idle, env⟩)
    (hseg : passSeg s.w.route ⟨s.tp, s.so, idle, env⟩ = some g) :
    n + max 0 (gap s.tp.rcvAdv s.tp.rcvNxt) ≤ segEdge n s.tp.rcvNxt s.tp.rcvScale g ∧
      segEdge n s.tp.rcvNxt s.tp.rcvScale g ≤
        n + max 0 (gap (outPass s idle env).st.tp.rcvAdv s.tp.rcvNxt) := by
  rcases outPass_edge s idle env with ⟨hno, -⟩ | ⟨g', hg', hack, htiwin, hadv, h0, hge, hle⟩
  · rw [hno] at hseg
    cases hseg
  · obtain rfl : g' = g := Option.some.inj (hg'.symm.trans hseg)
    obtain ⟨⟨y, hy⟩, hlim, hreach⟩ := hfair (by rw [hseg]; rfl)
    generalize passWin s.w.route ⟨s.tp, s.so, idle, env⟩ = win at *
    set k := s.tp.rcvScale
    have hpow : (0 : Int) < 2 ^ k := by positivity
    have hcap : (2 : Int) ^ k ≤ 16384 := by
      calc (2 : Int) ^ k ≤ 2 ^ 14 := pow_le_pow_right₀ (by norm_num) hk
        _ = 16384 := by norm_num
    have hwin : win ≤ 65535 * 2 ^ k := by
      rcases hle with h | h
      · exact h
      · rw [h]
        exact hlim
    have hy0 : 0 ≤ y := (mul_nonneg_iff_of_pos_left hpow).mp (hy ▸ h0)
    have hy1 : y ≤ 65535 := by
      rw [hy, mul_comm 65535] at hwin
      exact le_of_mul_le_mul_left hwin hpow
    have hti : (g'.tiWin : Int) * 2 ^ k = win := by
      have hdiv : win / 2 ^ k = y := by
        rw [hy]
        exact Int.mul_ediv_cancel_left y (by omega)
      rw [htiwin, hdiv]
      unfold u16
      rw [Int.emod_eq_of_lt hy0 (by omega), Int.toNat_of_nonneg hy0, hy, mul_comm]
    have hedge : segEdge n s.tp.rcvNxt k g' = n + win := by
      unfold segEdge
      rw [hack, gap_self, hti]
      omega
    rw [hedge]
    refine ⟨by omega, ?_⟩
    have hmove : gap (adv s.tp.rcvNxt win) s.tp.rcvNxt = win := by
      have h := @gap_adv s.tp.rcvNxt win 0 (by omega) (by omega)
      rw [adv_zero] at h
      omega
    rw [hadv]
    unfold outAcked
    simp only
    split
    · rw [hmove]
      omega
    · next hnot =>
      -- then there is nothing to announce, or `rcv_adv` stands for it already
      by_cases hw0 : 0 < win
      · have hgap : gap (adv s.tp.rcvNxt win) s.tp.rcvAdv = win - gap s.tp.rcvAdv s.tp.rcvNxt := by
          obtain ⟨hlo, -⟩ := gap_range s.tp.rcvAdv s.tp.rcvNxt
          have h := @gap_adv s.tp.rcvNxt win (gap s.tp.rcvAdv s.tp.rcvNxt) (by omega) (by omega)
          rwa [adv_gap] at h
        have hle : ¬0 < gap (adv s.tp.rcvNxt win) s.tp.rcvAdv := by
          intro hpos
          exact hnot ⟨hw0, decide_eq_true hpos⟩
        omega
      · omega

/-- Later edges are not before earlier ones, and none is past what `rcv_adv` stands for. -/
structure EdgesOk (tp : Tcpcb) (n : Int) (l : List Int) : Prop where
  order : l.Pairwise fun later earlier => earlier ≤ later
  last : ∀ e ∈ l, e ≤ n + max 0 (gap tp.rcvAdv tp.rcvNxt)

section

variable (opens : Prop) (s : Sys) (rt : Option Route) (place : Seq → Int) (old : List Int)

/-- In the middle of an operation from `s` on: `place` tells the place of `rcv_nxt`, `old` are the
edges announced before. -/
structure Midway (s1 : Sys) : Prop where
  scale : s1.tp.rcvScale ≤ 14
  reqScale : s1.tp.requestRScale ≤ 14
  route : s1.w.route = rt
  rcvAdv : s1.log.passes = [] → old = [] ∨ s1.tp.rcvAdv = s.tp.rcvAdv
  edges : (∀ p ∈ s1.log.passes, WinFair rt p) → EdgesOk s1.tp (place s1.tp.rcvNxt)
      (passEdges rt (place s1.tp.rcvNxt) s1.tp.rcvNxt s1.log.passes ++ old)

variable {opens s rt place old}

theorem midway_pass {s1 : Sys} {idle : Bool} {env : OutEnv} {outs : List OutEnv}
    (h : Midway s rt place old s1) :
    Midway s rt place old (outPass (notePass s1 idle env outs) idle env).st := by
  set s0 := notePass s1 idle env outs with hs0
  have hv := passRel_view.outPass s0 idle env
  have hnxt : (outPass s0 idle env).st.tp.rcvNxt = s1.tp.rcvNxt := congrArg View.nxt hv
  have hpass : (outPass s0 idle env).st.log.passes = ⟨s1.tp, s1.so, idle, env⟩ :: s1.log.passes :=
    passes_outPass s0 idle env
  have hroute : (outPass s0 idle env).st.w.route = s1.w.route := congrArg View.route hv
  have hscale : (outPass s0 idle env).st.tp.rcvScale = s1.tp.rcvScale := congrArg View.scale hv
  have hreq : (outPass s0 idle env).st.tp.requestRScale = s1.tp.requestRScale :=
    congrArg View.reqScale hv
  refine ⟨?_, ?_, hroute.trans h.route, ?_, ?_⟩
  · exact hscale ▸ h.scale
  · exact hreq ▸ h.reqScale
  · intro hp
    rw [hpass] at hp
    cases hp
  · intro hfair
    rw [hpass] at hfair ⊢
    rw [hnxt]
    obtain ⟨ho, hl⟩ := h.edges fun p hp => hfair p (List.mem_cons_of_mem _ hp)
    have hfair1 := hfair _ List.mem_cons_self
    have hrt : s0.w.route = rt := h.route
    have hcons : passEdges rt (place s1.tp.rcvNxt) s1.tp.rcvNxt
        (⟨s1.tp, s1.so, idle, env⟩ :: s1.log.passes) =
        ((passSeg rt ⟨s1.tp, s1.so, idle, env⟩).map
          (segEdge (place s1.tp.rcvNxt) s1.tp.rcvNxt s1.tp.rcvScale)).toList ++
        passEdges rt (place s1.tp.rcvNxt) s1.tp.rcvNxt s1.log.passes := by
      unfold passEdges
      rw [List.filterMap_cons]
      cases passSeg rt ⟨s1.tp, s1.so, idle, env⟩ <;> rfl
    rw [hcons, List.append_assoc]
    cases hseg : passSeg rt ⟨s1.tp, s1.so, idle, env⟩ with
    | none =>
      refine ⟨ho, ?_⟩
      rcases outPass_edge s0 idle env with ⟨-, hadv⟩ | ⟨g, hg, -⟩
      · rw [hadv, hnxt]
        exact hl
      · have hg' : passSeg rt ⟨s1.tp, s1.so, idle, env⟩ = some g := hrt ▸ hg
        rw [hseg] at hg'
        cases hg'
    | some g =>
      obtain ⟨hlow, hhigh⟩ := @edge_of_fair s0 idle env g (place s1.tp.rcvNxt) h.scale
        (hrt.symm ▸ hfair1) (hrt.symm ▸ hseg)
      change place s1.tp.rcvNxt + max 0 (gap s1.tp.rcvAdv s1.tp.rcvNxt) ≤
        segEdge (place s1.tp.rcvNxt) s1.tp.rcvNxt s1.tp.rcvScale g at hlow
      change segEdge (place s1.tp.rcvNxt) s1.tp.rcvNxt s1.tp.rcvScale g ≤ _ at hhigh
      have hnew : ∀ e ∈ passEdges rt (place s1.tp.rcvNxt) s1.tp.rcvNxt s1.log.passes ++ old,
          e ≤ segEdge (place s1.tp.rcvNxt) s1.tp.rcvNxt s1.tp.rcvScale g :=
        fun e he => (hl e he).trans hlow
      refine ⟨List.pairwise_cons.mpr ⟨hnew, ho⟩, ?_⟩
      intro e he
      rw [hnxt]
      rcases List.mem_cons.mp he with rfl | he
      · exact hhigh
      · exact (hnew e he).trans hhigh

variable (hold : old.Pairwise fun later earlier => earlier ≤ later)
  (hroom : ∀ q, ∀ e ∈ old, e ≤ place q + max 0 (gap s.tp.rcvAdv q))
include hold hroom

theorem EdgesOk.first {s1 : Sys} (hadv : old = [] ∨ s1.tp.rcvAdv = s.tp.rcvAdv) :
    EdgesOk s1.tp (place s1.tp.rcvNxt) old := by
  refine ⟨hold, fun e he => ?_⟩
  rcases hadv with h | h
  · rw [h] at he
    cases he
  · rw [h]
    exact hroom _ e he

theorem midway_free {s1 s2 : Sys} (h : Midway s rt place old s1) (hf : Free s1 s2) :
    Midway s rt place old s2 := by
  have hfirst : s2.log.passes = [] → old = [] ∨ s2.tp.rcvAdv = s.tp.rcvAdv := by
    intro hp
    rw [hf.rcvAdv]
    exact h.rcvAdv (hf.passes.symm.trans hp)
  refine ⟨?_, ?_, hf.route.trans h.route, hfirst, ?_⟩
  · rcases hf.scale with hs | hs
    · exact hs ▸ h.scale
    · exact hs ▸ h.reqScale
  · exact hf.reqScale ▸ h.reqScale
  · intro hfair
    rcases hf.rcvNxt with hn | hp
    · rw [hf.passes] at hfair ⊢
      rw [hn]
      obtain ⟨ho, hl⟩ := h.edges hfair
      refine ⟨ho, ?_⟩
      rw [hf.rcvAdv, hn]
      exact hl
    · have hp2 : s2.log.passes = [] := hf.passes.trans hp
      rw [hp2]
      exact .first hold hroom (hfirst hp2)

theorem midway_act {s1 s2 : Sys} (hopens : opens → old = [])
    (h : Midway s rt place old s1) (ha : Act opens s1 s2) : Midway s rt place old s2 := by
  cases ha with
  | free hf => exact midway_free hold hroom h hf
  | fresh ho hf =>
    have hp : s2.log.passes = [] := hf.passes.trans hf.first
    refine ⟨hf.scale ▸ h.scale, hf.reqScale h.reqScale, hf.route.trans h.route,
      fun _ => .inl (hopens ho), fun _ => ?_⟩
    rw [hp]
    exact .first hold hroom (.inl (hopens ho))
  | pass idle env outs => exact midway_pass h

/-- **An operation.** -/
theorem midway_goes {o : Outcome Unit} (hopens : opens → old = [])
    (hp : s.log.passes = []) (hrt : s.w.route = rt) (hk : s.tp.rcvScale ≤ 14)
    (hr : s.tp.requestRScale ≤ 14) (hgo : Goes opens s o) : Midway s rt place old o.st := by
  have hstart : Midway s rt place old s := by
    refine ⟨hk, hr, hrt, fun _ => .inr rfl, fun _ => ?_⟩
    rw [hp]
    exact .first hold hroom (Or.inr rfl)
  exact hgo.acts.invariant (fun _ _ ha h => midway_act hold hroom hopens h ha) hstart

end

/-! ## Runs -/

structure EdgeInv (s : Sys) (h : Edges) : Prop where
  scale : s.tp.rcvScale ≤ 14
  reqScale : s.tp.requestRScale ≤ 14
  edges : EdgesOk s.tp h.place h.edges

theorem edgeInv_step {s : Sys} {op : Op} {w : World} {h : Edges} (hi : EdgeInv s h)
    (hC : WinCond s op w) : EdgeInv (step s op w).st (edgeHistory.note s op w h) := by
  show EdgeInv _ (⟨_, _⟩ : Edges)
  cases hre : restarts s op w with
  | true =>
    simp only [if_true]
    have hgo : Goes True (enter s w) (step s op w) := goes_stepOp op rfl fun _ => trivial
    have hm : Midway (enter s w) w.route (fun _ => 0) [] (step s op w).st :=
      midway_goes .nil (by simp) (fun _ => rfl) rfl rfl hi.scale hi.reqScale hgo
    exact ⟨hm.scale, hm.reqScale, hm.edges hC⟩
  | false =>
    simp only [Bool.false_eq_true, if_false]
    unfold restarts at hre
    simp only [Bool.or_eq_false_iff, decide_eq_false_iff_not] at hre
    obtain ⟨h3, hconn⟩ := hre
    set place : Seq → Int := fun q => h.place + (q - s.tp.rcvNxt).toNat
    have hroom : ∀ q, ∀ e ∈ h.edges, e ≤ place q + max 0 (gap (enter s w).tp.rcvAdv q) := by
      intro q e he
      have h1 := hi.edges.last e he
      have h2 := room_le s.tp.rcvAdv s.tp.rcvNxt q
      show e ≤ h.place + (q - s.tp.rcvNxt).toNat + max 0 (gap s.tp.rcvAdv q)
      omega
    have hgo : Goes False (enter s w) (step s op w) := by
      cases op with
      | connect =>
        rw [step_connect_refused hconn]
        exact .ok () (Acts.refl _)
      | input seg =>
        refine goes_stepOp _ rfl fun hopen => h3 ?_
        have hopen : s.tp.tState = .listen ∨ s.tp.tState = .synSent := hopen
        rcases hopen with h | h
        · rw [h]
          decide
        · rw [h]
          decide
      | _ => exact goes_stepOp _ rfl fun hopen => hopen
    have hm : Midway (enter s w) w.route place h.edges (step s op w).st :=
      midway_goes hi.edges.order hroom False.elim rfl rfl hi.scale hi.reqScale hgo
    exact ⟨hm.scale, hm.reqScale, hm.edges hC⟩

/-- **The window is not taken back.** In every run in which the scale divides the windows announced,
no edge is before an earlier one of the connection. -/
theorem rcv_edge_monotone {o : Outcome Unit} {h : Edges}
    (hr : edgeHistory.Reachable WinCond (o, h)) :
    h.edges.Pairwise fun later earlier => earlier ≤ later := by
  have hinv : EdgeInv o.st h := by
    refine History.Reachable.invariant (g := edgeHistory) (C := WinCond)
      (I := fun o h => EdgeInv o.st h) ?_ ?_ hr
    · intro o ho
      have hnil : ∀ tp, EdgesOk tp 0 [] := fun _ => ⟨.nil, by simp⟩
      cases ho with
      | active rfc1323 => exact ⟨Nat.zero_le _, Nat.zero_le _, hnil _⟩
      | passive head rfc1323 => exact ⟨Nat.zero_le _, scaleLoop_le _ _ (Nat.zero_le _), hnil _⟩
    · intro s op w h hi hC
      exact edgeInv_step hi hC
  exact hinv.edges.order

/-- A receive buffer that needs the scale 1, and a peer that agrees to scaling. -/
def scaledOps : List (Op × World) := [(.sockopt (.rcvbuf 100000), calmWorld 3),
    (.connect, calmWorld 3),
    (.input (bareSeg 500 101 { syn := true, ack := true } 5000 [1, 3, 3, 0]), calmWorld 3)]

def edgeRun (ops : List (Op × World)) : Outcome Unit × Edges :=
  edgeHistory.run (.ok () (socreate true), ⟨0, []⟩) ops

/-- Text arrives in order, and the delayed ACK for it is sent. -/
def receive (seg : Segment) : List (Op × World) :=
  [(.input seg, calmWorld 3), (.fasttimo, calmWorld 3)]

def oneOctet : Segment :=
  { tiSeq := 501, tiAck := 101, tiFlags := { ack := true }, tiWin := 5000, m := [{ mData := [7] }]
    len_lt := octet_len_lt }

def twoOctets : Segment :=
  { tiSeq := 501, tiAck := 101, tiFlags := { ack := true }, tiWin := 5000, m := [{ mData := [7, 7] }] }

theorem rcv_edge_monotone_even :
    (edgeRun (scaledOps ++ receive twoOctets)).1.st.tp.rcvScale = 1 ∧
      (edgeRun (scaledOps ++ receive twoOctets)).2.edges = [100000, 100000] ∧
      (edgeRun (scaledOps ++ receive twoOctets)).2.edges.Pairwise
        fun later earlier => earlier ≤ later := by
  have hr : edgeHistory.Reachable WinCond (edgeRun (scaledOps ++ receive twoOctets)) :=
    History.Reachable.run (Runs.Reach.start ⟨.active true, rfl⟩) _ (by decide +kernel)
  exact ⟨by decide +kernel, by decide +kernel, rcv_edge_monotone hr⟩

/-- One byte of the window is taken back: the second ACK has half of 99999 in its header. -/
theorem odd_window_shrinks :
    Reachable (fun _ _ _ => True) (runOps (.ok () (socreate true)) (scaledOps ++ receive oneOctet)) ∧
      (edgeRun (scaledOps ++ receive oneOctet)).2.edges = [99999, 100000] ∧
      ¬(edgeRun (scaledOps ++ receive oneOctet)).2.edges.Pairwise
        fun later earlier => earlier ≤ later := by
  exact ⟨reachable_runOps (.active true) _, by decide +kernel, by decide +kernel⟩

/-- In every run both shift counts stay within `TCP_MAX_WINSHIFT`. -/
theorem rcv_scale_bounded {C : Cond} {o : Outcome Unit} (h : Reachable C o) :
    o.st.tp.rcvScale ≤ 14 ∧ o.st.tp.requestRScale ≤ 14 := by
  apply h.invariant
  · rintro o (_ | head)
    · exact ⟨Nat.zero_le _, Nat.zero_le _⟩
    · exact ⟨Nat.zero_le _, scaleLoop_le _ _ (Nat.zero_le _)⟩
  · rintro s op w ⟨hk, hr⟩ -
    have hm : Midway (enter s w) w.route (fun _ => 0) [] (step s op w).st :=
      midway_goes .nil (by simp) (fun _ => rfl) rfl rfl hk hr (goes_stepOp op rfl fun _ => trivial)
    exact ⟨hm.scale, hm.reqScale⟩

theorem rcv_scale_bounded_one :
    (runOps (.ok () (socreate true)) scaledOps).st.tp.rcvScale ≤ 14 :=
  (rcv_scale_bounded (reachable_runOps (.active true) scaledOps)).1

end Anp
