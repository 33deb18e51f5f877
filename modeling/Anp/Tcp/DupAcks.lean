import Anp.Tcp.AckFrame
import Anp.Tcp.History

/-!
# DupAcks — fast retransmit and the segments before it

`t_dupacks` counts the duplicate ACKs in a row, and the third one starts a fast retransmit. The
count is set back by every segment that gets to ACK processing and is no duplicate; header
prediction returns before that, and a segment whose data was all cut off looks like a pure ACK.
The history here is the list of the acceptable segments of the connection, the last one first.
-/

namespace Anp

open Cyclic Machine

variable {i : Inp} {seg : Segment} {s s' s1 : Sys}

/-! ## The count and the history -/

def plainAck (seg : Segment) : Bool := chainLen seg.m == 0 && !seg.tiFlags.syn && !seg.tiFlags.fin

/-- A duplicate ACK of `snd_una` that says nothing new. -/
def pureDup (s : Sys) (seg : Segment) : Bool :=
  plainAck seg && seg.tiAck == s.tp.sndUna && u32 (seg.tiWin * 2 ^ s.tp.sndScale) == s.tp.sndWnd

/-- What is remembered of an acceptable segment: `snd_una` when it came, and whether it was a pure
duplicate then. -/
structure Ackseg where
  una : Seq
  dup : Bool
  deriving DecidableEq, Repr

variable {l : List Ackseg}

/-- The acceptable segments of a connection, once the peer's SYN has come. -/
def dupHistory : History (List Ackseg) where
  start := []
  note s op w l :=
    match op with
    | .input seg =>
      if s.tp.tState.toNat < 3 then []
      else if acceptable (enter s w) seg then ⟨s.tp.sndUna, pureDup s seg⟩ :: l
      else l
    | .connect => if connects s w then [] else l
    | _ => l

/-- The segment and the connection when `ti_ack` is compared with `snd_una`. -/
def dupStage (s : Sys) (seg : Segment) : Option (Inp × Sys) := (ackStage s seg).bind fun r =>
    match afterSyn r.1 r.2 with
    | .next i s => some (i, s)
    | .done _ => none

/-- The segment is counted as a duplicate ACK. -/
def counted (s : Sys) (seg : Segment) : Bool := (dupStage s seg).any fun r => countsDup r.1 r.2

/-- The segment starts a fast retransmit. -/
def triggers (s : Sys) (seg : Segment) : Bool := (dupStage s seg).any fun r =>
    countsDup r.1 r.2 && decide (int16 (r.2.tp.tDupacks + 1) = tcpRexmtthresh)

/-- The steps that do not mislead the count: header prediction takes no segment while duplicates are
counted, those carry nothing, and no connection starts with a count. -/
def DupCond : Cond := fun s op w =>
  match op with
  | .input seg =>
    (predicted (enter s w) seg = true → s.tp.tDupacks = 0) ∧
      (counted (enter s w) seg = true → plainAck seg = true)
  | .connect => connects s w = true → s.tp.tDupacks = 0
  | _ => True

/-! ## What ACK processing leaves -/

/-- `snd_una` and the count are the same, and the connection does not go back before
ESTABLISHED. -/
structure Kin (s s' : Sys) : Prop where
  una : s'.tp.sndUna = s.tp.sndUna
  dup : s'.tp.tDupacks = s.tp.tDupacks
  est : 4 ≤ s.tp.tState.toNat → 4 ≤ s'.tp.tState.toNat

instance : IsTrans Sys Kin :=
  ⟨fun _ _ _ h h' => ⟨h'.una.trans h.una, h'.dup.trans h.dup, h'.est ∘ h.est⟩⟩

theorem kin_inWindow (i : Inp) (s : Sys) : Kin s (inWindow i s).2 := by
  unfold inWindow
  simp only
  split <;> exact ⟨rfl, rfl, id⟩

theorem kin_inStep6 (i : Inp) (s : Sys) : Leads Kin s (inStep6 i s) := by
  intro a s' h
  have ho := onward_inStep6 i s a s' h
  exact IsTrans.trans _ _ _ (kin_inWindow i s) { ho with }

/-- The count is the same, and the connection does not go back before ESTABLISHED. -/
structure Tally (s s' : Sys) : Prop where
  dup : s'.tp.tDupacks = s.tp.tDupacks
  est : 4 ≤ s.tp.tState.toNat → 4 ≤ s'.tp.tState.toNat

instance : IsTrans Sys Tally := ⟨fun _ _ _ h h' => ⟨h'.dup.trans h.dup, h'.est ∘ h.est⟩⟩

/-! ## A segment that gets to ACK processing -/

theorem staged_rest {s2 : Sys} (hs : Staged s seg i s1) (ha : afterSyn i s1 = .next i s2) :
    tcpInput s seg =
      match if seqLEQ i.tiAck s2.tp.sndUna then inAckDup i s2 else inAckNew i s2 with
      | .done o => o
      | .next i s => inStep6 i s := by
  have hin : inAck i s1 = if seqLEQ i.tiAck s2.tp.sndUna then inAckDup i s2 else inAckNew i s2 := by
    unfold inAck
    show (afterSyn i s1).bind _ = _
    rw [ha]
    rfl
  have hrest := hs.rest
  rw [hin] at hrest
  exact hrest

theorem FlowLeads.step6 {R : Sys → Sys → Prop} [IsTrans Sys R] {f : Flow} (h : FlowLeads R s f)
    (hR : ∀ s s', Kin s s' → R s s') :
    Leads R s (match f with
      | .done o => o
      | .next i s => inStep6 i s) := by
  cases f with
  | done o => exact h
  | next i s1 =>
    refine Leads.after h ?_
    exact fun a s' ho => hR _ _ (kin_inStep6 i s1 a s' ho)

theorem staged_count (hs : Staged s seg i s1) (hi : ackStage s seg = some (i, s1))
    (h : tcpInput s seg = .ok () s') :
    (s.tp.tState = .synReceived ∧ dupStage s seg = none ∧ view s' = view s) ∨
      (4 ≤ s'.tp.tState.toNat ∧ ((counted s seg = true ∧ s'.tp.sndUna = s.tp.sndUna ∧
            s'.tp.tDupacks = int16 (s.tp.tDupacks + 1)) ∨
          (counted s seg = false ∧ s'.tp.tDupacks = 0))) := by
  have hst := view_st hs.still.view
  rcases afterSyn_cases i s1 with ⟨hsyn, ha⟩ | ⟨s2, ha, huna, hdup, -, hest⟩
  · refine .inl ⟨hst ▸ hsyn, ?_, ?_⟩
    · unfold dupStage
      rw [hi, Option.bind_some, ha]
      rfl
    · have hin : inAck i s1 = inDropwithreset i s1 := by
        unfold inAck
        show (afterSyn i s1).bind _ = _
        rw [ha]
        rfl
      rw [hs.rest, hin] at h
      exact (sameView_inDropwithreset i s1 () s' h).trans hs.still.view
  · have h4 : 4 ≤ s2.tp.tState.toNat := hest (hst ▸ hs.open_.2)
    have hcount : counted s seg = countsDup i s2 := by
      unfold counted dupStage
      rw [hi, Option.bind_some, ha]
      rfl
    rw [staged_rest hs ha] at h
    refine .inr ?_
    rw [hcount]
    cases hc : countsDup i s2 with
    | true =>
      have hle : seqLEQ i.tiAck s2.tp.sndUna = true := by
        simp only [countsDup, Bool.and_eq_true] at hc
        exact hc.1.1.1.1
      rw [if_pos hle] at h
      have hkin : FlowLeads Kin _ (inAckDup i s2) :=
        (inAckDup_counted hc).mono fun _ h => { h with }
      have hk := hkin.step6 (fun _ _ => id) () s' h
      refine ⟨hk.est h4, .inl ⟨rfl, hk.una.trans (huna.trans (view_una hs.still.view)), ?_⟩⟩
      rw [← view_dup hs.still.view, ← hdup]
      exact hk.dup
    | false =>
      -- whichever way it goes on, the count is 0 from here on
      have hclear : FlowLeads Tally { s2 with tp := { s2.tp with tDupacks := 0 } }
          (if seqLEQ i.tiAck s2.tp.sndUna then inAckDup i s2 else inAckNew i s2) := by
        split
        · next hle =>
          rw [inAckDup_clears hle hc]
          exact ⟨rfl, id⟩
        · exact (inAckNew_clears i s2).mono fun _ h => ⟨h.dup, h.est⟩
      have ht := hclear.step6 (fun _ _ hk => ⟨hk.dup, hk.est⟩) () s' h
      exact ⟨ht.est h4, .inr ⟨rfl, ht.dup⟩⟩

theorem pureDup_of_counted (hc : counted s seg = true) (hplain : plainAck seg = true) :
    pureDup s seg = true := by
  unfold counted dupStage at hc
  cases hi : ackStage s seg with
  | none =>
    rw [hi] at hc
    cases hc
  | some r =>
    obtain ⟨i, s1⟩ := r
    have hs := ackStage_staged hi
    rw [hi, Option.bind_some] at hc
    rcases afterSyn_cases i s1 with ⟨-, ha⟩ | ⟨s2, ha, huna, -, hwnd, -⟩
    · rw [ha] at hc
      cases hc
    · rw [ha] at hc
      have hcd : countsDup i s2 = true := hc
      simp only [countsDup, Bool.and_eq_true, beq_iff_eq] at hcd
      obtain ⟨⟨⟨-, hwin⟩, -⟩, hack⟩ := hcd
      obtain ⟨i0, i1, b, b', tp, hw, hl, hr, -⟩ := hs.cut
      have hack0 : i.tiAck = seg.tiAck :=
        (trimRight_header hr).tiAck.trans ((trimLeft_header hl).tiAck.trans hw.tiAck)
      have hwin0 : i.tiwin = i0.tiwin := (trimRight_tiwin hr).trans (trimLeft_tiwin hl)
      have huna1 : s1.tp.sndUna = s.tp.sndUna := congrArg View.una hs.still.view
      have hwnd1 : s1.tp.sndWnd = s.tp.sndWnd := congrArg View.wnd hs.still.view
      have hsyn : seg.tiFlags.syn = false := by
        simp only [plainAck, Bool.and_eq_true, Bool.not_eq_true'] at hplain
        exact hplain.1.2
      have hscaled : i0.tiwin = u32 (seg.tiWin * 2 ^ s.tp.sndScale) := by
        rw [hw.tiwin, hsyn]
        rfl
      unfold pureDup
      simp only [hplain, Bool.true_and, Bool.and_eq_true, beq_iff_eq]
      constructor
      · rw [← hack0, hack, huna, huna1]
      · rw [← hscaled, ← hwin0, hwin, hwnd, hwnd1]

/-! ## Runs -/

/-- The count is right, but for what 16 bits cannot hold: so many of the last acceptable segments
were pure duplicates of `snd_una`. -/
structure DupInv (s : Sys) (l : List Ackseg) : Prop where
  early : s.tp.tState.toNat < 4 → s.tp.tDupacks = 0
  count : ∃ n : Nat, n ≤ l.length ∧ s.tp.tDupacks = int16 n ∧
    ∀ e ∈ l.take n, e.dup = true ∧ e.una = s.tp.sndUna

theorem DupInv.of_zero (h : s.tp.tDupacks = 0) : DupInv s l :=
  ⟨fun _ => h, 0, Nat.zero_le _, h, fun e he => absurd he (by simp)⟩

theorem DupInv.congr (h : DupInv s l) (hst : s'.tp.tState.toNat < 4 → s.tp.tState.toNat < 4)
    (hdup : s'.tp.tDupacks = s.tp.tDupacks) (huna : s'.tp.sndUna = s.tp.sndUna) : DupInv s' l := by
  obtain ⟨n, hn, hc, hl⟩ := h.count
  refine ⟨fun h4 => hdup.trans (h.early (hst h4)), n, hn, hdup.trans hc, ?_⟩
  rw [huna]
  exact hl

theorem DupInv.of_view (h : DupInv s l) (hv : view s' = view s) :
    DupInv s' l := by
  apply h.congr _ (congrArg View.dup hv) (congrArg View.una hv)
  rw [view_st hv]
  exact id

theorem int16_succ (n : Nat) : int16 (int16 n + 1) = int16 ((n + 1 : Nat) : Int) := by
  unfold int16
  rw [Int.bmod_add_bmod, Nat.cast_succ]

theorem DupInv.counted (h : DupInv s l) (h4 : 4 ≤ s'.tp.tState.toNat)
    (hdup : s'.tp.tDupacks = int16 (s.tp.tDupacks + 1)) (huna : s'.tp.sndUna = s.tp.sndUna) :
    DupInv s' (⟨s.tp.sndUna, true⟩ :: l) := by
  obtain ⟨n, hn, hc, hl⟩ := h.count
  refine ⟨fun h3 => absurd h3 (by omega), n + 1, by simpa using hn, ?_, ?_⟩
  · rw [hdup, hc, int16_succ]
  · intro e he
    rw [huna]
    rcases List.mem_cons.mp he with rfl | he
    · exact ⟨rfl, rfl⟩
    · exact hl e he

/-- **A segment.** -/
theorem dupInv_input {w : World} (h : DupInv s l) (hacc : s.so.soAcceptconn = false)
    (hC : DupCond s (.input seg) w) (hs' : step s (.input seg) w = .ok () s') :
    DupInv s' (dupHistory.note s (.input seg) w l) := by
  have hin : tcpInput (enter s w) seg = .ok () s' := hs'
  have henter : DupInv (enter s w) l := h.congr id rfl rfl
  show DupInv s' (if s.tp.tState.toNat < 3 then [] else
    if acceptable (enter s w) seg then ⟨s.tp.sndUna, pureDup s seg⟩ :: l else l)
  split
  · next h3 =>
    have h0 : s.tp.tDupacks = 0 := h.early (by omega)
    apply DupInv.of_zero
    rcases tcpInput_opens (s := enter s w) h3 hin with hv | ⟨i, s1, ho, h6⟩
    · exact (congrArg View.dup hv).trans h0
    · exact (kin_inStep6 i s1 () s' h6).dup.trans (ho.dup.trans h0)
  · next h3 =>
    have h3 : 3 ≤ s.tp.tState.toNat := by omega
    rcases tcpInput_ways (s := enter s w) hacc h3 hin with
      ⟨hno, hv⟩ | ⟨i, s1, hp, hh, hd⟩ | ⟨i, s1, hi⟩
    · rw [hno]
      exact henter.of_view hv
    · apply DupInv.of_zero
      have h1 := view_dup (still_inHeader hh).view
      exact (inPredict_steady hd).1.1.dup.trans (h1.trans (hC.1 hp))
    · have hok : acceptable (enter s w) seg = true := by
        unfold acceptable
        rw [hi]
        exact Bool.or_true _
      rw [if_pos hok]
      rcases staged_count (ackStage_staged hi) hi hin with ⟨hst, -, hv⟩ | ⟨h4, hcase⟩
      · apply DupInv.of_zero
        have hst : s.tp.tState = .synReceived := hst
        refine (congrArg View.dup hv).trans (h.early ?_)
        rw [hst]
        decide
      · rcases hcase with ⟨hc, huna, hdup⟩ | ⟨-, h0⟩
        · have hpure : pureDup s seg = true := pureDup_of_counted (s := enter s w) hc (hC.2 hc)
          rw [hpure]
          exact h.counted h4 hdup huna
        · exact .of_zero h0

theorem dupInv_step {op : Op} {w : World} (h : s.so.soAcceptconn = true ∨ DupInv s l)
    (hC : DupCond s op w) (hs' : step s op w = .ok () s') :
    s'.so.soAcceptconn = true ∨ DupInv s' (dupHistory.note s op w l) := by
  cases op with
  | input seg => exact unless_listening_input h hs' fun h hacc => dupInv_input h hacc hC hs'
  | connect =>
    cases hc : connects s w with
    | false =>
      rw [step_connect_refused hc] at hs'
      cases hs'
      simp only [dupHistory, hc]
      exact h.imp id fun h => h.congr id rfl rfl
    | true =>
      right
      have hv := step_connect_view hc hs'
      exact .of_zero ((congrArg View.dup hv).trans (hC hc))
  | _ =>
    refine unless_listening_aside h (by simp) (by simp) hs' fun h ha hst => ?_
    rcases ha.dup with hd | hd
    · exact h.congr hst.early hd (congrArg View.una ha.view)
    · exact .of_zero hd

theorem DupCond.reachable_inv (h : dupHistory.Reachable DupCond (.ok () s, l)) :
    s.so.soAcceptconn = true ∨ DupInv s l := by
  refine History.Reachable.invariant (g := dupHistory) (C := DupCond)
    (I := fun o l => ∀ s, o = .ok () s → s.so.soAcceptconn = true ∨ DupInv s l) ?_ ?_ h s rfl
  · rintro o ho s rfl
    right
    cases ho with
    | active | passive => exact .of_zero rfl
  · intro s op w l hI hC s' hs'
    exact dupInv_step (hI s rfl) hC hs'

/-- A segment that starts a fast retransmit is counted, and there were two before it. -/
theorem triggers_counted (h : triggers s seg = true) :
    counted s seg = true ∧ acceptable s seg = true ∧ s.so.soAcceptconn = false ∧
      3 ≤ s.tp.tState.toNat ∧ int16 (s.tp.tDupacks + 1) = tcpRexmtthresh := by
  unfold triggers dupStage at h
  cases hi : ackStage s seg with
  | none =>
    rw [hi] at h
    cases h
  | some r =>
    obtain ⟨i, s1⟩ := r
    have hs := ackStage_staged hi
    rw [hi, Option.bind_some] at h
    rcases afterSyn_cases i s1 with ⟨-, ha⟩ | ⟨s2, ha, -, hdup, -, -⟩
    · rw [ha] at h
      cases h
    · rw [ha] at h
      obtain ⟨hc, ht⟩ := Bool.and_eq_true_iff.mp (show (countsDup i s2 &&
        decide (int16 (s2.tp.tDupacks + 1) = tcpRexmtthresh)) = true from h)
      refine ⟨?_, ?_, hs.open_.1, hs.open_.2, ?_⟩
      · unfold counted dupStage
        rw [hi, Option.bind_some, ha]
        exact hc
      · unfold acceptable
        rw [hi]
        exact Bool.or_true _
      · have hdup1 := view_dup hs.still.view
        rw [← hdup1, ← hdup]
        exact of_decide_eq_true ht

/-- **Fast retransmit needs duplicates in a row.** In every run whose steps do not mislead the
count, the last `tcprexmtthresh` acceptable segments before and at a fast retransmit were pure
duplicate ACKs of `snd_una` as it is now. -/
theorem fast_rexmt_consecutive {s : Sys} {w : World} {seg : Segment} {l : List Ackseg}
    (h : dupHistory.Reachable DupCond (.ok () s, l)) (hC : DupCond s (.input seg) w)
    (ht : triggers (enter s w) seg = true) :
    tcpRexmtthresh.toNat ≤ (dupHistory.note s (.input seg) w l).length ∧
      ∀ e ∈ (dupHistory.note s (.input seg) w l).take tcpRexmtthresh.toNat,
        e.dup = true ∧ e.una = s.tp.sndUna := by
  obtain ⟨hc, hacpt, hacc, h3, hthree⟩ := triggers_counted ht
  have hinv : DupInv s l := by
    rcases DupCond.reachable_inv h with h' | h'
    · rw [show s.so.soAcceptconn = false from hacc] at h'
      cases h'
    · exact h'
  have hnote : dupHistory.note s (.input seg) w l = ⟨s.tp.sndUna, true⟩ :: l := by
    have h3 : 3 ≤ s.tp.tState.toNat := h3
    have hpure : pureDup s seg = true := pureDup_of_counted (s := enter s w) hc (hC.2 hc)
    show (if s.tp.tState.toNat < 3 then [] else _) = _
    rw [if_neg (by omega), if_pos hacpt, hpure]
  obtain ⟨n, hn, hcount, hl⟩ := hinv.count
  -- the count may have gone round 16 bits, but then there were only more of them
  have hn2 : 2 ≤ n := by
    have hthree : int16 (s.tp.tDupacks + 1) = 3 := hthree
    rw [hcount, int16_succ] at hthree
    by_contra hlt
    obtain rfl | rfl : n = 0 ∨ n = 1 := by omega
    · exact absurd hthree (by decide)
    · exact absurd hthree (by decide)
  rw [hnote]
  refine ⟨?_, ?_⟩
  · show 3 ≤ l.length + 1
    omega
  · intro e he
    have he' : e ∈ (⟨s.tp.sndUna, true⟩ : Ackseg) :: l.take 2 := he
    rcases List.mem_cons.mp he' with rfl | he'
    · exact ⟨rfl, rfl⟩
    · exact hl e (List.take_subset_take_left l hn2 he')

instance DupCond.instDecidable (s : Sys) (op : Op) (w : World) : Decidable (DupCond s op w) := by
  apply Op.casesOn (motive := fun op => Decidable (DupCond s op w)) op <;> intros <;>
    dsimp only [DupCond] <;> infer_instance

def dupAck (seq : Seq) : Segment := bareSeg seq 101 { ack := true } 5000 []

def dupRun (ops : List (Op × World)) : Outcome Unit × List Ackseg :=
  dupHistory.run (.ok () (socreate true), []) ops

def twoDups : List (Op × World) :=
  sentTwenty ++ [(.input (dupAck 501), calmWorld 3), (.input (dupAck 501), calmWorld 3)]

theorem fast_rexmt_consecutive_third :
    triggers (enter (dupRun twoDups).1.st (calmWorld 3)) (dupAck 501) = true ∧
      tcpRexmtthresh.toNat ≤ (dupHistory.note (dupRun twoDups).1.st (.input (dupAck 501))
        (calmWorld 3) (dupRun twoDups).2).length ∧
      ∀ e ∈ (dupHistory.note (dupRun twoDups).1.st (.input (dupAck 501)) (calmWorld 3)
          (dupRun twoDups).2).take tcpRexmtthresh.toNat,
        e.dup = true ∧ e.una = (dupRun twoDups).1.st.tp.sndUna := by
  have hr : dupHistory.Reachable DupCond (dupRun twoDups) :=
    History.Reachable.run (Runs.Reach.start ⟨.active true, rfl⟩) twoDups (by decide +kernel)
  have hp : dupRun twoDups = (.ok () (dupRun twoDups).1.st, (dupRun twoDups).2) := by decide +kernel
  have ht : triggers (enter (dupRun twoDups).1.st (calmWorld 3)) (dupAck 501) = true := by
    decide +kernel
  exact ⟨ht, fast_rexmt_consecutive (hp ▸ hr) (by decide +kernel) ht⟩

def oneByte : Segment :=
  { tiSeq := 501
    tiAck := 101
    tiFlags := { ack := true }
    tiWin := 5000
    m := [{ mData := [7] }]
    len_lt := octet_len_lt }

/-- It comes between the second duplicate and the third, and header prediction takes it. -/
def dataBetween : List (Op × World) := twoDups ++ [(.input oneByte, calmWorld 3)]

theorem fast_rexmt_after_data :
    Reachable (fun _ _ _ => True) (.ok () (dupRun dataBetween).1.st) ∧
      triggers (enter (dupRun dataBetween).1.st (calmWorld 3)) (dupAck 502) = true ∧
      (step (dupRun dataBetween).1.st (.input (dupAck 502)) (calmWorld 3)).st.log.sent.length =
        (dupRun dataBetween).1.st.log.sent.length + 1 ∧
      ¬∀ e ∈ (dupHistory.note (dupRun dataBetween).1.st (.input (dupAck 502)) (calmWorld 3)
          (dupRun dataBetween).2).take tcpRexmtthresh.toNat, e.dup = true := by
  refine ⟨?_, by decide +kernel, by decide +kernel, by decide +kernel⟩
  have hr := reachable_runOps (.active true) dataBetween
  have he : runOps (.ok () (socreate true)) dataBetween = .ok () (dupRun dataBetween).1.st := by
    decide +kernel
  rw [he] at hr
  exact hr

end Anp
