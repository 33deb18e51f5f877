import Anp.Lib.Runs
import Anp.Tcp.Usrreq

/-!
# Estimator — back-off and round-trip times in 16 bits

`t_srtt`, `t_rttvar` and the timers are `short`s, and the samples come from the time stamps of
the peer. `TCPT_RANGESET` stores its value in the timer before it compares it.
-/

namespace Anp

open Machine Runs

variable {tp : Tcpcb} {rtt : Int}

def FitsShort (z : Int) : Prop := -32768 ≤ z ∧ z ≤ 32767
deriving Decidable

theorem FitsShort.int16 {z : Int} (h : FitsShort z) : Machine.int16 z = z :=
  int16_of_range h.1 (by have := h.2; omega)

theorem int16_eq_self_iff (z : Int) : int16 z = z ↔ FitsShort z := by
  refine ⟨fun h => ?_, FitsShort.int16⟩
  unfold int16 at h
  rw [Int.bmod_def] at h
  unfold FitsShort
  split at h <;> omega

/-- The value forced into `[tvmin, tvmax]`, as an integer. -/
def clamp (value tvmin tvmax : Int) : Int :=
  if value < tvmin then tvmin else if tvmax < value then tvmax else value

theorem tcptRangeset_eq_clamp {value tvmin tvmax : Int} (h : FitsShort value)
    (hmin : FitsShort tvmin) (hmax : FitsShort tvmax) :
    tcptRangeset value tvmin tvmax = clamp value tvmin tvmax := by
  simp only [tcptRangeset, clamp, h.int16, hmin.int16, hmax.int16]

/-- A least value that is no `short` is above every `short`, and is stored as another number. -/
theorem tcptRangeset_ne_clamp {value tvmin tvmax : Int} (h : FitsShort value)
    (hmin : 32767 < tvmin) : tcptRangeset value tvmin tvmax ≠ clamp value tvmin tvmax := by
  have hlt : value < tvmin := by have := h.2; omega
  simp only [tcptRangeset, clamp, h.int16, if_pos hlt, Ne, int16_eq_self_iff]
  exact fun hfits => absurd hfits.2 (by omega)

/-! ## Back-off -/

/-- `case TCPT_REXMT:` of `tcp_timers` up to the call of `tcp_output`, when the connection is
not dropped. -/
def rexmtBackoff (tp : Tcpcb) : Tcpcb :=
  let shift := tp.tRxtshift + 1
  let cur := tcptRangeset (tcpRexmtval tp * tcpBackoff shift) tp.tRttmin tcptvRexmtmax
  let losing := decide (tcpMaxrxtshift / 4 < shift)
  { tp with
    tRxtshift := shift
    tRxtcur := cur
    rexmt := cur
    tRttvar := if losing then int16 (tp.tRttvar + tp.tSrtt / 8) else tp.tRttvar
    tSrtt := if losing then 0 else tp.tSrtt
    sndNxt := tp.sndUna
    tRtt := 0
    sndCwnd := tp.tMaxseg
    sndSsthresh := u32 (halfWindow tp * tp.tMaxseg)
    tDupacks := 0 }

theorem timerRexmt_eq {s : Sys} (hshift : s.tp.tRxtshift < tcpMaxrxtshift)
    (hseg : s.tp.tMaxseg ≠ 0) : timerRexmt s = callOutput { s with tp := rexmtBackoff s.tp } := by
  have hle : ¬tcpMaxrxtshift < s.tp.tRxtshift + 1 := by omega
  rw [timerRexmt]
  simp only [if_neg hle, if_neg hseg]
  rfl

def rexmtProduct (tp : Tcpcb) : Int := tcpRexmtval tp * tcpBackoff (tp.tRxtshift + 1)

def persistProduct (tp : Tcpcb) : Int := (tp.tSrtt / 4 + tp.tRttvar) / 2 * tcpBackoff tp.tRxtshift

/-- The interval of a timeout is the product forced into `[t_rttmin, TCPTV_REXMTMAX]`, and what
is stored before is the product. -/
def RexmtExact (tp : Tcpcb) : Prop :=
  (rexmtBackoff tp).tRxtcur = clamp (rexmtProduct tp) tp.tRttmin tcptvRexmtmax ∧
    (rexmtBackoff tp).rexmt = (rexmtBackoff tp).tRxtcur ∧
    int16 (rexmtProduct tp) = rexmtProduct tp
deriving Decidable

/-- The same of the persist timer that `tcp_setpersist` leaves in `tp'`. -/
def PersistExact (tp tp' : Tcpcb) : Prop :=
  tp'.persist = clamp (persistProduct tp) tcptvPersmin tcptvPersmax ∧
    int16 (persistProduct tp) = persistProduct tp

theorem rexmtExact_iff (tp : Tcpcb) :
    RexmtExact tp ↔ FitsShort (rexmtProduct tp) ∧ tp.tRttmin ≤ 32767 := by
  constructor
  · rintro ⟨hcur, -, hprod⟩
    have hfits := (int16_eq_self_iff _).mp hprod
    refine ⟨hfits, ?_⟩
    by_contra hmin
    exact tcptRangeset_ne_clamp hfits (by omega) hcur
  · rintro ⟨hfits, hmin⟩
    exact ⟨tcptRangeset_eq_clamp hfits ⟨by omega, by omega⟩ (by decide), rfl, hfits.int16⟩

theorem persistExact_iff (hoff : tp.rexmt = 0) :
    ∃ tp', tcpSetpersist tp = some tp' ∧ (PersistExact tp tp' ↔ FitsShort (persistProduct tp)) := by
  rw [tcpSetpersist]
  simp only [hoff, ne_eq, not_true_eq_false, if_false, Option.some.injEq, exists_eq_left']
  refine ⟨fun h => (int16_eq_self_iff _).mp h.2, fun hfits => ⟨?_, hfits.int16⟩⟩
  exact tcptRangeset_eq_clamp hfits (by decide) (by decide)

/-- **Back-off.** A timeout that does not drop the connection, and `tcp_setpersist`, set their
timers to the products in their ranges exactly when the product fits in a `short`, and `t_rttmin`
does. -/
theorem backoff_exact (s : Sys) (tp : Tcpcb) (hshift : s.tp.tRxtshift < tcpMaxrxtshift)
    (hseg : s.tp.tMaxseg ≠ 0) (hoff : tp.rexmt = 0) :
    (timerRexmt s = callOutput { s with tp := rexmtBackoff s.tp } ∧
      (RexmtExact s.tp ↔ FitsShort (rexmtProduct s.tp) ∧ s.tp.tRttmin ≤ 32767)) ∧
    ∃ tp', tcpSetpersist tp = some tp' ∧ (PersistExact tp tp' ↔ FitsShort (persistProduct tp)) :=
  ⟨⟨timerRexmt_eq hshift hseg, rexmtExact_iff s.tp⟩, persistExact_iff hoff⟩

/-- A round-trip time of 10 ticks, and the first timeout: the interval is 60 ticks. -/
theorem backoff_exact_ten :
    (rexmtBackoff (tcpXmitTimer (tcpNewtcpcb true) 10)).tRxtcur = 60 ∧
      RexmtExact (tcpXmitTimer (tcpNewtcpcb true) 10) := by
  refine ⟨by decide, ?_⟩
  exact (backoff_exact { tp := tcpXmitTimer (tcpNewtcpcb true) 10 } {} (by decide) (by decide)
    rfl).1.2.mpr (by decide)

/-- A round-trip time of 4095 ticks, and the second timeout: the product is 49140, and the
interval goes back from 128 ticks to 2. -/
theorem backoff_wraps :
    (rexmtBackoff (tcpXmitTimer (tcpNewtcpcb true) 4095)).tRxtcur = 128 ∧
      rexmtProduct (rexmtBackoff (tcpXmitTimer (tcpNewtcpcb true) 4095)) = 49140 ∧
      (rexmtBackoff (rexmtBackoff (tcpXmitTimer (tcpNewtcpcb true) 4095))).tRxtcur = 2 ∧
      ¬RexmtExact (rexmtBackoff (tcpXmitTimer (tcpNewtcpcb true) 4095)) := by
  decide

/-! ## The estimator -/

inductive EstOp where
  | sample (rtt : Int)
  | timeout
  /-- Anything else that is done to the connection leaves the round-trip times alone. -/
  | other (tp : Tcpcb)

/-- A timeout after `TCP_MAXRXTSHIFT` others drops the connection. -/
def estStep (tp : Tcpcb) : EstOp → Tcpcb
  | .sample rtt => tcpXmitTimer tp rtt
  | .timeout => if tcpMaxrxtshift ≤ tp.tRxtshift then tp else rexmtBackoff tp
  | .other tp' => { tp' with tSrtt := tp.tSrtt, tRttvar := tp.tRttvar, tRttmin := tp.tRttmin }

/-- `tcp_xmit_timer` with integers that do not overflow. -/
def smoothExact (srtt rttvar rtt : Int) : Int × Int :=
  if srtt ≠ 0 then
    let delta := rtt - 1 - srtt / 8
    (max (srtt + delta) 1, max (rttvar + (|delta| - rttvar / 4)) 1)
  else (rtt * 8, rtt * 2)

/-- After a sample the times are positive and those of the integer computation, and `t_rxtcur`
is in its range; the sum of a timeout is exact. -/
def EstRight (tp : Tcpcb) : EstOp → Prop
  | .sample rtt =>
    let tp' := tcpXmitTimer tp rtt
    (0 < tp'.tSrtt ∧ 0 ≤ tp'.tRttvar) ∧
      ((tp.tRttmin : Int) ≤ tp'.tRxtcur ∧ tp'.tRxtcur ≤ tcptvRexmtmax) ∧
      (tp'.tSrtt, tp'.tRttvar) = smoothExact tp.tSrtt tp.tRttvar (int32 rtt) ∧
      tp'.tRxtcur = clamp (tcpRexmtval tp') tp.tRttmin tcptvRexmtmax
  | .timeout => tp.tRxtshift < tcpMaxrxtshift → tcpMaxrxtshift / 4 ≤ tp.tRxtshift →
      (rexmtBackoff tp).tRttvar = tp.tRttvar + tp.tSrtt / 8
  | .other _ => True

/-- The sample is a `short`. The first one is positive and below 4096, since it is scaled by 8;
a later one leaves the sums in range. -/
def SampleFits (tp : Tcpcb) (rtt : Int) : Prop := FitsShort rtt ∧
    if tp.tSrtt = 0 then 1 ≤ rtt ∧ rtt ≤ 4095
    else
      let delta := rtt - 1 - tp.tSrtt / 8
      let rttvar := tp.tRttvar + (|delta| - tp.tRttvar / 4)
      (-32767 ≤ delta ∧ tp.tSrtt + delta ≤ 32767) ∧ rttvar ≤ 32767 ∧
        (tp.tSrtt + delta) / 8 + rttvar ≤ 32767

def EstCond (tp : Tcpcb) : EstOp → Prop
  | .sample rtt => SampleFits tp (int32 rtt)
  | .timeout => tp.tRxtshift < tcpMaxrxtshift → tcpMaxrxtshift / 4 ≤ tp.tRxtshift →
      tp.tRttvar + tp.tSrtt / 8 ≤ 32767
  | .other _ => True

/-- The times of a new control block, or those of a route; 0 is no time. -/
structure EstInv (tp : Tcpcb) : Prop where
  srtt : 0 ≤ tp.tSrtt ∧ tp.tSrtt ≤ 32767
  rttvar : 0 ≤ tp.tRttvar ∧ tp.tRttvar ≤ 32767
  rttmin : tp.tRttmin ≤ 128

theorem int16_int32 (z : Int) : int16 (int32 z) = int16 z := Int.bmod_bmod_of_dvd (by decide)

theorem smoothRtt_exact (h : EstInv tp) (hfits : SampleFits tp rtt) :
    smoothRtt tp.tSrtt tp.tRttvar rtt = smoothExact tp.tSrtt tp.tRttvar rtt := by
  obtain ⟨⟨hs0, hs1⟩, ⟨hv0, hv1⟩, -⟩ := h
  obtain ⟨hr, hfits⟩ := hfits
  unfold smoothRtt smoothExact
  by_cases hz : tp.tSrtt = 0
  · rw [if_pos hz] at hfits
    simp only [hz, ne_eq, not_true_eq_false, if_false]
    rw [int16_of_range (by omega) (by omega), int16_of_range (by omega) (by omega)]
  · rw [if_neg hz] at hfits
    generalize hd : rtt - 1 - tp.tSrtt / 8 = delta at *
    have hdelta : FitsShort delta := ⟨by omega, by have := hr.2; omega⟩
    have habs : (if delta < 0 then -delta else delta) = |delta| := by
      split
      · next hneg => exact (abs_of_neg hneg).symm
      · next hneg => exact (abs_of_nonneg (not_lt.mp hneg)).symm
    simp only [hdelta.int16, habs]
    rw [int16_of_range (by omega : -32768 ≤ |delta|) (by omega),
      int16_of_range (by omega : -32768 ≤ tp.tSrtt + delta) (by omega),
      int16_of_range (by omega : -32768 ≤ |delta| - tp.tRttvar / 4) (by omega),
      int16_of_range (by omega : -32768 ≤ tp.tRttvar + (|delta| - tp.tRttvar / 4)) (by omega)]
    ext
    · split <;> omega
    · split <;> omega

theorem smoothExact_bounds (hfits : SampleFits tp rtt) :
    let r := smoothExact tp.tSrtt tp.tRttvar rtt
    (0 < r.1 ∧ r.1 ≤ 32767) ∧ (0 ≤ r.2 ∧ r.2 ≤ 32767) ∧ r.1 / 8 + r.2 ≤ 32767 := by
  obtain ⟨hr, hfits⟩ := hfits
  unfold smoothExact
  by_cases hz : tp.tSrtt = 0
  · rw [if_pos hz] at hfits
    simp only [hz, ne_eq, not_true_eq_false, if_false]
    omega
  · rw [if_neg hz] at hfits
    simp only [ne_eq, hz, not_false_eq_true, if_true]
    omega

theorem tcpXmitTimer_right (h : EstInv tp) (hfits : SampleFits tp (int32 rtt)) :
    EstRight tp (.sample rtt) ∧ EstInv (tcpXmitTimer tp rtt) := by
  obtain ⟨hsrtt, hvar, hsum⟩ := smoothExact_bounds hfits
  have hsample : int16 rtt = int32 rtt := by rw [← int16_int32, hfits.1.int16]
  have hmin := h.rttmin
  simp only [EstRight, tcpXmitTimer, tcpRexmtval, hsample, smoothRtt_exact h hfits]
  rw [tcptRangeset_eq_clamp ⟨by omega, hsum⟩ ⟨by omega, by omega⟩ (by decide)]
  refine ⟨⟨⟨hsrtt.1, hvar.1⟩, ?_, trivial, rfl⟩, ⟨⟨hsrtt.1.le, hsrtt.2⟩, hvar, hmin⟩⟩
  unfold clamp tcptvRexmtmax
  split
  · omega
  · split <;> omega

theorem rexmtBackoff_rttvar (h : EstInv tp) (hlosing : tcpMaxrxtshift / 4 ≤ tp.tRxtshift)
    (hsum : tp.tRttvar + tp.tSrtt / 8 ≤ 32767) :
    (rexmtBackoff tp).tRttvar = tp.tRttvar + tp.tSrtt / 8 := by
  have hlt : tcpMaxrxtshift / 4 < tp.tRxtshift + 1 := by omega
  obtain ⟨hsrtt, hvar, -⟩ := h
  simp only [rexmtBackoff, hlt, decide_true, if_true]
  exact int16_of_range (by omega) (by omega)

theorem rexmtBackoff_inv (h : EstInv tp)
    (hsum : tcpMaxrxtshift / 4 ≤ tp.tRxtshift → tp.tRttvar + tp.tSrtt / 8 ≤ 32767) :
    EstInv (rexmtBackoff tp) := by
  obtain ⟨hsrtt, hvar, hmin⟩ := id h
  by_cases hlosing : tcpMaxrxtshift / 4 ≤ tp.tRxtshift
  · have hrttvar := rexmtBackoff_rttvar h hlosing (hsum hlosing)
    have hlt : tcpMaxrxtshift / 4 < tp.tRxtshift + 1 := by omega
    refine ⟨?_, ?_, hmin⟩
    · simp [rexmtBackoff, hlt]
    · rw [hrttvar]
      exact ⟨by omega, hsum hlosing⟩
  · have hlt : ¬tcpMaxrxtshift / 4 < tp.tRxtshift + 1 := by omega
    refine ⟨?_, ?_, hmin⟩
    · simpa [rexmtBackoff, hlt] using hsrtt
    · simpa [rexmtBackoff, hlt] using hvar

theorem estStep_inv {op : EstOp} (h : EstInv tp) (hc : EstCond tp op) :
    EstInv (estStep tp op) := by
  cases op with
  | sample rtt => exact (tcpXmitTimer_right h hc).2
  | timeout =>
    simp only [estStep]
    split
    · exact h
    · next hlt => exact rexmtBackoff_inv h (hc (not_le.mp hlt))
  | other tp' => exact { h with }

theorem estRight_of_cond {op : EstOp} (h : EstInv tp) (hc : EstCond tp op) :
    EstRight tp op := by
  cases op with
  | sample rtt => exact (tcpXmitTimer_right h hc).1
  | timeout =>
    intro hlt hlosing
    exact rexmtBackoff_rttvar h hlosing (hc hlt hlosing)
  | other tp' => trivial

/-- **The estimator stays positive.** In a run whose samples and timeouts leave the sums in
range, each sample leaves positive times, computed without overflow, and `t_rxtcur` in range. -/
theorem estimator_positive {tp : Tcpcb} {op : EstOp}
    (h : Reach EstInv (By estStep EstCond) tp) (hc : EstCond tp op) : EstRight tp op :=
  estRight_of_cond (h.ops (fun _ => id) fun _ _ => estStep_inv) hc

/-- A sample of 10 ticks on a new connection, and one of 7 after it. -/
theorem estimator_positive_ten :
    (tcpXmitTimer (tcpXmitTimer (tcpNewtcpcb true) 10) 7).tSrtt = 76 ∧
      EstRight (tcpXmitTimer (tcpNewtcpcb true) 10) (.sample 7) := by
  have hnew : EstInv (tcpNewtcpcb true) := ⟨by decide, by decide, by decide⟩
  have hten : EstCond (tcpNewtcpcb true) (.sample 10) := by
    show SampleFits _ _
    unfold SampleFits
    decide
  refine ⟨by decide, estimator_positive ((Reach.start hnew).step ⟨.sample 10, hten, rfl⟩) ?_⟩
  show SampleFits _ _
  unfold SampleFits
  decide

/-- The peer echoes a time stamp 8191 ticks old: scaled by 8 the first sample is 0 in a
`short`, as if there had been none. -/
theorem estimator_zero :
    EstInv (tcpNewtcpcb true) ∧ (tcpXmitTimer (tcpNewtcpcb true) 8192).tSrtt = 0 ∧
      ¬EstRight (tcpNewtcpcb true) (.sample 8192) := by
  refine ⟨⟨by decide, by decide, by decide⟩, by decide, ?_⟩
  rintro ⟨⟨hpos, -⟩, -⟩
  exact absurd hpos (by decide)

end Anp
