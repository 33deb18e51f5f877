import Anp.Tcp.Var

/-!
# Metrics — what `tcp_close` writes to the route

`tcp_close` saves what a connection has measured in its route, and nothing the user locked. But
`&&` binds tighter than `||`: where `RTV_SSTHRESH` is locked the last test is made on what `i`
held before, and where `snd_ssthresh` is 0 it is made on 0.
-/

namespace Anp

open Machine

inductive Rmx where
  | rtt | rttvar | ssthresh
  deriving DecidableEq, Repr

/-- `RTV_RTT`, `RTV_RTTVAR`, `RTV_SSTHRESH`. -/
def Rmx.rtv : Rmx → Nat
  | .rtt => 0x40
  | .rttvar => 0x80
  | .ssthresh => 0x20

/-- `rt_rmx` of the route, the variable `i` of `tcp_close`, and the metrics written so far. -/
structure RtCache where
  rmxLocks : Nat := 0
  rmxSendpipe : Nat := 0
  rmx : Rmx → Nat
  i : Nat
  wrote : List Rmx := []

def RtCache.locked (c : RtCache) (v : Rmx) : Bool := c.rmxLocks &&& v.rtv != 0

def RtCache.write (c : RtCache) (v : Rmx) (i new : Nat) : RtCache :=
  { c with i, rmx := Function.update c.rmx v new, wrote := v :: c.wrote }

/-- Half the old and half the new value of `rmx_rtt` and of `rmx_rttvar`. -/
def cacheTime (v : Rmx) (i : Nat) (c : RtCache) : RtCache :=
  if c.locked v then c
  else c.write v i (if c.rmx v ≠ 0 ∧ i ≠ 0 then u32 (c.rmx v + i) / 2 else i)

/-- `i` in the last test. -/
def RtCache.thresh (c : RtCache) (tp : Tcpcb) : Nat :=
  if c.locked .ssthresh then c.i else tp.sndSsthresh

def RtCache.Passes (c : RtCache) (tp : Tcpcb) : Prop :=
  (c.locked .ssthresh = false ∧ c.thresh tp ≠ 0 ∧ c.rmx .ssthresh ≠ 0) ∨
    c.thresh tp < c.rmxSendpipe / 2
deriving Decidable

/-- `none` is the division by `t_maxseg`. -/
def cacheSsthresh (tp : Tcpcb) (c : RtCache) : Option RtCache :=
  if c.Passes tp then
    if tp.tMaxseg = 0 then none
    else
      let i := u32 (c.thresh tp + tp.tMaxseg / 2 : Nat) / tp.tMaxseg
      let i := u32 ((if i < 2 then 2 else i) * (tp.tMaxseg + 40) : Nat)
      some (c.write .ssthresh i (if c.rmx .ssthresh ≠ 0 then u32 (c.rmx .ssthresh + i) / 2 else i))
  else some { c with i := c.thresh tp }

/-- Enough was sent, and the route is not the default route. -/
def Saves (tp : Tcpcb) (hiwat key : Nat) : Prop :=
  seqLT (tp.iss + BitVec.ofNat 32 (hiwat * 16)) tp.sndMax = true ∧ key ≠ 0
deriving Decidable

/-- `hiwat` is `so_snd.sb_hiwat`, `key` the address of the route. -/
def closeMetrics (tp : Tcpcb) (hiwat key : Nat) (c : RtCache) : Option RtCache :=
  let c := { c with wrote := [] }
  if Saves tp hiwat key then
    cacheSsthresh tp (cacheTime .rttvar (u32 (tp.tRttvar * 125000))
      (cacheTime .rtt (u32 (tp.tSrtt * 62500)) c))
  else some c

/-- What may be written: nothing that is locked, nothing of a default route, and `rmx_ssthresh`
only once it is set or the threshold got below half the pipe. -/
structure MetricsKept (tp : Tcpcb) (key : Nat) (c c' : RtCache) : Prop where
  locked : ∀ v ∈ c'.wrote, c.locked v = false ∧ key ≠ 0
  ssthresh : .ssthresh ∈ c'.wrote → c.rmx .ssthresh ≠ 0 ∨
    (tp.sndSsthresh ≠ 0 ∧ tp.sndSsthresh < c.rmxSendpipe / 2)

/-- What `i` holds when `rmx_ssthresh` is locked. -/
def staleI (tp : Tcpcb) (c : RtCache) : Nat :=
  if ¬c.locked .rttvar then u32 (tp.tRttvar * 125000)
  else if ¬c.locked .rtt then u32 (tp.tSrtt * 62500)
  else c.i

/-- The last test does not pass on an `i` that is not a threshold. -/
def MetricsCond (tp : Tcpcb) (hiwat key : Nat) (c : RtCache) : Prop :=
  Saves tp hiwat key → tp.tMaxseg ≠ 0 →
    if c.locked .ssthresh then c.rmxSendpipe / 2 ≤ staleI tp c
    else tp.sndSsthresh ≠ 0 ∨ c.rmx .ssthresh ≠ 0 ∨ c.rmxSendpipe / 2 = 0

variable {c c1 : RtCache}

/-- What the two times leave alone. -/
structure Times (c c1 : RtCache) : Prop where
  locks : c1.rmxLocks = c.rmxLocks
  pipe : c1.rmxSendpipe = c.rmxSendpipe
  rmx : ∀ v, v ∉ c1.wrote → c1.rmx v = c.rmx v
  wrote : ∀ v ∈ c1.wrote, v ≠ .ssthresh ∧ c.locked v = false

theorem Times.locked (h : Times c c1) (v : Rmx) : c1.locked v = c.locked v := by
  rw [RtCache.locked, RtCache.locked, h.locks]

theorem Times.next {v : Rmx} (h : Times c c1) (hv : v ≠ .ssthresh) (i : Nat) :
    Times c (cacheTime v i c1) ∧ (cacheTime v i c1).i = if c.locked v then c1.i else i := by
  rw [cacheTime, h.locked]
  split
  · exact ⟨h, rfl⟩
  · next hl =>
    refine ⟨⟨h.locks, h.pipe, fun w hw => ?_, fun w hw => ?_⟩, rfl⟩
    · obtain ⟨hne, hw⟩ := not_or.mp (List.mem_cons.not.mp hw)
      exact (Function.update_of_ne hne _ _).trans (h.rmx w hw)
    · rcases List.mem_cons.mp hw with rfl | hw
      · exact ⟨hv, Bool.eq_false_iff.mpr hl⟩
      · exact h.wrote w hw

/-- **Metrics of a route.** For every connection and every route: what is not written stays as it
is, and only what may be is written exactly if the condition holds. -/
theorem metrics_kept_iff (tp : Tcpcb) (hiwat key : Nat) (c : RtCache) :
    (∀ c', closeMetrics tp hiwat key c = some c' → ∀ v, v ∉ c'.wrote → c'.rmx v = c.rmx v) ∧
      ((∀ c', closeMetrics tp hiwat key c = some c' → MetricsKept tp key c c') ↔
        MetricsCond tp hiwat key c) := by
  have hstart : Times c { c with wrote := [] } := ⟨rfl, rfl, fun _ _ => rfl, nofun⟩
  rw [closeMetrics, MetricsCond]
  by_cases hs : Saves tp hiwat key
  · obtain ⟨h1, hi1⟩ := hstart.next (v := .rtt) nofun (u32 (tp.tSrtt * 62500))
    obtain ⟨h2, hi2⟩ := h1.next (v := .rttvar) nofun (u32 (tp.tRttvar * 125000))
    rw [if_pos hs]
    generalize cacheTime .rttvar _ (cacheTime .rtt _ _) = c2 at h2 hi2
    have hi : c2.i = staleI tp c := by
      rw [hi2, hi1, staleI]
      cases c.locked .rttvar <;> cases c.locked .rtt <;> simp
    have hnot : .ssthresh ∉ c2.wrote := fun h => (h2.wrote _ h).1 rfl
    have hpass : c2.Passes tp ↔ if c.locked .ssthresh then staleI tp c < c.rmxSendpipe / 2
        else (tp.sndSsthresh ≠ 0 ∧ c.rmx .ssthresh ≠ 0) ∨ tp.sndSsthresh < c.rmxSendpipe / 2 := by
      rw [RtCache.Passes, RtCache.thresh, h2.locked, h2.pipe, h2.rmx _ hnot, hi]
      cases c.locked .ssthresh <;> simp
    have hkept (v : Rmx) (hv : v ∈ c2.wrote) : c.locked v = false ∧ key ≠ 0 :=
      ⟨(h2.wrote v hv).2, hs.2⟩
    rw [cacheSsthresh]
    by_cases htest : c2.Passes tp
    · rw [if_pos htest]
      rw [hpass] at htest
      by_cases hmax : tp.tMaxseg = 0
      · rw [if_pos hmax]
        exact ⟨fun _ h => (nomatch h), iff_of_true (fun _ h => (nomatch h)) fun _ h => absurd hmax h⟩
      · rw [if_neg hmax]
        refine ⟨fun c' hc' v hv => ?_, ?_⟩
        · cases hc'
          obtain ⟨hne, hv⟩ := not_or.mp (List.mem_cons.not.mp hv)
          exact (Function.update_of_ne hne _ _).trans (h2.rmx v hv)
        · rw [imp_iff_right hs, imp_iff_right hmax]
          constructor
          · intro h
            obtain ⟨hall, hth⟩ := h _ rfl
            have hfree := (hall _ List.mem_cons_self).1
            have := hth List.mem_cons_self
            rw [hfree] at htest ⊢
            simp only [Bool.false_eq_true, if_false] at htest ⊢
            omega
          · intro h c' hc'
            cases hc'
            cases hl : c.locked .ssthresh with
            | true =>
              simp only [hl, if_true] at h htest
              omega
            | false =>
              simp only [hl, Bool.false_eq_true, if_false] at h htest
              exact ⟨List.forall_mem_cons.mpr ⟨⟨hl, hs.2⟩, hkept⟩, fun _ => by omega⟩
    · rw [if_neg htest]
      rw [hpass] at htest
      refine ⟨fun c' hc' => ?_, iff_of_true (fun c' hc' => ?_) fun _ _ => ?_⟩
      · cases hc'
        exact h2.rmx
      · cases hc'
        exact ⟨hkept, fun h => absurd h hnot⟩
      · split at htest
        · next hl =>
          rw [if_pos hl]
          omega
        · next hl =>
          rw [if_neg hl]
          omega
  · rw [if_neg hs]
    refine ⟨?_, iff_of_true ?_ fun h => absurd h hs⟩
    · rintro c' ⟨⟩ v -
      rfl
    · rintro c' ⟨⟩
      exact ⟨nofun, nofun⟩

/-- With `RTV_SSTHRESH` and `RTV_RTT` locked and no deviation measured, `i` is 0: the locked metric
is averaged with two segments. -/
theorem locked_ssthresh_written :
    (closeMetrics { iss := 0, sndMax := 200000, tRttvar := 0 } 8192 0x0a000000
      { rmxLocks := 0x60, rmxSendpipe := 16384, rmx := fun _ => 5000, i := 7 }).map
        (fun c => (c.rmx .ssthresh, c.rmx .rtt, c.wrote)) =
      some ((5000 + 2 * 552) / 2, 5000, [.ssthresh, .rttvar]) := by
  decide

end Anp
