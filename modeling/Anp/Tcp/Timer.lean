import Anp.Tcp.Var

/-!
# Timer — timer values and round-trip times

`netinet/tcp_timer.h`, `tcp_xmit_timer`, `tcp_setpersist`, `tcp_mss`: the routines that compute
timer values, and the one that seeds them from the routing table. The timers and the smoothed
times are `short`s, so every assignment goes through `int16`.
-/

namespace Anp

open Machine

/-! ## `tcp_timer.h` -/

def tcptvMsl : Int := 60
def tcptvPersmin : Int := 10
def tcptvPersmax : Int := 120
def tcptvKeepInit : Int := 150
def tcptvRexmtmax : Int := 128
def tcpKeepidle : Int := 14400
def tcpKeepintvl : Int := 150
def tcpMaxidle : Int := 8 * tcpKeepintvl
def tcpMaxrxtshift : Int := 12
def tcpRexmtthresh : Int := 3

/-- `TCPT_RANGESET`: the value as a `short`, then forced into `[tvmin, tvmax]`. -/
def tcptRangeset (value tvmin tvmax : Int) : Int :=
  let tv := int16 value
  if tv < tvmin then int16 tvmin else if tvmax < tv then int16 tvmax else tv

def tcpBackoff (shift : Int) : Int :=
  [1, 2, 4, 8, 16, 32, 64, 64, 64, 64, 64, 64, 64].getD shift.toNat 64

def tcpRexmtval (tp : Tcpcb) : Int := tp.tSrtt / 8 + tp.tRttvar

def tcpCanceltimers (tp : Tcpcb) : Tcpcb := { tp with rexmt := 0, persist := 0, keep := 0, msl2 := 0 }

/-! ## `tcp_xmit_timer` -/

/-- The smoothed round-trip time and deviation after a measurement `rtt`. -/
def smoothRtt (srtt rttvar rtt : Int) : Int × Int :=
  if srtt ≠ 0 then
    let delta := int16 (rtt - 1 - srtt / 8)
    let srtt' := int16 (srtt + delta)
    let adelta := int16 (if delta < 0 then -delta else delta)
    let delta' := int16 (adelta - rttvar / 4)
    let rttvar' := int16 (rttvar + delta')
    (if srtt' ≤ 0 then 1 else srtt', if rttvar' ≤ 0 then 1 else rttvar')
  else (int16 (rtt * 8), int16 (rtt * 2))

def tcpXmitTimer (tp : Tcpcb) (rtt : Int) : Tcpcb :=
  let r := smoothRtt tp.tSrtt tp.tRttvar (int16 rtt)
  { tp with
    tSrtt := r.1
    tRttvar := r.2
    tRtt := 0
    tRxtshift := 0
    tRxtcur := tcptRangeset (r.1 / 8 + r.2) tp.tRttmin tcptvRexmtmax
    tSofterror := none }

/-! ## `tcp_setpersist` -/

/-- `none` is the panic of a persist timer started while the retransmit timer runs. -/
def tcpSetpersist (tp : Tcpcb) : Option Tcpcb :=
  let t := (tp.tSrtt / 4 + tp.tRttvar) / 2
  if tp.rexmt ≠ 0 then none
  else some { tp with
    persist := tcptRangeset (t * tcpBackoff tp.tRxtshift) tcptvPersmin tcptvPersmax
    tRxtshift := if tp.tRxtshift < tcpMaxrxtshift then tp.tRxtshift + 1 else tp.tRxtshift }

theorem tcptRangeset_persist_pos (v : Int) : 0 < tcptRangeset v tcptvPersmin tcptvPersmax := by
  unfold tcptRangeset tcptvPersmin tcptvPersmax
  simp only
  split
  · decide
  · split
    · decide
    · omega

/-! ## `tcp_mss` -/

def roundup (x y : Nat) : Nat := (x + (y - 1)) / y * y

/-- The part of `tcp_mss` under `RTV_MTU`: an initial round-trip time from the route. -/
def mssRtt (tp : Tcpcb) (rt : Route) : Tcpcb :=
  let rtt := int32 rt.rmxRtt
  if tp.tSrtt = 0 ∧ rtt ≠ 0 then
    let rttmin := if rt.rtvRtt then u16 (rtt.tdiv 500000) else tp.tRttmin
    let srtt := int16 (rtt.tdiv 62500)
    let rttvar :=
      if rt.rmxRttvar ≠ 0 then int16 (rt.rmxRttvar / 125000) else int16 ((srtt * 4).tdiv 8)
    { tp with
      tRttmin := rttmin
      tSrtt := srtt
      tRttvar := rttvar
      tRxtcur := tcptRangeset ((srtt / 4 + rttvar) / 2) rttmin tcptvRexmtmax }
  else tp

/-- The segment size the route and the interface allow, and the offer, but at least 32. -/
def mssRoute (rt : Route) (offer : Nat) : Nat :=
  let mss :=
    if rt.rmxMtu ≠ 0 then u32 ((rt.rmxMtu : Int) - 40)
    else
      let mss := int32 ((rt.ifMtu : Int) - 40)
      let mss := if mclbytes < mss then mss - mss % mclbytes else mss
      if rt.localaddr then u32 mss else min (u32 mss) 512
  let mss := if offer ≠ 0 then min mss offer else mss
  max mss 32

/-- `sbreserve` to a multiple of `mss`, at most `sb_max`; its result is ignored. -/
def mssReserve (sb : Sockbuf) (bufsize mss : Nat) : Sockbuf :=
  (sbreserve sb (min (roundup bufsize mss) sbMax)).getD sb

/-- A new segment size: make the buffers a multiple of it, or reduce it to the send buffer. `none`
is a division by zero. -/
def mssBuffers (rt : Route) (mss : Nat) (tp : Tcpcb) (so : Socket) :
    Option (Nat × Tcpcb × Socket) :=
  let snd := if rt.rmxSendpipe = 0 then so.soSnd.sbHiwat else rt.rmxSendpipe
  let rcv := if rt.rmxRecvpipe = 0 then so.soRcv.sbHiwat else rt.rmxRecvpipe
  let so := if snd < mss then so else { so with soSnd := mssReserve so.soSnd snd mss }
  let mss := min snd mss
  let tp := { tp with tMaxseg := mss % 65536 }
  if rcv ≤ mss then some (mss, tp, so)
  else if mss = 0 then none
  else some (mss, tp, { so with soRcv := mssReserve so.soRcv rcv mss })

/-- `tcp_mss(tp, offer)`: the segment size to announce, and `t_maxseg`, the buffers and the
congestion window set from it. -/
def tcpMss (s : Sys) (offer : Nat) : Option (Nat × Sys) :=
  match s.w.route with
  | none => some (512, s)
  | some rt =>
    let tp := mssRtt s.tp rt
    let mss := mssRoute rt offer
    (if int32 mss < tp.tMaxseg ∨ offer ≠ 0 then mssBuffers rt mss tp s.so
      else some (mss, tp, s.so)).map fun r =>
        (r.1, { s with
          tp := { r.2.1 with
            sndCwnd := r.1
            sndSsthresh :=
              if rt.rmxSsthresh ≠ 0 then max (u32 (2 * r.1)) rt.rmxSsthresh
              else r.2.1.sndSsthresh }
          so := r.2.2 })

/-! ### What `tcp_mss` changes -/

theorem int16_ne_zero {n : Nat} (h : 1 ≤ n ∧ n < 65536) : int16 n ≠ 0 := by
  unfold int16
  rw [Int.bmod_def]
  split <;> omega

theorem tcptRangeset_ne_zero {v : Int} {lo : Nat} (hlo : 1 ≤ lo ∧ lo < 65536) :
    tcptRangeset v lo tcptvRexmtmax ≠ 0 := by
  unfold tcptRangeset
  simp only
  split
  · exact int16_ne_zero hlo
  · split
    · decide
    · omega

/-- A route whose locked round-trip time is at least one tick: `tcp_mss` takes it as the
smallest retransmit timeout. -/
def LockOk (rt : Route) : Prop :=
  int32 rt.rmxRtt ≠ 0 → rt.rtvRtt = true → 1 ≤ u16 ((int32 rt.rmxRtt).tdiv 500000)

theorem sbreserve_getD (sb : Sockbuf) (n : Nat) :
    ((sbreserve sb n).getD sb).sbCc = sb.sbCc ∧ ((sbreserve sb n).getD sb).sbMb = sb.sbMb := by
  unfold sbreserve
  split <;> exact ⟨rfl, rfl⟩

theorem mssRtt_eq (tp : Tcpcb) (rt : Route) :
    ∃ a b c d, mssRtt tp rt = { tp with tRttmin := a, tSrtt := b, tRttvar := c, tRxtcur := d } ∧
      (LockOk rt → 1 ≤ tp.tRttmin ∧ tp.tRttmin < 65536 → tp.tRxtcur ≠ 0 →
        (1 ≤ a ∧ a < 65536) ∧ d ≠ 0) := by
  unfold mssRtt
  simp only
  split
  · next hrtt =>
    refine ⟨_, _, _, _, rfl, ?_⟩
    intro hlock hmin _
    have ha : 1 ≤ (if rt.rtvRtt = true then u16 ((int32 rt.rmxRtt).tdiv 500000)
        else tp.tRttmin) ∧ (if rt.rtvRtt = true then u16 ((int32 rt.rmxRtt).tdiv 500000)
        else tp.tRttmin) < 65536 := by
      split
      · next hl =>
        refine ⟨hlock hrtt.2 hl, ?_⟩
        unfold u16
        omega
      · exact hmin
    exact ⟨ha, tcptRangeset_ne_zero ha⟩
  · exact ⟨tp.tRttmin, tp.tSrtt, tp.tRttvar, tp.tRxtcur, rfl, fun _ h1 h2 => ⟨h1, h2⟩⟩

theorem mssBuffers_eq {rt : Route} {mss : Nat} {tp : Tcpcb} {so : Socket}
    {r : Nat × Tcpcb × Socket} (h : mssBuffers rt mss tp so = some r) :
    ∃ e snd rcv, r.2.1 = { tp with tMaxseg := e } ∧ e < 65536 ∧
      r.2.2 = { so with soSnd := snd, soRcv := rcv } ∧
      (snd.sbCc = so.soSnd.sbCc ∧ snd.sbMb = so.soSnd.sbMb) ∧
      (rcv.sbCc = so.soRcv.sbCc ∧ rcv.sbMb = so.soRcv.sbMb) := by
  unfold mssBuffers at h
  simp only at h
  set pipe := if rt.rmxSendpipe = 0 then so.soSnd.sbHiwat else rt.rmxSendpipe
  set rpipe := if rt.rmxRecvpipe = 0 then so.soRcv.sbHiwat else rt.rmxRecvpipe
  have hmod : min pipe mss % 65536 < 65536 := Nat.mod_lt _ (by decide)
  have hso : ∃ snd, (if pipe < mss then so else { so with soSnd := mssReserve so.soSnd pipe mss }) =
      { so with soSnd := snd } ∧ snd.sbCc = so.soSnd.sbCc ∧ snd.sbMb = so.soSnd.sbMb := by
    split
    · exact ⟨so.soSnd, rfl, rfl, rfl⟩
    · exact ⟨_, rfl, sbreserve_getD so.soSnd _⟩
  obtain ⟨snd, hsnd, hcc⟩ := hso
  rw [hsnd] at h
  split at h
  · cases h
    exact ⟨_, snd, so.soRcv, rfl, hmod, rfl, hcc, rfl, rfl⟩
  · split at h
    · simp at h
    · cases h
      exact ⟨_, snd, _, rfl, hmod, rfl, hcc, sbreserve_getD so.soRcv _⟩

/-- `tcp_mss` changes the segment size, the congestion window, the round-trip times and the
limits of the buffers. -/
theorem tcpMss_eq {s s' : Sys} {offer mss : Nat} (h : tcpMss s offer = some (mss, s')) :
    ∃ tp snd rcv, s' = { s with tp := tp, so := { s.so with soSnd := snd, soRcv := rcv } } ∧
      (snd.sbCc = s.so.soSnd.sbCc ∧ snd.sbMb = s.so.soSnd.sbMb) ∧
      (rcv.sbCc = s.so.soRcv.sbCc ∧ rcv.sbMb = s.so.soRcv.sbMb) ∧
      (∃ a b c d e f g, tp = { s.tp with
        tRttmin := a, tSrtt := b, tRttvar := c, tRxtcur := d, tMaxseg := e, sndCwnd := f,
        sndSsthresh := g }) ∧
      (s.tp.tMaxseg < 65536 → tp.tMaxseg < 65536) ∧
      ((∀ rt, s.w.route = some rt → LockOk rt) → 1 ≤ s.tp.tRttmin ∧ s.tp.tRttmin < 65536 →
        s.tp.tRxtcur ≠ 0 → (1 ≤ tp.tRttmin ∧ tp.tRttmin < 65536) ∧ tp.tRxtcur ≠ 0) := by
  unfold tcpMss at h
  cases hrt : s.w.route with
  | none =>
    rw [hrt] at h
    cases h
    exact ⟨s.tp, s.so.soSnd, s.so.soRcv, rfl, ⟨rfl, rfl⟩, ⟨rfl, rfl⟩,
      ⟨_, _, _, _, _, _, _, rfl⟩, id, fun _ h1 h2 => ⟨h1, h2⟩⟩
  | some rt =>
    rw [hrt] at h
    obtain ⟨a, b, c, d, htp, hbase⟩ := mssRtt_eq s.tp rt
    have hr : ∀ r, (if int32 (mssRoute rt offer) < (mssRtt s.tp rt).tMaxseg ∨ offer ≠ 0 then
        mssBuffers rt (mssRoute rt offer) (mssRtt s.tp rt) s.so
        else some (mssRoute rt offer, mssRtt s.tp rt, s.so)) = some r →
        ∃ e snd rcv, r.2.1 = { mssRtt s.tp rt with tMaxseg := e } ∧
          (s.tp.tMaxseg < 65536 → e < 65536) ∧
          r.2.2 = { s.so with soSnd := snd, soRcv := rcv } ∧
          (snd.sbCc = s.so.soSnd.sbCc ∧ snd.sbMb = s.so.soSnd.sbMb) ∧
          (rcv.sbCc = s.so.soRcv.sbCc ∧ rcv.sbMb = s.so.soRcv.sbMb) := by
      intro r hr
      split at hr
      · obtain ⟨e, snd, rcv, h1, he, h2⟩ := mssBuffers_eq hr
        exact ⟨e, snd, rcv, h1, fun _ => he, h2⟩
      · cases hr
        refine ⟨(mssRtt s.tp rt).tMaxseg, s.so.soSnd, s.so.soRcv, rfl, ?_, rfl, ⟨rfl, rfl⟩,
          rfl, rfl⟩
        rw [htp]
        exact id
    obtain ⟨r, hsome, hs'⟩ := Option.map_eq_some_iff.mp h
    obtain ⟨e, snd, rcv, h1, he, h2, hsnd, hrcv⟩ := hr r hsome
    cases hs'
    rw [h1, h2, htp]
    exact ⟨_, snd, rcv, rfl, hsnd, hrcv, ⟨a, b, c, d, e, _, _, rfl⟩, he,
      fun hlock => hbase (hlock rt rfl)⟩

end Anp
