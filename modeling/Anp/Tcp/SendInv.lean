import Anp.Tcp.SendView

/-!
# SendInv — the send sequence space

Where a connection stands in its own send sequence space, counted from `iss`: `acked` numbers
are acknowledged, `snd_nxt` is at `n`, `snd_max` at `mx`. The SYN has number 0, the byte at
index `k` of what the user wrote has number `k + 1`, and the FIN has the number after the last
byte.
-/

namespace Anp

open Cyclic Machine List

/-! ## Passes that go wrong -/

/-- The length of the options on a segment that is not a SYN or RST. -/
def passOptlen (tp : Tcpcb) : Nat := if tp.tfReqTstmp && tp.tfRcvdTstmp then 12 else 0

/-- The length of the data after the options took their part. -/
def passLen (p : Pass) : Int :=
  let v := outDecide p.tp p.so
  (outClamp v.tp.tMaxseg (passOptlen v.tp) v.len v.sendalot).1

def passCopy (p : Pass) : OutCopy :=
  let v := outDecide p.tp p.so
  outCopy p.so p.env (tcpiphdrLen + passOptlen v.tp) v.off (passLen p)

/-- The pass sends a FIN that was decided on before the data was cut short: by the options, or
because `m_copy` found no mbuf. -/
def finCut (p : Pass) : Bool :=
  let v := outDecide p.tp p.so
  v.flags.fin && outWants p.so p.idle v && p.env.mgethdr &&
    (decide (passLen p ≠ v.len) || (decide (v.len ≠ 0) && decide (passCopy p = .data [])))

/-- The pass finds something to send or to have acknowledged and no timer running, and starts none:
`MGETHDR` fails, the segment brings `snd_nxt` no further than `snd_una`, or only a FIN is
outstanding and not sent again. -/
def stalls (p : Pass) : Bool :=
  let v := outDecide p.tp p.so
  (decide (p.so.soSnd.sbCc ≠ 0) || decide (p.tp.sndUna ≠ p.tp.sndMax)) &&
    decide (v.tp.rexmt = 0) && decide (v.tp.persist = 0) &&
    if outWants p.so p.idle v then
      !p.env.mgethdr ||
        match passCopy p with
        | .data bytes =>
          (outAdvance (outResendFin v.tp v.flags) v.flags bytes.length).sndNxt == p.tp.sndUna
        | .panic _ | .fault => false
    else decide (p.so.soSnd.sbCc = 0)

/-! ## The invariant -/

/-- What a run is assumed to avoid. -/
structure Mode where
  /-- A FIN before the last byte, and a connection opened with `TF_SENTFIN` left set. -/
  fin : Prop
  /-- A write after a record mark in `so_snd`. -/
  one : Prop
  /-- An ACK of the SYN alone once the user has closed. -/
  late : Prop
  /-- A pass that leaves data without a timer, a route with a zero lower bound on timeouts. -/
  timer : Prop

/-- The states before the user has closed in which the connection sends. -/
def stillOpen : TcpState → Bool
  | .synSent | .synReceived | .established | .closeWait => true
  | _ => false

/-- **What a segment says about the stream.** Sent when `acked` sequence numbers were acknowledged,
it has the bytes written from index `p` on, `p` is what its sequence number says, and a FIN comes
after the last byte written. -/
def SentOk (wrote : List Byte) (g : Sent) : Prop :=
  1 ≤ g.acked → g.seg.data ≠ [] ∨ g.seg.tiFlags.fin = true →
    ∃ p : Nat, g.acked ≤ p + 1 ∧ p < g.acked + 2147483648 ∧ g.seg.tiSeq = adv g.iss (1 + p) ∧
      g.seg.data = (wrote.drop p).take g.seg.data.length ∧
      p + g.seg.data.length ≤ wrote.length ∧
      (g.seg.tiFlags.fin = true → p + g.seg.data.length = wrote.length)

/-- What holds in addition when no FIN is ever cut off from its data. -/
structure ExactPos (v : Snd) (n mx : Int) : Prop where
  una_nxt : (v.acked : Int) ≤ n
  sentfin : v.sentfin = true → stillOpen v.st = false ∧ 1 ≤ mx
  fin_max : v.sentfin = true → 1 ≤ v.acked → finState v.st = true → mx = v.wrote.length + 2
  fin_cant : ∀ g ∈ v.sent, g.seg.tiFlags.fin = true → v.cant = true
  sent : ∀ g ∈ v.sent, SentOk v.wrote g

/-- **The send invariant.** `snd_nxt` is at place `n` and `snd_max` at `mx`; the buffer holds the
bytes written that are not yet acknowledged. -/
structure SendPos (m : Mode) (v : Snd) (n mx : Int) : Prop where
  una_eq : v.una = adv v.iss v.acked
  nxt_eq : v.nxt = adv v.iss n
  max_eq : v.max = adv v.iss mx
  bytes : v.mb.flatMap chainBytes = v.wrote.drop (v.wrote.length - v.cc)
  cc_le : v.cc ≤ v.wrote.length
  cc_lt : v.cc < 2147483645
  acct : (v.acked = 0 ∧ v.wrote = []) ∨ (1 ≤ v.acked ∧ v.acked + v.cc = v.wrote.length + 1) ∨
    (v.acked = v.wrote.length + 2 ∧ v.cc = 0)
  nxt_max : n ≤ mx
  una_max : (v.acked : Int) ≤ mx
  una_nxt : (v.acked : Int) ≤ n + 1
  max_le : mx ≤ v.wrote.length + 2
  max_fin : mx = v.wrote.length + 2 → v.sentfin = true ∧ stillOpen v.st = false
  fin_ack : v.acked = v.wrote.length + 2 → finState v.st = false
  cant : v.sentfin = true ∨ TcpState.finWait1.toNat ≤ v.st.toNat → v.cant = true
  syn : v.st = .synSent ∨ v.st = .synReceived → v.acked = 0 ∧ mx ≤ 1
  drained : TcpState.finWait2.toNat ≤ v.st.toNat →
    v.cc = 0 ∧ (m.late → v.acked = v.wrote.length + 2)
  conn : v.cc ≠ 0 → v.conn = true
  listen : v.st = .listen → v.accept = true ∨ (v.acked = 0 ∧ v.sentfin = false)
  exact_ : m.fin → ExactPos v n mx
  one : m.one → v.mb.length ≤ 1

namespace SendPos

variable {m : Mode} {v : Snd} {n mx : Int}

theorem una_add_cc (h : SendPos m v n mx) :
    (v.acked + v.cc : Int) ≤ v.wrote.length + 2 ∧
      (v.cc ≠ 0 → v.acked + v.cc ≤ v.wrote.length + 1) := by
  have hcc := h.cc_le
  rcases h.acct with ⟨h1, h2⟩ | ⟨h1, h2⟩ | ⟨h1, h2⟩
  · rw [h2] at hcc ⊢
    omega
  · omega
  · omega

theorem range (h : SendPos m v n mx) :
    mx ≤ v.acked + v.cc + 2 ∧ n ≤ v.acked + v.cc + 2 := by
  have h1 := h.max_le
  have h2 := h.nxt_max
  rcases h.acct with ⟨ha, hw⟩ | ⟨ha, hw⟩ | ⟨ha, hw⟩
  · rw [hw] at h1
    simp only [length_nil] at h1
    omega
  · omega
  · omega

theorem setNxt (h : SendPos m v n mx) {n' : Int} (hlo : (v.acked : Int) ≤ n' + 1) (hhi : n' ≤ mx)
    (hfin : m.fin → (v.acked : Int) ≤ n') :
    SendPos m { v with nxt := adv v.iss n' } n' mx :=
  { h with
    nxt_eq := rfl
    nxt_max := hhi
    una_nxt := hlo
    exact_ := fun hm => { h.exact_ hm with una_nxt := hfin hm } }

theorem setNxt_una (h : SendPos m v n mx) :
    SendPos m { v with nxt := v.una } v.acked mx := by
  have h' := h.setNxt (show (v.acked : Int) ≤ v.acked + 1 by omega) h.una_max (fun _ => le_refl _)
  rw [← h.una_eq] at h'
  exact h'

end SendPos

/-! ## A segment is sent -/

theorem SendPos.empty {m : Mode} {v : Snd} {n mx : Int} (h : SendPos m v n mx) (ha : v.acked = 0) :
    v.wrote = [] ∧ v.cc = 0 := by
  have hw : v.wrote = [] := by
    rcases h.acct with ⟨-, h3⟩ | ⟨h3, -⟩ | ⟨h3, -⟩
    · exact h3
    · omega
    · omega
  have hcc := h.cc_le
  rw [hw] at hcc
  simp only [length_nil] at hcc
  exact ⟨hw, by omega⟩

/-- What a segment sent at place `n` carries: data that lies in the buffer, a FIN only once the
user has closed, a SYN only at place 0. -/
structure Carries (m : Mode) (v : Snd) (n : Int) (flags : Flags) (data : List Byte) : Prop where
  syn : flags.syn = true → n = 0 ∧ data = [] ∧ flags.fin = false
  text : data ≠ [] → (v.acked : Int) ≤ n ∧ n + data.length ≤ v.acked + v.cc ∧
    data = ((v.mb.flatMap chainBytes).drop (n - v.acked).toNat).take data.length
  fin : flags.fin = true → finState v.st = true ∧
    (m.fin → 1 ≤ v.acked → (v.acked + v.cc : Int) ≤ n + data.length)

theorem stillOpen_of_finState {st : TcpState} (h : finState st = true) : stillOpen st = false := by
  cases st <;> simp_all [finState, tcpOutflags, stillOpen]

theorem finWait1_le_of_finState {st : TcpState} (h : finState st = true) :
    TcpState.finWait1.toNat ≤ st.toNat := by
  cases st <;> simp_all [finState, tcpOutflags, TcpState.toNat]

/-- Where the segment starts: a FIN that is sent again does not take a new number. -/
structure Starts (v : Snd) (flags : Flags) (n mx n1 : Int) : Prop where
  resend : flags.fin = true → v.sentfin = true → n = mx → n1 = n - 1
  else_ : ¬(flags.fin = true ∧ v.sentfin = true ∧ n = mx) → n1 = n

/-- Where the connection stands after it. In persist state `snd_nxt` and `TF_SENTFIN` stay. -/
def Lands (v : Snd) (flags : Flags) (len : Nat) (mx n1 n2 mx2 : Int) (sf : Bool) : Prop :=
  (n2 = n1 + segUnits flags len ∧ mx2 = max mx (n1 + segUnits flags len) ∧
    sf = (v.sentfin || flags.fin)) ∨
  (n2 = n1 ∧ mx2 = max mx (n1 + len) ∧ sf = v.sentfin)

section Advance

variable {m : Mode} {v : Snd} {n mx n1 n2 mx2 : Int} {flags : Flags} {data : List Byte} {sf : Bool}

theorem segUnits_bounds (flags : Flags) (len : Nat) :
    (len : Int) ≤ segUnits flags len ∧ (flags.fin = true → len + 1 ≤ segUnits flags len) := by
  unfold segUnits
  refine ⟨by split <;> split <;> omega, fun hf => ?_⟩
  split <;> omega

/-- `TF_SENTFIN` is set by a segment with a FIN, and stays. -/
theorem Lands.sentfin {len : Nat} (hl : Lands v flags len mx n1 n2 mx2 sf) :
    (sf = true → v.sentfin = true ∨ flags.fin = true) ∧ (v.sentfin = true → sf = true) := by
  rcases hl with ⟨-, -, rfl⟩ | ⟨-, -, rfl⟩
  · simp +contextual
  · exact ⟨.inl, id⟩

section

variable (h : SendPos m v n mx)
include h

variable (hc : Carries m v n flags data) (hs : Starts v flags n mx n1)
include hc hs

theorem end_le :
    n1 ≤ n ∧ n - 1 ≤ n1 ∧ (v.acked : Int) ≤ n1 + 1 ∧
      n1 + segUnits flags data.length ≤ v.wrote.length + 2 ∧
      (flags.fin = false → n1 = n ∧ (n1 + segUnits flags data.length ≤ mx ∨
          n1 + segUnits flags data.length ≤ v.wrote.length + 1)) ∧
      (flags.fin = true → n1 + data.length ≤ v.wrote.length + 1) := by
  have hmx := h.max_le
  have hnm := h.nxt_max
  have hun := h.una_nxt
  have hum := h.una_max
  have hcc := h.una_add_cc
  have hlen : data.length = 0 ∨ n + data.length ≤ v.wrote.length + 1 := by
    by_cases hd : data = []
    · exact .inl (length_eq_zero_iff.mpr hd)
    · obtain ⟨h1, h2, -⟩ := hc.text hd
      omega
  unfold segUnits
  cases hf : flags.fin with
  | false =>
    have hn1 : n1 = n := hs.else_ (by simp [hf])
    cases hsyn : flags.syn with
    | true =>
      obtain ⟨h0, hd, -⟩ := hc.syn hsyn
      simp only [hd, length_nil, if_true]
      refine ⟨by omega, by omega, by omega, ?_, fun _ => ⟨hn1, ?_⟩, by simp⟩ <;> simp <;> omega
    | false => refine ⟨by omega, by omega, by omega, ?_, fun _ => ⟨hn1, ?_⟩, by simp⟩ <;> simp <;> omega
  | true =>
    have hsyn : flags.syn = false := by
      cases hsyn : flags.syn with
      | false => rfl
      | true =>
        have := (hc.syn hsyn).2.2
        simp [hf] at this
    simp only [hsyn, Bool.false_eq_true, if_false, if_true]
    have hn1 : (n1 = n - 1 ∧ n = mx) ∨ (n1 = n ∧ n ≤ v.wrote.length + 1) := by
      by_cases hre : v.sentfin = true ∧ n = mx
      · exact .inl ⟨hs.resend hf hre.1 hre.2, hre.2⟩
      · refine .inr ⟨hs.else_ fun hh => hre hh.2, ?_⟩
        by_contra hgt
        have hmax : mx = v.wrote.length + 2 := by omega
        exact hre ⟨(h.max_fin hmax).1, by omega⟩
    refine ⟨by omega, by omega, by omega, ?_, by simp, fun _ => ?_⟩ <;> omega

/-- When the data is not cut short, the FIN has the number after the last byte. -/
theorem fin_place (hm : m.fin) (hf : flags.fin = true) (ha : 1 ≤ v.acked) :
    n1 + data.length = v.wrote.length + 1 := by
  have hx := h.exact_ hm
  obtain ⟨hst, hcut⟩ := hc.fin hf
  have hge := hcut hm ha
  have hle := (end_le h hc hs).2.2.2.2.2 hf
  have hacct : v.acked + v.cc = v.wrote.length + 1 := by
    rcases h.acct with ⟨h1, -⟩ | ⟨-, h2⟩ | ⟨h1, -⟩
    · omega
    · exact h2
    · have := h.fin_ack h1
      simp [hst] at this
  by_cases hre : v.sentfin = true ∧ n = mx
  · -- the FIN was sent before, so `snd_max` is behind it
    have hmx := hx.fin_max hre.1 ha hst
    have hn1 := hs.resend hf hre.1 hre.2
    omega
  · have hn1 : n1 = n := hs.else_ (fun hh => hre hh.2)
    omega

theorem una_le_start (hm : m.fin) : (v.acked : Int) ≤ n1 := by
  have hx := h.exact_ hm
  have hun := hx.una_nxt
  by_cases hre : flags.fin = true ∧ v.sentfin = true ∧ n = mx
  · have hn1 := hs.resend hre.1 hre.2.1 hre.2.2
    rcases Nat.eq_zero_or_pos v.acked with h0 | hpos
    · have := (hx.sentfin hre.2.1).2
      omega
    · have hst := (hc.fin hre.1).1
      have hmx := hx.fin_max hre.2.1 hpos hst
      have hne : v.acked ≠ v.wrote.length + 2 := by
        intro he
        have := h.fin_ack he
        simp [hst] at this
      omega
  · have hn1 := hs.else_ hre
    omega

theorem sentOk_new (hm : m.fin) {seg : OutSeg} (hdata : seg.data = data)
    (hfin : seg.tiFlags.fin = flags.fin)
    (hseq : data ≠ [] ∨ flags.fin = true → seg.tiSeq = adv v.iss n1) :
    SentOk v.wrote ⟨v.iss, v.acked, seg⟩ := by
  intro ha hne
  simp only [hdata, hfin] at ha hne ⊢
  have hun := una_le_start h hc hs hm
  obtain ⟨p, hp⟩ : ∃ p : Nat, n1 = 1 + p := ⟨(n1 - 1).toNat, by omega⟩
  have hend : n1 + data.length ≤ v.wrote.length + 1 ∧ n1 ≤ v.acked + v.cc := by
    by_cases hf : flags.fin = true
    · have := fin_place h hc hs hm hf ha
      refine ⟨by omega, ?_⟩
      rcases h.acct with ⟨h1, -⟩ | ⟨-, h2⟩ | ⟨h1, h2⟩ <;> omega
    · have hd : data ≠ [] := hne.resolve_right hf
      have hn1 : n1 = n := hs.else_ (fun hh => hf hh.1)
      obtain ⟨h1, h2, -⟩ := hc.text hd
      have hpos : 0 < data.length := length_pos_iff.mpr hd
      have := h.una_add_cc.2 (by omega)
      omega
  have hcc := h.cc_lt
  refine ⟨p, by omega, by omega, by rw [hseq hne, hp], ?_, by omega, ?_⟩
  · by_cases hd : data = []
    · simp [hd]
    · obtain ⟨h1, h2, h3⟩ := hc.text hd
      have hn1 : n1 = n := by
        by_cases hre : flags.fin = true ∧ v.sentfin = true ∧ n = mx
        · have hmx := (h.exact_ hm).fin_max hre.2.1 ha (hc.fin hre.1).1
          have := h.una_add_cc.2 (by omega)
          omega
        · exact hs.else_ hre
      have hdrop : (v.mb.flatMap chainBytes).drop (n - v.acked).toNat = v.wrote.drop p := by
        rw [h.bytes, drop_drop]
        congr 1
        have hsum : v.acked + v.cc = v.wrote.length + 1 := by
          rcases h.acct with ⟨h4, -⟩ | ⟨-, h4⟩ | ⟨h4, h5⟩ <;> omega
        omega
      rw [hdrop] at h3
      exact h3
  · intro hf
    have := fin_place h hc hs hm hf ha
    omega

theorem syn_max_le (hst : v.st = .synSent ∨ v.st = .synReceived)
    (hl : Lands v flags data.length mx n1 n2 mx2 sf) : mx2 ≤ 1 := by
  obtain ⟨ha, hm1⟩ := h.syn hst
  have hnm := h.nxt_max
  have hnf : flags.fin = false := by
    cases hf : flags.fin with
    | false => rfl
    | true =>
      have := (hc.fin hf).1
      rcases hst with h1 | h1 <;> simp [h1, finState, tcpOutflags] at this
  have hn : n1 = n := hs.else_ (by simp [hnf])
  have hd : data = [] := by
    by_contra hd
    obtain ⟨h1, h2, -⟩ := hc.text hd
    have hpos : 0 < data.length := length_pos_iff.mpr hd
    have := (h.empty ha).2
    omega
  have hu : segUnits flags data.length = if flags.syn then 1 else 0 := by simp [segUnits, hnf, hd]
  have hlen : data.length = 0 := by simp [hd]
  cases hsy : flags.syn with
  | true =>
    have := (hc.syn hsy).1
    rcases hl with ⟨h2, hm2, -⟩ | ⟨h2, hm2, -⟩ <;> omega
  | false =>
    rw [hsy, if_neg (by simp)] at hu
    rcases hl with ⟨h2, hm2, -⟩ | ⟨h2, hm2, -⟩ <;> omega

variable (hl : Lands v flags data.length mx n1 n2 mx2 sf)
include hl

theorem place_bounds : mx ≤ mx2 ∧ n2 ≤ mx2 ∧ mx2 ≤ v.wrote.length + 2 ∧ (v.acked : Int) ≤ n2 + 1 ∧
    n1 ≤ n2 := by
  obtain ⟨hn1, hn1', hun1, hend, -, -⟩ := end_le h hc hs
  have hmx := h.max_le
  have hunits := segUnits_bounds flags data.length
  rcases hl with ⟨h2, hm2, -⟩ | ⟨h2, hm2, -⟩ <;> omega

/-- `snd_max` is behind the FIN only if a FIN was sent before or with this segment. -/
theorem last_place (he : mx2 = v.wrote.length + 2) :
    (v.sentfin = true ∧ stillOpen v.st = false) ∨ (flags.fin = true ∧ sf = true) := by
  obtain ⟨-, -, -, hend, hnofin, hfinend⟩ := end_le h hc hs
  by_cases hold : mx = v.wrote.length + 2
  · exact .inl (h.max_fin hold)
  have hunits := segUnits_bounds flags data.length
  cases hf : flags.fin with
  | false =>
    have hnf := (hnofin hf).2
    rcases hl with ⟨h2, hm2, -⟩ | ⟨h2, hm2, -⟩ <;> omega
  | true =>
    have hfe := hfinend hf
    rcases hl with ⟨-, -, hsf⟩ | ⟨h2, hm2, -⟩
    · exact .inr ⟨rfl, by simp [hsf, hf]⟩
    · omega

variable {seg : OutSeg} (hdata : seg.data = data) (hfin : seg.tiFlags.fin = flags.fin)
  (hseq : data ≠ [] ∨ flags.fin = true → seg.tiSeq = adv v.iss n1)
include hdata hfin hseq

theorem ExactPos.advance (hm : m.fin) : ExactPos { v with
      nxt := adv v.iss n2, max := adv v.iss mx2, sentfin := sf
      sent := ⟨v.iss, v.acked, seg⟩ :: v.sent } n2 mx2 := by
  obtain ⟨hmx, -, hle, -, hn⟩ := place_bounds h hc hs hl
  have hx := h.exact_ hm
  have hst := una_le_start h hc hs hm
  have hunits := (segUnits_bounds flags data.length).2
  have hsf := (Lands.sentfin hl).1
  refine ⟨by show (v.acked : Int) ≤ n2; omega, ?_, ?_, ?_, ?_⟩
  · intro hh
    rcases hsf hh with h1 | h1
    · have := hx.sentfin h1
      exact ⟨this.1, by omega⟩
    · refine ⟨stillOpen_of_finState (hc.fin h1).1, ?_⟩
      have := hunits h1
      rcases hl with ⟨h2, hm2, -⟩ | ⟨h2, hm2, hsf'⟩
      · omega
      · have := (hx.sentfin (hsf' ▸ hh)).2
        omega
  · intro hh ha hfs
    show mx2 = v.wrote.length + 2
    by_cases hold : v.sentfin = true
    · have := hx.fin_max hold ha hfs
      omega
    · have hf := (hsf hh).resolve_left hold
      have hp := fin_place h hc hs hm hf ha
      have := hunits hf
      rcases hl with ⟨h2, hm2, -⟩ | ⟨h2, hm2, hsf'⟩
      · omega
      · exact absurd (hsf' ▸ hh) hold
  · intro g hg hgf
    rcases mem_cons.mp hg with rfl | hg
    · have hf : flags.fin = true := by rw [← hfin]; exact hgf
      exact h.cant (.inr (finWait1_le_of_finState (hc.fin hf).1))
    · exact hx.fin_cant g hg hgf
  · intro g hg
    rcases mem_cons.mp hg with rfl | hg
    · exact sentOk_new h hc hs hm hdata hfin hseq
    · exact hx.sent g hg

/-- **Sending a segment keeps the invariant.** -/
theorem SendPos.advance : mx ≤ mx2 ∧ SendPos m { v with
      nxt := adv v.iss n2, max := adv v.iss mx2, sentfin := sf
      sent := ⟨v.iss, v.acked, seg⟩ :: v.sent } n2 mx2 := by
  obtain ⟨hmx, hn2, hle, hun, -⟩ := place_bounds h hc hs hl
  obtain ⟨hsf, hsfmono⟩ := Lands.sentfin hl
  have hfinst : flags.fin = true → finState v.st = true := fun hf => (hc.fin hf).1
  refine ⟨hmx, ?_⟩
  exact
    { h with
      nxt_eq := rfl
      max_eq := rfl
      nxt_max := hn2
      una_max := le_trans h.una_max hmx
      una_nxt := hun
      max_le := hle
      max_fin := by
        intro he
        rcases last_place h hc hs hl he with ⟨h1, h2⟩ | ⟨h1, h2⟩
        · exact ⟨hsfmono h1, h2⟩
        · exact ⟨h2, stillOpen_of_finState (hfinst h1)⟩
      cant := by
        rintro (hh | hh)
        · rcases hsf hh with h1 | h1
          · exact h.cant (.inl h1)
          · exact h.cant (.inr (finWait1_le_of_finState (hfinst h1)))
        · exact h.cant (.inr hh)
      syn := fun hst => ⟨(h.syn hst).1, syn_max_le h hc hs hst hl⟩
      listen := by
        intro hst
        rcases h.listen hst with h1 | ⟨h1, h2⟩
        · exact .inl h1
        · refine .inr ⟨h1, ?_⟩
          cases hsfv : sf with
          | false => rfl
          | true =>
            rcases hsf hsfv with h3 | h3
            · simp [h2] at h3
            · have := hfinst h3
              have hst' : v.st = .listen := hst
              simp [hst', finState, tcpOutflags] at this
      exact_ := ExactPos.advance h hc hs hl hdata hfin hseq }

end

end Advance

end Anp
