import Anp.Tcp.SendOutput

/-!
# SendMoves — the other moves in the send sequence space

What happens to the send half outside of `tcp_output`: a connection starts, the user writes, the
peer acknowledges, the state changes. Each is one lemma about `SendPos`, in the places counted
from `iss`; the modules that follow only have to show which move a piece of code makes.
-/

namespace Anp

open Cyclic Machine List

variable {m : Mode} {v : Snd} {n mx : Int}

/-! ## A connection starts -/

theorem SendPos.start (hlog : v.acked = 0 ∧ v.wrote = [])
    (hbuf : v.cc = 0 ∧ v.mb.flatMap chainBytes = [])
    (hseq : v.una = v.iss ∧ v.nxt = v.iss ∧ v.max = v.iss)
    (hst : v.st.toNat < TcpState.finWait1.toNat) (hsf : v.sentfin = true → v.cant = true)
    (hlis : v.st = .listen → v.accept = true ∨ v.sentfin = false)
    (hfin : m.fin → v.sentfin = false ∧
      ∀ g ∈ v.sent, SentOk v.wrote g ∧ (g.seg.tiFlags.fin = true → v.cant = true))
    (hone : m.one → v.mb.length ≤ 1) : SendPos m v 0 0 where
  una_eq := by rw [hseq.1, hlog.1]; simp
  nxt_eq := by rw [hseq.2.1, adv_zero]
  max_eq := by rw [hseq.2.2, adv_zero]
  bytes := by rw [hbuf.2, hlog.2, drop_nil]
  cc_le := by rw [hbuf.1]; exact Nat.zero_le _
  cc_lt := by rw [hbuf.1]; decide
  acct := .inl hlog
  nxt_max := le_refl _
  una_max := by rw [hlog.1]; simp
  una_nxt := by rw [hlog.1]; simp
  max_le := by omega
  max_fin := by intro h; omega
  fin_ack := by intro h; rw [hlog.1] at h; omega
  cant := by
    rintro (h | h)
    · exact hsf h
    · omega
  syn := fun _ => ⟨hlog.1, by omega⟩
  drained := by
    intro h
    have : TcpState.finWait1.toNat ≤ TcpState.finWait2.toNat := by decide
    omega
  conn := fun h => absurd hbuf.1 h
  listen := fun h => (hlis h).imp_right fun h => ⟨hlog.1, h⟩
  exact_ := by
    intro hm
    obtain ⟨hsf, hsent⟩ := hfin hm
    refine ⟨by rw [hlog.1]; simp, ?_, ?_, fun g hg => (hsent g hg).2, fun g hg => (hsent g hg).1⟩
    · intro h
      rw [hsf] at h
      simp at h
    · intro h
      rw [hsf] at h
      simp at h
  one := hone

/-! ## The state changes -/

/-- What a new state has to promise: it is not open again, it sends a FIN only if it did or if the
user has just closed, and beyond FIN_WAIT_2 nothing is outstanding. -/
structure MayEnter (m : Mode) (v : Snd) (st' : TcpState) : Prop where
  opened : stillOpen v.st = false → stillOpen st' = false
  fin : finState st' = true → finState v.st = true ∨ stillOpen v.st = true
  cant : TcpState.finWait1.toNat ≤ st'.toNat → v.cant = true
  syn : st' ≠ .synSent ∧ st' ≠ .synReceived
  drained : TcpState.finWait2.toNat ≤ st'.toNat → v.cc = 0 ∧ (m.late → v.acked = v.wrote.length + 2)
  listen : st' = .listen → v.accept = true

theorem SendPos.setSt (h : SendPos m v n mx) {st' : TcpState} (he : MayEnter m v st') :
    SendPos m { v with st := st' } n mx :=
  { h with
    max_fin := fun hm => ⟨(h.max_fin hm).1, he.opened (h.max_fin hm).2⟩
    fin_ack := by
      intro hak
      cases hf : finState st' with
      | false => rfl
      | true =>
        have hak' : v.acked = v.wrote.length + 2 := hak
        rcases he.fin hf with h1 | h1
        · rw [h.fin_ack hak'] at h1
          exact h1.symm
        · have hmx : mx = v.wrote.length + 2 := by
            have h2 := h.max_le
            have h3 := h.una_max
            omega
          rw [(h.max_fin hmx).2] at h1
          exact h1.symm
    cant := by
      rintro (h1 | h1)
      · exact h.cant (Or.inl h1)
      · exact he.cant h1
    syn := fun h1 => absurd h1 (by rintro (h2 | h2); exacts [he.syn.1 h2, he.syn.2 h2])
    drained := he.drained
    listen := fun h1 => .inl (he.listen h1)
    exact_ := by
      intro hm
      have hx := h.exact_ hm
      refine ⟨hx.una_nxt, fun h1 => ⟨he.opened (hx.sentfin h1).1, (hx.sentfin h1).2⟩, ?_,
        hx.fin_cant, hx.sent⟩
      intro h1 h2 h3
      rcases he.fin h3 with h4 | h4
      · exact hx.fin_max h1 h2 h4
      · rw [(hx.sentfin h1).1] at h4
        simp at h4 }

/-- The flags of the socket change; whoever is cut off from writing stays so. -/
theorem SendPos.setSo (h : SendPos m v n mx) {cant conn nofd : Bool} {queue : SoQueue}
    (hcant : v.cant = true → cant = true) (hconn : v.cc ≠ 0 → conn = true) :
    SendPos m { v with cant := cant, conn := conn, nofd := nofd, queue := queue } n mx :=
  { h with
    cant := fun h1 => hcant (h.cant h1)
    conn := hconn
    exact_ := fun hm => { h.exact_ hm with
      fin_cant := fun g hg hf => hcant ((h.exact_ hm).fin_cant g hg hf) } }

/-! ## The user writes -/

theorem SentOk.append {wrote : List Byte} {g : Sent} (h : SentOk wrote g)
    (hf : g.seg.tiFlags.fin = false) (d : List Byte) : SentOk (wrote ++ d) g := by
  intro ha hne
  obtain ⟨p, h1, h2, h3, h4, h5, -⟩ := h ha hne
  refine ⟨p, h1, h2, h3, ?_, by rw [length_append]; omega, by simp [hf]⟩
  have hp : p ≤ wrote.length := by omega
  rw [drop_append_of_le_length hp, take_append_of_le_length]
  · exact h4
  · rw [length_drop]
    omega

theorem SendPos.write (h : SendPos m v n mx) {d : List Byte} {mb : List (List Mbuf)}
    (hcant : v.cant = false) (hconn : v.conn = true) (hack : 1 ≤ v.acked)
    (hmb : mb.flatMap chainBytes = v.mb.flatMap chainBytes ++ d)
    (hlt : v.cc + d.length < 2147483645) (hone : m.one → mb.length ≤ 1) :
    SendPos m { v with cc := v.cc + d.length, mb := mb, wrote := v.wrote ++ d } n mx := by
  have hmx := h.max_le
  have hum := h.una_max
  have hnofin : v.sentfin = false := by
    cases hsf : v.sentfin with
    | false => rfl
    | true =>
      rw [h.cant (Or.inl hsf)] at hcant
      simp at hcant
  have hne : mx ≠ v.wrote.length + 2 := by
    intro he
    rw [(h.max_fin he).1] at hnofin
    simp at hnofin
  have hst : ¬TcpState.finWait1.toNat ≤ v.st.toNat := by
    intro hst
    rw [h.cant (Or.inr hst)] at hcant
    simp at hcant
  have hlen : (v.wrote ++ d).length = v.wrote.length + d.length := length_append
  exact
    { h with
      bytes := by
        show mb.flatMap chainBytes = (v.wrote ++ d).drop ((v.wrote ++ d).length - (v.cc + d.length))
        rw [hmb, h.bytes, drop_append_of_le_length (by omega)]
        congr 2
        omega
      cc_le := by
        have hcc := h.cc_le
        show v.cc + d.length ≤ (v.wrote ++ d).length
        omega
      cc_lt := hlt
      acct := by
        right
        show (1 ≤ v.acked ∧ v.acked + (v.cc + d.length) = (v.wrote ++ d).length + 1) ∨ _
        rcases h.acct with ⟨h1, -⟩ | ⟨h1, h2⟩ | ⟨h1, -⟩
        · omega
        · exact .inl ⟨h1, by omega⟩
        · omega
      max_le := by
        show mx ≤ (v.wrote ++ d).length + 2
        omega
      max_fin := by
        intro he
        have he' : mx = (v.wrote ++ d).length + 2 := he
        omega
      fin_ack := by
        intro he
        have he' : v.acked = (v.wrote ++ d).length + 2 := he
        omega
      drained := by
        intro hd
        have : TcpState.finWait1.toNat ≤ TcpState.finWait2.toNat := by decide
        exact absurd (le_trans this hd) hst
      conn := fun _ => hconn
      exact_ := by
        intro hm
        have hx := h.exact_ hm
        refine ⟨hx.una_nxt, hx.sentfin, ?_, hx.fin_cant, ?_⟩
        · intro h1
          have h1' : v.sentfin = true := h1
          rw [hnofin] at h1'
          simp at h1'
        · intro g hg
          refine (hx.sent g hg).append ?_ d
          cases hf : g.seg.tiFlags.fin with
          | false => rfl
          | true =>
            rw [hx.fin_cant g hg hf] at hcant
            simp at hcant
      one := hone }

/-! ## The peer acknowledges -/

theorem SendPos.ack_place (h : SendPos m v n mx) {ack : Seq} (hgt : 0 < gap ack v.una)
    (hle : seqGT ack v.max = false) :
    ∃ k : Nat, 1 ≤ k ∧ gap ack v.una = k ∧ ack = adv v.iss (v.acked + k) ∧ v.acked + k ≤ mx ∧
      (k : Int) ≤ v.cc + 2 := by
  obtain ⟨k, hk⟩ : ∃ k : Nat, gap ack v.una = k := ⟨(gap ack v.una).toNat, by omega⟩
  have hack : ack = adv v.iss (v.acked + k) := by
    rw [← adv_gap ack v.una, hk, h.una_eq, adv_adv]
  have hrange := h.range
  have hcc := h.cc_lt
  have hum := h.una_max
  have hkt := (gap_range ack v.una).2
  have hplace : (v.acked + k : Int) ≤ mx := by
    rw [hack, h.max_eq, seqGT_adv (by omega) (by omega)] at hle
    simpa using hle
  exact ⟨k, by omega, hk, hack, hplace, by omega⟩

/-- What a new ACK leads to: a state that still sends a FIN only if the FIN is not covered. -/
structure AckEnter (m : Mode) (v : Snd) (k : Nat) (st' : TcpState) : Prop where
  opened : stillOpen st' = stillOpen v.st
  fin : finState st' = true → finState v.st = true ∧ k ≤ v.cc
  cant : TcpState.finWait1.toNat ≤ st'.toNat → TcpState.finWait1.toNat ≤ v.st.toNat
  syn : st' ≠ .synSent ∧ st' ≠ .synReceived
  drained : TcpState.finWait2.toNat ≤ st'.toNat →
    v.cc ≤ k ∧ (m.late → v.acked + k = v.wrote.length + 2)
  listen : st' = .listen → v.accept = true

/-- **A new ACK.** `k` more numbers are acknowledged; the buffer loses as many bytes, or all of
them when the FIN is acknowledged too. -/
theorem SendPos.ack (h : SendPos m v n mx) {k : Nat} (hk : 1 ≤ k) (hmx : v.acked + k ≤ mx)
    {st' : TcpState} (he : AckEnter m v k st') {mb : List (List Mbuf)}
    (hmb : mb.flatMap chainBytes = (v.mb.flatMap chainBytes).drop (min k v.cc))
    (hone : m.one → mb.length ≤ 1) :
    SendPos m { v with
      st := st', una := adv v.iss (v.acked + k), acked := v.acked + k
      nxt := adv v.iss (max n (v.acked + k)), cc := v.cc - min k v.cc, mb := mb }
      (max n (v.acked + k)) mx := by
  have hml := h.max_le
  have hnm := h.nxt_max
  -- the FIN is covered exactly when more is acknowledged than the buffer holds
  have hcover : (v.acked = 0 ∧ v.wrote.length = 0 ∧ v.cc = 0) ∨
      (1 ≤ v.acked ∧ v.acked + v.cc = v.wrote.length + 1 ∧ k ≤ v.cc + 1) := by
    rcases h.acct with ⟨h1, h2⟩ | ⟨h1, h2⟩ | ⟨h1, h2⟩
    · exact .inl ⟨h1, by simp [h2], (h.empty h1).2⟩
    · exact .inr ⟨h1, h2, by omega⟩
    · omega
  exact
    { h with
      una_eq := by
        rw [Nat.cast_add]
      nxt_eq := rfl
      bytes := by
        show mb.flatMap chainBytes = v.wrote.drop (v.wrote.length - (v.cc - min k v.cc))
        rw [hmb, h.bytes, drop_drop]
        congr 1
        omega
      cc_le := by
        show v.cc - min k v.cc ≤ v.wrote.length
        omega
      cc_lt := by
        have := h.cc_lt
        show v.cc - min k v.cc < 2147483645
        omega
      acct := by
        show (v.acked + k = 0 ∧ v.wrote = []) ∨
          (1 ≤ v.acked + k ∧ v.acked + k + (v.cc - min k v.cc) = v.wrote.length + 1) ∨
          (v.acked + k = v.wrote.length + 2 ∧ v.cc - min k v.cc = 0)
        omega
      nxt_max := by omega
      una_max := by
        show ((v.acked + k : Nat) : Int) ≤ mx
        omega
      una_nxt := by
        show ((v.acked + k : Nat) : Int) ≤ max n (v.acked + k) + 1
        omega
      max_fin := fun hm => ⟨(h.max_fin hm).1, by rw [he.opened]; exact (h.max_fin hm).2⟩
      fin_ack := by
        intro hak
        have hak' : v.acked + k = v.wrote.length + 2 := hak
        cases hf : finState st' with
        | false => rfl
        | true =>
          obtain ⟨hfs, hkc⟩ := he.fin hf
          omega
      cant := by
        rintro (h1 | h1)
        · exact h.cant (Or.inl h1)
        · exact h.cant (.inr (he.cant h1))
      syn := fun h1 => absurd h1 (by rintro (h2 | h2); exacts [he.syn.1 h2, he.syn.2 h2])
      drained := by
        intro h1
        obtain ⟨h2, h3⟩ := he.drained h1
        refine ⟨?_, h3⟩
        show v.cc - min k v.cc = 0
        omega
      conn := by
        intro hne
        have hne' : v.cc - min k v.cc ≠ 0 := hne
        exact h.conn (by omega)
      listen := fun h1 => .inl (he.listen h1)
      exact_ := by
        intro hm
        have hx := h.exact_ hm
        refine ⟨?_, fun h1 => ⟨by rw [he.opened]; exact (hx.sentfin h1).1, (hx.sentfin h1).2⟩, ?_,
          hx.fin_cant, hx.sent⟩
        · show ((v.acked + k : Nat) : Int) ≤ max n (v.acked + k)
          omega
        · intro h1 h2 h3
          obtain ⟨hfs, hkc⟩ := he.fin h3
          rcases hcover with ⟨h4, h5, h6⟩ | ⟨h4, -⟩
          · omega
          · exact hx.fin_max h1 h4 hfs
      one := hone }

end Anp
