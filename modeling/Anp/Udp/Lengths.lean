import Anp.Kern.Sosend
import Anp.Udp.Output

/-!
# Lengths — the length fields of a UDP datagram

`sosend` limits a datagram by `sb_hiwat`, which `SO_SNDBUF` sets and `sbreserve` bounds; `ui_ulen`
and `ip_len` have 16 bits.
-/

namespace Anp

open Machine List

variable {n : Nat} {data : List Byte} {space : Int} {a : UdpSock} {inp : Inpcb} {m : List Mbuf}

/-! ## What `sosend` passes down -/

theorem sndGather_ne_nil {atomic first : Bool} {mcl : Nat → Bool} {r : List Mbuf × List Byte × Int}
    (h : sndGather atomic mcl n first data space = some r) : r.1 ≠ [] := by
  cases n with
  | zero => cases h
  | succ n =>
    rw [sndGather] at h
    split at h
    · cases h
      exact cons_ne_nil _ _
    · obtain ⟨q, -, rfl⟩ := Option.map_eq_some_iff.mp h
      exact cons_ne_nil _ _

/-- A packet: there is a first mbuf, and it holds the length of the chain. -/
def Packet (m : List Mbuf) : Prop := m.head?.bind (·.mPkthdr) = some (chainLen m : Int)

/-- What `sosend` passes down is a packet with its length in `m_pkthdr`. -/
theorem sndChain_packet {ω : Type} {pr : SndProto ω} {a : SndArgs}
    {c : List Mbuf × List Byte × Int} (htop : a.top = none)
    (h : sndChain pr a data space = some c) : Packet c.1 := by
  rw [sndChain, htop] at h
  obtain ⟨r, hr, rfl⟩ := Option.map_eq_some_iff.mp h
  have hne := sndGather_ne_nil hr
  cases hm : r.1 with
  | nil => exact absurd hm hne
  | cons m ms => rfl

/-- All of a datagram goes into one chain if there is space for it and for the headers. -/
theorem sndGather_all {mcl : Nat → Bool} {first : Bool} (hn : data.length < n) (hdata : data ≠ [])
    (hspace : (data.length : Int) + (if first then soMaxHdr else 0) ≤ space) (hlt : space < 2 ^ 31) :
    ∃ r, sndGather true mcl n first data space = some r ∧ chainLen r.1 = data.length := by
  induction n generalizing first data space with
  | zero => omega
  | succ n ih =>
    have hpos := length_pos_iff.mpr hdata
    -- an mbuf takes a byte or more, and the space left is enough for the rest
    have hm : 0 < (sndMbuf true first (mcl data.length) data space).1.mLen ∧
        (sndMbuf true first (mcl data.length) data space).1.mLen ≤ data.length ∧
        (data.length : Int) - (sndMbuf true first (mcl data.length) data space).1.mLen ≤
          (sndMbuf true first (mcl data.length) data space).2 ∧
        (sndMbuf true first (mcl data.length) data space).2 < 2 ^ 31 := by
      refine ⟨sndMbuf_pos true first _ hdata (u32_ne_zero (by split at hspace <;> omega) hlt), ?_⟩
      cases first <;> simp only [sndMbuf, Mbuf.mLen] <;> split_ifs <;>
        simp_all [length_take, soMaxHdr, maxLinkhdr, maxProtohdr, mclbytes, mlen, mhlen] <;> omega
    rw [sndGather]
    generalize sndMbuf true first (mcl data.length) data space = m at hm
    obtain ⟨hbyte, hle, hrest, hlt'⟩ := hm
    split
    next hstop =>
      refine ⟨_, rfl, ?_⟩
      have hnil : data.drop m.1.mLen = [] := by
        rcases hstop with hnil | hno
        · exact hnil
        · apply drop_of_length_le
          by_contra hgt
          exact hno ⟨by omega, rfl⟩
      have hlen := congrArg List.length hnil
      rw [length_drop, length_nil] at hlen
      rw [chainLen_cons, chainLen_nil]
      omega
    next hmore =>
      have hne : data.drop m.1.mLen ≠ [] := fun h => hmore (.inl h)
      have hspace' : ((data.drop m.1.mLen).length : Int) + (if false then soMaxHdr else 0) ≤
          m.2 := by
        simp
        omega
      obtain ⟨r, hr, hlen⟩ := ih (by rw [length_drop]; omega) hne hspace' hlt'
      refine ⟨_, by rw [hr]; rfl, ?_⟩
      rw [chainLen_cons, hlen, length_drop]
      omega

/-! ## What `udp_output` makes of it -/

/-- The length fields of the packet given to `ip_output` are those of a datagram with the data of
`m`, and it has that many octets. -/
structure UdpExact (m : List Mbuf) (call : IpCall) : Prop where
  ulen : rdShort (chainBytes call.m0) 24 = chainLen m + 8
  len : call.ip.len = chainLen m + 28
  octets : chainLen call.m0 = chainLen m + 28

/-- Nothing is sent and the call fails, or the lengths are exact. -/
def UdpRes.Exact (m : List Mbuf) (r : UdpRes) : Prop :=
  match r.sent with
  | none => r.error ≠ none
  | some call => UdpExact m call

/-- The call comes as far as `ip_output`. -/
def UdpSends (e : PcbEnv) (n : Nat) (a : UdpSock) (h : PcbHead) (inp : Inpcb) (m : List Mbuf) :
    Option SockaddrIn → Prop
  | some sin => inp.faddr = 0 ∧ Connects e n h inp sin ∧ mRoom a.mget 28 m = true
  | none => inp.faddr ≠ 0 ∧ mRoom a.mget 28 m = true

theorem chainBytes_mPrepend {mget : Bool} {b : List Byte} {m m' : List Mbuf}
    (h : mPrepend mget b m = some m') : chainBytes m' = b ++ chainBytes m := by
  cases m with
  | nil => cases h
  | cons m ms =>
    rw [mPrepend] at h
    split at h
    · cases h
      simp
    split at h
    · cases h
    · cases h
      simp

theorem udpPacket_len {call : IpCall} (hp : Packet m) (h : udpPacket a inp m = some call) :
    call.ip.len = (28 + chainLen m) % 65536 := by
  rw [udpPacket, hp, Option.getD_some, Int.toNat_natCast] at h
  obtain ⟨m0, -, h⟩ := Option.bind_eq_some_iff.mp h
  obtain ⟨m1, -, rfl⟩ := Option.map_eq_some_iff.mp h
  rfl

theorem udpPacket_exact {call : IpCall} (hp : Packet m) (h : udpPacket a inp m = some call) :
    UdpExact m call ↔ chainLen m ≤ 65507 := by
  have hlen := udpPacket_len hp h
  rw [udpPacket, hp, Option.getD_some, Int.toNat_natCast] at h
  obtain ⟨m0, -, h⟩ := Option.bind_eq_some_iff.mp h
  obtain ⟨m1, hm1, rfl⟩ := Option.map_eq_some_iff.mp h
  have hbytes := chainBytes_mPrepend hm1
  constructor
  · intro hx
    have := hx.len
    omega
  · intro hle
    refine ⟨?_, ?_, ?_⟩
    · show rdShort (chainBytes m1) 24 = chainLen m + 8
      rw [hbytes]
      show 256 * (UInt8.ofNat ((chainLen m + 8) % 65536 / 256)).toNat +
        (UInt8.ofNat ((chainLen m + 8) % 65536)).toNat = _
      rw [UInt8.toNat_ofNat', UInt8.toNat_ofNat']
      omega
    · omega
    · show chainLen m1 = chainLen m + 28
      rw [chainLen, hbytes, length_append, length_udpiphdr, Nat.add_comm, chainLen]

theorem udpOutput_sent {e : PcbEnv} {ipFails : IpCall → Bool} {h : PcbHead} {addr : Option SockaddrIn} {r : UdpRes}
    (hr : udpOutput e n a ipFails h inp m addr = some r) :
    (r.sent = none ∧ r.error ≠ none ∧ ¬UdpSends e n a h inp m addr) ∨
      ∃ inp' call, udpPacket a inp' m = some call ∧ r.sent = some call ∧
        UdpSends e n a h inp m addr := by
  have hsome (q : Inpcb) := udpPacket_isSome a q m
  cases addr with
  | none =>
    rw [udpOutput] at hr
    split at hr
    next hun =>
      cases hr
      exact .inl ⟨rfl, by simp, fun hs => hs.1 hun⟩
    next hcon =>
    split at hr
    next hp =>
      cases hr
      refine .inl ⟨rfl, by simp, fun hs => ?_⟩
      rw [UdpSends, ← hsome inp, hp] at hs
      cases hs.2
    next call hp =>
      cases hr
      refine .inr ⟨inp, call, hp, rfl, hcon, ?_⟩
      rw [← hsome inp, hp]
      rfl
  | some sin =>
    rw [udpOutput] at hr
    split at hr
    next hcon =>
      cases hr
      exact .inl ⟨rfl, by simp, fun hs => hcon hs.1⟩
    next hun =>
    obtain ⟨c, hc, rfl⟩ := Option.map_eq_some_iff.mp hr
    cases herr : c.error with
    | some err =>
      refine .inl ⟨rfl, by simp, fun hs => ?_⟩
      obtain ⟨c', hc', hnone⟩ := hs.2.1
      rw [hc] at hc'
      cases hc'
      rw [herr] at hnone
      cases hnone
    | none =>
      cases hp : udpPacket a c.inp m with
      | none =>
        refine .inl ⟨rfl, by simp, fun hs => ?_⟩
        rw [UdpSends, ← hsome c.inp, hp] at hs
        cases hs.2.2
      | some call =>
        refine .inr ⟨c.inp, call, hp, rfl, not_not.mp hun, ⟨c, hc, herr⟩, ?_⟩
        rw [← hsome c.inp, hp]
        rfl

/-- **The length fields are exact**, for a datagram that `sosend` passes down, exactly if it is not
sent or has at most 65507 octets of data. -/
theorem udp_lengths {ω : Type} (pr : SndProto ω) (s : SndArgs) (data : List Byte) (space : Int)
    (c : List Mbuf × List Byte × Int) (htop : s.top = none)
    (hc : sndChain pr s data space = some c) (e : PcbEnv) (n : Nat) (a : UdpSock)
    (ipFails : IpCall → Bool) (h : PcbHead) (inp : Inpcb) (addr : Option SockaddrIn) (r : UdpRes)
    (hr : udpOutput e n a ipFails h inp c.1 addr = some r) :
    r.Exact c.1 ↔ (UdpSends e n a h inp c.1 addr → chainLen c.1 ≤ 65507) := by
  rw [UdpRes.Exact]
  rcases udpOutput_sent hr with ⟨hsent, herr, hno⟩ | ⟨inp', call, hp, hsent, hyes⟩
  · rw [hsent]
    exact iff_of_true herr fun hs => absurd hs hno
  · rw [hsent]
    have hiff := udpPacket_exact (sndChain_packet htop hc) hp
    exact ⟨fun hx _ => hiff.mp hx, fun hle => hiff.mpr (hle hyes)⟩

/-- A protocol that sends datagrams, as the switch has it for UDP. -/
def dgramProto : SndProto Unit where
  prAtomic := true
  prConnrequired := false
  usrreq := fun σ _ => (σ, 0)

/-- A pcb connected to port 7 of another host. -/
def echoPcb : Inpcb :=
  { id := 0, laddr := 0x0a000001, lport := 1024, faddr := 0x0a000002, fport := 7 }

/-- Three octets. -/
theorem udp_lengths_three :
    ∃ c r, sndChain dgramProto { mcl := fun _ => true } [1, 2, 3] 9216 = some c ∧
      udpOutput oneAddr 1 {} (fun _ => false) { list := [echoPcb] } echoPcb c.1 none = some r ∧
      r.sent.isSome ∧ r.Exact c.1 := by
  refine ⟨_, _, rfl, rfl, rfl, ?_⟩
  exact (udp_lengths dgramProto { mcl := fun _ => true } [1, 2, 3] 9216 _ rfl rfl oneAddr 1 {}
    (fun _ => false) { list := [echoPcb] } echoPcb none _ rfl).mpr fun _ => by decide

/-- With `SO_SNDBUF` 100000, which is accepted, 65508 octets are sent as one datagram with the
length fields of no data. -/
theorem udp_lengths_reduced :
    (sbreserve {} 100000).isSome ∧ sndTest dgramProto { mcl := fun _ => true } (sndReserved 100000)
        { data := List.replicate 65508 0 } = .go 100000 ∧
      ∃ c r, sndChain dgramProto { mcl := fun _ => true } (List.replicate 65508 0) 100000 = some c ∧
        udpOutput oneAddr 1 {} (fun _ => false) { list := [echoPcb] } echoPcb c.1 none = some r ∧
        r.error = none ∧ (∃ call, r.sent = some call ∧ call.ip.len = 0) ∧ ¬ r.Exact c.1 := by
  have hlen : (List.replicate 65508 (0 : Byte)).length = 65508 := length_replicate
  refine ⟨by decide, ?_, ?_⟩
  · simp only [sndTest, SndArgs.resid, SndVar.clen, hlen]
    decide
  · obtain ⟨g, hg, hsum⟩ : ∃ g, sndGather true (fun _ => true) 65509 true
        (List.replicate 65508 0) 100000 = some g ∧ chainLen g.1 = _ :=
      sndGather_all (by rw [hlen]; decide) (ne_nil_of_length_pos (by rw [hlen]; decide))
        (by rw [hlen]; decide) (by decide)
    obtain ⟨c, hc, hcl⟩ : ∃ c, sndChain dgramProto { mcl := fun _ => true }
        (List.replicate 65508 0) 100000 = some c ∧ chainLen c.1 = 65508 := by
      refine ⟨(sndHead (false && decide (g.2.1 = [])) g.1, g.2), ?_, ?_⟩
      · simp only [sndChain, hlen]
        show (sndGather true (fun _ => true) 65509 true _ 100000).map _ = _
        rw [hg]
        rfl
      · rw [← hlen, ← hsum]
        cases g.1 <;> rfl
    have hp := sndChain_packet rfl hc
    have hroom : mRoom true 28 c.1 = true := by
      cases hm : c.1 with
      | nil =>
        rw [hm] at hcl
        cases hcl
      | cons m ms => rw [mRoom, Bool.or_true]
    obtain ⟨call, hcall⟩ := Option.isSome_iff_exists.mp
      ((udpPacket_isSome {} echoPcb c.1).trans hroom)
    have hout : udpOutput oneAddr 1 {} (fun _ => false) { list := [echoPcb] } echoPcb c.1 none =
        some ⟨{ list := [echoPcb] }, none, some call⟩ := by
      rw [udpOutput]
      dsimp only
      rw [if_neg (by decide), hcall]
      rfl
    refine ⟨c, _, hc, hout, rfl, ⟨call, rfl, ?_⟩, fun hx => ?_⟩
    · rw [udpPacket_len hp hcall, hcl]
    · have hle := (udpPacket_exact hp hcall).mp hx
      omega

end Anp
