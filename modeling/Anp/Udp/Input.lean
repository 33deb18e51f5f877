import Anp.Ip.Cksum
import Anp.Ip.InPcb
import Anp.Ip.Reass
import Anp.Kern.Soreceive

/-!
# Input — `udp_input`

`netinet/udp_usrreq.c`, with `ip_stripoptions` of `netinet/ip_input.c`. A datagram is measured in
three ways on its way into a socket buffer: `ip_len`, the UDP length, and the lengths of its mbufs.

An mbuf whose `m_len` would be negative is not a value of `Mbuf`; `UdpEnd.negative` is the call
that hands one to `sbappendaddr`.
-/

namespace Anp

open Machine List

/-! ## Up to the checksum -/

def ipStripoptions : List Mbuf → List Mbuf
  | [] => []
  | m :: ms =>
    let olen := 4 * (rd8 m.mData 0 % 16) - 20
    { m with
      mPkthdr := m.mPkthdr.map (· - (olen : Int))
      mData := (UInt8.ofNat (rd8 m.mData 0 / 16 * 16 + 5) :: (m.mData.take 20).tail) ++
        m.mData.drop (20 + olen) } :: ms

/-- The IP and UDP headers in the first mbuf. -/
def udpPull (mget : Bool) (x : IpInput) : Option (List Mbuf) :=
  let m := if 20 < x.iphlen then ipStripoptions x.m else x.m
  if headLen m < 28 then mPullup mget m 28 else some m

/-- The chain cut to the UDP length; `none` for a datagram that is shorter than it says. -/
def udpCut (ipLen : Int) (ulen : Nat) (m : List Mbuf) : Option (List Mbuf) :=
  if ipLen ≠ ulen then
    if (ulen : Int) > ipLen then none else some (mAdj m (ulen - ipLen))
  else some m

/-- `struct ipovly` over the IP header. -/
def udpOverlay (ulen : Nat) : List Mbuf → List Mbuf
  | [] => []
  | m :: ms =>
    { m with
      mData := List.replicate 9 0 ++ (m.mData.drop 9).take 1 ++ wrShort ulen ++ m.mData.drop 12 } ::
        ms

/-- The checksum is off, absent or right. -/
def udpSumOk (udpcksum : Bool) (sum ulen : Nat) (m : List Mbuf) : Bool :=
  !udpcksum || sum == 0 || inCksum (udpOverlay ulen m) (ulen + 20) == 0

/-! ## The sockets -/

/-- What the call finds: the allocations, for each pcb those made for it, and the interface. -/
structure UdpInEnv where
  udpcksum : Bool := true
  /-- `m_pullup`. -/
  gPull : Bool := true
  /-- The address mbuf of `sbappendaddr`. -/
  gSoname : Nat → Bool := fun _ => true
  /-- The mbufs for a copy. -/
  gCopy : Nat → Nat := fun _ => 1000
  /-- The mbuf of `udp_saveopt`. -/
  gOpt : Bool := true
  /-- `INP_RECVDSTADDR`. -/
  recvdstaddr : Nat → Bool := fun _ => false
  /-- `in_broadcast` for the addresses of the interface. -/
  broadcast : Nat → Bool := fun _ => false
  /-- `m_flags & (M_BCAST | M_MCAST)`. -/
  linkBcast : Bool := false

/-- The pcbs, the cache `udp_last_inpcb` (`none` is the head of the list), and the receive
buffers of the sockets. -/
structure UdpSockets where
  h : PcbHead
  last : Option Nat := none
  last_mem : ∀ id, last = some id → (h.get id).isSome := by simp
  rcv : Nat → Sockbuf

inductive UdpEnd where
  | discarded
  | icmp
  | appended
  /-- An mbuf with the negative `m_len` is linked into the buffer, or copied. -/
  | negative (id : Nat) (mLen : Int)
  /-- `m_copy` of a datagram in a cluster. -/
  | fault
  deriving DecidableEq, Repr

/-- `struct sockaddr_in udp_in`. -/
def udpIn (src sport : Nat) : List Byte :=
  [16, 2] ++ wrShort sport ++ wrLong src ++ List.replicate 8 0

def udpSaveopt (dst : Nat) : Mbuf :=
  { mType := .control, mData := wrLong 16 ++ wrLong 0 ++ wrLong 7 ++ wrLong dst }

def setRcv (rcv : Nat → Sockbuf) (id : Nat) (sb : Sockbuf) : Nat → Sockbuf :=
  fun j => if j = id then sb else rcv j

/-- `m_len -= 28`, `m_data += 28`; `none` if that makes `m_len` negative. -/
def udpStrip : List Mbuf → Option (List Mbuf)
  | [] => none
  | m :: ms =>
    if m.mLen < 28 then none
    else some ({ m with mData := m.mData.drop 28, mOff := m.mOff + 28 } :: ms)

/-- The pcb takes datagrams of the multicast or broadcast branch. -/
def udpMatch (src sport dst dport : Nat) (inp : Inpcb) : Bool :=
  inp.lport == dport && (inp.laddr == 0 || inp.laddr == dst) &&
    (inp.faddr == 0 || (inp.faddr == src && inp.fport == sport))

/-- The loop over the pcbs: each match gives the one before it, `last`, a copy. The test of the
socket options binds as `so_options & (… == 0)` and never ends the loop. `none` is a fault. -/
def udpCopies (e : UdpInEnv) (asa : List Byte) (m : List Mbuf) (p : Inpcb → Bool) :
    List Inpcb → Option Nat → (Nat → Sockbuf) → Option (Option Nat × (Nat → Sockbuf))
  | [], last, rcv => some (last, rcv)
  | inp :: l, last, rcv =>
    if p inp then
      match last with
      | none => udpCopies e asa m p l (some inp.id) rcv
      | some id =>
        match mCopym m 0 mCopyall (e.gCopy id) with
        | .ok n =>
          udpCopies e asa m p l (some inp.id)
            (setRcv rcv id (sbappendaddr (rcv id) asa n [] (e.gSoname id)).1)
        | .fault => none
        | _ => udpCopies e asa m p l (some inp.id) rcv
    else udpCopies e asa m p l last rcv

/-- `sbappendaddr` with a first mbuf of a negative length: the check of the space knows only
`m_pkthdr.len`. -/
def udpNegative (e : UdpInEnv) (s : UdpSockets) (asa : List Byte) (id : Nat) (opts : List Mbuf)
    (pktlen mLen : Int) : (Nat → Sockbuf) × UdpEnd :=
  if sbspace (s.rcv id) < asa.length + pktlen + chainLen opts ∨ e.gSoname id = false then
    (s.rcv, .discarded)
  else (s.rcv, .negative id mLen)

/-- The multicast and broadcast branch. `m_pkthdr.len` still counts the headers. -/
def udpMulticast (e : UdpInEnv) (s : UdpSockets) (asa : List Byte) (p : Inpcb → Bool)
    (m : List Mbuf) : (Nat → Sockbuf) × UdpEnd :=
  match udpStrip m with
  | none =>
    match s.h.list.filter p with
    | [] => (s.rcv, .discarded)
    | [inp] => udpNegative e s asa inp.id [] ((m.head?.bind (·.mPkthdr)).getD 0) (headLen m - 28)
    -- `m_copy` moves `(unsigned)n->m_len` octets
    | inp :: _ => (s.rcv, .negative inp.id (headLen m - 28))
  | some m =>
    match udpCopies e asa m p s.h.list none s.rcv with
    | none => (s.rcv, .fault)
    | some (none, rcv) => (rcv, .discarded)
    | some (some id, rcv) =>
      let r := sbappendaddr (rcv id) asa m [] (e.gSoname id)
      (setRcv rcv id r.1, if r.2 then .appended else .discarded)

/-- The pcb for a unicast datagram. The cache is asked first. -/
def udpLookup (s : UdpSockets) (src sport dst dport : Nat) : Option Inpcb :=
  let exact (inp : Inpcb) : Bool :=
    inp.lport == dport && inp.fport == sport && inp.faddr == src && inp.laddr == dst
  match (s.last.bind s.h.get).filter exact with
  | some inp => some inp
  | none => inPcblookup s.h.list src sport dst dport true

/-- The control mbuf for a socket that asks for the destination address. -/
def udpOpts (e : UdpInEnv) (id dst : Nat) : List Mbuf :=
  if e.recvdstaddr id && e.gOpt then [udpSaveopt dst] else []

/-- The append to one socket. -/
def udpUnicast (e : UdpInEnv) (s : UdpSockets) (asa : List Byte) (id dst : Nat) (m : List Mbuf) :
    (Nat → Sockbuf) × UdpEnd :=
  let opts := udpOpts e id dst
  match udpStrip m with
  | none =>
    udpNegative e s asa id opts ((m.head?.bind (·.mPkthdr)).getD 0 - 28) (headLen m - 28)
  | some m =>
    let r := sbappendaddr (s.rcv id) asa (adjPkthdr (· - 28) m) opts (e.gSoname id)
    (setRcv s.rcv id r.1, if r.2 then .appended else .discarded)

/-- `udp_input(m, iphlen)`. The head of the pcb list is in the cache only for datagrams to
`INADDR_ANY`, which are broadcasts. -/
def udpInput (e : UdpInEnv) (s : UdpSockets) (x : IpInput) : (Nat → Sockbuf) × UdpEnd :=
  match udpPull e.gPull x with
  | none => (s.rcv, .discarded)
  | some m0 =>
    let b := headBytes m0
    let src := rdLong b 12
    let dst := rdLong b 16
    let sport := rdShort b 20
    let dport := rdShort b 22
    let ulen := rdShort b 24
    match udpCut x.len ulen m0 with
    | none => (s.rcv, .discarded)
    | some m =>
      if udpSumOk e.udpcksum (rdShort b 26) ulen m = false then (s.rcv, .discarded)
      else if inClassd dst || dst == 0 || dst == 0xffffffff || e.broadcast dst then
        udpMulticast e s (udpIn src sport) (udpMatch src sport dst dport) m
      else
        match udpLookup s src sport dst dport with
        | none => (s.rcv, if e.linkBcast then .discarded else .icmp)
        | some inp => udpUnicast e s (udpIn src sport) inp.id dst m

/-! ## The datagram in the packet -/

namespace IpInput

/-- The packet is as long as `ip_len` and `iphlen` say, with the IP header in the first mbuf. -/
structure Valid (x : IpInput) : Prop where
  hl : x.iphlen = 4 * frontHl x.m
  hl_ge : 20 ≤ x.iphlen
  front : x.iphlen ≤ headLen x.m
  len : x.iphlen + x.len = chainLen x.m

def dgram (x : IpInput) : List Byte := (chainBytes x.m).drop x.iphlen

def ulen (x : IpInput) : Nat := rdShort x.dgram 4

/-- The octets that the UDP length covers, without the UDP header. -/
def payload (x : IpInput) : List Byte := (x.dgram.drop 8).take (x.ulen - 8)

def sender (x : IpInput) : List Byte := udpIn (rdLong (chainBytes x.m) 12) (rdShort x.dgram 0)

/-- The destination address, in the form of a control message. -/
def dstopt (x : IpInput) : Mbuf := udpSaveopt (rdLong (chainBytes x.m) 16)

end IpInput

/-! ## The headers in the first mbuf -/

/-- The chain with both headers in its first mbuf, and no options. -/
structure UdpPulled (x : IpInput) (m : List Mbuf) : Prop where
  head : 28 ≤ headLen m
  dgram : (chainBytes m).drop 20 = x.dgram
  addr : ∀ i, 1 ≤ i → i < 20 → rd8 (chainBytes m) i = rd8 (chainBytes x.m) i

theorem chainBytes_ipStripoptions {m : List Mbuf} (hl : 20 ≤ 4 * frontHl m)
    (hin : 4 * frontHl m ≤ headLen m) :
    ∃ b, chainBytes (ipStripoptions m) =
      (b :: ((chainBytes m).take 20).tail) ++ (chainBytes m).drop (4 * frontHl m) := by
  match m with
  | [] => exact absurd (Nat.le_trans hl hin) (by decide)
  | m :: ms =>
    have hin' : 4 * frontHl (m :: ms) ≤ m.mData.length := hin
    have hpos : 0 < headLen (m :: ms) := by omega
    have hfront : rd8 m.mData 0 % 16 = frontHl (m :: ms) := by
      rw [frontHl, ← rd8_headBytes hpos]
      rfl
    have holen : 20 + (4 * frontHl (m :: ms) - 20) = 4 * frontHl (m :: ms) := by omega
    refine ⟨UInt8.ofNat (rd8 m.mData 0 / 16 * 16 + 5), ?_⟩
    rw [ipStripoptions, chainBytes_cons]
    rw [hfront, holen, chainBytes_cons, take_append_of_le_length (by omega),
      drop_append_of_le_length hin', append_assoc]

theorem headLen_ipStripoptions {m : List Mbuf} (hl : 20 ≤ 4 * frontHl m)
    (hin : 4 * frontHl m ≤ headLen m) : m ≠ [] ∧ ipStripoptions m ≠ [] := by
  match m with
  | [] => exact absurd (Nat.le_trans hl hin) (by decide)
  | m :: ms => exact ⟨by simp, by simp [ipStripoptions]⟩

section

variable {x : IpInput} {m m' : List Mbuf}

theorem IpInput.Valid.strip (hx : x.Valid) :
    (chainBytes (if 20 < x.iphlen then ipStripoptions x.m else x.m)).drop 20 = x.dgram ∧
      (∀ i, 1 ≤ i → i < 20 → rd8 (chainBytes (if 20 < x.iphlen then ipStripoptions x.m else x.m)) i
        = rd8 (chainBytes x.m) i) ∧
      (if 20 < x.iphlen then ipStripoptions x.m else x.m) ≠ [] := by
  have hl : 20 ≤ 4 * frontHl x.m := hx.hl ▸ hx.hl_ge
  have hin : 4 * frontHl x.m ≤ headLen x.m := hx.hl ▸ hx.front
  obtain ⟨hne, hne'⟩ := headLen_ipStripoptions hl hin
  split
  next hgt =>
    obtain ⟨b, hb⟩ := chainBytes_ipStripoptions hl hin
    have hlen : 20 ≤ (chainBytes x.m).length :=
      Nat.le_trans (Nat.le_trans hl hin) (headLen_le_chainLen x.m)
    have h20 : (b :: ((chainBytes x.m).take 20).tail).length = 20 := by simp; omega
    refine ⟨?_, fun i h1 hi => ?_, hne'⟩
    · rw [hb, drop_left' h20, ← hx.hl, IpInput.dgram]
    · rw [hb, rd8, rd8, getD_eq_getElem?_getD, getD_eq_getElem?_getD,
        getElem?_append_left (by omega)]
      obtain ⟨j, rfl⟩ : ∃ j, i = j + 1 := ⟨i - 1, by omega⟩
      rw [getElem?_cons_succ, getElem?_tail, getElem?_take_of_lt hi]
  next hle =>
    have h20 : x.iphlen = 20 := by have := hx.hl_ge; omega
    exact ⟨by rw [IpInput.dgram, h20], fun _ _ _ => rfl, hne⟩

theorem udpPull_spec (hx : x.Valid) {mget : Bool} (hm : udpPull mget x = some m) :
    UdpPulled x m := by
  obtain ⟨hdgram, haddr, hne⟩ := hx.strip
  rw [udpPull] at hm
  generalize (if 20 < x.iphlen then ipStripoptions x.m else x.m) = n at hm hdgram haddr hne
  split at hm
  · obtain ⟨n, ns, rfl⟩ := exists_cons_of_ne_nil hne
    obtain ⟨hb, p, ps, rfl, hp, -⟩ := mPullup_spec hm
    exact ⟨hp, by rw [hb]; exact hdgram, by rw [hb]; exact haddr⟩
  next hge =>
    cases hm
    exact ⟨Nat.le_of_not_lt hge, hdgram, haddr⟩

namespace UdpPulled

variable (h : UdpPulled x m)
include h

theorem rdShort_head {i : Nat} (hi : i + 1 < 8) :
    rdShort (headBytes m) (20 + i) = rdShort x.dgram i := by
  have h28 := h.head
  rw [← h.dgram, rdShort_drop, rdShort, rdShort, rd8_headBytes (by omega), rd8_headBytes (by omega)]

theorem rdLong_head {i : Nat} (h1 : 1 ≤ i) (hi : i + 3 < 20) :
    rdLong (headBytes m) i = rdLong (chainBytes x.m) i := by
  have h28 := h.head
  have hrd (j : Nat) (h1 : 1 ≤ j) (hj : j < 20) :
      rd8 (headBytes m) j = rd8 (chainBytes x.m) j := by
    rw [rd8_headBytes (by omega)]
    exact h.addr j h1 hj
  rw [rdLong, rdLong, rdShort, rdShort, rdShort, rdShort, hrd _ h1 (by omega),
    hrd _ (by omega) (by omega), hrd _ (by omega) (by omega), hrd _ (by omega) (by omega)]

theorem chainLen_eq (hx : x.Valid) : (chainLen m : Int) = 20 + x.len := by
  have h28 := h.head
  have hm := headLen_le_chainLen m
  have hd := congrArg List.length h.dgram
  rw [IpInput.dgram, length_drop, length_drop, length_chainBytes, length_chainBytes] at hd
  have hlen := hx.len
  omega

end UdpPulled

/-- The chain at the lookup: both headers in the first mbuf, then the data that the UDP length
covers. -/
structure UdpTrimmed (x : IpInput) (m : List Mbuf) : Prop where
  ulen_le : (x.ulen : Int) ≤ x.len
  head : 28 ≤ headLen m
  data : (chainBytes m).drop 28 = x.payload

theorem udpCut_spec (hx : x.Valid) (h8 : 8 ≤ x.ulen) (h : UdpPulled x m)
    (hm : udpCut x.len x.ulen m = some m') : UdpTrimmed x m' := by
  have hlen := h.chainLen_eq hx
  have h28 := h.head
  have hdrop {l : List Byte} (hl : l = (chainBytes m).take (20 + x.ulen)) :
      l.drop 28 = x.payload := by
    have h20 : 20 + x.ulen - 28 = x.ulen - 8 := by omega
    rw [hl, drop_take, IpInput.payload, ← h.dgram, drop_drop, h20]
  rw [udpCut] at hm
  split at hm
  · split at hm
    · cases hm
    next hne hle =>
      cases hm
      obtain ⟨k, hk⟩ : ∃ k : Nat, x.len - x.ulen = k := ⟨(x.len - x.ulen).toNat, by omega⟩
      have hneg : (x.ulen : Int) - x.len = -k := by omega
      have hleft : chainLen m - k = 20 + x.ulen := by omega
      rw [hneg]
      refine ⟨by omega, ?_, hdrop ?_⟩
      · have hcut := headLen_mAdj_tail m (k := k) (by omega)
        omega
      · rw [chainBytes_mAdj_tail, hleft]
  next heq =>
    cases hm
    refine ⟨by omega, h28, hdrop (take_of_length_le ?_).symm⟩
    rw [length_chainBytes]
    omega

theorem UdpTrimmed.strip (h : UdpTrimmed x m) :
    ∃ d, udpStrip m = some d ∧ chainBytes d = x.payload := by
  match m with
  | [] => exact absurd h.head (by decide)
  | m :: ms =>
    have h28 : 28 ≤ m.mData.length := h.head
    rw [udpStrip, if_neg (show ¬ m.mLen < 28 from Nat.not_lt.mpr h28)]
    refine ⟨_, rfl, ?_⟩
    rw [← h.data, chainBytes_cons, chainBytes_cons, drop_append_of_le_length h28]

theorem IpInput.payload_length (hx : x.Valid) (h8 : 8 ≤ x.ulen) (hle : (x.ulen : Int) ≤ x.len) :
    x.payload.length = x.ulen - 8 := by
  have hlen := hx.len
  rw [IpInput.payload, length_take, length_drop, IpInput.dgram, length_drop, length_chainBytes]
  omega

end

/-! ## The records -/

/-- The datagram has been appended as one record, the control message `ctl` before the data. -/
structure UdpRecord (x : IpInput) (ctl : List Mbuf) (sb sb' : Sockbuf) : Prop where
  mb : ∃ m, sb'.sbMb = sb.sbMb ++ [{ mType := .soname, mData := x.sender } :: (ctl ++ m)] ∧
    chainBytes m = x.payload
  cc : sb'.sbCc = sb.sbCc + x.payload.length + x.sender.length + chainLen ctl

/-- The buffer is as before, or the datagram has been appended. -/
def UdpKept (x : IpInput) (ctl : List Mbuf) (sb sb' : Sockbuf) : Prop :=
  sb' = sb ∨ UdpRecord x ctl sb sb'

theorem setRcv_self (rcv : Nat → Sockbuf) (id : Nat) (sb : Sockbuf) : setRcv rcv id sb id = sb :=
  if_pos rfl

variable {rcv : Nat → Sockbuf}

theorem setRcv_other {id j : Nat} {sb : Sockbuf} (h : j ≠ id) :
    setRcv rcv id sb j = rcv j := if_neg h

section

variable {x : IpInput} {m : List Mbuf}

theorem sbappendaddr_kept (hm : chainBytes m = x.payload) (sb : Sockbuf) (ctl : List Mbuf)
    (mget : Bool) : UdpKept x ctl sb (sbappendaddr sb x.sender m ctl mget).1 := by
  rw [sbappendaddr]
  dsimp only
  split
  · exact .inl rfl
  obtain ⟨cnt, hcnt⟩ := foldl_sballoc sb ({ mType := .soname, mData := x.sender } :: (ctl ++ m))
  rw [hcnt]
  refine .inr ⟨⟨m, rfl, hm⟩, ?_⟩
  have hlen : chainLen m = x.payload.length := congrArg List.length hm
  have happ : chainLen (ctl ++ m) = chainLen ctl + chainLen m := by
    rw [chainLen, chainBytes_append, length_append, chainLen, chainLen]
  rw [chainLen_cons, happ, hlen]
  show sb.sbCc + (x.sender.length + _) = _
  omega

/-- What the loop over the pcbs has done: every buffer has the datagram at most once, and the
last match has not got it yet. -/
structure UdpCopied (x : IpInput) (l : List Inpcb) (last : Option Nat) (rcv : Nat → Sockbuf)
    (r : Option Nat × (Nat → Sockbuf)) : Prop where
  other : ∀ id, id ∉ l.map (·.id) → last ≠ some id → r.2 id = rcv id
  kept : ∀ id, UdpKept x [] (rcv id) (r.2 id)
  last : ∀ id, r.1 = some id → r.2 id = rcv id ∧ (last = some id ∨ id ∈ l.map (·.id))

theorem UdpCopied.cons {l : List Inpcb} {last last' : Option Nat}
    {r : Option Nat × (Nat → Sockbuf)} {inp : Inpcb} (h : UdpCopied x l last' rcv r)
    (hlast : last' = last ∨ last' = some inp.id) : UdpCopied x (inp :: l) last rcv r where
  other id hid hne := by
    rw [map_cons, mem_cons, not_or] at hid
    apply h.other id hid.2
    rcases hlast with rfl | rfl
    · exact hne
    · exact fun he => hid.1 (Option.some.inj he).symm
  kept := h.kept
  last id hr := by
    obtain ⟨heq, hmem⟩ := h.last id hr
    refine ⟨heq, ?_⟩
    rw [map_cons, mem_cons]
    rcases hmem with hmem | hmem
    · rcases hlast with rfl | rfl
      · exact .inl hmem
      · exact .inr (.inl (Option.some.inj hmem).symm)
    · exact .inr (.inr hmem)

theorem udpCopies_spec (e : UdpInEnv) (p : Inpcb → Bool) (hm : chainBytes m = x.payload)
    (hlt : chainLen m < mCopyall) {l : List Inpcb} (hnd : (l.map (·.id)).Nodup)
    {last : Option Nat} (hlast : ∀ id, last = some id → id ∉ l.map (·.id))
    (hcopy : last.toList.length + l.countP p ≤ 1 ∨ Plain m) (rcv : Nat → Sockbuf) :
    ∃ r, udpCopies e x.sender m p l last rcv = some r ∧ UdpCopied x l last rcv r := by
  induction l generalizing last rcv with
  | nil => exact ⟨_, rfl, fun _ _ _ => rfl, fun _ => .inl rfl, fun id h => ⟨rfl, .inl h⟩⟩
  | cons inp l ih =>
    rw [map_cons, List.nodup_cons] at hnd
    have hnew : ∀ id, some inp.id = some id → id ∉ l.map (·.id) := by
      rintro id ⟨⟩
      exact hnd.1
    rw [countP_cons] at hcopy
    simp only [udpCopies]
    split
    next hp =>
      rw [if_pos hp] at hcopy
      have hrest (k : Nat) : (some k).toList.length + l.countP p ≤ 1 ∨ Plain m :=
        hcopy.imp_left fun h => by
          rw [Option.toList_some, length_singleton]
          omega
      cases last with
      | none =>
        obtain ⟨r, hr, hc⟩ := ih hnd.2 hnew (hrest _) rcv
        exact ⟨r, hr, hc.cons (.inr rfl)⟩
      | some k =>
        -- a second match: a copy is made
        have hplain : Plain m := hcopy.resolve_left (by simp)
        dsimp only
        split
        next n hn =>
          -- the match before this one gets the copy
          have hk := hlast k rfl
          rw [map_cons, mem_cons, not_or] at hk
          have hdata : chainBytes n = x.payload := by
            have hmap := mCopym_all hlt hn
            rw [← hm, chainBytes, chainBytes, flatMap_def, flatMap_def, hmap]
          obtain ⟨r, heq, hother, hkept, hl⟩ := ih hnd.2 hnew (hrest _)
            (setRcv rcv k (sbappendaddr (rcv k) x.sender n [] (e.gSoname k)).1)
          refine ⟨r, heq, fun id hid hne => ?_, fun id => ?_, fun id hr => ?_⟩
          · rw [map_cons, mem_cons, not_or] at hid
            have hidk : id ≠ k := fun he => hne (congrArg some he.symm)
            rw [hother id hid.2 (fun he => hid.1 (Option.some.inj he).symm), setRcv_other hidk]
          · by_cases hidk : id = k
            · rw [hidk, hother k hk.2 (fun he => hk.1 (Option.some.inj he).symm), setRcv_self]
              exact sbappendaddr_kept hdata _ _ _
            · have hid := hkept id
              rw [setRcv_other hidk] at hid
              exact hid
          · obtain ⟨heq, hmem⟩ := hl id hr
            have hidm : id ∈ (inp :: l).map (·.id) := by
              rw [map_cons, mem_cons]
              rcases hmem with hmem | hmem
              · exact .inl (Option.some.inj hmem).symm
              · exact .inr hmem
            have hidk : id ≠ k := fun he => hlast k rfl (he ▸ hidm)
            rw [heq, setRcv_other hidk]
            exact ⟨rfl, .inr hidm⟩
        next hfault =>
          rcases mCopym_zero_all m (e.gCopy k) with h | ⟨-, hext⟩ | ⟨_, h, -⟩
          · cases h.symm.trans hfault
          · exact absurd hplain hext
          · cases h.symm.trans hfault
        next =>
          obtain ⟨r, hr, hc⟩ := ih hnd.2 hnew (hrest _) rcv
          exact ⟨r, hr, hc.cons (.inr rfl)⟩
    next hp =>
      rw [if_neg hp] at hcopy
      obtain ⟨r, hr, hc⟩ := ih hnd.2 (fun id h hmem => hlast id h (mem_cons_of_mem _ hmem))
        hcopy rcv
      exact ⟨r, hr, hc.cons (.inl rfl)⟩

structure UdpOut (e : UdpInEnv) (s : UdpSockets) (x : IpInput) (r : (Nat → Sockbuf) × UdpEnd) :
    Prop where
  returns : r.2 ≠ .fault
  /-- No mbuf of a negative length is appended. -/
  sane : ∀ id n, r.2 ≠ .negative id n
  /-- A buffer is as before, or has one more record with the datagram. -/
  kept : ∀ id, r.1 id = s.rcv id ∨ (x.ulen : Int) ≤ x.len ∧ x.payload.length = x.ulen - 8 ∧
    ∃ ctl, UdpRecord x ctl (s.rcv id) (r.1 id) ∧
      (ctl = [] ∨ e.recvdstaddr id = true ∧ ctl = [x.dstopt])

variable {e : UdpInEnv} {s : UdpSockets}

theorem UdpOut.unchanged {o : UdpEnd} (h : o = .discarded ∨ o = .icmp) :
    UdpOut e s x (s.rcv, o) := by
  rcases h with rfl | rfl <;> exact ⟨by simp, by simp, fun _ => .inl rfl⟩

theorem UdpOut.done {b : Bool} (hx : x.Valid) (h8 : 8 ≤ x.ulen)
    (ht : UdpTrimmed x m) (hkept : ∀ id, ∃ ctl, UdpKept x ctl (s.rcv id) (rcv id) ∧
      (ctl = [] ∨ e.recvdstaddr id = true ∧ ctl = [x.dstopt])) :
    UdpOut e s x (rcv, if b then .appended else .discarded) where
  returns := by cases b <;> simp
  sane id n := by cases b <;> simp
  kept id := by
    obtain ⟨ctl, hsame | hrec, hctl⟩ := hkept id
    · exact .inl hsame
    · exact .inr ⟨ht.ulen_le, IpInput.payload_length hx h8 ht.ulen_le, ctl, hrec, hctl⟩

theorem plain_udpStrip {d : List Mbuf} (hm : Plain m) (h : udpStrip m = some d) : Plain d := by
  cases m with
  | nil => cases h
  | cons b m =>
    rw [udpStrip] at h
    split at h <;> cases h
    exact forall_mem_cons.mpr (forall_mem_cons.mp hm)

theorem udpMulticast_out (hx : x.Valid) (h8 : 8 ≤ x.ulen) (ht : UdpTrimmed x m)
    (p : Inpcb → Bool) (hcopy : s.h.list.countP p ≤ 1 ∨ Plain m) :
    UdpOut e s x (udpMulticast e s x.sender p m) := by
  obtain ⟨d, hd, hdata⟩ := ht.strip
  have hlt : chainLen d < mCopyall := by
    have hlen := IpInput.payload_length hx h8 ht.ulen_le
    have hmax : x.ulen < 65536 := rdShort_lt _ _
    rw [← hdata, length_chainBytes] at hlen
    exact Nat.lt_of_le_of_lt (show chainLen d ≤ 65536 by omega) (by decide)
  obtain ⟨⟨last, rcv⟩, heq, hcop⟩ := udpCopies_spec e p hdata hlt s.h.nodup
    (show ∀ id, none = some id → id ∉ s.h.list.map (·.id) by simp)
    (hcopy.imp (by simp) (plain_udpStrip · hd)) s.rcv
  rw [udpMulticast, hd]
  dsimp only
  rw [heq]
  cases last with
  | none => exact .done (b := false) hx h8 ht fun id => ⟨[], hcop.kept id, .inl rfl⟩
  | some k =>
    refine .done hx h8 ht fun id => ⟨[], ?_, .inl rfl⟩
    by_cases hid : id = k
    · have hsame : rcv k = s.rcv k := (hcop.last k rfl).1
      rw [hid, setRcv_self, hsame]
      exact sbappendaddr_kept hdata _ _ _
    · rw [setRcv_other hid]
      exact hcop.kept id

theorem udpUnicast_out (hx : x.Valid) (h8 : 8 ≤ x.ulen) (ht : UdpTrimmed x m) (k : Nat) :
    UdpOut e s x (udpUnicast e s x.sender k (rdLong (chainBytes x.m) 16) m) := by
  obtain ⟨d, hd, hdata⟩ := ht.strip
  have hdata' : chainBytes (adjPkthdr (· - 28) d) = x.payload := by
    rw [chainBytes_adjPkthdr]
    exact hdata
  rw [udpUnicast, hd]
  refine .done hx h8 ht fun id => ?_
  by_cases hid : id = k
  · rw [hid, setRcv_self]
    refine ⟨_, sbappendaddr_kept hdata' _ _ _, ?_⟩
    rw [udpOpts]
    split
    next hopt =>
      rw [Bool.and_eq_true] at hopt
      exact .inr ⟨hopt.1, rfl⟩
    next => exact .inl rfl
  · refine ⟨[], .inl (setRcv_other hid), .inl rfl⟩

/-- The pcbs that get a multicast or broadcast datagram. -/
def UdpSockets.matching (s : UdpSockets) (x : IpInput) : Nat :=
  s.h.list.countP (udpMatch (rdLong (chainBytes x.m) 12) (rdShort x.dgram 0)
    (rdLong (chainBytes x.m) 16) (rdShort x.dgram 2))

/-- A copy is made: a multicast or broadcast datagram for more than one socket. -/
def UdpSockets.copies (s : UdpSockets) (e : UdpInEnv) (x : IpInput) : Prop :=
  let dst := rdLong (chainBytes x.m) 16
  (inClassd dst || dst == 0 || dst == 0xffffffff || e.broadcast dst) = true ∧ 2 ≤ s.matching x
deriving Decidable

theorem plain_udpPull {mget : Bool} (hx : Plain x.m) (h : udpPull mget x = some m) : Plain m := by
  have hstrip : Plain (if 20 < x.iphlen then ipStripoptions x.m else x.m) := by
    split
    · cases hm : x.m with
      | nil => exact forall_mem_nil _
      | cons b ms =>
        rw [hm] at hx
        exact forall_mem_cons.mpr (forall_mem_cons.mp hx)
    · exact hx
  rw [udpPull] at h
  generalize (if 20 < x.iphlen then ipStripoptions x.m else x.m) = n at h hstrip
  split at h
  · exact hstrip.mPullup h
  · cases h
    exact hstrip

theorem plain_udpCut {m' : List Mbuf} {ipLen : Int} {ulen : Nat} (hm : Plain m)
    (h : udpCut ipLen ulen m = some m') : Plain m' := by
  rw [udpCut] at h
  split_ifs at h
  · cases h
    exact hm.mAdj_tail (by omega)
  · cases h
    exact hm

end

/-- A datagram in one mbuf, from 10.0.0.2 port 7 to 10.0.0.1 port 9, without checksum. -/
def udpPkt (ulen : Nat) : IpInput :=
  { m := [{ mPkthdr := some 29
            mOff := mlen - mhlen
            mData := [0x45, 0, 0, 9, 0, 0, 0, 0, 64, 17, 0, 0, 10, 0, 0, 2, 10, 0, 0, 1] ++
              [0, 7, 0, 9] ++ wrShort ulen ++ [0, 0] ++ [0xab] }]
    len := 9
    iphlen := 20 }

def portNine : UdpSockets :=
  { h := { list := [{ id := 0, lport := 9 }], lport_le := Nat.zero_le _ }
    rcv := fun _ => { sbHiwat := 1000, sbMbmax := 2000 } }

end Anp
