import Anp.Kern.Pullup
import Anp.Lib.Machine
import Anp.Lib.OnesSum

/-!
# Header — the IP header and the checks of `ipintr`

`netinet/ip.h`, `netinet/ip_input.c`. A received packet is an mbuf chain with a packet header
whose `m_pkthdr.len` is the length of the chain (`RcvdPkt`). `ipintr` brings the IP header into
the first mbuf, checks it and cuts the chain to `ip_len` bytes.

Between these checks and the label `ours` stand `ip_dooptions` and the comparison with the
addresses of the interfaces; what they let through, and with which `ip_dst`, is an argument of
the step in `Reass`.
-/

namespace Anp

open Machine OnesSum List

/-! ## Octets of a header -/

/-- `sizeof(struct ip)`. -/
def ipHdrLen : Nat := 20

def rd8 (b : List Byte) (i : Nat) : Nat := (b.getD i 0).toNat

/-- `ntohs` of the two octets at `i`. -/
def rdShort (b : List Byte) (i : Nat) : Nat := 256 * rd8 b i + rd8 b (i + 1)

def rdLong (b : List Byte) (i : Nat) : Nat := 65536 * rdShort b i + rdShort b (i + 2)

/-- The 16-bit words of a header. -/
def hdrWords : List Byte → List Nat
  | a :: b :: l => (256 * a.toNat + b.toNat) :: hdrWords l
  | [a] => [256 * a.toNat]
  | [] => []

/-- `in_cksum` of a header that stands in one mbuf. -/
def hdrCksum (b : List Byte) : Nat := 65535 - onesSum (hdrWords b)

/-- The fields of an IP header as `ip_output` sets them, in host order. -/
structure IpHdr where
  hl : Nat
  tos : Nat := 0
  len : Nat
  id : Nat
  off : Nat
  ttl : Nat := 64
  p : Nat
  src : Nat
  dst : Nat
  opts : List Byte := []
  deriving DecidableEq, Repr

/-- `IN_MULTICAST`, which is `IN_CLASSD`. -/
def inClassd (a : Nat) : Bool := decide (a / 0x10000000 % 16 = 14)

def wrShort (n : Nat) : List Byte := [UInt8.ofNat (n / 256), UInt8.ofNat n]

def wrLong (n : Nat) : List Byte := wrShort (n / 65536) ++ wrShort n

/-- The header in memory, `sum` standing in `ip_sum`. -/
def IpHdr.octets (h : IpHdr) (sum : Nat) : List Byte :=
  [UInt8.ofNat (64 + h.hl), UInt8.ofNat h.tos] ++ wrShort h.len ++ wrShort h.id ++ wrShort h.off ++
    [UInt8.ofNat h.ttl, UInt8.ofNat h.p] ++ wrShort sum ++ wrLong h.src ++ wrLong h.dst ++ h.opts

/-- `ip_sum = 0; ip_sum = in_cksum(m, hlen)`. -/
def IpHdr.bytes (h : IpHdr) : List Byte := h.octets (hdrCksum (h.octets 0))

/-! ## The checks -/

/-- A packet on `ipintrq`: an mbuf with a packet header, and the rest of the chain. -/
structure RcvdPkt where
  m : Mbuf
  ms : List Mbuf
  pkthdr_len : m.mPkthdr = some (chainLen (m :: ms) : Int)

/-- A packet whose header has been checked, with the fields that the code after the label `ours`
reads, in host order. -/
structure IpPkt where
  hl : Nat
  len : Int
  id : Nat
  off : Nat
  p : Nat
  src : Nat
  dst : Nat
  m : List Mbuf
  deriving DecidableEq, Repr

/-- `m->m_pkthdr.len`. -/
def pktLen (m : List Mbuf) : Int := (m.head?.bind (·.mPkthdr)).getD 0

/-- "Trim mbufs if longer than we expect." -/
def ipTrim (ipLen : Int) : List Mbuf → List Mbuf
  | [] => []
  | m :: ms =>
    let plen := pktLen (m :: ms)
    if ipLen < plen then
      if (m.mLen : Int) = plen then
        { m with mData := m.mData.take ipLen.toNat, mPkthdr := some ipLen } :: ms
      else mAdj (m :: ms) (ipLen - plen)
    else m :: ms

/-- `m->m_len`. -/
def headLen : List Mbuf → Nat
  | [] => 0
  | m :: _ => m.mLen

/-- `mtod(m, struct ip *)`. -/
def headBytes : List Mbuf → List Byte
  | [] => []
  | m :: _ => m.mData

/-- `m_pullup` where the first mbuf has fewer than `len` bytes. -/
def pullHdr (mget : Bool) (m : List Mbuf) (len : Nat) : Option (List Mbuf) :=
  if headLen m < len then mPullup mget m len else some m

/-- The part of `ipintr` after the second `m_pullup`, `hl` being `ip_hl`. -/
def ipCheckHdr (hl : Nat) (m : List Mbuf) : Option IpPkt :=
  let ip := headBytes m
  let hlen := 4 * hl
  let ipLen := int16 (rdShort ip 2)
  if hdrCksum (ip.take hlen) ≠ 0 then none
  else if ipLen < hlen then none
  else if pktLen m < ipLen then none
  else some
    { hl := hl
      len := ipLen
      id := rdShort ip 4
      off := rdShort ip 6
      p := rd8 ip 9
      src := rdLong ip 12
      dst := rdLong ip 16
      m := ipTrim ipLen m }

/-- `ipintr` up to `ip_dooptions`. `g20` and `gHl` are the results of the `MGET` in its first
two calls of `m_pullup`. -/
def ipCheck (g20 gHl : Bool) (m : List Mbuf) : Option IpPkt :=
  (pullHdr g20 m ipHdrLen).bind fun m =>
    let b := rd8 (headBytes m) 0
    if b / 16 ≠ 4 then none
    else if 4 * (b % 16) < ipHdrLen then none
    else (pullHdr gHl m (4 * (b % 16))).bind (ipCheckHdr (b % 16))

/-! ## What passes -/

/-- What holds of a packet at the label `ours`. -/
structure IpPkt.Ok (k : IpPkt) : Prop where
  hl_ge : 5 ≤ k.hl
  hl_lt : k.hl < 16
  len_le : k.len ≤ 32767
  hdr_le : 4 * (k.hl : Int) ≤ k.len
  off_lt : k.off < 65536
  /-- `hlen <= m->m_len`. -/
  in_first : 4 * k.hl ≤ headLen k.m
  /-- The chain has been cut to `ip_len` bytes. -/
  chain : (chainLen k.m : Int) = k.len
  /-- `ip_hl` of the header at the front. -/
  front : rd8 (headBytes k.m) 0 % 16 = k.hl

variable {m : List Mbuf}

theorem take_headBytes {n : Nat} (h : n ≤ headLen m) :
    (headBytes m).take n = (chainBytes m).take n := by
  cases m with
  | nil => rfl
  | cons m ms =>
    rw [headBytes, chainBytes_cons, take_append_of_le_length h]

theorem rd8_take {b : List Byte} {i n : Nat} (h : i < n) : rd8 (b.take n) i = rd8 b i := by
  simp [rd8, getD_eq_getElem?_getD, h]

theorem headLen_le_chainLen (m : List Mbuf) : headLen m ≤ chainLen m := by
  cases m with
  | nil => exact Nat.le_refl 0
  | cons m ms =>
    rw [headLen, chainLen_cons]
    omega

theorem headLen_adjPkthdr (f : Int → Int) (m : List Mbuf) :
    headLen (adjPkthdr f m) = headLen m := by
  cases m <;> rfl

theorem headLen_mAdjTail (m : List Mbuf) (count : Nat) :
    headLen (mAdjTail m count) = min (headLen m) count := by
  cases m with
  | nil => simp [mAdjTail, headLen]
  | cons m ms =>
    rw [mAdjTail]
    split
    · next h => simp only [headLen, Mbuf.mLen, length_take] at h ⊢; omega
    · next h => simp only [headLen] at h ⊢; omega

/-- `m_adj` from the tail takes from the first mbuf only what is not in the rest. -/
theorem headLen_mAdj_tail (m : List Mbuf) {k : Nat} (hk : 0 < k) :
    min (headLen m) (chainLen m - k) ≤ headLen (mAdj m (-k)) := by
  have hneg : ¬ (0 : Int) ≤ -k := by omega
  rw [mAdj, if_neg hneg]
  simp only [Int.neg_neg, Int.toNat_natCast]
  cases hlast : m.getLast? with
  | none =>
    exact Nat.min_le_left _ _
  | some last =>
    obtain ⟨ys, rfl⟩ := getLast?_eq_some_iff.mp hlast
    simp only
    split
    · rw [headLen_adjPkthdr, dropLast_concat]
      cases ys with
      | nil =>
        simp only [nil_append, headLen, chainLen_cons, chainLen_nil, Mbuf.mLen, length_take]
        omega
      | cons y ys => exact Nat.min_le_left _ _
    · rw [headLen_adjPkthdr, headLen_mAdjTail]

theorem pullHdr_spec {mget : Bool} {m : Mbuf} {ms r : List Mbuf} {len : Nat}
    (h : pullHdr mget (m :: ms) len = some r) :
    chainBytes r = chainBytes (m :: ms) ∧ len ≤ headLen r ∧ pktLen r = pktLen (m :: ms) ∧
      r ≠ [] := by
  rw [pullHdr] at h
  split at h
  · obtain ⟨hb, m', rs, rfl, hlen, -, hp⟩ := mPullup_spec h
    exact ⟨hb, hlen, by simp [pktLen, hp], by simp⟩
  · next hlen =>
    cases h
    exact ⟨rfl, by omega, rfl, by simp⟩

/-- `ipTrim` leaves the first `ip_len` octets, and of the first mbuf all that is among them. -/
theorem ipTrim_spec {n : Nat} (hp : pktLen m = chainLen m) (hle : n ≤ chainLen m) :
    chainBytes (ipTrim n m) = (chainBytes m).take n ∧ min (headLen m) n ≤ headLen (ipTrim n m) := by
  cases m with
  | nil => exact ⟨by simp [ipTrim], Nat.min_le_left _ _⟩
  | cons m ms =>
    simp only [ipTrim, hp]
    split
    · next hlt =>
      split
      · -- everything stands in the first mbuf
        next hfirst =>
        have hms : chainBytes ms = [] := by
          apply eq_nil_of_length_eq_zero
          rw [chainLen_cons] at hfirst
          rw [length_chainBytes]
          omega
        refine ⟨by simp [hms], ?_⟩
        simp only [headLen, Mbuf.mLen, Int.toNat_natCast, length_take]
        omega
      · have hk : (n : Int) - (chainLen (m :: ms) : Int)
            = -((chainLen (m :: ms) - n : Nat) : Int) := by omega
        have hcut : chainLen (m :: ms) - (chainLen (m :: ms) - n) = n := by omega
        rw [hk, chainBytes_mAdj_tail, hcut]
        have hhead := headLen_mAdj_tail (m :: ms) (k := chainLen (m :: ms) - n) (by omega)
        rw [hcut] at hhead
        exact ⟨rfl, hhead⟩
    · next hge =>
      refine ⟨?_, Nat.min_le_left _ _⟩
      rw [take_of_length_le]
      rw [length_chainBytes]
      omega

theorem rd8_drop (b : List Byte) (k i : Nat) : rd8 (b.drop k) i = rd8 b (k + i) := by
  rw [rd8, rd8, getD_eq_getElem?_getD, getD_eq_getElem?_getD, getElem?_drop]

theorem rdShort_drop (b : List Byte) (k i : Nat) : rdShort (b.drop k) i = rdShort b (k + i) := by
  rw [rdShort, rdShort, rd8_drop, rd8_drop, Nat.add_assoc]

theorem rdLong_drop (b : List Byte) (k i : Nat) : rdLong (b.drop k) i = rdLong b (k + i) := by
  rw [rdLong, rdLong, rdShort_drop, rdShort_drop, Nat.add_assoc]

theorem rd8_lt (b : List Byte) (i : Nat) : rd8 b i < 256 := UInt8.toNat_lt _

theorem rdShort_lt (b : List Byte) (i : Nat) : rdShort b i < 65536 := by
  have h := rd8_lt b i
  have h' := rd8_lt b (i + 1)
  rw [rdShort]
  omega

theorem int16_le (z : Int) : int16 z ≤ 32767 := by
  have h := Int.bmod_lt (x := z) (m := 65536) (by decide)
  rw [int16]
  omega

theorem rd8_headBytes {i : Nat} (h : i < headLen m) :
    rd8 (headBytes m) i = rd8 (chainBytes m) i := by
  rw [← rd8_take (b := headBytes m) (n := i + 1) (by omega), take_headBytes h, rd8_take (by omega)]

theorem ipCheckHdr_ok {hl : Nat} {k : IpPkt} (hhl : 5 ≤ hl ∧ hl < 16)
    (hin : 4 * hl ≤ headLen m) (hp : pktLen m = chainLen m)
    (hb : rd8 (chainBytes m) 0 % 16 = hl) (h : ipCheckHdr hl m = some k) : k.Ok := by
  simp only [ipCheckHdr] at h
  split at h
  · cases h
  split at h
  · cases h
  split at h
  · cases h
  next hsum hlen hshort =>
  cases h
  have hle := int16_le (rdShort (headBytes m) 2)
  generalize int16 (rdShort (headBytes m) 2) = ipLen at *
  obtain ⟨n, rfl⟩ : ∃ n : Nat, ipLen = n := ⟨ipLen.toNat, by omega⟩
  obtain ⟨hbytes, hfirst⟩ := ipTrim_spec (n := n) hp (by omega)
  have hin' : 4 * hl ≤ headLen (ipTrim n m) := by omega
  constructor
  case hl_ge => exact hhl.1
  case hl_lt => exact hhl.2
  case len_le => exact hle
  case hdr_le => show 4 * (hl : Int) ≤ n; omega
  case off_lt => exact rdShort_lt _ _
  case in_first => exact hin'
  case chain =>
    show ((chainBytes (ipTrim n m)).length : Int) = n
    rw [hbytes, length_take, length_chainBytes]
    omega
  case front =>
    show rd8 (headBytes (ipTrim n m)) 0 % 16 = hl
    rw [rd8_headBytes (by omega), hbytes, rd8_take (by omega), hb]

/-- **What `ipintr` lets through.** -/
theorem ipCheck_ok {g20 gHl : Bool} {r : RcvdPkt} {k : IpPkt}
    (h : ipCheck g20 gHl (r.m :: r.ms) = some k) : k.Ok := by
  have hpkt : pktLen (r.m :: r.ms) = chainLen (r.m :: r.ms) := by simp [pktLen, r.pkthdr_len]
  obtain ⟨m, hm, h⟩ := Option.bind_eq_some_iff.mp h
  obtain ⟨hb, hlen, hp, hne⟩ := pullHdr_spec hm
  dsimp only at h
  split at h
  · cases h
  split at h
  · cases h
  next hver hmin =>
  have h20 : ipHdrLen = 20 := rfl
  obtain ⟨m', hm', h⟩ := Option.bind_eq_some_iff.mp h
  obtain ⟨n, ns, rfl⟩ := exists_cons_of_ne_nil hne
  obtain ⟨hb', hlen', hp', -⟩ := pullHdr_spec hm'
  have hfront := rd8_headBytes (m := n :: ns) (i := 0) (by omega)
  have hcl : chainLen m' = chainLen (r.m :: r.ms) := by
    rw [← length_chainBytes, hb', hb, length_chainBytes]
  apply ipCheckHdr_ok ⟨by omega, by omega⟩ hlen' _ _ h
  · rw [hp', hp, hpkt, hcl]
  · rw [hb', hfront]

end Anp
