import Anp.Ip.Cksum
import Anp.Ip.Fragment
import Anp.Ip.ReassHeader

/-!
# Wire — what `ip_output` sends is what `ipintr` reads

A packet sent by `ip_output` arrives as a chain with the same octets, in whatever mbufs the driver
puts them, possibly with padding after it.
-/

namespace Anp

open OnesSum Machine List

/-! ## Fields -/

section

variable (h : IpHdr) (r : List Byte)

theorem rd8_bytes_zero (hr : h.hl < 16) : rd8 (h.bytes ++ r) 0 = 64 + h.hl := by
  show (UInt8.ofNat (64 + h.hl)).toNat = 64 + h.hl
  rw [UInt8.toNat_ofNat']
  omega

theorem rdShort_bytes_len (hr : h.len < 65536) : rdShort (h.bytes ++ r) 2 = h.len := by
  show 256 * (UInt8.ofNat (h.len / 256)).toNat + (UInt8.ofNat h.len).toNat = h.len
  rw [UInt8.toNat_ofNat', UInt8.toNat_ofNat']
  omega

theorem rdShort_bytes_id (hr : h.id < 65536) : rdShort (h.bytes ++ r) 4 = h.id := by
  show 256 * (UInt8.ofNat (h.id / 256)).toNat + (UInt8.ofNat h.id).toNat = h.id
  rw [UInt8.toNat_ofNat', UInt8.toNat_ofNat']
  omega

theorem rdShort_bytes_off (hr : h.off < 65536) : rdShort (h.bytes ++ r) 6 = h.off := by
  show 256 * (UInt8.ofNat (h.off / 256)).toNat + (UInt8.ofNat h.off).toNat = h.off
  rw [UInt8.toNat_ofNat', UInt8.toNat_ofNat']
  omega

theorem rd8_bytes_p (hr : h.p < 256) : rd8 (h.bytes ++ r) 9 = h.p := by
  show (UInt8.ofNat h.p).toNat = h.p
  rw [UInt8.toNat_ofNat']
  omega

theorem rdLong_bytes_src (hr : h.src < 4294967296) : rdLong (h.bytes ++ r) 12 = h.src := by
  show 65536 * (256 * (UInt8.ofNat (h.src / 65536 / 256)).toNat
      + (UInt8.ofNat (h.src / 65536)).toNat)
    + (256 * (UInt8.ofNat (h.src / 256)).toNat + (UInt8.ofNat h.src).toNat) = h.src
  simp only [UInt8.toNat_ofNat']
  omega

end

/-! ## The checksum -/

/-- **A header with its checksum in it sums to 0.** -/
theorem hdrCksum_bytes (h : IpHdr) : hdrCksum h.bytes = 0 := by
  -- `ip_sum` stands after ten octets
  have hstored := hdrCksum_stored (a := [UInt8.ofNat (64 + h.hl), UInt8.ofNat h.tos]
      ++ wrShort h.len ++ wrShort h.id ++ wrShort h.off ++ [UInt8.ofNat h.ttl, UInt8.ofNat h.p])
    (by simp [wrShort]) (wrLong h.src ++ wrLong h.dst ++ h.opts)
  exact hstored

/-! ## Arrival -/

/-- The packet `r` is the packet `f` that was sent, with the header in a plain first mbuf and any
padding of the link at the end. -/
structure Arrives (r : RcvdPkt) (f : IpSent) : Prop where
  plain : r.m.mExt = none
  in_first : 4 * f.hdr.hl ≤ r.m.mLen
  bytes : ∃ pad, chainBytes (r.m :: r.ms) = chainBytes f.m ++ pad

def headExt (m : List Mbuf) : Option Nat := m.head?.bind (·.mExt)

theorem headExt_adjPkthdr (f : Int → Int) (m : List Mbuf) :
    headExt (adjPkthdr f m) = headExt m := by
  cases m <;> rfl

theorem headExt_mAdj_tail (m : List Mbuf) {k : Int} (hk : k < 0) :
    headExt (mAdj m k) = headExt m := by
  rw [mAdj, if_neg (by omega)]
  cases hlast : m.getLast? with
  | none => rfl
  | some last =>
    obtain ⟨ys, rfl⟩ := getLast?_eq_some_iff.mp hlast
    dsimp only
    split
    · rw [headExt_adjPkthdr, dropLast_concat]
      cases ys <;> rfl
    · rw [headExt_adjPkthdr]
      cases ys with
      | nil =>
        rw [nil_append, mAdjTail]
        split <;> rfl
      | cons y ys =>
        rw [cons_append, mAdjTail]
        split <;> rfl

theorem headExt_ipTrim (n : Int) (m : List Mbuf) : headExt (ipTrim n m) = headExt m := by
  cases m with
  | nil => rfl
  | cons m ms =>
    rw [ipTrim]
    split
    · split
      · rfl
      · exact headExt_mAdj_tail _ (by omega)
    · rfl

/-- The packet `ipintr` makes of `f`. -/
structure ReadAs (f : IpSent) (k : IpPkt) : Prop where
  hl : k.hl = f.hdr.hl
  len : k.len = f.hdr.len
  id : k.id = f.hdr.id
  off : k.off = f.hdr.off
  p : k.p = f.hdr.p
  src : k.src = f.hdr.src
  bytes : chainBytes k.m = chainBytes f.m
  plain : headExt k.m = none

/-- **A packet sent passes the checks.** -/
theorem ipCheck_sent {r : RcvdPkt} {f : IpSent} {d : List Byte} (g20 gHl : Bool)
    (ha : Arrives r f) (hr : f.hdr.InRange) (hge : 5 ≤ f.hdr.hl) (hle : f.hdr.len ≤ 32767)
    (hlen : f.hdr.len = 4 * f.hdr.hl + d.length) (hb : chainBytes f.m = f.hdr.bytes ++ d) :
    ∃ k, ipCheck g20 gHl (r.m :: r.ms) = some k ∧ ReadAs f k := by
  obtain ⟨pad, hpad⟩ := ha.bytes
  have hin : 4 * f.hdr.hl ≤ headLen (r.m :: r.ms) := ha.in_first
  have hplain : headExt (r.m :: r.ms) = none := ha.plain
  have hpkt : pktLen (r.m :: r.ms) = chainLen (r.m :: r.ms) := by simp [pktLen, r.pkthdr_len]
  have hhl := hr.hl_lt
  have hbl : f.hdr.bytes.length = 4 * f.hdr.hl := by
    rw [length_bytes, hr.opts_length]
  have hfl : (chainBytes f.m).length = f.hdr.len := by
    rw [hb, length_append, hbl, hlen]
  have hcl : f.hdr.len ≤ chainLen (r.m :: r.ms) := by
    rw [← length_chainBytes, hpad, length_append, hfl]
    omega
  have hall : chainBytes (r.m :: r.ms) = f.hdr.bytes ++ (d ++ pad) := by
    rw [hpad, hb, append_assoc]
  generalize r.m :: r.ms = m at *
  -- each field is read in the first mbuf, where the header stands
  have h20 : ipHdrLen = 20 := rfl
  have hrd : ∀ i, i < 20 → rd8 (headBytes m) i = rd8 (f.hdr.bytes ++ (d ++ pad)) i := by
    intro i hi
    rw [rd8_headBytes (by omega), hall]
  have hshort : ∀ i, i + 1 < 20 →
      rdShort (headBytes m) i = rdShort (f.hdr.bytes ++ (d ++ pad)) i := by
    intro i hi
    rw [rdShort, rdShort, hrd i (by omega), hrd (i + 1) hi]
  have hlong : rdLong (headBytes m) 12 = rdLong (f.hdr.bytes ++ (d ++ pad)) 12 := by
    rw [rdLong, rdLong, hshort 12 (by omega), hshort 14 (by omega)]
  have hfirst : rd8 (headBytes m) 0 = 64 + f.hdr.hl := by
    rw [hrd 0 (by omega), rd8_bytes_zero _ _ hhl]
  have hiplen : int16 (rdShort (headBytes m) 2) = f.hdr.len := by
    rw [hshort 2 (by omega), rdShort_bytes_len _ _ hr.len_lt, int16_of_range (by omega) (by omega)]
  have hsum : hdrCksum ((headBytes m).take (4 * f.hdr.hl)) = 0 := by
    rw [take_headBytes hin, hall, take_left' hbl, hdrCksum_bytes]
  have hmod : (64 + f.hdr.hl) % 16 = f.hdr.hl := by omega
  have hdiv : (64 + f.hdr.hl) / 16 = 4 := by omega
  have hnotshort : ¬ (f.hdr.len : Int) < ((4 * f.hdr.hl : Nat) : Int) := by
    rw [hlen, Int.not_lt]
    exact Int.ofNat_le.mpr (Nat.le_add_right _ _)
  have hwhole : ¬ pktLen m < (f.hdr.len : Int) := by
    rw [hpkt, Int.not_lt]
    exact Int.ofNat_le.mpr hcl
  refine ⟨⟨f.hdr.hl, f.hdr.len, rdShort (headBytes m) 4, rdShort (headBytes m) 6,
    rd8 (headBytes m) 9, rdLong (headBytes m) 12, rdLong (headBytes m) 16,
    ipTrim f.hdr.len m⟩, ?_, ?_⟩
  · rw [ipCheck, pullHdr, if_neg (by omega), Option.bind_some]
    simp only [hfirst, hmod, hdiv]
    rw [if_neg (by simp), if_neg (by omega), pullHdr, if_neg (by omega), Option.bind_some,
      ipCheckHdr]
    simp only [hiplen, hsum]
    rw [if_neg (by simp), if_neg hnotshort, if_neg hwhole]
  · constructor
    case hl => rfl
    case len => rfl
    case id => exact (hshort 4 (by omega)).trans (rdShort_bytes_id _ _ hr.id_lt)
    case off => exact (hshort 6 (by omega)).trans (rdShort_bytes_off _ _ hr.off_lt)
    case p => exact (hrd 9 (by omega)).trans (rd8_bytes_p _ _ hr.p_lt)
    case src => exact hlong.trans (rdLong_bytes_src _ _ hr.src_lt)
    case bytes =>
      rw [(ipTrim_spec hpkt hcl).1, hpad, take_left' hfl]
    case plain =>
      rw [headExt_ipTrim, hplain]

end Anp
