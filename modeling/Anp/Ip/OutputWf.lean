import Anp.Ip.Output
import Anp.Ip.Wire

/-!
# OutputWf — the packets `ip_output` hands to the interface

The header and the chain fit together in each of them (`IpSent.WellFormed`), for the calls that tell
`ip_output` how long the header is (`IpCall.HlenKnown`).
-/

namespace Anp

open Machine OnesSum List Option

variable {loops : Bool} {hlen : Int} {c : IpCall} {e : IpEnv} {ip ip' : IpHdr} {ifp : IpIf}
  {m : List Mbuf}

/-! ## Well-formed packets -/

/-- `hdr.opts` are the options in the packet; what follows them is data of the payload. -/
structure IpSent.WellFormed (payload : List Byte) (p : IpSent) : Prop where
  opts : ((chainBytes p.m).drop 20).take p.hdr.opts.length = p.hdr.opts
  data : (chainBytes p.m).drop (20 + p.hdr.opts.length) <:+: payload
  hl : 4 * (rd8 (chainBytes p.m) 0 % 16) = 20 + p.hdr.opts.length
  len : rdShort (chainBytes p.m) 2 = chainLen p.m
  sum : hdrCksum ((chainBytes p.m).take (20 + p.hdr.opts.length)) = 0

/-- The packets of a run that go to `if_output`. -/
def handed (l : List OutEvent) : List IpSent := l.filterMap fun
    | .output _ p => some p
    | _ => none

theorem handed_append (l l' : List OutEvent) : handed (l ++ l') = handed l ++ handed l' :=
  filterMap_append

/-- The chain starts with `struct ip`, then the options of `h`, then `d`. -/
structure HdrChain (h : IpHdr) (d : List Byte) (m : List Mbuf) : Prop where
  first : 20 ≤ headLen m
  chain : ∃ b : List Byte, b.length = 20 ∧ chainBytes m = b ++ (h.opts ++ d)

theorem octets_eq (h : IpHdr) (sum : Nat) :
    h.octets sum = (h.octets sum).take ipHdrLen ++ h.opts := by
  simp [IpHdr.octets, wrShort, wrLong, ipHdrLen]

theorem length_octets_take (h : IpHdr) (sum : Nat) : ((h.octets sum).take ipHdrLen).length = 20 := by
  simp [IpHdr.octets, wrShort, wrLong, ipHdrLen]

theorem chainBytes_stampHdr (h : IpHdr) (sum : Nat) (hm : 20 ≤ headLen m) :
    chainBytes (stampHdr h sum m) = (h.octets sum).take ipHdrLen ++ (chainBytes m).drop 20 := by
  match m with
  | [] => exact absurd hm (by decide)
  | m :: ms =>
    have hin : 20 ≤ m.mData.length := hm
    rw [stampHdr, chainBytes_cons, chainBytes_cons, append_assoc, drop_append_of_le_length hin]
    rfl

section

variable {h : IpHdr} {d : List Byte} {m : List Mbuf}

theorem HdrChain.drop (hc : HdrChain h d m) : (chainBytes m).drop 20 = h.opts ++ d := by
  obtain ⟨b, hb, hm⟩ := hc.chain
  rw [hm, drop_left' hb]

theorem HdrChain.sumHdr (hc : HdrChain h d m) (ho : h.opts.length ≤ 40) :
    chainBytes (sumHdr h ((20 + h.opts.length : Nat) : Int) m) = h.bytes ++ d := by
  have hlen0 := length_octets_take h 0
  have hstamp (sum : Nat) : chainBytes (stampHdr h sum m) = h.octets sum ++ d := by
    rw [chainBytes_stampHdr h sum hc.first, hc.drop, ← append_assoc, ← octets_eq]
  have hsum : inCksum (stampHdr h 0 m) (20 + h.opts.length) = hdrCksum (h.octets 0) := by
    rw [inCksum_eq _ (by omega), hstamp 0, take_left']
    rw [octets_eq, length_append, hlen0]
  rw [Anp.sumHdr, Int.toNat_natCast, hsum, hstamp]
  rfl

end

theorem rd8_sumHdr (h : IpHdr) (hlen : Int) (hm : 20 ≤ headLen m) (hl : h.hl < 16) :
    rd8 (chainBytes (sumHdr h hlen m)) 0 = 64 + h.hl := by
  rw [sumHdr, chainBytes_stampHdr h _ hm]
  show (UInt8.ofNat (64 + h.hl)).toNat = 64 + h.hl
  rw [UInt8.toNat_ofNat']
  omega

theorem IpSent.WellFormed.of_bytes {payload d : List Byte} {p : IpSent}
    (hb : chainBytes p.m = p.hdr.bytes ++ d) (hd : d <:+: payload)
    (hl : 4 * p.hdr.hl = 20 + p.hdr.opts.length) (hlt : p.hdr.hl < 16)
    (hlen : p.hdr.len = 20 + p.hdr.opts.length + d.length) (hlen16 : p.hdr.len < 65536) :
    p.WellFormed payload := by
  have hbl := length_bytes p.hdr
  constructor
  case opts =>
    have hsplit : p.hdr.bytes = p.hdr.bytes.take ipHdrLen ++ p.hdr.opts := octets_eq _ _
    have hfixed : (p.hdr.bytes.take ipHdrLen).length = 20 := length_octets_take _ _
    rw [hb, hsplit, append_assoc, drop_left' hfixed, take_left]
  case data =>
    rw [hb, drop_left' hbl]
    exact hd
  case hl =>
    rw [hb, rd8_bytes_zero _ _ hlt]
    omega
  case len =>
    rw [hb, rdShort_bytes_len _ _ hlen16, ← length_chainBytes, hb, length_append, hbl, hlen]
  case sum =>
    rw [hb, take_left' hbl]
    exact hdrCksum_bytes p.hdr

/-! ## A packet that is ready -/

/-- The packet and `hlen` when the header has been filled in: they fit together. Every packet that
is made of a `Ready` one is well formed (`Ready.sendit`). -/
structure Ready (ip : IpHdr) (hlen : Int) (m : List Mbuf) (payload : List Byte) : Prop where
  hlen : hlen = ((20 + ip.opts.length : Nat) : Int)
  hl : 4 * ip.hl = 20 + ip.opts.length
  hl_lt : ip.hl < 16
  hdrChain : HdrChain ip payload m
  len : ip.len = 20 + ip.opts.length + payload.length
  len_lt : ip.len < 65536

namespace Ready

variable {ip : IpHdr} {hlen : Int} {m : List Mbuf} {payload : List Byte}

theorem opts_le (h : Ready ip hlen m payload) : ip.opts.length ≤ 40 := by
  have hl := h.hl
  have hlt := h.hl_lt
  omega

theorem chainLen_eq (h : Ready ip hlen m payload) : chainLen m = ip.len := by
  obtain ⟨b, hb, hm⟩ := h.hdrChain.chain
  rw [← length_chainBytes, hm, h.len]
  simp only [length_append]
  omega

theorem whole (h : Ready ip hlen m payload) :
    IpSent.WellFormed payload { hdr := ip, m := sumHdr ip hlen m } := by
  apply IpSent.WellFormed.of_bytes _ (infix_refl payload) h.hl h.hl_lt h.len h.len_lt
  rw [h.hlen, h.hdrChain.sumHdr h.opts_le]

end Ready

/-! ## The loopback copy -/

theorem HdrChain.of_map {h : IpHdr} {d : List Byte} {n : List Mbuf} (hc : HdrChain h d m)
    (hn : n.map (·.mData) = m.map (·.mData)) : HdrChain h d n := by
  have hbytes : chainBytes n = chainBytes m := by
    rw [chainBytes, chainBytes, flatMap_def, flatMap_def, hn]
  have hhead : headLen n = headLen m := by
    cases n <;> cases m <;> simp_all [headLen, Mbuf.mLen]
  exact ⟨hhead ▸ hc.first, hbytes ▸ hc.chain⟩

theorem Ready.mloopback {payload : List Byte} (h : Ready ip hlen m payload) (avail : Nat) :
    ∀ p ∈ handed (ipMloopback avail ip m).1, p.WellFormed payload := by
  intro p hp
  rw [ipMloopback] at hp
  split at hp
  next n hn =>
    have hlt : chainLen m < mCopyall := by
      have hall : mCopyall = 1000000000 := rfl
      have hcl := h.chainLen_eq
      have hl := h.len_lt
      omega
    have hready : Ready ip hlen n payload := { h with hdrChain := h.hdrChain.of_map (mCopym_all hlt hn) }
    have hp' : p = { hdr := ip, m := sumHdr ip (4 * ip.hl) n } := by simpa [handed] using hp
    have hfour : (4 * ip.hl : Int) = hlen := by
      have hl := h.hl
      rw [h.hlen]
      omega
    rw [hp', hfour]
    exact hready.whole
  all_goals simp [handed] at hp

/-! ## Fragments -/

namespace Ready

variable {ip : IpHdr} {hlen : Int} {m : List Mbuf} {payload : List Byte}

section

variable (h : Ready ip hlen m payload)
include h

/-- The header of a later fragment: its length is its own, and no more than before. -/
theorem outFragHdr {g : IpHdr} (hg : outFragHdr hlen ip m = some g) :
    4 * g.hl = 20 + g.opts.length ∧ g.hl ≤ ip.hl := by
  have hl := h.hl
  have h20 : ipHdrLen = 20 := rfl
  have hu : u32 hlen = 20 + ip.opts.length := by
    have hle := h.opts_le
    rw [h.hlen, u32]
    omega
  rw [Anp.outFragHdr] at hg
  split at hg
  · obtain ⟨opts, hopts, rfl⟩ := map_eq_some_iff.mp hg
    obtain ⟨r, hr, rfl⟩ := map_eq_some_iff.mp hopts
    have hle := optcopyLoop_length hr
    have hpad := length_padEol r
    constructor
    · show 4 * ((ipHdrLen + (padEol r).length) / 4) = 20 + (padEol r).length
      omega
    · show (ipHdrLen + (padEol r).length) / 4 ≤ ip.hl
      omega
  next hshort =>
    cases hg
    constructor
    · show 4 * ip.hl = 20 + 0
      omega
    · exact Nat.le_refl _

theorem outFragPkt {g : IpHdr} (hg : Anp.outFragHdr hlen ip m = some g)
    {off : Int} (hoff : hlen ≤ off) {len avail : Nat} (hpos : 0 < len) (hend : off + len ≤ ip.len)
    (more : Bool) {n : List Mbuf} (hn : mCopym m off len avail = .ok n) :
    (outFragPkt hlen ip g off len more n).sent.WellFormed payload := by
  obtain ⟨hghl, hgle⟩ := h.outFragHdr hg
  have hlt := h.hl_lt
  have hhlen := h.hlen
  have hlen16 := h.len_lt
  have hopts := h.hl
  have hall : mCopyall = 1000000000 := rfl
  obtain ⟨-, -, hbytes⟩ := mCopym_ok (by omega) (by omega) hn
  -- the data is a piece of the payload
  have hdata : chainBytes n = (payload.drop (off - hlen).toNat).take len := by
    have hsplit : off.toNat = 20 + (ip.opts.length + (off - hlen).toNat) := by omega
    rw [hbytes, Int.toNat_natCast, hsplit, ← drop_drop, h.hdrChain.drop, ← drop_drop, drop_left]
  have hdlen : (chainBytes n).length = len := by
    have hp := h.len
    rw [hdata, length_take, length_drop]
    omega
  have hchain : HdrChain (outFragHdrAt hlen ip g off len more) (chainBytes n)
      ({ mType := .header
         mOff := mlen - mhlen + maxLinkhdr
         mData := List.replicate ipHdrLen 0 ++ g.opts } :: n) := by
    constructor
    · show 20 ≤ (List.replicate ipHdrLen (0 : Byte) ++ g.opts).length
      rw [length_append, length_replicate]
      exact Nat.le_add_right _ _
    · exact ⟨List.replicate ipHdrLen 0, length_replicate, append_assoc _ _ _⟩
  have hfield : (outFragHdrAt hlen ip g off len more).len = len + (20 + g.opts.length) := by
    show u16 ((len + (ipHdrLen + g.opts.length) : Nat) : Int) = _
    have h20 : ipHdrLen = 20 := rfl
    rw [u16]
    omega
  apply IpSent.WellFormed.of_bytes (d := chainBytes n)
  · exact hchain.sumHdr (by show g.opts.length ≤ 40; omega)
  · rw [hdata]
    exact ( take_prefix _ _).isInfix.trans (drop_suffix _ _).isInfix
  · exact hghl
  · show g.hl < 16
    omega
  · show (outFragHdrAt hlen ip g off len more).len = 20 + g.opts.length + (chainBytes n).length
    omega
  · show (outFragHdrAt hlen ip g off len more).len < 65536
    omega

/-- The later fragments, by induction on the rounds of the loop. -/
theorem outFragLoop (a : FragAlloc) {len : Nat} (hlen0 : 0 < len)
    (k : Nat) {off : Int} (hoff : hlen ≤ off) :
    ∀ p ∈ (outFragLoop a hlen ip m len k off).pkts, p.sent.WellFormed payload := by
  fun_induction Anp.outFragLoop a hlen ip m len k off
  case case7 off hlt _ g hg last l _ c hc _ _ ih =>
    -- `len` of the last one is what is left
    have hl' : l = if last then (ip.len - off).toNat else len := rfl
    have hl : 0 < l ∧ off + l ≤ ip.len := by
      split at hl' <;> omega
    intro p hp
    rcases mem_cons.mp hp with rfl | hp
    · exact h.outFragPkt hg hoff hl.1 hl.2 _ hc
    · exact ih (by omega) p hp
  all_goals exact forall_mem_nil _

theorem outFragFirst {len : Nat}
    (hlt : hlen + len < ip.len) : (outFragFirst hlen ip m len).WellFormed payload := by
  have hhlen := h.hlen
  have hlen16 := h.len_lt
  have hplen0 := h.len
  have hcl := h.chainLen_eq
  -- what `m_adj` leaves
  generalize hcut : ip.len - (20 + ip.opts.length + len) = k
  have hk : Anp.outFragFirst hlen ip m len =
      { hdr := { ip with len := u16 (hlen + len), off := ip.off ||| ipMf }
        m := Anp.sumHdr { ip with len := u16 (hlen + len), off := ip.off ||| ipMf } hlen
          (adjPkthdr (fun _ => hlen + len) (mAdj m (-k))) } := by
    have : hlen + (len : Int) - ip.len = -k := by omega
    rw [Anp.outFragFirst, this]
  have hbytes := chainBytes_mAdj_tail m k
  have hhead := headLen_mAdj_tail m (k := k) (by omega)
  have hleft : chainLen m - k = 20 + (ip.opts.length + len) := by omega
  have hfirst := h.hdrChain.first
  obtain ⟨b, hb, hm⟩ := h.hdrChain.chain
  have hchain : HdrChain { ip with len := u16 (hlen + len), off := ip.off ||| ipMf }
      (payload.take len) (adjPkthdr (fun _ => hlen + len) (mAdj m (-k))) := by
    constructor
    · rw [headLen_adjPkthdr]
      omega
    · refine ⟨b, hb, ?_⟩
      rw [chainBytes_adjPkthdr, hbytes, hleft, hm, ← hb, take_length_add_append,
        take_length_add_append]
  have hfield : u16 (hlen + len) = 20 + ip.opts.length + len := by
    rw [u16]
    omega
  have hplen : (payload.take len).length = len := by
    rw [length_take]
    omega
  rw [hk]
  apply IpSent.WellFormed.of_bytes (d := payload.take len)
  · rw [h.hlen] at hchain ⊢
    exact hchain.sumHdr h.opts_le
  · exact ( take_prefix _ _).isInfix
  · exact h.hl
  · exact h.hl_lt
  · show u16 (hlen + len) = 20 + ip.opts.length + (payload.take len).length
    rw [hfield, hplen]
  · show u16 (hlen + len) < 65536
    omega

end

/-! ## Everything that is handed over -/

theorem handed_cons_output (ids : List MbufId) (p : IpSent) (l : List OutEvent) :
    handed (.output ids p :: l) = p :: handed l := rfl

theorem handed_free (ps : List OutPkt) : handed (ps.map fun q => .free q.ids) = [] := by
  rw [handed, filterMap_map]
  exact filterMap_eq_nil_iff.mpr fun _ _ => rfl

theorem sendAll_handed (ifError : Nat → Bool) {P : IpSent → Prop} {ps : List OutPkt}
    (hps : ∀ p ∈ ps, P p.sent) (i : Nat) : ∀ p ∈ handed (sendAll ifError i ps).1, P p := by
  induction ps generalizing i with
  | nil => simp [sendAll, handed]
  | cons q qs ih =>
    rw [forall_mem_cons] at hps
    rw [sendAll]
    split
    · rw [handed_cons_output, handed_free, forall_mem_singleton]
      exact hps.1
    · dsimp only
      rw [handed_cons_output, forall_mem_cons]
      exact ⟨hps.1, ih hps.2 (i + 1)⟩

theorem handed_outFragLoop (a : FragAlloc) (len k : Nat) (off : Int) :
    handed (Anp.outFragLoop a hlen ip m len k off).events = [] := by
  fun_induction Anp.outFragLoop a hlen ip m len k off
  case case7 ih => exact ih
  all_goals rfl

section

variable (h : Ready ip hlen m payload)
include h

theorem outFragLen_fits {mtu : Nat} (hmtu : mtu < 65536)
    (h8 : ¬ outFragLen mtu hlen < 8) : hlen + outFragLen mtu hlen ≤ mtu := by
  have hle := h.opts_le
  have hfrag : outFragLen mtu hlen = fragLen mtu (20 + ip.opts.length) := by
    rw [outFragLen, fragLen, h.hlen]
  rw [hfrag] at h8 ⊢
  have hspec := fragLen_spec hmtu (by omega) h8
  have hhlen := h.hlen
  omega

theorem outFragSend (e : IpEnv) (ids : List MbufId) {len : Nat}
    (hpos : 0 < len) (hlt : hlen + len < ip.len) :
    ∀ p ∈ handed (outFragSend e hlen ip ids m len).events, p.WellFormed payload := by
  have hev : handed (Anp.outFragLoop e.frag hlen ip m len ip.len (hlen + len)).events = [] :=
    handed_outFragLoop e.frag len ip.len (hlen + len)
  have hpkts := h.outFragLoop e.frag hpos ip.len (show hlen ≤ hlen + len by omega)
  rw [Anp.outFragSend]
  generalize Anp.outFragLoop e.frag hlen ip m len ip.len (hlen + len) = r at hev hpkts
  have hnone : ∀ p ∈ handed r.events, p.WellFormed payload := by
    rw [hev]
    simp
  split
  · exact hnone
  · exact hnone
  · exact hnone
  · rw [handed_append, hev, nil_append]
    have hfree : handed (OutEvent.free ids :: r.pkts.map fun q => .free q.ids) = [] :=
      handed_free r.pkts
    rw [hfree]
    simp
  · rw [handed_append, hev, nil_append]
    apply sendAll_handed
    rw [forall_mem_cons]
    exact ⟨h.outFragFirst hlt, hpkts⟩

theorem outFragment (e : IpEnv) {ifp : IpIf}
    (hmtu : ifp.mtu < ip.len) (ids : List MbufId) {bad : OutErr → OutRes}
    (hbad : ∀ err, handed (bad err).events = []) :
    ∀ p ∈ handed (outFragment e ifp hlen ip ids m bad).events, p.WellFormed payload := by
  rw [Anp.outFragment]
  split
  · rw [hbad]
    simp
  next hcan =>
    rw [cantFrag, Bool.or_eq_true, not_or, decide_eq_true_eq, decide_eq_true_eq] at hcan
    have hfits := h.outFragLen_fits (hmtu.trans h.len_lt) hcan.2
    exact h.outFragSend e ids (by omega) (by omega)

/-- **From `sendit` on.** -/
theorem sendit (e : IpEnv) (ifp : IpIf) (ids : List MbufId)
    {bad : OutErr → OutRes} (hbad : ∀ err, handed (bad err).events = []) :
    ∀ p ∈ handed (outSendit e ifp hlen ip ids m bad).events, p.WellFormed payload := by
  rw [outSendit]
  split
  · apply sendAll_handed
    rw [forall_mem_singleton]
    exact h.whole
  next hbig => exact h.outFragment e (by omega) ids hbad

end

end Ready

/-! ## The call -/

/-- Routing changes nothing of the header but `ip_ttl` and `ip_src`. -/
def SameBut (ip ip' : IpHdr) : Prop := ∃ ttl src, ip' = { ip with ttl := ttl, src := src }

theorem SameBut.ready (hs : SameBut ip ip') {payload : List Byte} (h : Ready ip hlen m payload) :
    Ready ip' hlen m payload := by
  obtain ⟨ttl, src, rfl⟩ := hs
  exact ⟨h.hlen, h.hl, h.hl_lt, ⟨h.hdrChain.first, h.hdrChain.chain⟩, h.len, h.len_lt⟩

/-- The header a routed packet has. -/
def Routed.hdr? : Routed → Option IpHdr
  | .bad _ => none
  | .gone ip _ => some ip
  | .send ip _ _ => some ip

theorem ipFindRoute_same {ia : InIfaddr} {dst : Nat}
    (h : ipFindRoute e c ip = .ok (ip', ia, ifp, dst)) : SameBut ip ip' := by
  rw [ipFindRoute] at h
  split at h
  · split at h
    · cases h
    · cases h
      exact ⟨_, _, rfl⟩
  · split at h
    · cases h
    · cases h
      exact ⟨_, _, rfl⟩

theorem ipRouteMulticast_same (h : (ipRouteMulticast e c ip ifp).hdr? = some ip') :
    SameBut ip ip' := by
  rw [ipRouteMulticast] at h
  dsimp only at h
  split at h
  · cases h
  split at h <;> split at h <;> (cases h; exact ⟨_, _, rfl⟩)

theorem ipRoute_same (h : (ipRoute e c ip).hdr? = some ip') : SameBut ip ip' := by
  rw [ipRoute] at h
  split at h
  · cases h
  next ip1 ia ifp dst hfind =>
  obtain ⟨ttl, src, rfl⟩ := ipFindRoute_same hfind
  split at h
  · obtain ⟨ttl', src', rfl⟩ := ipRouteMulticast_same h
    exact ⟨_, _, rfl⟩
  -- the source address is filled in, and a broadcast may be refused
  dsimp only at h
  generalize hip : (if src = 0 then _ else _ : IpHdr) = ip2 at h
  have hsame : SameBut ip ip2 := by
    rw [← hip]
    split <;> exact ⟨_, _, rfl⟩
  have hout : ip2 = ip' := by
    split at h
    · split at h
      · cases h
      split at h
      · cases h
      split at h
      · cases h
      · exact Option.some.inj h
    · exact Option.some.inj h
  exact hout ▸ hsame

/-- A call as its callers make it: `ip_len` is the length of the chain, and the header is in the
first mbuf, with its options only if the packet is forwarded. -/
structure IpCall.Valid (c : IpCall) : Prop where
  first : 20 + c.ip.opts.length ≤ headLen c.m0
  opts : ((chainBytes c.m0).drop 20).take c.ip.opts.length = c.ip.opts
  len : c.ip.len = chainLen c.m0
  len_lt : c.ip.len < 65536
  own : c.forwarding = false → c.ip.opts = []
  forwarded : c.forwarding = true → 4 * c.ip.hl = 20 + c.ip.opts.length ∧ c.ip.hl < 16
  opt : ∀ p, c.opt = some p → ∃ m, ipPcbopts m = some p

def IpCall.payload (c : IpCall) : List Byte := (chainBytes c.m0).drop (20 + c.ip.opts.length)

/-- `ip_insertoptions` declines: the packet would be too long, or there is no mbuf. -/
def IpCall.declines (mgethdr : Bool) (c : IpCall) (p : IpOption) : Bool :=
  decide (p.list.length + c.ip.len > ipMaxpacket) ||
    (c.m0.head?.any (optNeedsMbuf p.list.length) && !mgethdr)

/-- Options are inserted into the host's own packets and not into forwarded ones. -/
def IpCall.HlenKnown (mgethdr : Bool) (c : IpCall) : Prop :=
  ∀ p, c.opt = some p → c.declines mgethdr p = c.forwarding

/-! ### The options of a pcb -/

/-- What `ip_pcbopts` keeps are options as a header may have them, of the same length up to whole
addresses. -/
theorem pcboptsLoop_spec {n : Nat} {dst l : List Byte} {r : List Byte × List Byte}
    (h : pcboptsLoop n dst l = some r) :
    OptsValid r.2 ∧ r.2.length % 4 = l.length % 4 ∧ (r.2 = [] → l = []) := by
  fun_induction pcboptsLoop n dst l generalizing r with
  | case1 =>
    cases h
    exact ⟨.nil, rfl, fun _ => rfl⟩
  | case3 n dst l =>
    cases h
    exact ⟨.eol l, rfl, fun hnil => hnil⟩
  | case4 n dst l h0 ih =>
    obtain ⟨r', hr', rfl⟩ := map_eq_some_iff.mp h
    obtain ⟨hv, hlen, -⟩ := ih hr'
    refine ⟨.nop hv, ?_, nofun⟩
    simp only [length_cons]
    omega
  | case8 n dst opt h0 h1 olen body hlong hroute h7 ih =>
    -- a source route loses its first hop
    obtain ⟨r', hr', rfl⟩ := map_eq_some_iff.mp h
    obtain ⟨hv, hlen, -⟩ := ih hr'
    have h4 : (olen - 4).toNat = olen.toNat - 4 :=
      UInt8.toNat_sub_of_le _ _ (by rw [UInt8.le_iff_toNat_le]; exact (by omega : 4 ≤ olen.toNat))
    have hkept : (body.take 1 ++ (body.take (olen.toNat - 2)).drop 5).length = olen.toNat - 6 := by
      rw [length_append, length_take, length_drop, length_take]
      omega
    refine ⟨.opt h0 h1 (by omega) hv, ?_, nofun⟩
    simp only [length_drop, length_cons, length_append] at hlen hkept ⊢
    omega
  | case9 n dst opt h0 h1 olen body hlong hroute ih =>
    obtain ⟨r', hr', rfl⟩ := map_eq_some_iff.mp h
    obtain ⟨hv, hlen, -⟩ := ih hr'
    have hbody : (body.take (olen.toNat - 2)).length = olen.toNat - 2 := by
      rw [length_take]
      omega
    refine ⟨.opt h0 h1 (by omega) hv, ?_, nofun⟩
    simp only [length_drop, length_cons, length_append] at hlen ⊢
    omega
  | _ => cases h

theorem ipPcbopts_spec {m : Mbuf} {p : IpOption} (h : ipPcbopts m = some p) :
    OptsValid p.list ∧ p.list.length % 4 = 0 ∧ p.list.length ≤ 40 ∧ p.list ≠ [] := by
  rw [ipPcbopts] at h
  split_ifs at h with hlen
  obtain ⟨r, hr, h⟩ := bind_eq_some_iff.mp h
  obtain ⟨hv, hmod, hne⟩ := pcboptsLoop_spec hr
  rw [Mbuf.mLen] at hlen
  split at h
  · cases h
  next h40 =>
    cases h
    have hlist : r.2.length % 4 = 0 := by omega
    refine ⟨hv, hlist, Nat.le_of_not_lt h40, ?_⟩
    intro hnil
    rw [hne hnil] at hlen
    exact hlen (.inl rfl)

/-! ### The packet after `ip_insertoptions` -/

section

variable {e : IpEnv} {c : IpCall} {p : IpOption}

section

variable (hc : c.Valid)
include hc

theorem IpCall.Valid.ne_nil : c.m0 ≠ [] := by
  intro hnil
  have hfirst := hc.first
  rw [hnil, headLen] at hfirst
  omega

theorem IpCall.Valid.hdrChain : HdrChain c.ip c.payload c.m0 := by
  have hfirst := hc.first
  refine ⟨by omega, (chainBytes c.m0).take 20, ?_, ?_⟩
  · have hle : headLen c.m0 ≤ chainLen c.m0 := headLen_le_chainLen c.m0
    rw [length_take, length_chainBytes]
    omega
  · have hopts := hc.opts
    rw [IpCall.payload, ← drop_drop]
    conv_lhs => rw [← take_append_drop 20 (chainBytes c.m0)]
    conv_lhs => rw [← take_append_drop c.ip.opts.length ((chainBytes c.m0).drop 20)]
    rw [hopts]

theorem inserted_declined (hp : c.opt = some p) (hd : c.declines e.optHdr p = true) :
    ∃ dst, c.inserted e = { ids := c.ids, m := c.m0, ip := { c.ip with dst := dst }, phlen := none } := by
  obtain ⟨m, ms, hm⟩ := exists_cons_of_ne_nil hc.ne_nil
  rw [IpCall.declines, hm, head?_cons, any_some, Bool.or_eq_true, decide_eq_true_eq,
    Bool.and_eq_true, Bool.not_eq_true'] at hd
  simp only [IpCall.inserted, hp, hm, ipInsertoptions]
  by_cases hbig : p.list.length + c.ip.len > ipMaxpacket
  · rw [if_pos hbig]
    exact ⟨_, rfl⟩
  · obtain ⟨hneed, hno⟩ := hd.resolve_left hbig
    rw [if_neg hbig, if_pos hneed, if_pos hno]
    split
    · exact ⟨_, rfl⟩
    · exact ⟨_, rfl⟩

theorem inserted_done (hp : c.opt = some p) (hd : c.declines e.optHdr p = false) :
    (c.inserted e).phlen = some (20 + p.list.length) ∧ (∃ dst, (c.inserted e).ip =
        { c.ip with dst := dst, len := c.ip.len + p.list.length, opts := p.list ++ c.ip.opts }) ∧
      HdrChain (c.inserted e).ip c.payload (c.inserted e).m ∧
      20 + p.list.length ≤ headLen (c.inserted e).m ∧
      p.list.length + c.ip.len ≤ ipMaxpacket := by
  have hchain := hc.hdrChain
  have hfirst := hc.first
  obtain ⟨m, ms, hm⟩ := exists_cons_of_ne_nil hc.ne_nil
  obtain ⟨b, hb, hbytes⟩ := hchain.chain
  rw [IpCall.declines, hm, head?_cons, any_some, Bool.or_eq_false_iff,
    decide_eq_false_iff_not, Bool.and_eq_false_iff, Bool.not_eq_false'] at hd
  rw [hm] at hfirst hbytes
  have hin : 20 ≤ m.mData.length := Nat.le_trans (Nat.le_add_right _ _) hfirst
  have hcut : m.mData.take 20 = b ∧ m.mData.drop 20 ++ chainBytes ms = c.ip.opts ++ c.payload := by
    rw [chainBytes_cons] at hbytes
    constructor
    · have := congrArg (List.take 20) hbytes
      rwa [take_append_of_le_length hin, take_left' hb] at this
    · have := congrArg (List.drop 20) hbytes
      rwa [drop_append_of_le_length hin, drop_left' hb] at this
  have htake : (m.mData.take 20).length = 20 := by
    rw [hcut.1, hb]
  simp only [IpCall.inserted, hp, hm, ipInsertoptions, if_neg hd.1, ipHdrLen]
  -- the two places differ in where the options go, not in the octets of the chain
  have hbytes' : m.mData.take 20 ++ p.list ++ (m.mData.drop 20 ++ chainBytes ms)
      = m.mData.take 20 ++ (p.list ++ c.ip.opts ++ c.payload) := by
    rw [hcut.2, append_assoc, append_assoc]
  by_cases hneed : optNeedsMbuf p.list.length m = true
  · have hyes : ¬ e.optHdr = false := by
      intro hno
      rcases hd.2 with h | h
      · rw [hneed] at h
        cases h
      · rw [hno] at h
        cases h
    rw [if_pos hneed, if_neg hyes]
    have hhead : (m.mData.take 20 ++ p.list).length = 20 + p.list.length := by
      rw [length_append, htake]
    refine ⟨rfl, ?_, ⟨?_, m.mData.take 20, htake, ?_⟩, hhead.ge, Nat.le_of_not_lt hd.1⟩
    · split <;> exact ⟨_, rfl⟩
    · exact (Nat.le_add_right _ _).trans hhead.ge
    · split <;> exact hbytes'
  · rw [if_neg hneed]
    have hhead : 20 + p.list.length ≤ (m.mData.take 20 ++ p.list ++ m.mData.drop 20).length := by
      rw [length_append, length_append, htake]
      exact Nat.le_add_right _ _
    refine ⟨rfl, ?_, ⟨?_, m.mData.take 20, htake, ?_⟩, hhead, Nat.le_of_not_lt hd.1⟩
    · split <;> exact ⟨_, rfl⟩
    · exact (Nat.le_add_right _ _).trans hhead
    · have heq : chainBytes ({ m with
            mData := m.mData.take 20 ++ p.list ++ m.mData.drop 20 } :: ms)
          = m.mData.take 20 ++ (p.list ++ c.ip.opts ++ c.payload) := by
        rw [chainBytes_cons, append_assoc _ _ (chainBytes ms), hbytes']
      split <;> exact heq

theorem IpCall.Valid.payload_length :
    c.ip.len = 20 + c.ip.opts.length + c.payload.length := by
  have hfirst := hc.first
  have hle := headLen_le_chainLen c.m0
  rw [hc.len, IpCall.payload, length_drop, length_chainBytes]
  omega

/-- The header is filled in, and `hlen` is the length of the header that is there. -/
theorem ready_filled (hraw : c.rawoutput = false) (hk : c.HlenKnown e.optHdr) :
    Ready (c.filled e).1 (c.filled e).2 (c.inserted e).m c.payload := by
  have hlen := hc.payload_length
  have hlt := hc.len_lt
  have hchain := hc.hdrChain
  cases hf : c.forwarding with
  | true =>
    -- the header stays as it came: there are no options, or they are declined
    obtain ⟨hl, hl16⟩ := hc.forwarded hf
    have hins : ∃ dst, (c.inserted e).m = c.m0 ∧ (c.inserted e).ip = { c.ip with dst := dst } := by
      cases hp : c.opt with
      | none =>
        refine ⟨c.ip.dst, ?_⟩
        simp only [IpCall.inserted, hp]
        exact ⟨trivial, trivial⟩
      | some p =>
        obtain ⟨dst, hins⟩ := inserted_declined hc hp ((hk p hp).trans hf)
        exact ⟨dst, by rw [hins], by rw [hins]⟩
    obtain ⟨dst, hm, hip⟩ := hins
    have hfill : c.filled e = ({ c.ip with dst := dst }, 4 * (c.ip.hl : Int)) := by
      simp only [IpCall.filled, hf, Bool.true_or, if_true, hip]
    rw [hfill, hm]
    refine ⟨?_, hl, hl16, ⟨hchain.first, hchain.chain⟩, hlen, hlt⟩
    show 4 * (c.ip.hl : Int) = ((20 + c.ip.opts.length : Nat) : Int)
    omega
  | false =>
    have hown := hc.own hf
    cases hp : c.opt with
    | none =>
      have hfill : c.filled e
          = ({ c.ip with off := c.ip.off &&& ipDf, id := e.ipId % 65536, hl := 5 }, 20) := by
        simp only [IpCall.filled, IpCall.hlen0, IpCall.inserted, hf, hraw, hp, map_some, getD_some]
        rfl
      have hm : (c.inserted e).m = c.m0 := by simp only [IpCall.inserted, hp]
      rw [hown, length_nil] at hlen
      rw [hfill, hm]
      refine ⟨?_, ?_, (by decide : 5 < 16), ⟨hchain.first, hchain.chain⟩, ?_, hlt⟩
      · show (20 : Int) = ((20 + c.ip.opts.length : Nat) : Int)
        rw [hown]
        rfl
      · show 4 * 5 = 20 + c.ip.opts.length
        rw [hown]
        rfl
      · show c.ip.len = 20 + c.ip.opts.length + c.payload.length
        rw [hown]
        exact hlen
    | some p =>
      obtain ⟨hphlen, ⟨dst, hip⟩, hch, -, hmax⟩ := inserted_done hc hp ((hk p hp).trans hf)
      obtain ⟨m, hm⟩ := hc.opt p hp
      obtain ⟨-, h4, h40, -⟩ := ipPcbopts_spec hm
      have hmaxp : ipMaxpacket = 65535 := rfl
      have hhl : (((20 + p.list.length : Nat) : Int) / 4 % 16).toNat = (20 + p.list.length) / 4 := by
        omega
      have hfill : c.filled e =
          ({ (c.inserted e).ip with
              off := (c.inserted e).ip.off &&& ipDf
              id := e.ipId % 65536
              hl := (20 + p.list.length) / 4 }, ((20 + p.list.length : Nat) : Int)) := by
        simp only [IpCall.filled, IpCall.hlen0, hf, hraw, hphlen, map_some, getD_some, hhl]
        rfl
      have hopts : (c.inserted e).ip.opts.length = p.list.length := by
        rw [hip, hown, append_nil]
      have hlen' : (c.inserted e).ip.len = c.ip.len + p.list.length := by rw [hip]
      rw [hown, length_nil] at hlen
      rw [hfill]
      refine ⟨?_, ?_, ?_, ⟨hch.first, hch.chain⟩, ?_, ?_⟩
      · show ((20 + p.list.length : Nat) : Int) = ((20 + (c.inserted e).ip.opts.length : Nat) : Int)
        rw [hopts]
      · show 4 * ((20 + p.list.length) / 4) = 20 + (c.inserted e).ip.opts.length
        omega
      · show (20 + p.list.length) / 4 < 16
        omega
      · show (c.inserted e).ip.len = 20 + (c.inserted e).ip.opts.length + c.payload.length
        omega
      · show (c.inserted e).ip.len < 65536
        omega

end

theorem handed_optEvents : handed (c.optEvents e) = [] := by
  rw [IpCall.optEvents]
  split <;> rfl

/-- `m_copy` of a whole packet does not panic, and faults only at a cluster. -/
theorem ipMloopback_ret (avail : Nat) (ip : IpHdr) (m : List Mbuf) :
    (ipMloopback avail ip m).2 = none ∨
      (ipMloopback avail ip m = ([], some .fault) ∧ ¬Plain m) := by
  rw [ipMloopback]
  rcases mCopym_zero_all m avail with h | ⟨h, hp⟩ | ⟨n, h, -⟩ <;> rw [h]
  · exact .inl rfl
  · exact .inr ⟨rfl, hp⟩
  · exact .inl rfl

theorem withLoop_eq (rest : OutRes) (h : loops = true → (ipMloopback e.loopAvail ip m).2 = none) :
    withLoop e loops ip m rest =
      ⟨(if loops then (ipMloopback e.loopAvail ip m).1 else []) ++ rest.events, rest.ret⟩ := by
  rw [withLoop]
  split
  next hl =>
    dsimp only
    rw [h hl]
  next => rfl

/-- The packet goes on after the loopback, or that has faulted. -/
theorem withLoop_cases (e : IpEnv) (loops : Bool) (ip : IpHdr) (m : List Mbuf) (rest : OutRes) :
    (loops = true → (ipMloopback e.loopAvail ip m).2 = none) ∨
      (withLoop e loops ip m rest = ⟨[], .fault⟩ ∧ loops = true ∧ ¬Plain m) := by
  cases loops with
  | false => exact .inl (by simp)
  | true =>
    rcases ipMloopback_ret e.loopAvail ip m with h | ⟨h, hp⟩
    · exact .inl fun _ => h
    · refine .inr ⟨?_, rfl, hp⟩
      rw [withLoop, if_pos rfl, h]

theorem withLoop_handed {P : IpSent → Prop} {rest : OutRes}
    (hl : ∀ p ∈ handed (ipMloopback e.loopAvail ip m).1, P p) (hr : ∀ p ∈ handed rest.events, P p) :
    ∀ p ∈ handed (withLoop e loops ip m rest).events, P p := by
  rcases withLoop_cases e loops ip m rest with h | ⟨h, -⟩
  · rw [withLoop_eq rest h, handed_append]
    refine forall_mem_append.mpr ⟨?_, hr⟩
    split
    · exact hl
    · exact forall_mem_nil _
  · rw [h]
    exact forall_mem_nil _

theorem handed_of_ready (h : Ready (c.filled e).1 (c.filled e).2 (c.inserted e).m c.payload) :
    ∀ p ∈ handed (ipOutput e c).events, p.WellFormed c.payload := by
  show ∀ p ∈ handed (c.optEvents e ++ (c.route e).events), _
  rw [handed_append, handed_optEvents, nil_append, IpCall.route]
  have hsame := fun ip' (hr : (ipRoute e c (c.filled e).1).hdr? = some ip') => ipRoute_same hr
  cases hr : ipRoute e c (c.filled e).1 with
  | bad err => simp [IpCall.bad, handed]
  | gone ip loops =>
    rw [hr] at hsame
    have hready := (hsame ip rfl).ready h
    exact withLoop_handed (hready.mloopback _) (by simp [handed])
  | send ip ifp loops =>
    rw [hr] at hsame
    have hready := (hsame ip rfl).ready h
    exact withLoop_handed (hready.mloopback _) (hready.sendit e ifp _ fun _ => rfl)

/-- A header whose `ip_hl` is not its length makes a packet that is not well formed, whatever it has
been summed over. -/
theorem not_wellFormed {payload : List Byte} (hm : 20 ≤ headLen m) (hl : ip.hl < 16)
    (hne : 4 * ip.hl ≠ 20 + ip.opts.length) :
    ¬ IpSent.WellFormed payload { hdr := ip, m := sumHdr ip hlen m } := by
  intro hw
  have hwl : 4 * (rd8 (chainBytes (sumHdr ip hlen m)) 0 % 16) = 20 + ip.opts.length := hw.hl
  rw [rd8_sumHdr ip hlen hm hl] at hwl
  omega

theorem mem_handed_whole (hr : ipRoute e c (c.filled e).1 = .send ip ifp loops)
    (hfit : ip.len ≤ ifp.mtu)
    (hloop : loops = true → (ipMloopback e.loopAvail ip (c.inserted e).m).2 = none) :
    { hdr := ip, m := sumHdr ip (c.filled e).2 (c.inserted e).m } ∈ handed (ipOutput e c).events := by
  show _ ∈ handed (c.optEvents e ++ (c.route e).events)
  rw [handed_append, handed_optEvents, nil_append, IpCall.route, hr]
  dsimp only
  rw [withLoop_eq _ hloop, handed_append]
  apply mem_append_right
  rw [outSendit, if_pos hfit, sendAll]
  split <;> exact mem_singleton.mpr rfl

end

/-- The packet is routed out in one piece; a copy that is looped back before does not fault. -/
def LeavesWhole (e : IpEnv) (c : IpCall) : Prop :=
  ∃ ip ifp loops, ipRoute e c (c.filled e).1 = .send ip ifp loops ∧ ip.len ≤ ifp.mtu ∧
    (loops = true → (ipMloopback e.loopAvail ip (c.inserted e).m).2 = none)

/-- **The packets `ip_output` hands over are well formed** if the options of the call, if any, are
inserted and the packet is the host's own, or are declined and it is a forwarded one. In any other
call a packet that leaves whole is not, unless the value on the stack happens to say 20. -/
theorem output_well_formed (c : IpCall) (hc : c.Valid) (hraw : c.rawoutput = false) (e : IpEnv) :
    (c.HlenKnown e.optHdr → ∀ p ∈ handed (ipOutput e c).events, p.WellFormed c.payload) ∧
    (¬ c.HlenKnown e.optHdr → (c.forwarding = false → e.len0 / 4 % 16 ≠ 5) → LeavesWhole e c →
      ∃ p ∈ handed (ipOutput e c).events, ¬ p.WellFormed c.payload) := by
  refine ⟨fun hk => handed_of_ready (ready_filled hc hraw hk), ?_⟩
  intro hk h0 hleaves
  obtain ⟨ip, ifp, loops, hr, hfit, hloop⟩ := hleaves
  refine ⟨_, mem_handed_whole hr hfit hloop, ?_⟩
  obtain ⟨ttl, src, rfl⟩ := ipRoute_same
    (show (ipRoute e c (c.filled e).1).hdr? = some ip by rw [hr]; rfl)
  simp only [IpCall.HlenKnown, not_forall] at hk
  obtain ⟨p, hp, hk⟩ := hk
  have hchain := hc.hdrChain
  cases hf : c.forwarding with
  | false =>
    -- declined: `hlen` is what stood in `len`
    rw [hf, Bool.not_eq_false] at hk
    obtain ⟨dst, hins⟩ := inserted_declined hc hp hk
    have hfill : c.filled e =
        ({ c.ip with
            dst := dst
            off := c.ip.off &&& ipDf
            id := e.ipId % 65536
            hl := (e.len0 / 4 % 16).toNat }, e.len0) := by
      simp only [IpCall.filled, IpCall.hlen0, hf, hraw, hins]
      rfl
    have hnot := h0 hf
    rw [hins, hfill]
    apply not_wellFormed hchain.first
    · show (e.len0 / 4 % 16).toNat < 16
      omega
    · show 4 * (e.len0 / 4 % 16).toNat ≠ 20 + c.ip.opts.length
      rw [hc.own hf, length_nil]
      omega
  | true =>
    -- inserted: `ip_hl` does not count the options
    rw [hf, Bool.not_eq_true] at hk
    obtain ⟨-, ⟨dst, hip⟩, hch, -, -⟩ := inserted_done hc hp hk
    obtain ⟨m, hm⟩ := hc.opt p hp
    obtain ⟨-, -, -, hne⟩ := ipPcbopts_spec hm
    obtain ⟨hl, hl16⟩ := hc.forwarded hf
    have hfill : c.filled e = ((c.inserted e).ip, 4 * ((c.inserted e).ip.hl : Int)) := by
      simp only [IpCall.filled, hf, Bool.true_or, if_true]
    have hpos := length_pos_iff.mpr hne
    rw [hfill, hip]
    apply not_wellFormed hch.first
    · exact hl16
    · show 4 * c.ip.hl ≠ 20 + (p.list ++ c.ip.opts).length
      rw [length_append]
      omega

/-! ### A packet with options -/

/-- An interface, and a route to it for everything; `mgethdr` says whether there are mbufs. -/
def oneIf (mgethdr : Bool) (mtu : Nat) : IpEnv :=
  { rtalloc := fun _ =>
      some { ia := { addr := 0x0a000001, ifp := { mtu := mtu } }, ifp := { mtu := mtu } }
    optHdr := mgethdr }

/-- Four octets of data, in an mbuf without room for options before the header. -/
def nopCall : IpCall :=
  { m0 := [{ mPkthdr := some 24, mOff := 8, mData := List.replicate 20 0 ++ [7, 7, 7, 7] }]
    ip := { hl := 0, len := 24, id := 0, off := 0, p := 17, src := 0x0a000001, dst := 0x0a000002 }
    opt := some { dst := 0, list := [1, 1, 1, 0] } }

theorem nopCall_valid : nopCall.Valid where
  first := by decide
  opts := rfl
  len := rfl
  len_lt := by decide
  own := fun _ => rfl
  forwarded := fun h => absurd h (by decide)
  opt := by
    intro p hp
    exact ⟨{ mData := [1, 1, 1, 0] }, by rw [← hp]; decide⟩

/-- With an mbuf for the options the packet goes out with `ip_hl` 6. -/
theorem output_well_formed_nops :
    ∃ p ∈ handed (ipOutput (oneIf true 1500) nopCall).events,
      rd8 (chainBytes p.m) 0 = 70 ∧ p.WellFormed nopCall.payload := by
  have h := (output_well_formed nopCall nopCall_valid rfl (oneIf true 1500)).1 (by
    intro p hp
    cases hp
    decide)
  have hne : handed (ipOutput (oneIf true 1500) nopCall).events ≠ [] := by decide +kernel
  obtain ⟨p, hmem⟩ := exists_mem_of_ne_nil _ hne
  have hall : ∀ q ∈ handed (ipOutput (oneIf true 1500) nopCall).events,
      rd8 (chainBytes q.m) 0 = 70 := by decide +kernel
  exact ⟨p, hmem, hall p hmem, h p hmem⟩

/-- Without one the packet goes out with `ip_hl` 0, if the stack holds a 0. -/
theorem output_garbage_hlen :
    nopCall.Valid ∧ nopCall.rawoutput = false ∧
      ∃ p ∈ handed (ipOutput (oneIf false 1500) nopCall).events,
        rd8 (chainBytes p.m) 0 = 64 ∧ ¬ p.WellFormed nopCall.payload := by
  have hne : handed (ipOutput (oneIf false 1500) nopCall).events ≠ [] := by decide +kernel
  obtain ⟨p, hmem⟩ := exists_mem_of_ne_nil _ hne
  have hall : ∀ q ∈ handed (ipOutput (oneIf false 1500) nopCall).events,
      rd8 (chainBytes q.m) 0 = 64 := by decide +kernel
  refine ⟨nopCall_valid, rfl, p, hmem, hall p hmem, ?_⟩
  intro hw
  have hl := hw.hl
  rw [hall p hmem] at hl
  omega

end Anp
