import Anp.Ip.Header

/-!
# Fragment — fragmentation in `ip_output`

`netinet/ip_output.c`: the code after `sendit` that splits a packet which is larger than the MTU,
and `ip_optcopy`. The packet is its header `ip` (host order) and the chain `m0`, which starts with
the header; the fragments are headers with chains, in the order in which they are sent.
`Emits` says what they carry, and `ipFragment_emits` connects the two.
-/

namespace Anp

open Machine List

/-! ## `ip_optcopy` -/

/-- The loop of `ip_optcopy` at `cp` with `cnt` octets left; `none` is that it goes on for ever, at
an option of length 0. -/
def optcopyLoop : Nat → List Byte → Nat → Option (List Byte)
  | _, _, 0 => some []
  | 0, _, _ + 1 => none
  | n + 1, cp, cnt =>
    let opt := rd8 cp 0
    if opt = 0 then some []
    else if opt = 1 then (optcopyLoop n (cp.drop 1) (cnt - 1)).map (1 :: ·)
    else
      let optlen := min (rd8 cp 1) cnt
      (optcopyLoop n (cp.drop optlen) (cnt - optlen)).map fun r =>
        if 128 ≤ opt then cp.take optlen ++ r else r

def padEol (l : List Byte) : List Byte := l ++ List.replicate ((4 - l.length % 4) % 4) 0

/-- `ip_optcopy`: what is copied of the `cnt` octets of options at `cp`. -/
def ipOptcopy (cp : List Byte) (cnt : Nat) : Option (List Byte) :=
  (optcopyLoop cnt cp cnt).map padEol

/-! ## The fragments -/

/-- A packet handed to `if_output`. -/
structure IpSent where
  hdr : IpHdr
  m : List Mbuf
  deriving DecidableEq, Repr

/-- The errors of `ip_output` in this part. `stuck` stands for an `ip_optcopy` that does not
return, `panic` and `fault` for an `m_copym` that does not. -/
inductive IpErr where
  | emsgsize
  | enobufs
  | stuck
  | panic
  | fault
  deriving DecidableEq, Repr

/-- `IP_DF`, `IP_MF`. -/
def ipDf : Nat := 0x4000

def ipMf : Nat := 0x2000

/-- What the allocator does: `MGETHDR` for the header of a later fragment and the number of mbufs
there are for its `m_copy`, by `off`. -/
structure FragAlloc where
  mgethdr : Nat → Bool
  avail : Nat → Nat

/-- `mhip` with its options: `*mhip = *ip`, and `ip_optcopy` if there are options. -/
def fragHdr (ip : IpHdr) (m0 : List Mbuf) : Option IpHdr :=
  if ipHdrLen < 4 * ip.hl then
    (ipOptcopy ((headBytes m0).drop ipHdrLen) (4 * ip.hl - ipHdrLen)).map fun opts =>
      { ip with hl := (ipHdrLen + opts.length) / 4, opts := opts }
  else some { ip with opts := [] }

/-- `mhip->ip_off` of the fragment that starts at `off`; `more` unless it is the last one. -/
def fragOff (ip : IpHdr) (off : Nat) (more : Bool) : Nat :=
  let o := ((off - 4 * ip.hl) / 8 + (ip.off &&& 0xdfff)) % 65536
  let o := if ip.off &&& ipMf ≠ 0 then o ||| ipMf else o
  if more then o ||| ipMf else o

/-- The header of the fragment of `len` octets at `off`. -/
def fragHdrAt (ip h : IpHdr) (off len : Nat) (more : Bool) : IpHdr :=
  { h with
    len := u16 ((len + (ipHdrLen + h.opts.length) : Nat) : Int)
    off := fragOff ip off more }

/-- One later fragment, `len` octets from `off` on. -/
def fragOne (ip h : IpHdr) (m0 : List Mbuf) (off len : Nat) (more : Bool) (avail : Nat) :
    Except IpErr IpSent :=
  match mCopym m0 off len avail with
  | .ok n =>
    .ok
      { hdr := fragHdrAt ip h off len more
        m :=
          { mType := .header
            mPkthdr := some ((ipHdrLen + h.opts.length + len : Nat) : Int)
            mOff := mlen - mhlen + maxLinkhdr
            mData := (fragHdrAt ip h off len more).bytes } :: n }
  | .nospace => .error .enobufs
  | .panic => .error .panic
  | .fault => .error .fault

/-- `for (off = hlen + len; off < (u_short)ip->ip_len; off += len)`, at `off`. -/
def ipFragLoop (a : FragAlloc) (ip : IpHdr) (m0 : List Mbuf) (len : Nat) :
    Nat → Nat → Except IpErr (List IpSent)
  | 0, _ => .ok []
  | n + 1, off =>
    if off < ip.len then
      if a.mgethdr off = false then .error .enobufs
      else
        match fragHdr ip m0 with
        | none => .error .stuck
        | some h =>
          let last := ip.len ≤ off + len
          let len' := if last then ip.len - off else len
          match fragOne ip h m0 off len' (!decide last) (a.avail off) with
          | .error e => .error e
          | .ok f => (ipFragLoop a ip m0 len n (off + len')).map (f :: ·)
    else .ok []

/-- The first `hlen` octets of the first mbuf rewritten. -/
def putHdr (h : IpHdr) : List Mbuf → List Mbuf
  | [] => []
  | m :: ms => { m with mData := h.bytes ++ m.mData.drop (4 * h.hl) } :: ms

/-- The first fragment: `m0` without what has been copied out. -/
def fragFirst (ip : IpHdr) (m0 : List Mbuf) (firstlen : Nat) : IpSent :=
  let h := { ip with len := u16 ((4 * ip.hl + firstlen : Nat) : Int), off := ip.off ||| ipMf }
  let m := mAdj m0 ((4 * ip.hl + firstlen : Nat) - (ip.len : Int))
  { hdr := h
    m := putHdr h (adjPkthdr (fun _ => ((4 * ip.hl + firstlen : Nat) : Int)) m) }

/-- `len = (ifp->if_mtu - hlen) &~ 7`, computed in `u_long` and stored in an `int`. -/
def fragLen (mtu hlen : Nat) : Int := int32 ((u32 ((mtu : Int) - hlen) / 8 * 8 : Nat) : Int)

/-- The part of `ip_output` for a packet with `(u_short)ip->ip_len > ifp->if_mtu`. -/
def ipFragment (a : FragAlloc) (mtu : Nat) (ip : IpHdr) (m0 : List Mbuf) :
    Except IpErr (List IpSent) :=
  let hlen := 4 * ip.hl
  if ip.off &&& ipDf ≠ 0 then .error .emsgsize
  else
    let len := fragLen mtu hlen
    if len < 8 then .error .emsgsize
    else
      (ipFragLoop a ip m0 len.toNat ip.len (hlen + len.toNat)).map (fragFirst ip m0 len.toNat :: ·)

/-! ## What the fragments should be -/

/-- Options as a header may have them: up to an end of list, each option other than a NOP with a
length octet that counts it all. -/
inductive OptsValid : List Byte → Prop where
  | nil : OptsValid []
  | eol (l : List Byte) : OptsValid (0 :: l)
  | nop {l : List Byte} : OptsValid l → OptsValid (1 :: l)
  | opt {o n : Byte} {body l : List Byte} (h0 : o ≠ 0) (h1 : o ≠ 1)
      (hn : n.toNat = 2 + body.length) : OptsValid l → OptsValid (o :: n :: (body ++ l))

/-- The fields of a header are in range, and its options are as long as `ip_hl` says. -/
structure IpHdr.InRange (h : IpHdr) : Prop where
  hl_lt : h.hl < 16
  len_lt : h.len < 65536
  id_lt : h.id < 65536
  off_lt : h.off < 65536
  p_lt : h.p < 256
  src_lt : h.src < 4294967296
  dst_lt : h.dst < 4294967296
  opts_length : 20 + h.opts.length = 4 * h.hl

/-- The fragment `f` carries the octets `d` of the payload from `o` on, and is followed by others
if `more` is set. -/
structure CarriesPiece (mtu : Nat) (ip : IpHdr) (o : Nat) (d : List Byte) (more : Bool)
    (f : IpSent) : Prop where
  bytes : chainBytes f.m = f.hdr.bytes ++ d
  ne : d ≠ []
  /-- All fragments but the last carry a multiple of 8. -/
  eight : more = true → d.length % 8 = 0
  len : f.hdr.len = 4 * f.hdr.hl + d.length
  le_mtu : f.hdr.len ≤ mtu
  /-- The offset counts in units of 8, beside the bits `ip_off` had. -/
  off : f.hdr.off = ip.off + o / 8 + (if more then ipMf else 0)
  off_eight : o % 8 = 0
  inRange : f.hdr.InRange
  hl_ge : 5 ≤ f.hdr.hl
  same : f.hdr.id = ip.id ∧ f.hdr.p = ip.p ∧ f.hdr.src = ip.src ∧ f.hdr.dst = ip.dst

/-- The fragments carry the octets `d` of the payload, from `o` to its end. -/
def Emits (mtu : Nat) (ip : IpHdr) : Nat → List Byte → List IpSent → Prop
  | _, d, [] => d = []
  | o, d, f :: fs =>
    ∃ d₁ d₂, d = d₁ ++ d₂ ∧ CarriesPiece mtu ip o d₁ (decide (fs ≠ [])) f ∧
      Emits mtu ip (o + d₁.length) d₂ fs

/-- A datagram given to `ip_output`, with its header in the first mbuf of `m0` and no offset,
`IP_DF` or `IP_MF` in `ip_off`. -/
structure IpDatagram (ip : IpHdr) (m0 : List Mbuf) (payload : List Byte) : Prop where
  inRange : ip.InRange
  hl_ge : 5 ≤ ip.hl
  off : ip.off % 32768 = 0
  len : ip.len = 4 * ip.hl + payload.length
  opts : OptsValid ip.opts
  chain : ∃ b : List Byte, b.length = 20 ∧ chainBytes m0 = b ++ ip.opts ++ payload
  in_first : 4 * ip.hl ≤ headLen m0

/-! ## The options of the later fragments -/

structure LaterHdr (ip g : IpHdr) : Prop where
  opts : 4 * g.hl = 20 + g.opts.length
  hl_ge : 5 ≤ g.hl
  hl_le : g.hl ≤ ip.hl
  eq : g = { ip with hl := g.hl, opts := g.opts }

theorem rd8_cons (b : Byte) (l : List Byte) : rd8 (b :: l) 0 = b.toNat := rfl

theorem toNat_ne {a b : Byte} (h : a ≠ b) : a.toNat ≠ b.toNat := fun he => h (UInt8.toNat_inj.mp he)

/-- The options of a header up to an end of list: NOPs, and options as long as their length
octet says, cut off at the end of the header. -/
inductive OptItems : List Byte → List (List Byte) → Prop where
  | nil : OptItems [] []
  | eol (l : List Byte) : OptItems (0 :: l) []
  | nop {l : List Byte} {items : List (List Byte)} : OptItems l items →
      OptItems (1 :: l) ([1] :: items)
  | opt {o n : Byte} {l : List Byte} {items : List (List Byte)} (h0 : o ≠ 0) (h1 : o ≠ 1)
      (hn : n ≠ 0) : OptItems ((o :: n :: l).drop n.toNat) items →
      OptItems (o :: n :: l) ((o :: n :: l).take n.toNat :: items)

/-- The options that are copied: NOPs, and those with the copy bit set. -/
def optsCopied (items : List (List Byte)) : List Byte :=
  (items.filter fun i => rd8 i 0 = 1 ∨ 128 ≤ rd8 i 0).flatten

variable {opts : List Byte} {n : Nat}

theorem OptItems.copied {items : List (List Byte)} (h : OptItems opts items)
    (tail : List Byte) (hn : opts.length ≤ n) :
    optcopyLoop n (opts ++ tail) opts.length = some (optsCopied items) := by
  induction h generalizing n with
  | nil => simp [optcopyLoop, optsCopied]
  | eol l =>
    obtain ⟨n, rfl⟩ : ∃ k, n = k + 1 := ⟨n - 1, by rw [length_cons] at hn; omega⟩
    simp [optcopyLoop, rd8_cons, optsCopied]
  | nop _ ih =>
    obtain ⟨n, rfl⟩ : ∃ k, n = k + 1 := ⟨n - 1, by rw [length_cons] at hn; omega⟩
    have hr := ih (n := n) (by rw [length_cons] at hn; omega)
    simp [optcopyLoop, rd8_cons, optsCopied, hr]
  | @opt o len l items h0 h1 hlen _ ih =>
    obtain ⟨n, rfl⟩ : ∃ k, n = k + 1 := ⟨n - 1, by rw [length_cons] at hn; omega⟩
    set opts := o :: len :: l
    have hpos : len.toNat ≠ 0 := toNat_ne hlen
    have hrest := length_drop (i := len.toNat) (l := opts)
    have hr := ih (n := n) (by omega)
    -- what the length octet counts beyond the header is not there
    have hdrop := (drop_eq_drop_min (l := opts) (i := len.toNat)).symm
    have htake := (take_eq_take_min (l := opts) (i := len.toNat)).symm
    have hle := Nat.min_le_right len.toNat opts.length
    have hcnt : opts.length - min len.toNat opts.length = (opts.drop len.toNat).length := by omega
    have hhead : rd8 (opts.take len.toNat) 0 = o.toNat := by
      obtain ⟨k, hk⟩ := Nat.exists_eq_succ_of_ne_zero hpos
      rw [hk]
      rfl
    rw [optcopyLoop.eq_3 _ _ _ (by simp [opts])]
    have hopt : rd8 (opts ++ tail) 0 = o.toNat := rfl
    have holen : rd8 (opts ++ tail) 1 = len.toNat := rfl
    have hz : o.toNat ≠ 0 := toNat_ne h0
    have hone : o.toNat ≠ 1 := toNat_ne h1
    simp only [hopt, holen, if_neg hz, if_false, drop_append_of_le_length hle, hdrop, hcnt,
      hr, take_append_of_le_length hle, htake, Option.map_some, optsCopied, filter_cons,
      hhead, hone, false_or, decide_eq_true_eq]
    by_cases hc : 128 ≤ o.toNat
    · rw [if_pos hc, if_pos hc, flatten_cons]
    · rw [if_neg hc, if_neg hc]

theorem OptsValid.items (h : OptsValid opts) : ∃ items, OptItems opts items := by
  induction h with
  | nil => exact ⟨_, .nil⟩
  | eol l => exact ⟨_, .eol l⟩
  | nop _ ih =>
    obtain ⟨items, hi⟩ := ih
    exact ⟨_, .nop hi⟩
  | @opt o n body l h0 h1 hn _ ih =>
    obtain ⟨items, hi⟩ := ih
    have hdrop : (o :: n :: (body ++ l)).drop n.toNat = l := by
      rw [hn, Nat.add_comm]
      simp
    refine ⟨_, .opt h0 h1 ?_ (hdrop ▸ hi)⟩
    rintro rfl
    have hzero : (0 : Byte).toNat = 0 := rfl
    omega

theorem optcopyLoop_length {n cnt : Nat} {cp r : List Byte}
    (h : optcopyLoop n cp cnt = some r) : r.length ≤ cnt := by
  fun_induction optcopyLoop n cp cnt generalizing r
  case case4 hcnt _ _ _ ih =>
    obtain ⟨r', hr', rfl⟩ := Option.map_eq_some_iff.mp h
    have hle := ih hr'
    rw [length_cons]
    have hpos := Nat.pos_of_ne_zero hcnt
    omega
  case case5 cp cnt _ _ _ _ optlen ih =>
    obtain ⟨r', hr', rfl⟩ := Option.map_eq_some_iff.mp h
    have hle := ih hr'
    have htake := length_take_le optlen cp
    split
    · rw [length_append]
      omega
    · omega
  all_goals cases h
  all_goals exact Nat.zero_le _

theorem OptsValid.copied (h : OptsValid opts) (tail : List Byte) (hn : opts.length ≤ n) :
    ∃ r, optcopyLoop n (opts ++ tail) opts.length = some r ∧ r.length ≤ opts.length := by
  obtain ⟨items, hi⟩ := h.items
  exact ⟨_, hi.copied tail hn, optcopyLoop_length (hi.copied tail hn)⟩

/-- The loop ends only on options that can be read within the header. -/
theorem items_of_optcopyLoop {opts r : List Byte}
    (h : optcopyLoop n opts opts.length = some r) : ∃ items, OptItems opts items := by
  induction n generalizing opts r with
  | zero =>
    cases opts with
    | nil => exact ⟨_, .nil⟩
    | cons o l => cases h
  | succ n ih =>
    cases opts with
    | nil => exact ⟨_, .nil⟩
    | cons o l =>
      by_cases h0 : o = 0
      · subst h0
        exact ⟨_, .eol l⟩
      have hz : o.toNat ≠ 0 := toNat_ne h0
      rw [optcopyLoop.eq_3 _ _ _ (by simp), rd8_cons, if_neg hz] at h
      by_cases h1 : o = 1
      · subst h1
        obtain ⟨r', hr', -⟩ := Option.map_eq_some_iff.mp h
        obtain ⟨items, hi⟩ := ih hr'
        exact ⟨_, .nop hi⟩
      rw [if_neg (show o.toNat ≠ 1 from toNat_ne h1)] at h
      obtain ⟨r', hr', -⟩ := Option.map_eq_some_iff.mp h
      set k := min (rd8 (o :: l) 1) (o :: l).length with hk
      have hr' : optcopyLoop n ((o :: l).drop k) ((o :: l).drop k).length = some r' := by
        rw [length_drop]
        exact hr'
      obtain ⟨items, hi⟩ := ih hr'
      -- a length octet of 0, or none, and the next round starts from the same options
      cases l with
      | nil => exact ⟨items, hi⟩
      | cons len l =>
        by_cases hz : len = 0
        · have hk0 : k = 0 := by
            rw [hk, hz]
            exact Nat.zero_min _
          rw [hk0] at hi
          exact ⟨items, hi⟩
        · refine ⟨_ :: items, .opt h0 h1 hz ?_⟩
          rwa [drop_eq_drop_min]

/-- Whatever is behind the header, `ip_optcopy` returns, does not look there, and has made the
copied options, filled up with EOL to a multiple of 4. -/
def OptcopyRight (opts : List Byte) : Prop :=
  ∃ r, (∀ tail, ipOptcopy (opts ++ tail) opts.length = some r) ∧ r.length % 4 = 0 ∧
    ∀ items, OptItems opts items → r = padEol (optsCopied items)

theorem length_padEol (l : List Byte) : (padEol l).length = (l.length + 3) / 4 * 4 := by
  rw [padEol, length_append, length_replicate]
  omega

/-- **Option copying** is right exactly on options in which, up to an end of list, every option but
a NOP has a length octet within the header that is not 0. -/
theorem optcopy_exact (opts : List Byte) : OptcopyRight opts ↔ ∃ items, OptItems opts items := by
  constructor
  · rintro ⟨r, hr, -⟩
    have h := hr []
    rw [append_nil, ipOptcopy] at h
    obtain ⟨r', hr', -⟩ := Option.map_eq_some_iff.mp h
    exact items_of_optcopyLoop hr'
  · rintro ⟨items, hi⟩
    have hcopy : ∀ {items'} (_ : OptItems opts items') (tail : List Byte),
        ipOptcopy (opts ++ tail) opts.length = some (padEol (optsCopied items')) := by
      intro items' hi' tail
      rw [ipOptcopy, hi'.copied tail (Nat.le_refl _)]
      rfl
    refine ⟨_, hcopy hi, by rw [length_padEol]; omega, fun items' hi' => ?_⟩
    exact Option.some.inj ((hcopy hi []).symm.trans (hcopy hi' []))

/-- An option with a length octet of 0, in the header of a raw packet. -/
theorem optcopy_loops : ¬OptcopyRight [130, 0, 0, 0] := by
  rintro ⟨r, hr, -⟩
  have hnone : ipOptcopy [130, 0, 0, 0] 4 = none := by decide
  cases hnone.symm.trans (hr [])

theorem length_bytes (h : IpHdr) : h.bytes.length = 20 + h.opts.length := by
  simp [IpHdr.bytes, IpHdr.octets, wrShort, wrLong]
  omega

section

variable {ip : IpHdr} {m0 : List Mbuf} {payload : List Byte}

theorem IpDatagram.chainLen_eq (h : IpDatagram ip m0 payload) : chainLen m0 = ip.len := by
  obtain ⟨b, hb, hc⟩ := h.chain
  have ho := h.inRange.opts_length
  rw [← length_chainBytes, hc, h.len]
  simp only [length_append]
  omega

theorem IpDatagram.drop_chain (h : IpDatagram ip m0 payload) :
    (chainBytes m0).drop (4 * ip.hl) = payload := by
  obtain ⟨b, hb, hc⟩ := h.chain
  have ho := h.inRange.opts_length
  rw [hc, drop_left']
  simp only [length_append]
  omega

/-- `ip_optcopy` finds the options, and what it makes of them is a header no longer than before. -/
theorem IpDatagram.fragHdr (h : IpDatagram ip m0 payload) :
    ∃ g, fragHdr ip m0 = some g ∧ LaterHdr ip g := by
  have ho := h.inRange.opts_length
  have hge := h.hl_ge
  have h20 : ipHdrLen = 20 := rfl
  rw [Anp.fragHdr]
  split
  · obtain ⟨b, hb, hc⟩ := h.chain
    have hhead : (headBytes m0).drop ipHdrLen = ip.opts ++ ((headBytes m0).drop (4 * ip.hl)) := by
      have htake := take_headBytes h.in_first
      have hsplit : headBytes m0 = b ++ ip.opts ++ (headBytes m0).drop (4 * ip.hl) := by
        conv_lhs => rw [← take_append_drop (4 * ip.hl) (headBytes m0)]
        rw [htake, hc, take_left']
        simp only [length_append]
        omega
      conv_lhs => rw [hsplit]
      rw [append_assoc, drop_left' (by rw [hb, h20])]
    have hcnt : 4 * ip.hl - ipHdrLen = ip.opts.length := by omega
    rw [hhead, hcnt]
    obtain ⟨r, hr, hle⟩ := h.opts.copied ((headBytes m0).drop (4 * ip.hl)) (Nat.le_refl _)
    have hpad := length_padEol r
    refine ⟨_, by rw [ipOptcopy, hr]; rfl, ?_, ?_, ?_, rfl⟩
    · show 4 * ((ipHdrLen + (padEol r).length) / 4) = 20 + (padEol r).length
      omega
    · show 5 ≤ (ipHdrLen + (padEol r).length) / 4
      omega
    · show (ipHdrLen + (padEol r).length) / 4 ≤ ip.hl
      omega
  · refine ⟨_, rfl, ?_, hge, Nat.le_refl _, rfl⟩
    show 4 * ip.hl = 20 + 0
    omega

/-! ## The offset field -/

theorem or_ipMf {r k : Nat} (hr : r = 0 ∨ r = 32768) (hk : k < 8192) :
    (r + k) ||| ipMf = r + k + ipMf := by
  have hmf : ipMf = 8192 := rfl
  have hlow : ipMf + k = ipMf ||| k := Nat.two_pow_add_eq_or_of_lt (i := 13) hk 1
  rcases hr with rfl | rfl
  · rw [Nat.zero_add, Nat.or_comm, ← hlow, Nat.add_comm]
  · have hhigh : ∀ j, j < 32768 → 32768 + j = 32768 ||| j :=
      fun j hj => Nat.two_pow_add_eq_or_of_lt (i := 15) hj 1
    rw [hhigh k (by omega), Nat.or_assoc, Nat.or_comm k, ← hlow, ← hhigh (ipMf + k) (by omega),
      ← hhigh k (by omega)]
    omega

section

variable (h : IpDatagram ip m0 payload)
include h

theorem IpDatagram.off_cases : ip.off = 0 ∨ ip.off = 32768 := by
  have hoff := h.off
  have hlt := h.inRange.off_lt
  omega

theorem IpDatagram.fragOff {o : Nat} (ho : o < 65536) (more : Bool) :
    fragOff ip (4 * ip.hl + o) more = ip.off + o / 8 + (if more then ipMf else 0) := by
  have hoff := h.off_cases
  have hno : ip.off &&& ipMf = 0 := by
    rcases hoff with h0 | h0 <;> rw [h0] <;> rfl
  have hkeep : ip.off &&& 0xdfff = ip.off := by
    rcases hoff with h0 | h0 <;> rw [h0] <;> rfl
  have hsum : ((4 * ip.hl + o - 4 * ip.hl) / 8 + ip.off) % 65536 = ip.off + o / 8 := by omega
  simp only [Anp.fragOff, hno, hkeep, hsum, ne_eq, not_true_eq_false, if_false]
  split
  · exact or_ipMf hoff (by omega)
  · rfl

/-! ## The fragments one by one -/

theorem IpDatagram.hdrAt_inRange {g : IpHdr} (hg : LaterHdr ip g)
    {o l : Nat} (more : Bool) (hend : o + l ≤ payload.length) :
    (fragHdrAt ip g (4 * ip.hl + o) l more).InRange ∧
      (fragHdrAt ip g (4 * ip.hl + o) l more).len = 4 * g.hl + l := by
  have hr := h.inRange
  have hlen := h.len
  have hlt := hr.len_lt
  have hle := hg.hl_le
  have hopts := hg.opts
  have h20 : ipHdrLen = 20 := rfl
  have hfield : (fragHdrAt ip g (4 * ip.hl + o) l more).len = 4 * g.hl + l := by
    show u16 ((l + (ipHdrLen + g.opts.length) : Nat) : Int) = 4 * g.hl + l
    rw [u16]
    omega
  refine ⟨?_, hfield⟩
  constructor
  case hl_lt =>
    show g.hl < 16
    have := hr.hl_lt
    omega
  case len_lt =>
    omega
  case id_lt =>
    rw [hg.eq]
    exact hr.id_lt
  case off_lt =>
    have hoff := h.off_cases
    have hmf : ipMf = 8192 := rfl
    show Anp.fragOff ip (4 * ip.hl + o) more < 65536
    rw [h.fragOff (by omega)]
    split <;> omega
  case p_lt =>
    rw [hg.eq]
    exact hr.p_lt
  case src_lt =>
    rw [hg.eq]
    exact hr.src_lt
  case dst_lt =>
    rw [hg.eq]
    exact hr.dst_lt
  case opts_length => exact hopts.symm

variable {mtu L : Nat}

theorem IpDatagram.fragOne {g : IpHdr}
    (hg : LaterHdr ip g) (hmtu : 4 * ip.hl + L ≤ mtu) {o l avail : Nat} {more : Bool}
    (ho : o % 8 = 0) (hl : 0 < l ∧ l ≤ L) (hend : o + l ≤ payload.length)
    (hmore : more = true → l % 8 = 0) {f : IpSent}
    (hf : fragOne ip g m0 (4 * ip.hl + o) l more avail = .ok f) :
    CarriesPiece mtu ip o ((payload.drop o).take l) more f := by
  have hlen := h.len
  have hlt := h.inRange.len_lt
  have hcl := h.chainLen_eq
  have hle := hg.hl_le
  have hall : mCopyall = 1000000000 := rfl
  obtain ⟨hrange, hfield⟩ := h.hdrAt_inRange hg more hend
  rw [Anp.fragOne] at hf
  rcases mCopym_spec m0 (4 * ip.hl + o) l avail (by omega) (by omega) with
    ⟨hno, -⟩ | ⟨hno, -⟩ | ⟨n, hn, hbytes⟩
  · rw [hno] at hf
    cases hf
  · rw [hno] at hf
    cases hf
  rw [hn] at hf
  cases hf
  have hpiece : chainBytes n = (payload.drop o).take l := by
    rw [hbytes, ← drop_drop, h.drop_chain]
  have hplen : ((payload.drop o).take l).length = l := by
    rw [length_take, length_drop]
    omega
  constructor
  case bytes => simp [hpiece]
  case ne =>
    intro h0
    rw [h0, length_nil] at hplen
    omega
  case eight =>
    intro hm
    rw [hplen]
    exact hmore hm
  case len =>
    rw [hfield, hplen]
    rfl
  case le_mtu =>
    rw [hfield]
    omega
  case off => exact h.fragOff (by omega) more
  case off_eight => exact ho
  case inRange => exact hrange
  case hl_ge => exact hg.hl_ge
  case same =>
    rw [hg.eq]
    exact ⟨rfl, rfl, rfl, rfl⟩

end

variable {a : FragAlloc}

theorem ipFragLoop_ne_nil {L n off : Nat} {fs : List IpSent}
    (h : ipFragLoop a ip m0 L (n + 1) off = .ok fs) (hoff : off < ip.len) : fs ≠ [] := by
  rw [ipFragLoop, if_pos hoff] at h
  split at h
  · cases h
  split at h
  · cases h
  dsimp only at h
  split at h
  · cases h
  next f _ =>
  cases hr : ipFragLoop a ip m0 L n _ with
  | error e =>
    rw [hr] at h
    cases h
  | ok rest =>
    rw [hr] at h
    cases h
    simp

/-- **The later fragments.** Induction on the rounds; `o` is the octet of the payload the loop has
come to. -/
theorem IpDatagram.ipFragLoop (h : IpDatagram ip m0 payload)
    (hmtu : 4 * ip.hl + L ≤ mtu) (hL : 0 < L ∧ L % 8 = 0) {n o : Nat} (ho : o % 8 = 0)
    (hn : payload.length - o ≤ n) {fs : List IpSent}
    (hf : ipFragLoop a ip m0 L n (4 * ip.hl + o) = .ok fs) :
    Emits mtu ip o (payload.drop o) fs := by
  have hlen := h.len
  have hnil {o : Nat} (ho : payload.length ≤ o) : Emits mtu ip o (payload.drop o) [] :=
    drop_eq_nil_of_le ho
  induction n generalizing o fs with
  | zero =>
    cases hf
    exact hnil (by omega)
  | succ n ih =>
    rw [Anp.ipFragLoop] at hf
    split at hf
    case isFalse =>
      cases hf
      exact hnil (by omega)
    split_ifs at hf
    obtain ⟨g, hg, hlater⟩ := h.fragHdr
    simp only [hg] at hf
    -- `len` for the last fragment is what is left
    generalize hl' : (if ip.len ≤ 4 * ip.hl + o + L then ip.len - (4 * ip.hl + o) else L) = l at hf
    have hl : 0 < l ∧ l ≤ L ∧ o + l ≤ payload.length := by
      split at hl' <;> omega
    split at hf
    · cases hf
    next f hone =>
    cases hr : Anp.ipFragLoop a ip m0 L n (4 * ip.hl + o + l) <;> rw [hr] at hf <;> cases hf
    case ok rest =>
    have hsplit : payload.drop o = (payload.drop o).take l ++ payload.drop (o + l) := by
      rw [← drop_drop, take_append_drop]
    have hplen : ((payload.drop o).take l).length = l := by
      rw [length_take, length_drop]
      omega
    -- the fragment says "more" exactly when others follow
    have hmore : (!decide (ip.len ≤ 4 * ip.hl + o + L)) = decide (rest ≠ []) := by
      by_cases hlast : ip.len ≤ 4 * ip.hl + o + L
      · rw [if_pos hlast] at hl'
        have hnil : rest = [] := by
          cases n with
          | zero => exact (Except.ok.inj hr).symm
          | succ n =>
            rw [Anp.ipFragLoop, if_neg (by omega)] at hr
            exact (Except.ok.inj hr).symm
        simp [hlast, hnil]
      · rw [if_neg hlast] at hl'
        have hne : rest ≠ [] := by
          obtain ⟨n, rfl⟩ : ∃ k, n = k + 1 := ⟨n - 1, by omega⟩
          exact ipFragLoop_ne_nil hr (by omega)
        simp [hlast, hne]
    rw [hmore] at hone
    refine ⟨_, _, hsplit, ?_, ?_⟩
    · apply h.fragOne hlater hmtu ho ⟨hl.1, hl.2.1⟩ hl.2.2 _ hone
      intro hm
      rw [← hmore] at hm
      simp only [Bool.not_eq_true', decide_eq_false_iff_not] at hm
      rw [if_neg hm] at hl'
      rw [← hl']
      exact hL.2
    · rw [hplen]
      rw [Nat.add_assoc] at hr
      by_cases hlast : ip.len ≤ 4 * ip.hl + o + L
      · -- nothing is left, so it does not matter that `o + l` need not be a multiple of 8
        have hrest : rest = [] := by simpa [hlast] using hmore
        rw [if_pos hlast] at hl'
        rw [hrest]
        exact hnil (by omega)
      · rw [if_neg hlast] at hl'
        exact ih (by omega) (by omega) hr

/-! ## The first fragment, and all of them -/

theorem chainBytes_putHdr {h : IpHdr} {m : List Mbuf} (hin : 4 * h.hl ≤ headLen m)
    (hne : m ≠ []) : chainBytes (putHdr h m) = h.bytes ++ (chainBytes m).drop (4 * h.hl) := by
  obtain ⟨n, ns, rfl⟩ := exists_cons_of_ne_nil hne
  rw [putHdr, chainBytes_cons, chainBytes_cons, drop_append_of_le_length hin, append_assoc]

theorem IpDatagram.fragFirst (h : IpDatagram ip m0 payload)
    (hmtu : 4 * ip.hl + L ≤ mtu) (hL : 0 < L ∧ L % 8 = 0) (hlt : L < payload.length) :
    CarriesPiece mtu ip 0 (payload.take L) true (fragFirst ip m0 L) := by
  have hlen := h.len
  have hr := h.inRange
  have hlen16 := hr.len_lt
  have hcl := h.chainLen_eq
  have hoff := h.off_cases
  have hge := h.hl_ge
  have hmf : ipMf = 8192 := rfl
  have hplen : (payload.take L).length = L := by
    rw [length_take]
    omega
  have hu16 : (Anp.fragFirst ip m0 L).hdr.len = 4 * ip.hl + L := by
    simp only [Anp.fragFirst, u16]
    omega
  have hfield : ip.off ||| ipMf = ip.off + 0 + ipMf := or_ipMf (k := 0) hoff (by decide)
  -- what `m_adj` leaves
  have hk : ((4 * ip.hl + L : Nat) : Int) - (ip.len : Int) = -((ip.len - (4 * ip.hl + L) : Nat)) := by
    omega
  have hleft : chainLen m0 - (ip.len - (4 * ip.hl + L)) = 4 * ip.hl + L := by omega
  have hbytes := chainBytes_mAdj_tail m0 (ip.len - (4 * ip.hl + L))
  have hhead := headLen_mAdj_tail m0 (k := ip.len - (4 * ip.hl + L)) (by omega)
  rw [hleft] at hbytes hhead
  have hin := h.in_first
  constructor
  case bytes =>
    have hdata : ((chainBytes m0).take (4 * ip.hl + L)).drop (4 * ip.hl) = payload.take L := by
      rw [drop_take, h.drop_chain, Nat.add_sub_cancel_left]
    show chainBytes (putHdr _ (adjPkthdr _ (mAdj m0 _))) = _
    rw [hk, chainBytes_putHdr, chainBytes_adjPkthdr, hbytes]
    · show _ ++ ((chainBytes m0).take (4 * ip.hl + L)).drop (4 * ip.hl) = _
      rw [hdata]
      rfl
    · rw [headLen_adjPkthdr]
      show 4 * ip.hl ≤ _
      omega
    · intro hnil
      have h0 : headLen (mAdj m0 (-((ip.len - (4 * ip.hl + L) : Nat) : Int))) = 0 := by
        rw [← headLen_adjPkthdr, hnil, headLen]
      omega
  case ne =>
    intro h0
    rw [h0, length_nil] at hplen
    omega
  case eight =>
    intro _
    rw [hplen]
    exact hL.2
  case len =>
    rw [hu16, hplen]
    rfl
  case le_mtu =>
    rw [hu16]
    exact hmtu
  case off => exact hfield
  case off_eight => rfl
  case inRange =>
    refine ⟨hr.hl_lt, ?_, hr.id_lt, ?_, hr.p_lt, hr.src_lt, hr.dst_lt, hr.opts_length⟩
    · rw [hu16]
      omega
    · show ip.off ||| ipMf < 65536
      omega
  case hl_ge => exact hge
  case same => exact ⟨rfl, rfl, rfl, rfl⟩

/-- `len` is a multiple of 8 that leaves room for the header. A difference that wraps is negative
as an `int`. -/
theorem fragLen_spec {mtu hlen : Nat} (hmtu : mtu < 65536) (hhlen : hlen ≤ 60)
    (h : ¬ fragLen mtu hlen < 8) :
    hlen + (fragLen mtu hlen).toNat ≤ mtu ∧ 0 < (fragLen mtu hlen).toNat ∧
      (fragLen mtu hlen).toNat % 8 = 0 := by
  have hle : hlen ≤ mtu := by
    by_contra hgt
    apply h
    have hwrap : u32 ((mtu : Int) - hlen) = 4294967296 + mtu - hlen := by
      rw [u32]
      omega
    rw [fragLen, hwrap, int32, Int.bmod]
    split <;> omega
  have hsub : u32 ((mtu : Int) - hlen) = mtu - hlen := by
    rw [u32]
    omega
  have hval : fragLen mtu hlen = (((mtu - hlen) / 8 * 8 : Nat) : Int) := by
    rw [fragLen, hsub, int32_of_range (by omega) (by omega)]
  omega

/-- There are mbufs for every fragment. -/
def FragAlloc.Enough (a : FragAlloc) (m0 : List Mbuf) : Prop :=
  ∀ off, a.mgethdr off = true ∧ m0.length ≤ a.avail off

theorem IpDatagram.ipFragLoop_ok (h : IpDatagram ip m0 payload) (ha : a.Enough m0) {n o : Nat}
    (hp : Plain (copySource m0 (4 * ip.hl + o))) :
    ∃ fs, Anp.ipFragLoop a ip m0 L n (4 * ip.hl + o) = .ok fs := by
  have hlen := h.len
  have hlt := h.inRange.len_lt
  have hcl := h.chainLen_eq
  have hall : mCopyall = 1000000000 := rfl
  induction n generalizing o with
  | zero => exact ⟨[], rfl⟩
  | succ n ih =>
    rw [Anp.ipFragLoop]
    split
    case isFalse => exact ⟨[], rfl⟩
    obtain ⟨hget, hmany⟩ := ha (4 * ip.hl + o)
    obtain ⟨g, hg, -⟩ := h.fragHdr
    rw [if_neg (by rw [hget]; simp)]
    simp only [hg]
    generalize hl' : (if ip.len ≤ 4 * ip.hl + o + L then ip.len - (4 * ip.hl + o) else L) = l
    have hl : o + l ≤ payload.length := by
      split at hl' <;> omega
    rw [Anp.fragOne]
    rcases mCopym_spec m0 (4 * ip.hl + o) l (a.avail (4 * ip.hl + o)) (by omega) (by omega) with
      ⟨-, hfew⟩ | ⟨-, hext⟩ | ⟨c, hc, -⟩
    · have := (copySource_suffix m0 (4 * ip.hl + o)).length_le
      omega
    · exact absurd hp hext
    · -- the rest of the fragments, from further back in the chain
      obtain ⟨fs, hfs⟩ := @ih (o + l) fun b hb => hp b ((copySource_later (by omega)).subset hb)
      rw [← Nat.add_assoc] at hfs
      rw [hc]
      simp only [hfs]
      exact ⟨_, rfl⟩

/-- A datagram is sent in fragments if there are mbufs, and no cluster where `m_copym` copies. -/
theorem ipFragment_ok (h : IpDatagram ip m0 payload) {mtu : Nat}
    (h8 : 8 ≤ fragLen mtu (4 * ip.hl)) (ha : a.Enough m0)
    (hp : Plain (copySource m0 (4 * ip.hl + (fragLen mtu (4 * ip.hl)).toNat))) :
    ∃ frs, ipFragment a mtu ip m0 = .ok frs := by
  have hdf : ip.off &&& ipDf = 0 := by
    rcases h.off_cases with h0 | h0 <;> rw [h0] <;> decide
  obtain ⟨fs, hfs⟩ := h.ipFragLoop_ok (L := (fragLen mtu (4 * ip.hl)).toNat) (n := ip.len) ha hp
  rw [ipFragment, if_neg (not_not.mpr hdf)]
  rw [if_neg (by omega), hfs]
  exact ⟨_, rfl⟩

/-- **Fragmentation.** The packets sent for a datagram larger than the MTU carry its payload piece
by piece, each in a packet of at most the MTU. -/
theorem ipFragment_emits (h : IpDatagram ip m0 payload) {mtu : Nat}
    (hmtu : mtu < ip.len) {frs : List IpSent} (hf : ipFragment a mtu ip m0 = .ok frs) :
    Emits mtu ip 0 payload frs ∧ 2 ≤ frs.length := by
  have hlen := h.len
  have hlt := h.inRange.len_lt
  have hhl := h.inRange.hl_lt
  rw [ipFragment] at hf
  split_ifs at hf
  dsimp only at hf
  split_ifs at hf with hsmall
  obtain ⟨hfit, hpos, height⟩ := fragLen_spec (by omega) (by omega) hsmall
  generalize (fragLen mtu (4 * ip.hl)).toNat = L at hf hfit hpos height
  cases hr : ipFragLoop a ip m0 L ip.len (4 * ip.hl + L) with
  | error e =>
    rw [hr] at hf
    cases hf
  | ok rest =>
    rw [hr] at hf
    cases hf
    have hne : rest ≠ [] := by
      obtain ⟨n, hn⟩ : ∃ k, ip.len = k + 1 := ⟨ip.len - 1, by omega⟩
      rw [hn] at hr
      exact ipFragLoop_ne_nil hr (by omega)
    constructor
    · refine ⟨payload.take L, payload.drop L, (take_append_drop L payload).symm, ?_, ?_⟩
      · rw [decide_eq_true hne]
        exact h.fragFirst hfit ⟨hpos, height⟩ (by omega)
      · have hplen : (payload.take L).length = L := by
          rw [length_take]
          omega
        rw [hplen, Nat.zero_add]
        exact h.ipFragLoop hfit ⟨hpos, height⟩ height (by omega) hr
    · have := length_pos_iff.mpr hne
      rw [length_cons]
      omega

end

end Anp
