import Anp.Ip.ReassArith

/-!
# ReassHeader — headers of different lengths in one datagram

Fragments of one datagram may have headers of different lengths: options without the copy flag
stand in the first one only. `ip_reass` steps over the header of each fragment in its first mbuf
and shows that of the front one again; `pr_input` gets the header length as an argument.

`ipintr` breaks both at its edges (`hdr_mismatch`): `m_pullup(m, sizeof (struct ip))` takes no more
than `max_protohdr` bytes out of a cluster, fewer than a header of more than 40 bytes; and the
`hlen` it passes to `pr_input` is that of the fragment that arrived last.
-/

namespace Anp

open Runs List

variable {a : IpAlloc} {ip : IpFrag} {k : IpPkt} {l : List Ipq} {A : ShortArith}

/-! ## The fragment at the front -/

/-- The header of `f` stands in its first mbuf, up to `m_data`. -/
structure IpFrag.WholeHdr (f : IpFrag) : Prop where
  lead_length : f.lead.length = 4 * f.hl
  hl_pos : 0 < f.hl
  hl_front : rd8 f.lead 0 % 16 = f.hl
  chain_ne : f.m ≠ []

/-- **The front of a queue.** After an insertion it is the fragment that arrived, if that starts
before all others, and the old front otherwise. -/
theorem fragInsert_front {qs qs' : List IpFrag} (h : fragInsert A qs ip = some qs') :
    ∃ f rest, qs' = f :: rest ∧ (f = ip ∨ (qs.head? = some f ∧ f.off ≤ ip.off)) := by
  cases qs with
  | nil =>
    cases h
    exact ⟨ip, [], rfl, .inl rfl⟩
  | cons q qs =>
    obtain ⟨ip', hpred, rfl⟩ := Option.map_eq_some_iff.mp h
    by_cases hoff : q.off ≤ ip.off
    · -- `q` stays in front
      rw [takeWhile_cons_of_pos (by simpa using hoff)]
      exact ⟨q, _, rfl, .inr ⟨rfl, hoff⟩⟩
    · -- nothing is before the new one, so nothing is cut off it
      rw [takeWhile_cons_of_neg (by simpa using hoff)] at hpred ⊢
      cases hpred
      exact ⟨ip, _, rfl, .inl rfl⟩

theorem foldl_mCat_head (qs : List IpFrag) (m : Mbuf) (ms : List Mbuf) :
    ∃ d ns, qs.foldl (fun c q => mCat c q.m) (m :: ms) = { m with mData := m.mData ++ d } :: ns := by
  induction qs generalizing m ms with
  | nil => exact ⟨[], ms, by simp⟩
  | cons q qs ih =>
    obtain ⟨d, ns, h⟩ := mCat_head m ms q.m
    obtain ⟨d', ns', h'⟩ := ih { m with mData := m.mData ++ d } ns
    refine ⟨d ++ d', ns', ?_⟩
    rw [foldl_cons, h, h', append_assoc]

theorem frontHl_fragJoin {f : IpFrag} {rest : List IpFrag} (hf : f.WholeHdr) :
    frontHl (fragJoin (f :: rest)) = f.hl := by
  obtain ⟨m, ms, hm⟩ := exists_cons_of_ne_nil hf.chain_ne
  obtain ⟨d, ns, hcat⟩ := mCat_head m [] ms
  obtain ⟨d', ns', hjoin⟩ := foldl_mCat_head rest { m with mData := m.mData ++ d } ns
  have hdrop : f.lead.drop (f.lead.length - 4 * f.hl) = f.lead := by
    rw [hf.lead_length, Nat.sub_self, drop_zero]
  have hpos : 0 < f.lead.length := by
    rw [hf.lead_length]
    exact Nat.mul_pos (by decide) hf.hl_pos
  have hfirst : ∀ l : List Byte, rd8 (f.lead ++ l) 0 = rd8 f.lead 0 := by
    intro l
    rw [rd8, rd8, getD_eq_getElem?_getD, getD_eq_getElem?_getD, getElem?_append_left hpos]
  rw [frontHl, fragJoin, hm]
  simp only [take_succ_cons, take_zero, drop_succ_cons, drop_zero, hcat, hjoin,
    hdrop, chainBytes_cons, append_assoc]
  rw [hfirst, hf.hl_front]

/-! ## The header of a packet -/

def IpPkt.isFrag (k : IpPkt) : Prop := k.mf = true ∨ k.off % 8192 ≠ 0
deriving Decidable

theorem ipPassed_isFrag (h : ipPassed cShort a k = some ip) : k.isFrag := by
  rw [ipPassed] at h
  split at h
  · obtain ⟨m', -, h⟩ := Option.bind_eq_some_iff.mp h
    dsimp only at h
    split at h
    · next hfrag =>
      rcases hfrag with hmf | hoff
      · exact .inl hmf
      · apply Or.inr
        intro h0
        apply hoff
        have hshl : cShort.shl3 k.off = unbounded.shl3 k.off := cShort_shl3 (by omega)
        simp only [IpPkt.frag, hshl, unbounded, h0]
        rfl
    · cases h
  · cases h

def startsExt (m : List Mbuf) : Prop := (m.head?.bind (·.mExt)).isSome
deriving Decidable

/-- What `m_pullup(m, sizeof (struct ip))` leaves in the first mbuf is the whole header, if that
is at most `max_protohdr` long. -/
theorem ipPull_spec {mget : Bool} (hk : k.Ok) {m : List Mbuf} (h : ipPull mget k.m = some m) :
    chainBytes m = chainBytes k.m ∧ m ≠ [] ∧
      ((startsExt k.m → 4 * k.hl ≤ maxProtohdr) → 4 * k.hl ≤ headLen m) := by
  have hin := hk.in_first
  have hge := hk.hl_ge
  cases hm : k.m with
  | nil =>
    rw [hm] at h
    cases h
  | cons n ns =>
    rw [hm] at h hin
    rw [headLen] at hin
    rw [ipPull] at h
    split at h
    · next hext =>
      obtain ⟨hb, m', rs, rfl, -⟩ := mPullup_spec h
      refine ⟨hb, by simp, ?_⟩
      intro hshort
      have h40 : 4 * k.hl ≤ maxProtohdr := hshort hext
      cases mget with
      | false =>
        -- without an mbuf `m_pullup` of a cluster fails
        have hne : ¬ (n.mExt = none ∧ n.mOff + ipHdrLen < mlen ∧ ns ≠ []) := by
          rintro ⟨h0, -⟩
          simp [h0] at hext
        rw [mPullup, if_neg hne, if_neg (by decide)] at h
        cases h
      | true =>
        have h20 : ipHdrLen = 20 := rfl
        obtain ⟨m'', rs', he, hdata⟩ := mPullup_cluster ns ipHdrLen hext (by decide) (by omega)
        rw [he] at h
        cases h
        rw [headLen, Mbuf.mLen, hdata, length_take, ← Mbuf.mLen]
        omega
    · cases h
      exact ⟨rfl, by simp, fun _ => hin⟩

theorem frontHl_of_ok (hk : k.Ok) : frontHl k.m = k.hl := by
  have hin := hk.in_first
  have hge := hk.hl_ge
  rw [frontHl, ← rd8_headBytes (by omega), hk.front]

theorem frag_wholeHdr (hk : k.Ok) {m : List Mbuf} (hne : m ≠ [])
    (hb : chainBytes m = chainBytes k.m) (hin : 4 * k.hl ≤ headLen m) :
    (k.frag A m).WholeHdr := by
  have hge := hk.hl_ge
  obtain ⟨n, ns, rfl⟩ := exists_cons_of_ne_nil hne
  constructor
  · show ((headBytes (n :: ns)).take (4 * k.hl)).length = 4 * k.hl
    rw [length_take]
    exact Nat.min_eq_left hin
  · show 0 < k.hl
    omega
  · show rd8 ((headBytes (n :: ns)).take (4 * k.hl)) 0 % 16 = k.hl
    rw [rd8_take (by omega), rd8_headBytes (by omega), hb, ← frontHl_of_ok hk, frontHl]
  · simp [IpPkt.frag]

/-! ## Runs -/

/-- The arrival of `ip` completes the datagram `k`. -/
def fragCompletes (l : List Ipq) (k : IpKey) (ip : IpFrag) : Prop :=
  ((fragInsert cShort ((ipqFind l k).getD []) ip).bind fragDone).isSome
deriving Decidable

/-- A fragment in a cluster has a header of at most `max_protohdr` bytes; one that completes a
datagram has a header as long as that of the fragment in front of it. -/
def HdrCond (l : List Ipq) (op : IpOp) : Prop := ∀ r ∈ op.ours,
    (r.2.isFrag → startsExt r.2.m → 4 * r.2.hl ≤ maxProtohdr) ∧
      ∀ ip ∈ ipPassed cShort r.1 r.2, fragCompletes l r.2.key ip →
        ∀ q ∈ ((ipqFind l r.2.key).getD []).head?, q.off ≤ ip.off → q.hl = ip.hl

instance (l : List Ipq) : DecidablePred (HdrCond l) := fun op =>
  inferInstanceAs (Decidable (∀ r ∈ op.ours, _ ∧ ∀ ip ∈ ipPassed cShort r.1 r.2, _))

def FrontWhole (fs : List IpFrag) : Prop := ∀ f ∈ fs.head?, f.WholeHdr

theorem HdrCond.passed {op : IpOp} (hop : HdrCond l op) (hours : op.ours = some (a, k))
    (hpass : ipPassed cShort a k = some ip) :
    ∃ m, ipPull a.gExt k.m = some m ∧ ip = k.frag cShort m ∧ 4 * k.hl ≤ headLen m ∧
      ip.WholeHdr := by
  have hk := IpOp.ours_ok hours
  obtain ⟨m, hpull, rfl⟩ := ipPassed_frag hpass
  obtain ⟨hb, hne, hin⟩ := ipPull_spec hk hpull
  have hin := hin ((hop _ hours).1 (ipPassed_isFrag hpass))
  exact ⟨m, hpull, rfl, hin, frag_wholeHdr hk hne hb hin⟩

theorem FrontWhole.find (hl : ∀ q ∈ l, FrontWhole q.frags) (k : IpKey) :
    FrontWhole ((ipqFind l k).getD []) := by
  cases hfind : ipqFind l k with
  | none => simp [FrontWhole]
  | some qs =>
    obtain ⟨q, hq, rfl⟩ := ipqFind_mem hfind
    exact hl q hq

theorem FrontWhole.insert {qs qs' : List IpFrag} (hqs : FrontWhole qs) (hip : ip.WholeHdr)
    (h : fragInsert A qs ip = some qs') :
    FrontWhole qs' := by
  obtain ⟨f, rest, rfl, hf⟩ := fragInsert_front h
  intro f' hf'
  cases hf'
  rcases hf with rfl | ⟨hhead, -⟩
  · exact hip
  · exact hqs f hhead

theorem FrontWhole.reach (h : IpReach HdrCond l) : ∀ q ∈ l, FrontWhole q.frags := by
  apply h.ops (I := fun l => ∀ q ∈ l, FrontWhole q.frags)
  · rintro _ rfl q hq
    cases hq
  · intro l op hl hop
    apply ipStep_queues hl
    intro a k ip hours hpass qs hqs
    obtain ⟨_, -, -, -, hip⟩ := hop.passed hours hpass
    exact (FrontWhole.find hl k.key).insert hip hqs

/-- A datagram that `ip_reass` returns starts with a header as long as that of the fragment that
completed it. -/
theorem frontHl_reass (hl : ∀ q ∈ l, FrontWhole q.frags) {op : IpOp} (hop : HdrCond l op)
    (hours : op.ours = some (a, k)) (hpass : ipPassed cShort a k = some ip) {c : List Mbuf}
    {n : Int} (h : (ipReass cShort a.gQueue l k.key ip).2 = some (c, n)) : frontHl c = k.hl := by
  obtain ⟨m, -, rfl, -, hip⟩ := hop.passed hours hpass
  obtain ⟨qs, next, hins, hdone, rfl, -⟩ := ipReass_some h
  have hcomp : fragCompletes l k.key (k.frag cShort m) := by simp [fragCompletes, hins, hdone]
  have hfront := (FrontWhole.find hl k.key).insert hip hins
  obtain ⟨f, rest, rfl, hf⟩ := fragInsert_front hins
  rw [frontHl_fragJoin (hfront f rfl)]
  rcases hf with rfl | ⟨hhead, hoff⟩
  · rfl
  · exact (hop _ hours).2 _ hpass hcomp f hhead hoff

/-- **Headers of fragments.** In a run whose steps meet `HdrCond`, every fragment is passed to
`ip_reass` with its header in its first mbuf, and what `pr_input` gets starts with a header of
`iphlen` bytes. -/
theorem reass_headers {l : List Ipq} (h : IpReach HdrCond l) {op : IpOp} (hop : HdrCond l op) :
    (∀ a k ip, op.ours = some (a, k) → ipPassed cShort a k = some ip →
        ∃ m, ipPull a.gExt k.m = some m ∧ ip = k.frag cShort m ∧ 4 * k.hl ≤ headLen m) ∧
      ∀ d, (ipStep cShort l op).2 = some d → d.iphlen = 4 * frontHl d.m := by
  constructor
  · intro a k ip hours hpass
    obtain ⟨m, hpull, he, hin, -⟩ := hop.passed hours hpass
    exact ⟨m, hpull, he, hin⟩
  intro d hd
  have hl := FrontWhole.reach h
  rw [ipStep.eq_def] at hd
  cases hours : op.ours with
  | none =>
    rw [hours] at hd
    cases op <;> cases hd
  | some r =>
    obtain ⟨a, k⟩ := r
    have hk := IpOp.ours_ok hours
    simp only [hours, ipOurs] at hd
    split at hd
    · next hoff =>
      split at hd
      · cases hd
      next m hpull =>
      split at hd
      · -- through `ip_reass`
        next hfrag =>
        have hpass : ipPassed cShort a k = some (k.frag cShort m) := by
          rw [ipPassed, if_pos hoff, hpull, Option.bind_some, if_pos hfrag]
        obtain ⟨⟨c, n⟩, hc, rfl⟩ := Option.map_eq_some_iff.mp hd
        rw [frontHl_reass hl hop hours hpass hc]
      · -- only the reserved bit of `ip_off` is set
        cases hd
        rw [frontHl, (ipPull_spec hk hpull).1, ← frontHl, frontHl_of_ok hk]
    · cases hd
      rw [frontHl_of_ok hk]

/-- The first fragment of `dgramSeven`, with three NOPs and the end of the option list. -/
def dgramSevenOpts (data : List Byte) : IpOp := .packet (IpHdr.plain
      { hl := 6, len := 24 + data.length, id := 7, off := 0x2000, p := 17, src := 0x0a000001,
        dst := 0x0a000002, opts := [1, 1, 1, 0] } data)
    {} (some 0x0a000002)

/-- The fragment with the long header arrives last. -/
theorem reass_headers_long_last :
    (ipStep cShort (ipNext cShort [] (dgramSeven 1 [9, 10]))
        (dgramSevenOpts [1, 2, 3, 4, 5, 6, 7, 8])).2.map (·.iphlen) = some 24 ∧
      ∀ d, (ipStep cShort (ipNext cShort [] (dgramSeven 1 [9, 10]))
          (dgramSevenOpts [1, 2, 3, 4, 5, 6, 7, 8])).2 = some d → d.iphlen = 4 * frontHl d.m := by
  have hstart : IpReach HdrCond [] := Reach.start rfl
  have hreach : IpReach HdrCond (ipNext cShort [] (dgramSeven 1 [9, 10])) :=
    hstart.foldl (l := [dgramSeven 1 [9, 10]]) (by decide +kernel)
  exact ⟨by decide +kernel, (reass_headers hreach (by decide +kernel)).2⟩

def dgramSevenCluster : IpOp :=
  .packet
    { m :=
        { mExt := some mclbytes
          mPkthdr := some 68
          mData :=
            IpHdr.bytes
              { hl := 15, len := 68, id := 7, off := 0x2000, p := 17, src := 0x0a000001,
                dst := 0x0a000002, opts := List.replicate 40 1 } ++ [1, 2, 3, 4, 5, 6, 7, 8] }
      ms := []
      pkthdr_len := by decide +kernel }
    {} (some 0x0a000002)

/-- **Where the lengths come apart.** Of a header of 60 bytes in a cluster only 40 are in the first
mbuf when `ip_reass` steps over 60. And `pr_input` gets the header length of the fragment that
arrives last, not that of the one in front. -/
theorem hdr_mismatch :
    (dgramSevenCluster.ours.bind fun r => ipPassed cShort r.1 r.2).map
        (fun ip => (4 * ip.hl, ip.lead.length)) = some (60, 40) ∧
      (ipStep cShort (ipNext cShort [] (dgramSevenOpts [1, 2, 3, 4, 5, 6, 7, 8]))
          (dgramSeven 1 [9, 10])).2.map (fun d => (d.iphlen, 4 * frontHl d.m)) = some (20, 24) := by
  decide +kernel

end Anp
