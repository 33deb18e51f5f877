import Anp.Ip.Wire
import Anp.Lib.Tiling

/-!
# Collect — reassembly undoes fragmentation

The fragments of a datagram tile its payload (`Lib.Tiling`). The queue `ip_reass` keeps for it
holds the fragments that have arrived, in the order of their offsets: a fragment that is there
already is dropped, a new one is put in its place and neither cut nor cuts another, and the queue
has no hole exactly when all have arrived.
-/

namespace Anp

open Tiling Machine List

variable {q : IpFrag} {f : IpSent} {d : List Byte} {qs : List IpFrag} {l : List IpSent} {o : Nat}

/-! ## What a fragment carries -/

/-- The octet of the payload the fragment starts at. -/
def IpSent.off (f : IpSent) : Nat := 8 * (f.hdr.off % 8192)

def IpSent.dataLen (f : IpSent) : Nat := f.hdr.len - 4 * f.hdr.hl

/-- `IP_MF`. -/
def IpSent.more (f : IpSent) : Bool := f.hdr.off.testBit 13

def IpSent.data (f : IpSent) : List Byte := (chainBytes f.m).drop (4 * f.hdr.hl)

/-- A part of a payload, as it is sent and as it is queued. -/
structure Piece where
  off : Int
  len : Int
  more : Bool
  data : List Byte

def IpSent.piece (f : IpSent) : Piece := ⟨f.off, f.dataLen, f.more, f.data⟩

def IpFrag.piece (q : IpFrag) : Piece := ⟨q.off, q.len, q.mff, chainBytes q.m⟩

section

variable {mtu : Nat} {ip : IpHdr}

theorem CarriesPiece.view {more : Bool} (h : CarriesPiece mtu ip o d more f)
    (hoff : ip.off = 0 ∨ ip.off = 32768) (ho : o < 65536) :
    f.off = o ∧ f.dataLen = d.length ∧ f.more = more ∧ f.data = d := by
  have hfield := h.off
  have height := h.off_eight
  have hmf : ipMf = 8192 := rfl
  have hlen := h.len
  refine ⟨?_, ?_, ?_, ?_⟩
  · rw [IpSent.off, hfield]
    split <;> omega
  · rw [IpSent.dataLen, hlen]
    omega
  · rw [IpSent.more, hfield, Nat.testBit_eq_decide_div_mod_eq]
    cases more with
    | true =>
      rw [if_pos rfl, decide_eq_true_eq]
      omega
    | false =>
      rw [if_neg (by decide), decide_eq_false_iff_not]
      omega
  · have hbl : f.hdr.bytes.length = 4 * f.hdr.hl := by
      rw [length_bytes, h.inRange.opts_length]
    rw [IpSent.data, h.bytes, drop_left' hbl]

/-- What a fragment needs to be read again. -/
structure Readable (ip : IpHdr) (f : IpSent) : Prop where
  inRange : f.hdr.InRange
  hl_ge : 5 ≤ f.hdr.hl
  len : f.hdr.len = 4 * f.hdr.hl + f.data.length
  bytes : chainBytes f.m = f.hdr.bytes ++ f.data
  same : f.hdr.id = ip.id ∧ f.hdr.p = ip.p ∧ f.hdr.src = ip.src

/-- The fragments `fs` carry the payload `d` from `o` on. -/
structure FragSeq (ip : IpHdr) (o : Nat) (d : List Byte) (fs : List IpSent) : Prop where
  tiled : Tiled IpSent.off IpSent.dataLen o fs
  data : fs.flatMap IpSent.data = d
  more : ∀ l f l', fs = l ++ f :: l' → f.more = decide (l' ≠ [])
  readable : ∀ f ∈ fs, Readable ip f

theorem Emits.fragSeq {fs : List IpSent} (hoff : ip.off = 0 ∨ ip.off = 32768)
    (hend : o + d.length < 65536) (h : Emits mtu ip o d fs) :
    FragSeq ip o d fs := by
  induction fs generalizing o d with
  | nil =>
    have hd : d = [] := h
    subst hd
    refine ⟨trivial, rfl, ?_, by simp⟩
    intro l f l' hnil
    simp at hnil
  | cons f fs ih =>
    obtain ⟨d1, d2, rfl, hf, hrest⟩ := h
    rw [length_append] at hend
    obtain ⟨hfo, hfl, hfm, hfd⟩ := hf.view hoff (by omega)
    have hrec := ih (by omega) hrest
    have hpos : 0 < d1.length := length_pos_iff.mpr hf.ne
    refine ⟨⟨hfo, by omega, by rw [hfl]; exact hrec.tiled⟩, ?_, ?_, ?_⟩
    · rw [flatMap_cons, hfd, hrec.data]
    · intro l g l' hl
      cases l with
      | nil =>
        cases hl
        exact hfm
      | cons x l =>
        cases hl
        exact hrec.more l g l' rfl
    · intro g hg
      rcases mem_cons.mp hg with rfl | hg
      · refine ⟨hf.inRange, hf.hl_ge, ?_, ?_, hf.same.1, hf.same.2.1, hf.same.2.2.1⟩
        · rw [hfd, hf.len]
        · rw [hfd, hf.bytes]
      · exact hrec.readable g hg

end

/-! ## Insertion into a queue of pieces that do not overlap -/

section

variable {A : ShortArith} {before after : List IpFrag} {ip : IpFrag}

theorem takeWhile_split (hb : ∀ q ∈ before, q.off ≤ ip.off) (ha : ∀ q ∈ after, ip.off < q.off) :
    (before ++ after).takeWhile (fun q => decide (q.off ≤ ip.off)) = before ∧
      (before ++ after).dropWhile (fun q => decide (q.off ≤ ip.off)) = after := by
  have hpos : ∀ q ∈ before, decide (q.off ≤ ip.off) = true := by simpa using hb
  rw [takeWhile_append_of_pos hpos, dropWhile_append_of_pos hpos]
  cases after with
  | nil => simp
  | cons q qs =>
    have hq : ¬ q.off ≤ ip.off := by
      have := ha q mem_cons_self
      omega
    simp [hq]

theorem fragInsert_between (hpos : 0 < ip.len) (hb : ∀ q ∈ before, q.off + q.len ≤ ip.off)
    (hb' : ∀ q ∈ before, 0 < q.len) (ha : ∀ q ∈ after, ip.off + ip.len ≤ q.off) :
    fragInsert A (before ++ after) ip = some (before ++ ip :: after) := by
  have hle : ∀ q ∈ before, q.off ≤ ip.off := by
    intro q hq
    have := hb q hq
    have := hb' q hq
    omega
  have hlt : ∀ q ∈ after, ip.off < q.off := by
    intro q hq
    have := ha q hq
    omega
  obtain ⟨htake, hdrop⟩ := takeWhile_split hle hlt
  have hpred : fragPred A before ip = some ip := by
    rw [fragPred]
    split
    · rfl
    · next q hlast =>
      have := hb q (mem_of_getLast? hlast)
      rw [if_neg (by omega)]
  have hsucc : fragSucc A ip after = after := by
    cases after with
    | nil => rfl
    | cons q qs =>
      have := ha q mem_cons_self
      rw [fragSucc, if_neg (by omega)]
  rw [fragInsert, htake, hdrop, hpred, Option.map_some, hsucc]

theorem fragInsert_again (hoff : q.off = ip.off) (hlen : q.len = ip.len) (hpos : 0 < ip.len)
    (hb : ∀ q ∈ before, q.off ≤ ip.off) (ha : ∀ q ∈ after, ip.off < q.off) :
    fragInsert A (before ++ q :: after) ip = none := by
  have hb' : ∀ p ∈ before ++ [q], p.off ≤ ip.off := by
    intro p hp
    rcases mem_append.mp hp with hp | hp
    · exact hb p hp
    · rw [mem_singleton.mp hp]
      omega
  obtain ⟨htake, -⟩ := takeWhile_split hb' ha
  rw [append_assoc, singleton_append] at htake
  rw [fragInsert, htake, fragPred, getLast?_concat]
  dsimp only
  rw [if_pos (by omega), if_pos (by omega), Option.map_none]

end

/-! ## The queue of a datagram -/

/-- The queue holds the fragments of a set. -/
structure Held (fs : List IpSent) (S : Finset IpSent) (qs : List IpFrag) : Prop where
  pieces : qs.map IpFrag.piece = (fs.filter fun f => decide (f ∈ S)).map IpSent.piece
  whole : ∀ q ∈ qs, q.WholeHdr

theorem mem_of_pieces (h : qs.map IpFrag.piece = l.map IpSent.piece) (hq : q ∈ qs) :
    ∃ f ∈ l, q.piece = f.piece := by
  have hm : q.piece ∈ l.map IpSent.piece := h ▸ mem_map_of_mem hq
  obtain ⟨f, hf, he⟩ := mem_map.mp hm
  exact ⟨f, hf, he.symm⟩

theorem piece_off (h : q.piece = f.piece) : q.off = f.off :=
  congrArg Piece.off h

theorem piece_len (h : q.piece = f.piece) : q.len = f.dataLen :=
  congrArg Piece.len h

section

variable {A : ShortArith} {ip : IpHdr} {d : List Byte} {fs : List IpSent} {S : Finset IpSent}
  {qs : List IpFrag} {f : IpSent} {q : IpFrag}

theorem pieces_before {l' : List IpSent} (ht : Tiled IpSent.off IpSent.dataLen 0 (l ++ f :: l'))
    {b : List IpFrag}
    (hb : b.map IpFrag.piece = (l.filter fun g => decide (g ∈ S)).map IpSent.piece) :
    ∀ p ∈ b, p.off + p.len ≤ f.off ∧ 0 < p.len := by
  intro p hp
  obtain ⟨g, hg, he⟩ := mem_of_pieces hb hp
  have hgl := mem_of_mem_filter hg
  have hbef := ht.before g hgl
  have hpos := (ht.le_off g (mem_append_left _ hgl)).2
  rw [piece_off he, piece_len he]
  omega

theorem pieces_after {l' : List IpSent} (ht : Tiled IpSent.off IpSent.dataLen 0 (l ++ f :: l'))
    {b : List IpFrag}
    (hb : b.map IpFrag.piece = (l'.filter fun g => decide (g ∈ S)).map IpSent.piece) :
    ∀ p ∈ b, (f.off + f.dataLen : Int) ≤ p.off := by
  intro p hp
  obtain ⟨g, hg, he⟩ := mem_of_pieces hb hp
  have haft := ht.after g (mem_of_mem_filter hg)
  rw [piece_off he]
  omega

/-- **A new fragment** is added to the queue. -/
theorem Held.new (h : Held fs S qs) (hs : FragSeq ip 0 d fs) (hf : f ∈ fs) (hS : f ∉ S)
    (hq : q.piece = f.piece) (hw : q.WholeHdr) :
    ∃ qs', fragInsert A qs q = some qs' ∧ Held fs (insert f S) qs' := by
  obtain ⟨l, l', rfl⟩ := append_of_mem hf
  have ht := hs.tiled
  have hpieces := h.pieces
  rw [filter_append, filter_cons_of_neg (by simpa using hS), map_append,
    map_eq_append_iff] at hpieces
  obtain ⟨before, after, rfl, hbefore, hafter⟩ := hpieces
  have hb := pieces_before ht hbefore
  have ha := pieces_after ht hafter
  have hpos := (ht.le_off f hf).2
  refine ⟨before ++ q :: after, ?_, ?_, ?_⟩
  · apply fragInsert_between
    · rw [piece_len hq]
      omega
    · intro p hp
      rw [piece_off hq]
      exact (hb p hp).1
    · exact fun p hp => (hb p hp).2
    · intro p hp
      rw [piece_off hq, piece_len hq]
      exact ha p hp
  · rw [ht.filter_insert, map_append, map_append, map_cons, map_cons, hbefore, hafter, hq]
  · intro p hp
    rcases mem_append.mp hp with hp | hp
    · exact h.whole p (mem_append_left _ hp)
    · rcases mem_cons.mp hp with rfl | hp
      · exact hw
      · exact h.whole p (mem_append_right _ hp)

/-- **A duplicate** is dropped. -/
theorem Held.dup (h : Held fs S qs) (hs : FragSeq ip 0 d fs) (hf : f ∈ fs) (hS : f ∈ S)
    (hq : q.piece = f.piece) : fragInsert A qs q = none := by
  obtain ⟨l, l', rfl⟩ := append_of_mem hf
  have ht := hs.tiled
  have hpieces := h.pieces
  rw [filter_append, filter_cons_of_pos (by simpa using hS), map_append,
    map_cons, map_eq_append_iff] at hpieces
  obtain ⟨before, rest, rfl, hbefore, hrest⟩ := hpieces
  obtain ⟨q', after, rfl, hq', hafter⟩ := map_eq_cons_iff.mp hrest
  have hb := pieces_before ht hbefore
  have ha := pieces_after ht hafter
  have hpos := (ht.le_off f hf).2
  apply fragInsert_again
  · rw [piece_off hq', piece_off hq]
  · rw [piece_len hq', piece_len hq]
  · rw [piece_len hq]
    omega
  · intro p hp
    have := hb p hp
    rw [piece_off hq]
    omega
  · intro p hp
    have := ha p hp
    rw [piece_off hq]
    omega

/-! ## A complete queue -/

section

variable (h : qs.map IpFrag.piece = l.map IpSent.piece)
include h

theorem fragNext_tiled (ht : Tiled IpSent.off IpSent.dataLen o l) :
    fragNext o qs = some ((o + (l.map IpSent.dataLen).sum : Nat) : Int) := by
  induction l generalizing o qs with
  | nil =>
    rw [map_nil, map_eq_nil_iff] at h
    subst h
    simp [fragNext]
  | cons f l ih =>
    obtain ⟨q, rest, rfl, hq, hrest⟩ := map_eq_cons_iff.mp h
    obtain ⟨hoff, -, hl⟩ := ht
    have hnext := ih hrest hl
    rw [fragNext, piece_off hq, piece_len hq, hoff, if_neg (by simp), ← Int.natCast_add, hnext,
      map_cons, sum_cons, Nat.add_assoc]

theorem tiled_of_fragNext {n : Int} (hpos : ∀ f ∈ l, 0 < f.dataLen) (hn : fragNext o qs = some n) :
    Tiled IpSent.off IpSent.dataLen o l := by
  induction l generalizing o qs with
  | nil => trivial
  | cons f l ih =>
    obtain ⟨q, rest, rfl, hq, hrest⟩ := map_eq_cons_iff.mp h
    rw [forall_mem_cons] at hpos
    rw [fragNext, piece_off hq, piece_len hq] at hn
    split at hn
    · cases hn
    · next hoff =>
      exact ⟨by omega, hpos.1, ih hrest hpos.2 hn⟩

theorem getLast_mff :
    qs.getLast?.map IpFrag.mff = l.getLast?.map IpSent.more := by
  have hlast := congrArg (fun k => k.getLast?.map Piece.more) h
  simpa [getLast?_map, Option.map_map, Function.comp_def, IpFrag.piece, IpSent.piece] using hlast

end

theorem FragSeq.sum_dataLen (hs : FragSeq ip 0 d fs) : (fs.map IpSent.dataLen).sum = d.length := by
  rw [← hs.data, length_flatMap]
  congr 1
  apply map_congr_left
  intro f hf
  have := (hs.readable f hf).len
  rw [IpSent.dataLen]
  omega

/-- **Complete or not.** A queue that is not empty has no hole, and ends with the last fragment,
exactly if all fragments are there. -/
theorem Held.done (h : Held fs S qs) (hs : FragSeq ip 0 d fs) (hne : qs ≠ [])
    (hsub : S ⊆ fs.toFinset) :
    fragDone qs = if S = fs.toFinset then some (d.length : Int) else none := by
  have hpos : ∀ f ∈ fs.filter (fun f => decide (f ∈ S)), 0 < f.dataLen :=
    fun f hf => (hs.tiled.le_off f (mem_of_mem_filter hf)).2
  have hmff := getLast_mff h.pieces
  split
  · next hall =>
    have hfilter : fs.filter (fun f => decide (f ∈ S)) = fs := by
      apply filter_eq_self.mpr
      intro f hf
      simpa [hall] using hf
    have hpieces := h.pieces
    rw [hfilter] at hmff hpieces
    have hlast : (fs.getLast?.map IpSent.more).getD false = false := by
      cases hl : fs.getLast? with
      | none => rfl
      | some z =>
        obtain ⟨l, rfl⟩ := getLast?_eq_some_iff.mp hl
        simpa using hs.more l z [] rfl
    have hnext := fragNext_tiled (o := 0) hpieces hs.tiled
    rw [fragDone, hmff, hlast, if_neg (by decide)]
    rw [hs.sum_dataLen, Nat.zero_add] at hnext
    exact hnext
  · next hall =>
    rw [fragDone, hmff]
    split
    · rfl
    next hlast =>
    -- without a hole the fragments would be a prefix that ends with the last one of all
    cases hn : fragNext 0 qs with
    | none => rfl
    | some n =>
      exfalso
      apply hall
      have ht := tiled_of_fragNext (o := 0) h.pieces hpos hn
      obtain ⟨t, hfs⟩ := hs.tiled.filter_isPrefix ht
      have hfne : fs.filter (fun f => decide (f ∈ S)) ≠ [] := by
        intro hnil
        have hp := h.pieces
        rw [hnil, map_nil, map_eq_nil_iff] at hp
        exact hne hp
      generalize hfl : fs.filter (fun f => decide (f ∈ S)) = g at hlast hfs hfne
      obtain ⟨l, z, rfl⟩ := eq_nil_or_concat g |>.resolve_left hfne
      have hmore : z.more = false := by simpa using hlast
      have ht : t = [] := by
        have hz := hs.more l z t (by rw [← hfs]; simp)
        rw [hmore] at hz
        simpa using hz.symm
      rw [ht, append_nil] at hfs
      apply Finset.Subset.antisymm hsub
      intro f hf
      rw [mem_toFinset, ← hfs, ← hfl] at hf
      simpa using of_mem_filter hf

end

/-! ## The datagram -/

theorem chainBytes_foldl_mCat (qs : List IpFrag) (c : List Mbuf) :
    chainBytes (qs.foldl (fun c q => mCat c q.m) c)
      = chainBytes c ++ qs.flatMap fun q => chainBytes q.m := by
  induction qs generalizing c with
  | nil => simp
  | cons q qs ih => rw [foldl_cons, ih, chainBytes_mCat, flatMap_cons, append_assoc]

theorem chainBytes_fragJoin (hq : q.WholeHdr) :
    chainBytes (fragJoin (q :: qs)) = q.lead ++ (q :: qs).flatMap fun q => chainBytes q.m := by
  obtain ⟨m, ms, hm⟩ := exists_cons_of_ne_nil hq.chain_ne
  obtain ⟨e, ns, hcat⟩ := mCat_head m [] ms
  obtain ⟨e', ns', hjoin⟩ := foldl_mCat_head qs { m with mData := m.mData ++ e } ns
  have hdrop : q.lead.drop (q.lead.length - 4 * q.hl) = q.lead := by
    rw [hq.lead_length, Nat.sub_self, drop_zero]
  have hall := chainBytes_foldl_mCat qs (mCat [m] ms)
  rw [chainBytes_mCat, hcat, hjoin] at hall
  rw [fragJoin, hm]
  simp only [take_succ_cons, take_zero, drop_succ_cons, drop_zero, hcat, hjoin,
    hdrop, chainBytes_cons, append_assoc, flatMap_cons] at hall ⊢
  rw [hall, hm]
  simp

structure IpDelivered (payload : List Byte) (x : IpInput) : Prop where
  len : x.len = payload.length
  data : (chainBytes x.m).drop (4 * frontHl x.m) = payload

theorem Held.join {ip : IpHdr} {fs : List IpSent} (h : Held fs fs.toFinset qs)
    (hs : FragSeq ip 0 d fs) (hne : qs ≠ []) :
    (chainBytes (fragJoin qs)).drop (4 * frontHl (fragJoin qs)) = d := by
  obtain ⟨q, rest, rfl⟩ := exists_cons_of_ne_nil hne
  have hw := h.whole q mem_cons_self
  have hfilter : fs.filter (fun f => decide (f ∈ fs.toFinset)) = fs := by
    apply filter_eq_self.mpr
    intro f hf
    simpa using hf
  have hdata := congrArg (fun l => (l.map Piece.data).flatten) h.pieces
  rw [hfilter] at hdata
  rw [frontHl_fragJoin hw, chainBytes_fragJoin hw, drop_left' hw.lead_length, ← hs.data]
  simpa [List.flatMap, List.map_map, Function.comp_def, IpFrag.piece, IpSent.piece] using hdata

/-! ## The list of queues -/

section

variable {l : List Ipq} {k : IpKey}

theorem ipqFind_none : ipqFind l k = none ↔ l.countP (fun q => decide (q.key = k)) = 0 := by
  rw [ipqFind, Option.map_eq_none_iff, find?_eq_none, countP_eq_zero]

theorem ipqFind_cons_self (t : Nat) (fs : List IpFrag) : ipqFind (⟨k, t, fs⟩ :: l) k = some fs := by
  simp [ipqFind]

theorem ipqFind_set {fs : List IpFrag} (gs : List IpFrag) (h : ipqFind l k = some fs) :
    ipqFind (ipqSet k gs l) k = some gs := by
  induction l with
  | nil => cases h
  | cons q l ih =>
    rw [ipqSet]
    split
    · next hk => simp [ipqFind, hk]
    · next hk =>
      have hfind : ∀ l' : List Ipq, ipqFind (q :: l') k = ipqFind l' k := by
        intro l'
        simp [ipqFind, hk]
      rw [hfind] at h ⊢
      exact ih h

theorem countP_ipqSet (gs : List IpFrag) :
    (ipqSet k gs l).countP (fun q => decide (q.key = k)) = l.countP fun q => decide (q.key = k) := by
  induction l with
  | nil => rfl
  | cons q l ih =>
    rw [ipqSet]
    split
    · next hk => simp [hk]
    · rw [countP_cons, countP_cons, ih]

theorem countP_ipFreef (h : l.countP (fun q => decide (q.key = k)) ≤ 1) :
    (ipFreef k l).countP (fun q => decide (q.key = k)) = 0 := by
  induction l with
  | nil => rfl
  | cons q l ih =>
    rw [ipFreef]
    by_cases hk : q.key = k
    · rw [eraseP_cons_of_pos (by simpa using hk)]
      rw [countP_cons_of_pos (by simpa using hk)] at h
      omega
    · rw [eraseP_cons_of_neg (by simpa using hk), countP_cons_of_neg (by simpa using hk)]
      rw [countP_cons_of_neg (by simpa using hk)] at h
      exact ih h

end

/-! ## An arrival -/

/-- The queue of the datagram `k` holds the fragments `S`, and there is one only if `S` is not
empty. -/
structure Collecting (fs : List IpSent) (k : IpKey) (S : Finset IpSent) (l : List Ipq) : Prop where
  once : l.countP (fun q => decide (q.key = k)) ≤ 1
  sub : S ⊆ fs.toFinset
  empty : S = ∅ → ipqFind l k = none
  held : S ≠ ∅ → ∃ qs, ipqFind l k = some qs ∧ qs ≠ [] ∧ Held fs S qs

section

variable {ip : IpHdr} {d : List Byte} {fs : List IpSent} {S : Finset IpSent} {l : List Ipq}
  {k : IpKey} {f : IpSent} {q : IpFrag}

theorem held_singleton (hs : FragSeq ip 0 d fs) (hf : f ∈ fs) (hq : q.piece = f.piece)
    (hw : q.WholeHdr) : Held fs (insert f ∅) [q] := by
  have hnil : Held fs ∅ [] := ⟨by simp, by simp⟩
  obtain ⟨qs', hins, hheld⟩ := hnil.new (A := cShort) hs hf (by simp) hq hw
  cases hins
  exact hheld

theorem ne_nil_of_fragInsert {A : ShortArith} {qs' : List IpFrag} (h : fragInsert A qs q = some qs') :
    qs' ≠ [] := by
  obtain ⟨f, rest, rfl, -⟩ := fragInsert_front h
  simp

theorem FragSeq.singleton_ne (hs : FragSeq ip 0 d fs) (h2 : 2 ≤ fs.length) (hf : f ∈ fs) :
    insert f ∅ ≠ fs.toFinset := by
  intro he
  obtain ⟨l, l', rfl⟩ := append_of_mem hf
  obtain ⟨hl, hl'⟩ := hs.tiled.not_mem
  have honly : ∀ g ∈ l ++ f :: l', g = f := by
    intro g hg
    have hmem : g ∈ insert f (∅ : Finset IpSent) := he ▸ mem_toFinset.mpr hg
    simpa using hmem
  cases l with
  | cons g l => exact hl (honly g (by simp) ▸ mem_cons_self)
  | nil =>
    cases l' with
    | cons g l' => exact hl' (honly g (by simp) ▸ mem_cons_self)
    | nil => simp at h2

/-- The result of an arrival at the state `l`, with the fragments `S` there before. -/
structure Collects (fs : List IpSent) (k : IpKey) (d : List Byte) (S : Finset IpSent) (f : IpSent)
    (r : List Ipq × Option (List Mbuf × Int)) : Prop where
  state : Collecting fs k (collect fs.toFinset S f).1 r.1
  open_ : (collect fs.toFinset S f).1 ≠ fs.toFinset
  report : r.2.isSome = (collect fs.toFinset S f).2
  dgram : ∀ x, r.2 = some x → x.2 = d.length ∧ (chainBytes x.1).drop (4 * frontHl x.1) = d

/-- **`ip_reass` collects.** -/
theorem Collecting.ipReass (h : Collecting fs k S l) (hs : FragSeq ip 0 d fs) (hf : f ∈ fs)
    (hq : q.piece = f.piece) (hw : q.WholeHdr) (hlen : d.length ≤ 32767) (h2 : 2 ≤ fs.length)
    (hopen : S ≠ fs.toFinset) : Collects fs k d S f (ipReass cShort true l k q) := by
  have hstore : cShort.store (d.length : Int) = d.length := cShort_store (by omega) (by omega)
  have hsub : insert f S ⊆ fs.toFinset := Finset.insert_subset (mem_toFinset.mpr hf) h.sub
  by_cases hS : S = ∅
  · -- the first fragment to arrive
    subst hS
    have hone := hs.singleton_ne h2 hf
    have hheld := held_singleton hs hf hq hw
    have hdone := hheld.done hs (by simp) hsub
    rw [if_neg hone] at hdone
    have hcollect : collect fs.toFinset ∅ f = (insert f ∅, false) := by
      rw [collect, if_neg hone]
    have hcount := ipqFind_none.mp (h.empty rfl)
    rw [Anp.ipReass, h.empty rfl]
    rw [if_neg (by decide), hdone]
    refine ⟨?_, by rw [hcollect]; exact hone, by rw [hcollect]; rfl, by simp⟩
    rw [hcollect]
    refine ⟨?_, hsub, fun h0 => absurd h0 (Finset.insert_ne_empty _ _), fun _ => ?_⟩
    · rw [countP_cons, hcount]
      split <;> omega
    · exact ⟨[q], ipqFind_cons_self _ _, by simp, hheld⟩
  obtain ⟨qs, hfind, hne, hheld⟩ := h.held hS
  by_cases hfS : f ∈ S
  · -- a duplicate
    have hcollect : collect fs.toFinset S f = (S, false) := by
      rw [collect, Finset.insert_eq_of_mem hfS, if_neg hopen]
    rw [Anp.ipReass, hfind]
    dsimp only
    rw [hheld.dup hs hf hfS hq]
    exact ⟨by rw [hcollect]; exact h, by rw [hcollect]; exact hopen, by rw [hcollect]; rfl, by simp⟩
  obtain ⟨qs', hins, hheld'⟩ := hheld.new (A := cShort) hs hf hfS hq hw
  have hne' := ne_nil_of_fragInsert hins
  have hdone := hheld'.done hs hne' hsub
  rw [Anp.ipReass, hfind]
  dsimp only
  rw [hins]
  dsimp only
  by_cases hall : insert f S = fs.toFinset
  · -- the last missing one
    have hcollect : collect fs.toFinset S f = (∅, true) := by
      rw [collect, if_pos hall]
    have hcount := countP_ipFreef h.once
    rw [if_pos hall] at hdone
    rw [hdone]
    refine ⟨?_, ?_, by rw [hcollect]; rfl, ?_⟩
    · rw [hcollect]
      refine ⟨by rw [hcount]; omega, Finset.empty_subset _, fun _ => ipqFind_none.mpr hcount, ?_⟩
      exact absurd rfl
    · rw [hcollect]
      intro h0
      have hmem : f ∈ fs.toFinset := mem_toFinset.mpr hf
      rw [← h0] at hmem
      simp at hmem
    · intro x hx
      cases hx
      rw [hall] at hheld'
      exact ⟨by simp only [hstore], hheld'.join hs hne'⟩
  · have hcollect : collect fs.toFinset S f = (insert f S, false) := by
      rw [collect, if_neg hall]
    rw [if_neg hall] at hdone
    rw [hdone]
    refine ⟨?_, by rw [hcollect]; exact hall, by rw [hcollect]; rfl, by simp⟩
    rw [hcollect]
    refine ⟨by rw [countP_ipqSet]; exact h.once, hsub,
      fun h0 => absurd h0 (Finset.insert_ne_empty _ _), fun _ => ?_⟩
    exact ⟨qs', ipqFind_set qs' hfind, hne', hheld'⟩

/-! ## From the wire to the queue -/

theorem Emits.le_mtu {mtu : Nat} (h : Emits mtu ip o d fs) : ∀ f ∈ fs, f.hdr.len ≤ mtu := by
  induction fs generalizing o d with
  | nil => simp
  | cons f fs ih =>
    obtain ⟨d1, d2, -, hf, hrest⟩ := h
    exact forall_mem_cons.mpr ⟨hf.le_mtu, ih hrest⟩

theorem chainBytes_frag {p : IpPkt} (hp : p.Ok) :
    chainBytes (p.frag cShort p.m).m = (chainBytes p.m).drop (4 * p.hl) := by
  have hin := hp.in_first
  cases hm : p.m with
  | nil => simp [IpPkt.frag]
  | cons m ms =>
    rw [hm] at hin
    simp only [IpPkt.frag, chainBytes_cons]
    rw [drop_append_of_le_length hin]

theorem ReadAs.piece {p : IpPkt} (h : ReadAs f p) (hp : p.Ok) (hr : Readable ip f)
    (hoff : f.off ≤ 32767) : (p.frag cShort p.m).piece = f.piece := by
  have hle := hp.len_le
  have hhdr := hp.hdr_le
  have hshl : cShort.shl3 p.off = unbounded.shl3 p.off := by
    apply cShort_shl3
    rw [h.off]
    exact hoff
  have hstore : cShort.store (p.len - 4 * p.hl) = p.len - 4 * p.hl :=
    cShort_store (by omega) (by omega)
  have hoff' : (p.frag cShort p.m).off = f.off := by
    simp only [IpPkt.frag]
    rw [hshl, h.off]
    simp only [unbounded, IpSent.off]
    omega
  have hlen' : (p.frag cShort p.m).len = f.dataLen := by
    simp only [IpPkt.frag]
    rw [hstore, h.len, h.hl, IpSent.dataLen, hr.len]
    omega
  have hmff' : (p.frag cShort p.m).mff = f.more := by
    simp only [IpPkt.frag, IpPkt.mf, h.off, IpSent.more]
  have hdata' : chainBytes (p.frag cShort p.m).m = f.data := by
    rw [chainBytes_frag hp, h.bytes, h.hl, IpSent.data]
  rw [IpFrag.piece, hoff', hlen', hmff', hdata', IpSent.piece]

theorem offNoDf_ne {x : Nat} (h : x.testBit 13 = true ∨ x % 8192 ≠ 0) : x &&& 0xbfff ≠ 0 := by
  intro h0
  rcases h with h | h
  · have hbit := congrArg (fun y => y.testBit 13) h0
    simp only [Nat.testBit_and, h] at hbit
    exact absurd hbit (by decide)
  · apply h
    have hmod : x &&& (2 ^ 13 - 1) = x % 2 ^ 13 := Nat.and_two_pow_sub_one_eq_mod x 13
    have hand : x &&& (2 ^ 13 - 1) = (x &&& 0xbfff) &&& (2 ^ 13 - 1) := by
      rw [Nat.and_assoc]
      rfl
    rw [hand, h0, Nat.zero_and] at hmod
    exact hmod.symm

theorem FragSeq.more_or_off (hs : FragSeq ip 0 d fs) (h2 : 2 ≤ fs.length) (hf : f ∈ fs) :
    f.more = true ∨ f.off ≠ 0 := by
  obtain ⟨l, l', rfl⟩ := append_of_mem hf
  have hmore := hs.more l f l' rfl
  cases l' with
  | cons g l' => exact .inl (by simpa using hmore)
  | nil =>
    have hmid := hs.tiled.off_mid
    cases l with
    | nil => simp at h2
    | cons g l =>
      have hpos := (hs.tiled.le_off g (by simp)).2
      rw [map_cons, sum_cons] at hmid
      omega

/-- **A fragment arrives.** The packet passes the checks of `ipintr` and is collected. -/
theorem Collecting.step {r : RcvdPkt} {dst : Nat} (ha : Arrives r f)
    (h : Collecting fs ⟨ip.id, ip.src, dst, ip.p⟩ S l) (hs : FragSeq ip 0 d fs) (hf : f ∈ fs)
    (hlen : d.length ≤ 32767) (hmax : f.hdr.len ≤ 32767) (h2 : 2 ≤ fs.length)
    (hopen : S ≠ fs.toFinset) :
    ∃ r', Collects fs ⟨ip.id, ip.src, dst, ip.p⟩ d S f r' ∧
      ipStep cShort l (.packet r {} (some dst))
        = (r'.1, r'.2.map fun x => ⟨x.1, x.2, 4 * f.hdr.hl⟩) := by
  have hr := hs.readable f hf
  obtain ⟨p, hcheck, hread⟩ := ipCheck_sent true true ha hr.inRange hr.hl_ge hmax hr.len hr.bytes
  have hours : (IpOp.packet r {} (some dst)).ours = some ({}, { p with dst := dst }) := by
    rw [IpOp.ours, hcheck, Option.map_some]
  have hp := IpOp.ours_ok hours
  have hkey : IpPkt.key { p with dst := dst } = ⟨ip.id, ip.src, dst, ip.p⟩ := by
    simp only [IpPkt.key, hread.id, hread.src, hread.p, hr.same]
  have hread' : ReadAs f { p with dst := dst } := by
    obtain ⟨e1, e2, e3, e4, e5, e6, e7, e8⟩ := hread
    exact ⟨e1, e2, e3, e4, e5, e6, e7, e8⟩
  generalize ({ p with dst := dst } : IpPkt) = p' at hours hp hkey hread'
  have hend := hs.tiled.end_le f hf
  rw [hs.sum_dataLen] at hend
  have hpiece := hread'.piece hp hr (by omega)
  have hmo := hs.more_or_off h2 hf
  have hne : p'.m ≠ [] := by
    intro hnil
    have hin := hp.in_first
    have hge := hp.hl_ge
    rw [hnil, headLen] at hin
    omega
  have hpull : ipPull true p'.m = some p'.m := by
    obtain ⟨n, ns, hm⟩ := exists_cons_of_ne_nil hne
    have hplain := hread'.plain
    rw [hm] at hplain ⊢
    have hext : n.mExt = none := hplain
    rw [ipPull, if_neg (by simp [hext])]
  have hdf : p'.offNoDf ≠ 0 := by
    apply offNoDf_ne
    rw [hread'.off]
    rcases hmo with hm | ho
    · exact .inl hm
    · right
      rw [IpSent.off] at ho
      omega
  have hfrag : (p'.frag cShort p'.m).mff = true ∨ (p'.frag cShort p'.m).off ≠ 0 := by
    rw [show (p'.frag cShort p'.m).mff = f.more from congrArg Piece.more hpiece, piece_off hpiece]
    rcases hmo with hm | ho
    · exact .inl hm
    · right
      omega
  have hw := frag_wholeHdr (A := cShort) hp hne rfl hp.in_first
  refine ⟨_, h.ipReass hs hf hpiece hw hlen h2 hopen, ?_⟩
  rw [ipStep.eq_def, hours]
  simp only [ipOurs]
  rw [if_pos hdf, hpull]
  dsimp only
  rw [if_pos hfrag, hkey, hread'.hl]

/-! ## The whole history -/

/-- What is handed to `pr_input`, operation by operation. -/
def ipOutputs : List Ipq → List IpOp → List (Option IpInput)
  | _, [] => []
  | l, op :: ops => (ipStep cShort l op).2 :: ipOutputs (ipNext cShort l op) ops

theorem Collecting.run {dst : Nat} (hs : FragSeq ip 0 d fs) (hlen : d.length ≤ 32767)
    (hmax : ∀ f ∈ fs, f.hdr.len ≤ 32767) (h2 : 2 ≤ fs.length)
    {arr : List (IpSent × RcvdPkt)} (harr : ∀ x ∈ arr, x.1 ∈ fs ∧ Arrives x.2 x.1)
    (h : Collecting fs ⟨ip.id, ip.src, dst, ip.p⟩ S l) (hopen : S ≠ fs.toFinset) :
    (ipOutputs l (arr.map fun x => .packet x.2 {} (some dst))).map Option.isSome
        = reports fs.toFinset S (arr.map Prod.fst) ∧
      ∀ x, some x ∈ ipOutputs l (arr.map fun x => .packet x.2 {} (some dst)) → IpDelivered d x := by
  induction arr generalizing S l with
  | nil => exact ⟨rfl, by simp [ipOutputs]⟩
  | cons a arr ih =>
    rw [forall_mem_cons] at harr
    obtain ⟨⟨hf, ha⟩, hrest⟩ := harr
    obtain ⟨r, hr, hstep⟩ := h.step ha hs hf hlen (hmax _ hf) h2 hopen
    obtain ⟨hreports, hdel⟩ := ih hrest hr.state hr.open_
    simp only [map_cons, ipOutputs, reports, ipNext, hstep, Option.isSome_map]
    refine ⟨by rw [hr.report, hreports], ?_⟩
    intro x hx
    rcases mem_cons.mp hx with hx | hx
    · obtain ⟨y, hy, rfl⟩ := Option.map_eq_some_iff.mp hx.symm
      obtain ⟨hy1, hy2⟩ := hr.dgram y hy
      exact ⟨hy1, hy2⟩
    · exact hdel x hx

end

/-- A datagram of 20 octets behind a header with one option that is copied. -/
def dgramTwenty : IpHdr :=
  { hl := 6, len := 44, id := 7, off := 0, p := 17, src := 0x0a000001, dst := 0x0a000002,
    opts := [148, 4, 0, 0] }

def dgramTwentyChain : List Mbuf :=
  [{ mPkthdr := some 44, mData := dgramTwenty.bytes ++ (List.range 20).map UInt8.ofNat }]

def plentyOfMbufs : FragAlloc := ⟨fun _ => true, fun _ => 10⟩

def dgramTwentyFrags : List IpSent :=
  ((ipFragment plentyOfMbufs 40 dgramTwenty dgramTwentyChain).toOption).getD []

/-- The packet sent, in one plain mbuf. -/
def IpSent.received (f : IpSent) : RcvdPkt where
  m := { mPkthdr := some ((chainBytes f.m).length : Int), mData := chainBytes f.m }
  ms := []
  pkthdr_len := by simp [chainLen]

theorem received_arrives (h : 4 * f.hdr.hl ≤ (chainBytes f.m).length) :
    Arrives f.received f :=
  ⟨rfl, h, [], by simp [IpSent.received]⟩

theorem dgramTwenty_ok :
    IpDatagram dgramTwenty dgramTwentyChain ((List.range 20).map UInt8.ofNat) := by
  constructor
  case inRange => constructor <;> decide
  case hl_ge => decide
  case off => decide
  case len => decide
  case opts => exact @OptsValid.opt 148 4 [0, 0] [] (by decide) (by decide) rfl OptsValid.nil
  case chain => exact ⟨dgramTwenty.bytes.take 20, by decide +kernel, by decide +kernel⟩
  case in_first => decide +kernel

theorem dgramTwenty_sent :
    ipFragment plentyOfMbufs 40 dgramTwenty dgramTwentyChain = .ok dgramTwentyFrags := by
  decide +kernel

end Anp
