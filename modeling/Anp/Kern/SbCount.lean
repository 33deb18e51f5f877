import Anp.Kern.Peek

/-!
# SbCount — the counters of a socket buffer

`sb_cc` is the sum of `m_len` and `sb_mbcnt` the sum of `MSIZE` and `ext_size` over the mbufs of the
buffer. `Counts sb ms` says so for any list of mbufs, so that it holds in the middle of an operation
too, when mbufs are linked nowhere.
-/

namespace Anp

open Machine List

variable {ms : List Mbuf} {m : Mbuf} {len : Nat} {sb sb' : Sockbuf}

/-- What `sballoc` adds to `sb_mbcnt`. -/
def Mbuf.space (m : Mbuf) : Nat := msize + m.mExt.getD 0

def chainSpace (ms : List Mbuf) : Nat := (ms.map Mbuf.space).sum


@[simp] theorem chainSpace_cons (m : Mbuf) (ms : List Mbuf) :
    chainSpace (m :: ms) = m.space + chainSpace ms := sum_cons

@[simp] theorem chainLen_append (ms ns : List Mbuf) :
    chainLen (ms ++ ns) = chainLen ms + chainLen ns := by
  simp [chainLen]

/-- The two counters are right for the mbufs `ms`. -/
structure Counts (sb : Sockbuf) (ms : List Mbuf) : Prop where
  cc : sb.sbCc = chainLen ms
  mbcnt : sb.sbMbcnt = chainSpace ms

/-- The order of the mbufs is of no account. -/
theorem Counts.perm {ns : List Mbuf} (h : Counts sb ms) (hp : ms.Perm ns) :
    Counts sb ns := by
  refine ⟨h.cc.trans ?_, h.mbcnt.trans (hp.map _).sum_nat⟩
  exact (hp.flatMap_right _).length_eq

theorem Counts.of_eq (h : Counts sb ms) (hcc : sb'.sbCc = sb.sbCc) (hcnt : sb'.sbMbcnt = sb.sbMbcnt) :
    Counts sb' ms :=
  ⟨hcc.trans h.cc, hcnt.trans h.mbcnt⟩

theorem Counts.alloc (h : Counts sb ms) (m : Mbuf) :
    Counts (sballoc sb m) (m :: ms) := by
  obtain ⟨hcc, hcnt⟩ := h
  constructor
  · rw [sballoc, chainLen_cons]
    dsimp only
    omega
  · rw [sballoc, chainSpace_cons, Mbuf.space]
    dsimp only
    omega

theorem Counts.free (h : Counts sb (m :: ms)) :
    Counts (sbfree sb m) ms := by
  obtain ⟨hcc, hcnt⟩ := h
  rw [chainLen_cons] at hcc
  rw [chainSpace_cons, Mbuf.space] at hcnt
  constructor
  · rw [sbfree]
    dsimp only
    omega
  · rw [sbfree]
    dsimp only
    omega

/-- `m_data += len` and `m_len -= len`. -/
theorem Counts.trim (h : Counts sb (m :: ms)) (hlen : len ≤ m.mLen) :
    Counts { sb with sbCc := sb.sbCc - len }
      ({ m with mData := m.mData.drop len, mOff := m.mOff + len } :: ms) := by
  obtain ⟨hcc, hcnt⟩ := h
  refine ⟨?_, hcnt⟩
  rw [chainLen_cons] at hcc ⊢
  unfold Mbuf.mLen at hlen hcc ⊢
  dsimp only
  rw [length_drop]
  omega

/-- The data of `m` is copied to the end of `n`. -/
theorem Counts.merge {n : Mbuf} (h : Counts sb (n :: ms)) (m : Mbuf) :
    Counts { sb with sbCc := sb.sbCc + m.mLen } ({ n with mData := n.mData ++ m.mData } :: ms) := by
  obtain ⟨hcc, hcnt⟩ := h
  refine ⟨?_, hcnt⟩
  rw [chainLen_cons] at hcc ⊢
  unfold Mbuf.mLen at hcc ⊢
  dsimp only
  rw [length_append]
  omega

theorem Counts.eor (h : Counts sb (m :: ms)) (e : Bool) :
    Counts sb ({ m with mEor := e } :: ms) :=
  ⟨h.cc, h.mbcnt⟩

theorem Counts.allocs (h : Counts sb ms) (new : List Mbuf) :
    Counts (new.foldl sballoc sb) (ms ++ new) := by
  induction new generalizing sb ms with
  | nil => rwa [append_nil]
  | cons m new ih =>
    refine (ih (h.alloc m)).perm ?_
    exact perm_middle.symm

theorem Counts.frees {old : List Mbuf} (h : Counts sb (old ++ ms)) :
    Counts (old.foldl sbfree sb) ms := by
  induction old generalizing sb with
  | nil => exact h
  | cons m old ih => exact ih h.free

/-! ## Appending -/

/-- The counters are right for the records, and a record has an mbuf. -/
structure Accounted (sb : Sockbuf) : Prop where
  counts : Counts sb sb.sbMb.flatten
  recs : ∀ rec ∈ sb.sbMb, rec ≠ []

/-- The loop of `sbcompress`: each mbuf is freed, merged or linked. -/
theorem Counts.compressLoop {n : Option Mbuf} {r : List Mbuf} (h : Counts sb (n.toList ++ r))
    (ms : List Mbuf) (eor : Bool) :
    Counts (sbcompressLoop sb n ms eor).1 ((sbcompressLoop sb n ms eor).2 ++ r) := by
  induction ms generalizing sb n r eor with
  | nil =>
    cases n with
    | none => exact h
    | some n =>
      cases eor with
      | false => exact h
      | true => exact h.eor true
  | cons m ms ih =>
    rw [sbcompressLoop]
    split_ifs with hempty hfits
    · exact ih h _
    · -- copied into the mbuf before it
      cases n with
      | none => cases hfits
      | some n => exact ih (n := some { n with mData := n.mData ++ m.mData }) (h.merge m) _
    · -- linked behind it
      have hnew := ih (n := some { m with mEor := false }) (r := n.toList ++ r)
        ((h.alloc m).eor false) (eor || m.mEor)
      refine hnew.perm ?_
      rw [append_assoc]
      exact perm_append_comm_assoc _ _ _

theorem sbcompressLoop_ne_nil (sb : Sockbuf) (n : Mbuf) (ms : List Mbuf) (eor : Bool) :
    (sbcompressLoop sb (some n) ms eor).2 ≠ [] := by
  intro hnil
  obtain ⟨-, -, hnone, -⟩ := sbcompressLoop_spec sb (some n) ms eor
  cases hnone hnil

section

variable (h : Accounted sb)
include h

/-- `sbcompress` behind the last record. -/
theorem Accounted.sbcompress (m : List Mbuf) :
    Accounted (sbcompress sb m) := by
  rw [Anp.sbcompress]
  cases hlast : sb.sbMb.getLast? with
  | none =>
    have hnil := getLast?_eq_none_iff.mp hlast
    have hcounts := h.counts
    rw [hnil] at hcounts
    have hloop := Counts.compressLoop (n := none) (r := []) hcounts m false
    rw [append_nil] at hloop
    dsimp only
    split_ifs with hempty
    · rw [hempty] at hloop
      exact ⟨hloop.of_eq rfl rfl, forall_mem_nil _⟩
    · refine ⟨?_, forall_mem_singleton.mpr hempty⟩
      rw [flatten_singleton]
      exact hloop.of_eq rfl rfl
  | some rec =>
    obtain ⟨recs, hrecs⟩ := getLast?_eq_some_iff.mp hlast
    have hne : rec ≠ [] := h.recs rec (by rw [hrecs]; simp)
    obtain ⟨p, n, rfl⟩ := rec.eq_nil_or_concat'.resolve_left hne
    -- the last mbuf of the last record, and all the others
    have hcounts : Counts sb ((some n).toList ++ (recs.flatten ++ p)) := by
      refine h.counts.perm ?_
      rw [hrecs, flatten_append, flatten_singleton, ← append_assoc]
      exact perm_append_comm
    have hloop := hcounts.compressLoop m false
    dsimp only
    rw [getLast?_concat, dropLast_concat, hrecs, dropLast_concat]
    constructor
    · dsimp only
      rw [flatten_append, flatten_singleton]
      refine Counts.of_eq (hloop.perm ?_) rfl rfl
      rw [← append_assoc recs.flatten]
      exact perm_append_comm
    · intro rec hrec
      rcases mem_append.mp hrec with hrec | hrec
      · exact h.recs rec (by rw [hrecs]; exact mem_append_left _ hrec)
      · rw [mem_singleton.mp hrec]
        simp [sbcompressLoop_ne_nil]

/-- A record of its own behind the others. -/
theorem Accounted.concat {rec : List Mbuf} (hne : rec ≠ [])
    (hcounts : Counts sb' (sb.sbMb.flatten ++ rec)) (hmb : sb'.sbMb = sb.sbMb ++ [rec]) :
    Accounted sb' := by
  constructor
  · rw [hmb, flatten_append, flatten_singleton]
    exact hcounts
  · rw [hmb]
    intro r hr
    rcases mem_append.mp hr with hr | hr
    · exact h.recs r hr
    · rwa [mem_singleton.mp hr]

theorem Accounted.sbappendrecord (m : List Mbuf) :
    Accounted (sbappendrecord sb m) := by
  have hfirst (m0 : Mbuf) (e : Bool) :
      Accounted { sballoc sb m0 with sbMb := sb.sbMb ++ [[{ m0 with mEor := e }]] } := by
    have hcounts := ((h.counts.alloc m0).eor e).perm (perm_append_singleton _ _).symm
    exact h.concat (cons_ne_nil _ _) (hcounts.of_eq rfl rfl) rfl
  match m with
  | [] => exact h
  | [m0] => exact hfirst m0 m0.mEor
  | m0 :: m :: ms => exact (hfirst m0 false).sbcompress _

theorem Accounted.sbappend (m : List Mbuf) :
    Accounted (sbappend sb m) := by
  rw [Anp.sbappend]
  split_ifs
  · exact h
  · exact h.sbappendrecord m
  · exact h.sbcompress m

theorem Accounted.sbappendaddr (asa : List Byte) (m0 control : List Mbuf) (mget : Bool) :
    Accounted (sbappendaddr sb asa m0 control mget).1 := by
  rw [Anp.sbappendaddr]
  split_ifs
  · exact h
  · exact h.concat (cons_ne_nil _ _) ((h.counts.allocs _).of_eq rfl rfl) rfl

/-- Without control data there is a panic. -/
theorem Accounted.sbappendcontrol {m0 control : List Mbuf}
    {r : Sockbuf × Bool} (hr : sbappendcontrol sb m0 control = some r) : Accounted r.1 := by
  rw [Anp.sbappendcontrol] at hr
  split_ifs at hr with hnil hspace
  · obtain rfl := Option.some.inj hr
    exact h
  · obtain rfl := Option.some.inj hr
    exact h.concat (by simp [hnil]) ((h.counts.allocs _).of_eq rfl rfl) rfl

/-- Urgent data goes before the records that are not. -/
theorem Accounted.sbinsertoob (m : List Mbuf) :
    Accounted (sbinsertoob sb m) := by
  -- the new record, its mbufs and those of the others
  have hinsert (r : Sockbuf × List Mbuf) (hne : r.2 ≠ [])
      (hcounts : Counts r.1 (r.2 ++ sb.sbMb.flatten)) :
      Accounted { r.1 with
        sbMb := sb.sbMb.takeWhile oobRecord ++ r.2 :: sb.sbMb.dropWhile oobRecord } := by
    constructor
    · refine Counts.of_eq (hcounts.perm ?_) rfl rfl
      rw [← flatten_cons]
      refine Perm.flatten ?_
      nth_rewrite 1 [← takeWhile_append_dropWhile (p := oobRecord) (l := sb.sbMb)]
      exact perm_middle.symm
    · intro rec hrec
      rcases mem_append.mp hrec with hrec | hrec
      · exact h.recs rec (takeWhile_subset _ hrec)
      · rcases mem_cons.mp hrec with rfl | hrec
        · exact hne
        · exact h.recs rec (dropWhile_subset _ hrec)
  match m with
  | [] => exact h
  | [m0] => exact hinsert (sballoc sb m0, [m0]) (cons_ne_nil _ _) (h.counts.alloc m0)
  | m0 :: m :: ms =>
    exact hinsert _ (sbcompressLoop_ne_nil _ _ _ _)
      (Counts.compressLoop (n := some { m0 with mEor := false }) ((h.counts.alloc m0).eor false) _ _)

/-! ## Dropping -/

theorem Accounted.sbdroprecord : Accounted (sbdroprecord sb) := by
  rw [Anp.sbdroprecord]
  split
  · exact h
  · next m next hmb =>
    have hcounts := h.counts
    have hrecs := h.recs
    rw [hmb] at hcounts hrecs
    exact ⟨hcounts.frees.of_eq rfl rfl, fun rec hrec => hrecs rec (mem_cons_of_mem _ hrec)⟩

end

/-- `sbdrop` within one record. -/
theorem Counts.dropRec {rest : List Mbuf} (h : Counts sb (ms ++ rest)) (len : Nat) :
    Counts (sbdropRec sb ms len).1 ((sbdropRec sb ms len).2.1 ++ rest) := by
  induction ms generalizing sb len with
  | nil => exact h
  | cons m ms ih =>
    rw [sbdropRec]
    split_ifs with h0 hlt
    · exact h
    · exact Counts.trim h hlt.le
    · exact ih (Counts.free h) _

/-- What is left to drop is left for the next record. -/
theorem sbdropRec_nil (h : (sbdropRec sb ms len).2.2 ≠ 0) : (sbdropRec sb ms len).2.1 = [] := by
  induction ms generalizing sb len with
  | nil => rfl
  | cons m ms ih =>
    rw [sbdropRec] at h ⊢
    split_ifs at h ⊢ with h0 hlt
    · exact absurd rfl h
    · exact absurd rfl h
    · exact ih h

/-- `sbdrop` over records. -/
theorem Counts.dropLoop {m : List Mbuf} {next : List (List Mbuf)}
    (h : Counts sb (m ++ next.flatten)) {r : Sockbuf × List Mbuf × List (List Mbuf)}
    (hr : sbdropLoop sb m next len = some r) :
    Counts r.1 (r.2.1 ++ r.2.2.flatten) ∧ r.2.2 <:+ next := by
  fun_induction sbdropLoop sb m next len
  case case2 => cases hr
  case case4 sb m n next len _ h0 ih =>
    -- the record is used up: on to the next one
    have hrec := h.dropRec len
    rw [sbdropRec_nil h0, nil_append, flatten_cons] at hrec
    obtain ⟨hcounts, hsuffix⟩ := ih hrec hr
    exact ⟨hcounts, hsuffix.trans (suffix_cons _ _)⟩
  all_goals
    obtain rfl := Option.some.inj hr
    exact ⟨h.dropRec _, suffix_rfl⟩

/-- Empty mbufs at the front are freed too. -/
theorem Counts.dropZeros {rest : List Mbuf} (h : Counts sb (ms ++ rest)) :
    Counts (sbdropZeros sb ms).1 ((sbdropZeros sb ms).2 ++ rest) := by
  induction ms generalizing sb with
  | nil => exact h
  | cons m ms ih =>
    rw [sbdropZeros]
    split_ifs
    · exact ih (Counts.free h)
    · exact h

theorem Accounted.sbdrop {sb sb' : Sockbuf} {len : Int} (h : Accounted sb)
    (hdrop : sbdrop sb len = some sb') : Accounted sb' := by
  have hsplit : sb.sbMb.flatten = sb.sbMb.headD [] ++ sb.sbMb.tail.flatten := by
    cases sb.sbMb <;> rfl
  obtain ⟨r, hr, rfl⟩ := Option.map_eq_some_iff.mp hdrop
  obtain ⟨hcounts, hsuffix⟩ := Counts.dropLoop (hsplit ▸ h.counts) hr
  have hzeros := hcounts.dropZeros
  have hrecs : ∀ rec ∈ r.2.2, rec ≠ [] := fun rec hrec =>
    h.recs rec (mem_of_mem_tail (hsuffix.subset hrec))
  dsimp only
  split_ifs with hnil
  · rw [hnil] at hzeros
    exact ⟨hzeros.of_eq rfl rfl, hrecs⟩
  · exact ⟨hzeros.of_eq rfl rfl, forall_mem_cons.mpr ⟨hnil, hrecs⟩⟩

theorem Accounted.wf (h : Accounted sb) : SbWf sb := by
  rw [SbWf, h.counts.cc, sbBytes, chainLen]
  congr 1
  induction sb.sbMb with
  | nil => rfl
  | cons rec next ih => rw [flatten_cons, chainBytes_append, ih, flatMap_cons]

/-- There is no panic where the buffer holds `len` bytes. -/
theorem Accounted.sbdrop_isSome {len : Int} (h : Accounted sb) (hle : len ≤ sb.sbCc) :
    (Anp.sbdrop sb len).isSome := by
  obtain ⟨sb', hdrop, -⟩ := sbdrop_spec sb len.toNat h.wf (by omega)
  have hnat : Anp.sbdrop sb len = Anp.sbdrop sb len.toNat := by
    unfold Anp.sbdrop
    rw [Int.toNat_natCast]
  rw [hnat, hdrop]
  rfl

/-! ## Flushing -/

/-- An mbuf has at least `MSIZE` in `sb_mbcnt`. -/
theorem Accounted.nil_of_mbcnt (h : Accounted sb) (h0 : sb.sbMbcnt = 0) :
    sb.sbMb = [] := by
  cases hmb : sb.sbMb with
  | nil => rfl
  | cons rec next =>
    have hrec := h.recs rec (by rw [hmb]; exact mem_cons_self)
    have hcnt := h.counts.mbcnt
    cases rec with
    | nil => exact absurd rfl hrec
    | cons m rec =>
      rw [hmb, h0, flatten_cons, cons_append, chainSpace_cons, Mbuf.space, msize] at hcnt
      omega

/-- An empty buffer counts nothing. -/
theorem Accounted.zero_of_nil (h : Accounted sb) (hnil : sb.sbMb = []) :
    sb.sbCc = 0 ∧ sb.sbMbcnt = 0 := by
  have hcounts := h.counts
  rw [hnil] at hcounts
  exact ⟨hcounts.cc, hcounts.mbcnt⟩

theorem sbdropZeros_nil (h : chainLen ms = 0) :
    (sbdropZeros sb ms).2 = [] := by
  induction ms generalizing sb with
  | nil => rfl
  | cons m ms ih =>
    rw [chainLen_cons] at h
    rw [sbdropZeros, if_pos (by omega)]
    exact ih (by omega)

/-- Dropping `sb_cc` bytes takes away a record or more. -/
theorem Accounted.sbdrop_all (h : Accounted sb) (hdrop : Anp.sbdrop sb sb.sbCc = some sb') :
    sb'.sbCc = 0 ∧ sb'.sbMb.length ≤ sb.sbMb.length - 1 := by
  obtain ⟨sb1, hdrop1, -, hcc, -⟩ := sbdrop_spec sb sb.sbCc h.wf le_rfl
  obtain rfl : sb1 = sb' := Option.some.inj (hdrop1.symm.trans hdrop)
  have hcc' : sb1.sbCc = 0 := by omega
  refine ⟨hcc', ?_⟩
  have hsplit : sb.sbMb.flatten = sb.sbMb.headD [] ++ sb.sbMb.tail.flatten := by
    cases sb.sbMb <;> rfl
  obtain ⟨r, hr, rfl⟩ := Option.map_eq_some_iff.mp hdrop
  obtain ⟨hcounts, hsuffix⟩ := Counts.dropLoop (hsplit ▸ h.counts) hr
  -- of the record that was cut last only empty mbufs are left, and they are freed
  have hnil : (sbdropZeros r.1 r.2.1).2 = [] := by
    apply sbdropZeros_nil
    have hzero : r.1.sbCc = 0 := (sbdropZeros_spec r.1 r.2.1).2.symm.trans hcc'
    have hsum := hcounts.cc
    rw [chainLen_append] at hsum
    omega
  dsimp only
  rw [if_pos hnil, ← length_tail]
  exact hsuffix.length_le

/-- So the loop of `sbflush` ends. -/
theorem Accounted.flushLoop {n : Nat} (h : Accounted sb) (hcc : sb.sbCc < 2 ^ 31)
    (hn : sb.sbMb.length ≤ n) :
    ∃ sb', sbflushLoop n sb = some sb' ∧ sb'.sbMb = [] ∧ sb'.sbCc = 0 ∧ sb'.sbMbcnt = 0 := by
  induction n generalizing sb with
  | zero =>
    have hnil := length_eq_zero_iff.mp (Nat.le_zero.mp hn)
    exact ⟨sb, rfl, hnil, h.zero_of_nil hnil⟩
  | succ n ih =>
    rw [sbflushLoop]
    by_cases h0 : sb.sbMbcnt = 0
    · have hnil := h.nil_of_mbcnt h0
      exact ⟨sb, if_pos h0, hnil, h.zero_of_nil hnil⟩
    · rw [if_neg h0, int32_of_range (by omega) (by omega)]
      obtain ⟨sb1, hdrop⟩ := Option.isSome_iff_exists.mp (h.sbdrop_isSome le_rfl)
      obtain ⟨hzero, hlen⟩ := h.sbdrop_all hdrop
      rw [hdrop, Option.bind_some]
      exact ih (h.sbdrop hdrop) (by omega) (by omega)

/-- **`sbflush` ends, does not panic, and leaves nothing.** -/
theorem Accounted.sbflush (h : Accounted sb) (hcc : sb.sbCc < 2 ^ 31) :
    ∃ sb', Anp.sbflush sb = some sb' ∧ sb'.sbMb = [] ∧ sb'.sbCc = 0 ∧ sb'.sbMbcnt = 0 := by
  obtain ⟨sb', hloop, hmb, hzero, hcnt⟩ := h.flushLoop hcc (Nat.le_succ sb.sbMb.length)
  refine ⟨sb', ?_, hmb, hzero, hcnt⟩
  rw [Anp.sbflush, hloop, Option.bind_some, if_pos ⟨hzero, hmb⟩]

end Anp
