import Anp.Kern.Mbuf
import Anp.Lib.Machine

/-!
# Sockbuf — socket buffers

`kern/uipc_socket2.c` and the macros of `sys/socketvar.h`. `sb_mb` is a queue of records
(`m_nextpkt`), each a chain. `sb_cc` and `sb_mbcnt` are stored counters that every operation
updates by hand, as in the source; `SbWf` says that `sb_cc` is right.
-/

namespace Anp

open Machine List

structure Sockbuf where
  sbCc : Nat := 0
  sbHiwat : Nat := 0
  sbMbcnt : Nat := 0
  sbMbmax : Nat := 0
  sbLowat : Int := 0
  sbMb : List (List Mbuf) := []
  deriving DecidableEq, Repr

/-- `SB_MAX`, the default of `sb_max`. -/
def sbMax : Nat := 256 * 1024

/-- `sbspace(sb)`: how much space is left, possibly negative. -/
def sbspace (sb : Sockbuf) : Int :=
  min (int32 (sb.sbHiwat - sb.sbCc)) (int32 (sb.sbMbmax - sb.sbMbcnt))

/-- `sbreserve(sb, cc)`; `none` when the request is over the limit. The comparison of `sb_lowat` with
`sb_hiwat` is an unsigned one. -/
def sbreserve (sb : Sockbuf) (cc : Nat) : Option Sockbuf :=
  if sbMax * mclbytes / (msize + mclbytes) < cc then none
  else some { sb with
    sbHiwat := cc
    sbMbmax := min (u32 (cc * 2)) sbMax
    sbLowat := if cc < u32 sb.sbLowat then cc else sb.sbLowat }

def sballoc (sb : Sockbuf) (m : Mbuf) : Sockbuf :=
  { sb with sbCc := sb.sbCc + m.mLen, sbMbcnt := sb.sbMbcnt + msize + m.mExt.getD 0 }

def sbfree (sb : Sockbuf) (m : Mbuf) : Sockbuf :=
  { sb with sbCc := sb.sbCc - m.mLen, sbMbcnt := sb.sbMbcnt - msize - m.mExt.getD 0 }

def sbBytes (sb : Sockbuf) : List Byte := sb.sbMb.flatMap chainBytes

/-! ## Appending -/

/-- `sbcompress` may copy `m` into the mbuf `n` before it: plain storage, no record mark,
enough room behind the data, same type. -/
def sbcompressFits (n m : Mbuf) : Bool :=
  n.mExt.isNone && !n.mEor && decide (n.mOff + n.mLen + m.mLen < mlen) &&
    decide (n.mType = m.mType)

/-- The loop of `sbcompress`: `n` is the last mbuf of the buffer, if any. Returns the counters
and the mbufs that take the place of `n`. -/
def sbcompressLoop : Sockbuf → Option Mbuf → List Mbuf → Bool → Sockbuf × List Mbuf
  | sb, n, [], eor => (sb, (n.map fun n => if eor then { n with mEor := true } else n).toList)
  | sb, n, m :: ms, eor0 =>
    let eor := eor0 || m.mEor
    -- an empty mbuf is freed, unless it must carry the mark
    if m.mLen = 0 && (!eor || ((ms.head? <|> n).any fun o => decide (o.mType = m.mType))) then
      sbcompressLoop sb n ms eor
    else if n.any (sbcompressFits · m) then
      sbcompressLoop { sb with sbCc := sb.sbCc + m.mLen }
        (n.map fun n => { n with mData := n.mData ++ m.mData }) ms eor
    else
      let r := sbcompressLoop (sballoc sb m) (some { m with mEor := false }) ms eor
      (r.1, n.toList ++ r.2)

/-- `sbcompress(sb, m, n)` with `n` the last mbuf of the last record. -/
def sbcompress (sb : Sockbuf) (m : List Mbuf) : Sockbuf :=
  match sb.sbMb.getLast? with
  | none =>
    let r := sbcompressLoop sb none m false
    { r.1 with sbMb := if r.2 = [] then [] else [r.2] }
  | some rec =>
    let r := sbcompressLoop sb rec.getLast? m false
    { r.1 with sbMb := sb.sbMb.dropLast ++ [rec.dropLast ++ r.2] }

/-- `sbappendrecord`: the chain begins a new record. -/
def sbappendrecord (sb : Sockbuf) : List Mbuf → Sockbuf
  | [] => sb
  | m0 :: [] => { sballoc sb m0 with sbMb := sb.sbMb ++ [[m0]] }
  | m0 :: m :: ms =>
    let sb' := { sballoc sb m0 with sbMb := sb.sbMb ++ [[{ m0 with mEor := false }]] }
    sbcompress sb' ({ m with mEor := m.mEor || m0.mEor } :: ms)

/-- Append a chain to the last record, compacting it into the last mbuf (`sbcompress`); a chain that
follows an `M_EOR` mark starts a record of its own. -/
def sbappend (sb : Sockbuf) (m : List Mbuf) : Sockbuf :=
  if m = [] then sb
  else if (sb.sbMb.getLast?.getD []).any (·.mEor) then sbappendrecord sb m
  else sbcompress sb m

/-- The record begins with urgent data, perhaps behind control mbufs. -/
def oobRecord (rec : List Mbuf) : Bool :=
  (rec.dropWhile (·.mType = .control)).head?.any (·.mType = .oobdata)

/-- `sbinsertoob`: a new record in front of all that are not urgent. -/
def sbinsertoob (sb : Sockbuf) : List Mbuf → Sockbuf
  | [] => sb
  | m0 :: ms =>
    let r := match ms with
      | [] => (sballoc sb m0, [m0])
      | m :: ms =>
        sbcompressLoop (sballoc sb m0) (some { m0 with mEor := false })
          ({ m with mEor := m.mEor || m0.mEor } :: ms) false
    { r.1 with sbMb := sb.sbMb.takeWhile oobRecord ++ r.2 :: sb.sbMb.dropWhile oobRecord }

/-- `sbappendcontrol`: the buffer and the value returned; `none` is its panic. -/
def sbappendcontrol (sb : Sockbuf) (m0 control : List Mbuf) : Option (Sockbuf × Bool) :=
  if control = [] then none
  else if sbspace sb < (chainLen control + chainLen m0 : Int) then some (sb, false)
  else some ({ (control ++ m0).foldl sballoc sb with sbMb := sb.sbMb ++ [control ++ m0] }, true)

/-! ## Dropping -/

/-- The inner part of the loop of `sbdrop`: drop `len` bytes of one record. Returns what is
left of the record and of `len`. -/
def sbdropRec : Sockbuf → List Mbuf → Nat → Sockbuf × List Mbuf × Nat
  | sb, [], len => (sb, [], len)
  | sb, m :: ms, len =>
    if len = 0 then (sb, m :: ms, 0)
    else if len < m.mLen then
      ({ sb with sbCc := sb.sbCc - len },
        { m with mData := m.mData.drop len, mOff := m.mOff + len } :: ms, 0)
    else sbdropRec (sbfree sb m) ms (len - m.mLen)

/-- The loop `while (len > 0)`: on to the next record when one is used up, panic when there
is none. -/
def sbdropLoop : Sockbuf → List Mbuf → List (List Mbuf) → Nat →
    Option (Sockbuf × List Mbuf × List (List Mbuf))
  | sb, m, [], len =>
    let r := sbdropRec sb m len
    if r.2.2 = 0 then some (r.1, r.2.1, []) else none
  | sb, m, next :: rest, len =>
    let r := sbdropRec sb m len
    if r.2.2 = 0 then some (r.1, r.2.1, next :: rest) else sbdropLoop r.1 next rest r.2.2

/-- The loop `while (m && m->m_len == 0)`. -/
def sbdropZeros : Sockbuf → List Mbuf → Sockbuf × List Mbuf
  | sb, [] => (sb, [])
  | sb, m :: ms => if m.mLen = 0 then sbdropZeros (sbfree sb m) ms else (sb, m :: ms)

/-- Drop bytes from the front; `none` is its panic. -/
def sbdrop (sb : Sockbuf) (len : Int) : Option Sockbuf :=
  (sbdropLoop sb (sb.sbMb.headD []) sb.sbMb.tail len.toNat).map fun r =>
    let z := sbdropZeros r.1 r.2.1
    { z.1 with sbMb := if z.2 = [] then r.2.2 else z.2 :: r.2.2 }

/-- `sbflush`: `while (sb->sb_mbcnt) sbdrop(sb, (int)sb->sb_cc)`, with a bound on the rounds. -/
def sbflushLoop : Nat → Sockbuf → Option Sockbuf
  | 0, sb => some sb
  | n + 1, sb =>
    if sb.sbMbcnt = 0 then some sb else (sbdrop sb (int32 sb.sbCc)).bind (sbflushLoop n)

/-- Each round frees at least one record, so the number of records bounds the rounds. -/
def sbflush (sb : Sockbuf) : Option Sockbuf := (sbflushLoop (sb.sbMb.length + 1) sb).bind fun sb' =>
    if sb'.sbCc = 0 ∧ sb'.sbMb = [] then some sb' else none

/-! ## The counters are right -/

def SbWf (sb : Sockbuf) : Prop := sb.sbCc = (sbBytes sb).length

/-- A byte stream that was never marked with `M_EOR` is a single record, which is all a caller that
copies out of `sb_mb` along `m_next` can see. -/
def OneRec (sb : Sockbuf) : Prop := sb.sbMb.length ≤ 1

def SameMarks (sb sb' : Sockbuf) : Prop := sb'.sbHiwat = sb.sbHiwat ∧ sb'.sbLowat = sb.sbLowat

theorem sbcompressLoop_spec (sb : Sockbuf) (n : Option Mbuf) (ms : List Mbuf) (eor : Bool) :
    chainBytes (sbcompressLoop sb n ms eor).2 = chainBytes n.toList ++ chainBytes ms ∧
      (sbcompressLoop sb n ms eor).1.sbCc = sb.sbCc + chainLen ms ∧
      ((sbcompressLoop sb n ms eor).2 = [] → n = none) ∧
      SameMarks sb (sbcompressLoop sb n ms eor).1 := by
  induction ms generalizing sb n eor with
  | nil =>
    cases n with
    | none => simp [sbcompressLoop, SameMarks]
    | some n => by_cases h : eor <;> simp [sbcompressLoop, SameMarks, h]
  | cons m ms ih =>
    rw [sbcompressLoop]
    split
    · -- an empty mbuf is freed
      next hempty =>
      have hm : m.mData = [] := by
        simp only [Bool.and_eq_true, decide_eq_true_eq] at hempty
        exact eq_nil_of_length_eq_zero hempty.1
      obtain ⟨hb, hc, hn⟩ := ih sb n (eor || m.mEor)
      exact ⟨by rw [hb]; simp [hm], by rw [hc]; simp [Mbuf.mLen, hm], hn⟩
    · split
      · -- copied into the mbuf before it
        next _ hfits =>
        cases n with
        | none => simp at hfits
        | some n =>
          obtain ⟨hb, hc, hn, hmarks⟩ := ih { sb with sbCc := sb.sbCc + m.mLen }
            (some { n with mData := n.mData ++ m.mData }) (eor || m.mEor)
          refine ⟨by rw [Option.map_some, hb]; simp, ?_, fun h => absurd (hn h) (by simp), hmarks⟩
          rw [Option.map_some, hc, chainLen_cons, Nat.add_assoc]
      · -- linked behind it
        obtain ⟨hb, hc, -, hmarks⟩ :=
          ih (sballoc sb m) (some { m with mEor := false }) (eor || m.mEor)
        refine ⟨by rw [chainBytes_append, hb]; simp, ?_, fun h => ?_, hmarks⟩
        · rw [chainLen_cons, ← Nat.add_assoc]
          exact hc
        · rw [append_eq_nil_iff] at h
          simpa using h.1

theorem sbcompress_spec (sb : Sockbuf) (m : List Mbuf) :
    sbBytes (sbcompress sb m) = sbBytes sb ++ chainBytes m ∧
      (sbcompress sb m).sbCc = sb.sbCc + chainLen m ∧
      ((sbcompress sb m).sbMb.length ≤ max sb.sbMb.length 1) ∧ SameMarks sb (sbcompress sb m) := by
  unfold sbcompress
  cases hlast : sb.sbMb.getLast? with
  | none =>
    obtain ⟨hb, hc, -, hmarks⟩ := sbcompressLoop_spec sb none m false
    rw [getLast?_eq_none_iff] at hlast
    refine ⟨?_, by simpa using hc, by simp only; split <;> simp, hmarks⟩
    simp only [Option.toList_none, chainBytes_nil, nil_append] at hb
    simp only [sbBytes, hlast, flatMap_nil, nil_append]
    rw [← hb]
    split
    · next h => rw [h]; rfl
    · simp
  | some rec =>
    obtain ⟨recs, hrecs⟩ := getLast?_eq_some_iff.mp hlast
    obtain ⟨hb, hc, -, hmarks⟩ := sbcompressLoop_spec sb rec.getLast? m false
    refine ⟨?_, by simpa using hc, by simp [hrecs], hmarks⟩
    -- the last record is its last mbuf and what comes before it
    have hrec : chainBytes rec = chainBytes rec.dropLast ++ chainBytes rec.getLast?.toList := by
      cases hl : rec.getLast? with
      | none => simp [getLast?_eq_none_iff.mp hl]
      | some n =>
        obtain ⟨ns, hns⟩ := getLast?_eq_some_iff.mp hl
        simp [hns]
    simp only [sbBytes, hrecs, dropLast_concat, flatMap_append, flatMap_cons,
      flatMap_nil, append_nil, chainBytes_append, hb]
    rw [hrec]
    simp only [append_assoc]

theorem sbappendrecord_spec (sb : Sockbuf) (m : List Mbuf) :
    sbBytes (sbappendrecord sb m) = sbBytes sb ++ chainBytes m ∧
      (sbappendrecord sb m).sbCc = sb.sbCc + chainLen m ∧ SameMarks sb (sbappendrecord sb m) := by
  match m with
  | [] => simp [sbappendrecord, SameMarks]
  | [m0] => simp [sbappendrecord, sbBytes, sballoc, SameMarks]
  | m0 :: m :: ms =>
    rw [sbappendrecord]
    obtain ⟨hb, hc, -, hmarks⟩ := sbcompress_spec
      { sballoc sb m0 with sbMb := sb.sbMb ++ [[{ m0 with mEor := false }]] }
      ({ m with mEor := m.mEor || m0.mEor } :: ms)
    refine ⟨by rw [hb]; simp [sbBytes], ?_, hmarks⟩
    rw [hc]
    simp only [sballoc, chainLen_cons, Mbuf.mLen]
    omega

/-- **`sbappend` appends the bytes and counts them.** -/
theorem sbappend_spec (sb : Sockbuf) (m : List Mbuf) :
    sbBytes (sbappend sb m) = sbBytes sb ++ chainBytes m ∧
      (sbappend sb m).sbCc = sb.sbCc + chainLen m ∧ SameMarks sb (sbappend sb m) := by
  unfold sbappend
  split
  · next h => simp [h, SameMarks]
  · split
    · exact sbappendrecord_spec sb m
    · obtain ⟨hb, hc, -, hmarks⟩ := sbcompress_spec sb m
      exact ⟨hb, hc, hmarks⟩

variable {m : List Mbuf} {sb : Sockbuf}

theorem sbappend_oneRec (h : OneRec sb)
    (heor : (sb.sbMb.getLast?.getD []).any (·.mEor) = false) : OneRec (sbappend sb m) := by
  unfold sbappend
  rw [heor]
  split
  · exact h
  · obtain ⟨-, -, hr, -⟩ := sbcompress_spec sb m
    unfold OneRec at h ⊢
    simp only [Bool.false_eq_true, if_false]
    omega

/-! ## Dropping -/

theorem sbdropRec_spec (sb : Sockbuf) (ms : List Mbuf) (len : Nat) (h : chainLen ms ≤ sb.sbCc) :
    chainBytes (sbdropRec sb ms len).2.1 = (chainBytes ms).drop len ∧
      (sbdropRec sb ms len).2.2 = len - chainLen ms ∧
      (sbdropRec sb ms len).1.sbCc = sb.sbCc - min len (chainLen ms) := by
  fun_induction sbdropRec sb ms len with
  | case1 => simp
  | case2 => simp
  | case3 sb m ms len _ hlt =>
    refine ⟨?_, by simp only [chainLen_cons]; omega, by simp only [chainLen_cons]; omega⟩
    simp only [chainBytes_cons]
    rw [drop_append_of_le_length (by unfold Mbuf.mLen at hlt; omega)]
  | case4 sb m ms len _ hge ih =>
    rw [chainLen_cons] at h
    obtain ⟨hb, hl, hc⟩ := ih (by simp only [sbfree]; omega)
    refine ⟨?_, by rw [hl, chainLen_cons]; omega, ?_⟩
    · have hall : m.mData.drop len = [] := drop_eq_nil_of_le (by unfold Mbuf.mLen at hge; omega)
      rw [hb, chainBytes_cons, drop_append, hall, nil_append, Mbuf.mLen]
    · rw [hc, chainLen_cons]
      simp only [sbfree]
      omega

theorem sbdropLoop_spec (sb : Sockbuf) (m : List Mbuf) (next : List (List Mbuf)) (len : Nat)
    (hcc : chainLen m + (next.flatMap chainBytes).length ≤ sb.sbCc)
    (h : len ≤ chainLen m + (next.flatMap chainBytes).length) :
    ∃ sb' m' next', sbdropLoop sb m next len = some (sb', m', next') ∧
      chainBytes m' ++ next'.flatMap chainBytes =
        (chainBytes m ++ next.flatMap chainBytes).drop len ∧
      sb'.sbCc = sb.sbCc - len ∧ next'.length ≤ next.length := by
  induction next generalizing sb m len with
  | nil =>
    simp only [flatMap_nil, length_nil, Nat.add_zero] at h hcc
    obtain ⟨hb, hl, hc⟩ := sbdropRec_spec sb m len hcc
    refine ⟨(sbdropRec sb m len).1, (sbdropRec sb m len).2.1, [], ?_, ?_, ?_, by simp⟩
    · rw [sbdropLoop, if_pos (by omega)]
    · simp [hb]
    · rw [hc]; omega
  | cons r rs ih =>
    obtain ⟨hb, hl, hc⟩ := sbdropRec_spec sb m len (by omega)
    rw [sbdropLoop]
    simp only [flatMap_cons, length_append, length_chainBytes] at h hcc
    by_cases hle : (sbdropRec sb m len).2.2 = 0
    · refine ⟨(sbdropRec sb m len).1, (sbdropRec sb m len).2.1, r :: rs, by rw [if_pos hle], ?_,
        by rw [hc]; omega, by simp⟩
      rw [hb, drop_append_of_le_length (by rw [length_chainBytes]; omega)]
    · -- this record is used up
      rw [if_neg hle]
      obtain ⟨sb', m', next', hs, hbytes, hcc', hlen⟩ :=
        ih (sbdropRec sb m len).1 r (sbdropRec sb m len).2.2 (by rw [hc]; omega) (by omega)
      refine ⟨sb', m', next', hs, ?_, by rw [hcc', hc]; omega, by simp only [length_cons]; omega⟩
      have hall : (chainBytes m).drop len = [] :=
        drop_eq_nil_of_le (by rw [length_chainBytes]; omega)
      have hrest (l : List Byte) : (chainBytes m ++ l).drop len = l.drop (len - chainLen m) := by
        rw [drop_append, hall, nil_append, length_chainBytes]
      rw [hbytes, hl, flatMap_cons, hrest]

theorem sbdropZeros_spec (sb : Sockbuf) (ms : List Mbuf) :
    chainBytes (sbdropZeros sb ms).2 = chainBytes ms ∧ (sbdropZeros sb ms).1.sbCc = sb.sbCc := by
  induction ms generalizing sb with
  | nil => simp [sbdropZeros]
  | cons m ms ih =>
    rw [sbdropZeros]
    split
    · next h0 =>
      obtain ⟨hb, hc⟩ := ih (sbfree sb m)
      have hm : m.mData = [] := eq_nil_of_length_eq_zero h0
      refine ⟨by rw [hb]; simp [hm], by rw [hc]; simp [sbfree, h0]⟩
    · simp

theorem sbBytes_split (sb : Sockbuf) :
    sbBytes sb = chainBytes (sb.sbMb.headD []) ++ sb.sbMb.tail.flatMap chainBytes := by
  unfold sbBytes
  cases sb.sbMb <;> simp

/-- **`sbdrop` drops bytes from the front**, and panics only when there are not enough. -/
theorem sbdrop_spec (sb : Sockbuf) (len : Nat) (hwf : SbWf sb) (h : len ≤ sb.sbCc) :
    ∃ sb', sbdrop sb len = some sb' ∧ sbBytes sb' = (sbBytes sb).drop len ∧
      sb'.sbCc = sb.sbCc - len ∧ (OneRec sb → OneRec sb') := by
  have hlen : chainLen (sb.sbMb.headD []) + (sb.sbMb.tail.flatMap chainBytes).length = sb.sbCc := by
    rw [hwf, sbBytes_split, length_append, length_chainBytes]
  obtain ⟨sb', m', next', hs, hb, hc, hn⟩ :=
    sbdropLoop_spec sb (sb.sbMb.headD []) sb.sbMb.tail len (by omega) (by omega)
  obtain ⟨hzb, hzc⟩ := sbdropZeros_spec sb' m'
  refine ⟨_, by rw [sbdrop, Int.toNat_natCast, hs]; rfl, ?_, by simp only; rw [hzc, hc], ?_⟩
  · rw [sbBytes_split sb, ← hb, ← hzb]
    simp only [sbBytes]
    split
    · next hz => simp [hz]
    · simp
  · intro hone
    unfold OneRec at hone ⊢
    rw [length_tail] at hn
    simp only
    split
    · omega
    · rw [length_cons]; omega

theorem sbdropRec_wf {len k : Nat} (hcc : sb.sbCc = chainLen m + k) :
    (sbdropRec sb m len).1.sbCc = chainLen (sbdropRec sb m len).2.1 + k := by
  obtain ⟨hb, -, hc⟩ := sbdropRec_spec sb m len (by omega)
  rw [← length_chainBytes (sbdropRec sb m len).2.1, hb, length_drop, length_chainBytes]
  omega

theorem sbdropLoop_wf {next : List (List Mbuf)} {len : Nat}
    {r : Sockbuf × List Mbuf × List (List Mbuf)}
    (hcc : sb.sbCc = chainLen m + (next.flatMap chainBytes).length)
    (hr : sbdropLoop sb m next len = some r) :
    r.1.sbCc = chainLen r.2.1 + (r.2.2.flatMap chainBytes).length := by
  fun_induction sbdropLoop sb m next len
  case case2 => cases hr
  case case4 sb m n next len r _ ih =>
    -- this record is used up
    obtain ⟨-, hl, hc⟩ : _ ∧ r.2.2 = _ ∧ r.1.sbCc = _ := sbdropRec_spec sb m len (by omega)
    rw [flatMap_cons, length_append, length_chainBytes] at hcc
    exact ih (by omega) hr
  all_goals
    obtain rfl := Option.some.inj hr
    exact sbdropRec_wf hcc

theorem sbdrop_wf {sb sb' : Sockbuf} {n : Int} (hwf : SbWf sb) (h : sbdrop sb n = some sb') :
    SbWf sb' := by
  obtain ⟨r, hr, rfl⟩ := Option.map_eq_some_iff.mp h
  rw [SbWf, sbBytes_split, length_append, length_chainBytes] at hwf
  have hlen := sbdropLoop_wf hwf hr
  obtain ⟨hb, hc⟩ := sbdropZeros_spec r.1 r.2.1
  rw [SbWf, sbBytes]
  dsimp only
  rw [hc, hlen, chainLen, ← hb]
  split
  · next hnil => rw [hnil, chainBytes_nil, length_nil, Nat.zero_add]
  · rw [flatMap_cons, length_append]

theorem sbappend_wf (m : List Mbuf) (hwf : SbWf sb) : SbWf (sbappend sb m) := by
  obtain ⟨hb, hc, -⟩ := sbappend_spec sb m
  unfold SbWf at hwf ⊢
  rw [hb, hc, length_append, length_chainBytes, hwf]

/-! ## The types of the mbufs -/

theorem sbcompressLoop_types (P : MType → Prop) (sb : Sockbuf) (n : Option Mbuf)
    (ms : List Mbuf) (eor : Bool) (hn : ∀ b ∈ n, P b.mType) (hms : ∀ b ∈ ms, P b.mType) :
    ∀ b ∈ (sbcompressLoop sb n ms eor).2, P b.mType := by
  induction ms generalizing sb n eor with
  | nil =>
    cases n with
    | none => exact forall_mem_nil _
    | some n =>
      have hP := hn n rfl
      cases eor <;> simpa [sbcompressLoop] using hP
  | cons m ms ih =>
    obtain ⟨hm, hrest⟩ := forall_mem_cons.mp hms
    rw [sbcompressLoop]
    split_ifs
    · exact ih _ _ _ hn hrest
    · refine ih _ _ _ ?_ hrest
      intro b hb
      obtain ⟨n', hn', rfl⟩ := Option.mem_map.mp hb
      exact hn n' hn'
    · intro b hb
      rcases mem_append.mp hb with hb | hb
      · exact hn b (Option.mem_toList.mp hb)
      · exact ih _ _ _ (by rintro b ⟨⟩; exact hm) hrest b hb

theorem sbcompress_types (P : MType → Prop) (sb : Sockbuf) (m : List Mbuf)
    (hsb : ∀ rec ∈ sb.sbMb, ∀ b ∈ rec, P b.mType) (hm : ∀ b ∈ m, P b.mType) :
    ∀ rec ∈ (sbcompress sb m).sbMb, ∀ b ∈ rec, P b.mType := by
  rw [sbcompress]
  cases hlast : sb.sbMb.getLast? with
  | none =>
    have hloop := sbcompressLoop_types P sb none m false (by rintro b ⟨⟩) hm
    dsimp only
    split
    · exact forall_mem_nil _
    · exact forall_mem_singleton.mpr hloop
  | some rec =>
    have hrec := hsb rec (mem_of_getLast? hlast)
    have hloop := sbcompressLoop_types P sb rec.getLast? m false
      (fun b hb => hrec b (mem_of_getLast? hb)) hm
    intro r hr
    rcases mem_append.mp hr with hr | hr
    · exact hsb r (dropLast_subset _ hr)
    · rw [mem_singleton.mp hr]
      intro b hb
      rcases mem_append.mp hb with hb | hb
      · exact hrec b (dropLast_subset _ hb)
      · exact hloop b hb

theorem sbappend_types (P : MType → Prop) (sb : Sockbuf) (m : List Mbuf)
    (hsb : ∀ rec ∈ sb.sbMb, ∀ b ∈ rec, P b.mType) (hm : ∀ b ∈ m, P b.mType) :
    ∀ rec ∈ (sbappend sb m).sbMb, ∀ b ∈ rec, P b.mType := by
  have hadd (m0 : Mbuf) (h0 : P m0.mType) :
      ∀ rec ∈ sb.sbMb ++ [[m0]], ∀ b ∈ rec, P b.mType := by
    intro rec hrec
    rcases mem_append.mp hrec with hrec | hrec
    · exact hsb rec hrec
    · rw [mem_singleton.mp hrec]
      exact forall_mem_singleton.mpr h0
  rw [sbappend]
  split_ifs
  · exact hsb
  · match m with
    | [] => exact hsb
    | [m0] => exact hadd m0 (hm m0 mem_cons_self)
    | m0 :: m :: ms =>
      obtain ⟨h0, hrest⟩ := forall_mem_cons.mp hm
      obtain ⟨h1, hms⟩ := forall_mem_cons.mp hrest
      exact sbcompress_types P _ _ (hadd _ h0) (forall_mem_cons.mpr ⟨h1, hms⟩)
  · exact sbcompress_types P sb m hsb hm

theorem foldl_sballoc (sb : Sockbuf) (m : List Mbuf) :
    ∃ cnt, m.foldl sballoc sb = { sb with sbCc := sb.sbCc + chainLen m, sbMbcnt := cnt } := by
  induction m generalizing sb with
  | nil => exact ⟨sb.sbMbcnt, rfl⟩
  | cons b m ih =>
    obtain ⟨cnt, heq⟩ := ih (sballoc sb b)
    refine ⟨cnt, ?_⟩
    rw [foldl_cons, heq, chainLen_cons]
    simp only [sballoc, Nat.add_assoc]

/-! ## The send buffer as a queue -/

inductive SndBufOp where
  | append (m : List Mbuf)
  | drop (len : Nat)

/-- `none` is the panic of `sbdrop`. -/
def sndBufStep (sb : Sockbuf) : SndBufOp → Option Sockbuf
  | .append m => some (sbappend sb m)
  | .drop len => sbdrop sb len

/-- The same on a queue of bytes, which has to hold what is dropped. -/
def queueStep (q : List Byte) : SndBufOp → Option (List Byte)
  | .append m => some (q ++ chainBytes m)
  | .drop len => if len ≤ q.length then some (q.drop len) else none

theorem sndBufStep_queue {q : List Byte} (op : SndBufOp) (hwf : SbWf sb)
    (h : queueStep (sbBytes sb) op = some q) :
    ∃ sb', sndBufStep sb op = some sb' ∧ SbWf sb' ∧ sbBytes sb' = q := by
  cases op with
  | append m =>
    exact ⟨_, rfl, sbappend_wf m hwf, (sbappend_spec sb m).1.trans (Option.some.inj h)⟩
  | drop len =>
    obtain ⟨hle, hq⟩ := Option.ite_none_right_eq_some.mp h
    obtain ⟨sb', hd, hb, -⟩ := sbdrop_spec sb len hwf (hwf ▸ hle)
    exact ⟨sb', hd, sbdrop_wf hwf hd, hb.trans (Option.some.inj hq)⟩

/-- **The send buffer is a queue.** As long as no more bytes are dropped than there are, `sbdrop` does
not panic, and the buffer holds the bytes of the queue and counts them. -/
theorem snd_buffer_queue {q : List Byte} (ops : List SndBufOp) (hwf : SbWf sb)
    (h : ops.foldlM queueStep (sbBytes sb) = some q) :
    ∃ sb', ops.foldlM sndBufStep sb = some sb' ∧ sbBytes sb' = q ∧ sb'.sbCc = q.length := by
  induction ops generalizing sb with
  | nil =>
    cases h
    exact ⟨sb, rfl, rfl, hwf⟩
  | cons op ops ih =>
    obtain ⟨q1, h1, hrest⟩ := Option.bind_eq_some_iff.mp h
    obtain ⟨sb1, hs, hwf1, rfl⟩ := sndBufStep_queue op hwf h1
    rw [foldlM_cons, hs]
    exact ih hwf1 hrest

theorem snd_buffer_queue_two :
    ∃ sb', [.append [{ mData := [1, 2] }], .drop 1].foldlM sndBufStep ({} : Sockbuf) = some sb' ∧
      sbBytes sb' = [2] ∧ sb'.sbCc = 1 :=
  snd_buffer_queue _ rfl rfl

end Anp
