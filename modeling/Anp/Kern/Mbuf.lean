import Mathlib.Data.List.Basic
import Mathlib.Tactic.Common

/-!
# Mbuf — mbuf chains and the routines that cut and copy them

`kern/uipc_mbuf.c`, `sys/mbuf.h`. A chain (`m_next`) is a `List Mbuf`; the bytes of an mbuf
are the ones between `m_data` and `m_data + m_len`, so `m_len` is the length of `mData` and
`m_data` is the offset `mOff` into the mbuf's own storage (or its cluster).

A panic of the source is `none` (or `CopyRes.panic`); `mCopym` is told how many mbufs the
allocator still has. The lemmas at the end say what each does to the bytes of the chain.
-/

namespace Anp

open List

variable {avail : Nat}

abbrev Byte := UInt8

/-- `m_type`, the types the modelled code compares. -/
inductive MType where
  | data | header | soname | control | oobdata
  deriving DecidableEq, Repr

/-- One mbuf. `mExt` is `ext_size` when `M_EXT` is set, `mPkthdr` is `m_pkthdr.len` when
`M_PKTHDR` is set, `mEor` is `M_EOR`. -/
structure Mbuf where
  mType : MType := .data
  mExt : Option Nat := none
  mEor : Bool := false
  mPkthdr : Option Int := none
  mOff : Nat := 0
  mData : List Byte
  deriving DecidableEq, Repr

variable {m n : List Mbuf}

def Mbuf.mLen (m : Mbuf) : Nat := m.mData.length

/-- `MSIZE`, the size of an mbuf with its header. -/
def msize : Nat := 128

/-- `MLEN = MSIZE - sizeof(struct m_hdr)`: the data area of a plain mbuf. -/
def mlen : Nat := msize - 20

/-- `MHLEN = MLEN - sizeof(struct pkthdr)`: the data area of a packet-header mbuf. -/
def mhlen : Nat := mlen - 8

/-- `MCLBYTES`, the size of a cluster. -/
def mclbytes : Nat := 2048

/-- `max_linkhdr`, the room left for a link header. -/
def maxLinkhdr : Nat := 16

/-- `M_COPYALL`, the length that means "to the end of the chain". -/
def mCopyall : Nat := 1000000000

/-- The bytes a chain holds, in order. -/
def chainBytes (m : List Mbuf) : List Byte := m.flatMap (·.mData)

/-- The sum of `m_len` over a chain. -/
def chainLen (m : List Mbuf) : Nat := (chainBytes m).length

/-! ## `m_adj` -/

/-- Trim from head: the loop `while (m != NULL && len > 0)`. Returns the chain and what is
left of `len` when the chain runs out. -/
def mAdjHead : List Mbuf → Nat → List Mbuf × Nat
  | [], len => ([], len)
  | m :: ms, len =>
    if len = 0 then (m :: ms, 0)
    else if m.mLen ≤ len then
      let r := mAdjHead ms (len - m.mLen)
      ({ m with mData := [] } :: r.1, r.2)
    else ({ m with mData := m.mData.drop len, mOff := m.mOff + len } :: ms, 0)

/-- Trim from tail: keep the first `count` bytes. The mbufs after the one that is cut stay in the
chain with `m_len = 0`. -/
def mAdjTail : List Mbuf → Nat → List Mbuf
  | [], _ => []
  | m :: ms, count =>
    if count ≤ m.mLen then
      { m with mData := m.mData.take count } :: ms.map fun m => { m with mData := [] }
    else m :: mAdjTail ms (count - m.mLen)

/-- Update `m_pkthdr.len` of the first mbuf, if it has a packet header. -/
def adjPkthdr (f : Int → Int) : List Mbuf → List Mbuf
  | [] => []
  | m :: ms => { m with mPkthdr := m.mPkthdr.map f } :: ms

/-- `m_adj`: trim a chain at its head (`len >= 0`) or at its tail. -/
def mAdj (mp : List Mbuf) (reqLen : Int) : List Mbuf :=
  if 0 ≤ reqLen then
    let r := mAdjHead mp reqLen.toNat
    adjPkthdr (fun l => l - (reqLen - r.2)) r.1
  else
    let len := (-reqLen).toNat
    match mp.getLast? with
    | none => mp
    | some last =>
      -- the adjustment only affects the last mbuf
      if len ≤ last.mLen then
        adjPkthdr (fun l => l - len)
          (mp.dropLast ++ [{ last with mData := last.mData.take (last.mLen - len) }])
      else
        let count := chainLen mp - len
        adjPkthdr (fun _ => count) (mAdjTail mp count)

/-! ## `m_copydata` and `m_copym` -/

/-- The loop `while (off > 0)` that finds the mbuf a copy starts in. -/
def mSkip : List Mbuf → Nat → Option (List Mbuf × Nat)
  | ms, 0 => some (ms, 0)
  | [], _ + 1 => none
  | m :: ms, off => if off < m.mLen then some (m :: ms, off) else mSkip ms (off - m.mLen)

/-- The loop `while (len > 0)` of `m_copydata`. -/
def mCopydataLoop : List Mbuf → Nat → Nat → Option (List Byte)
  | _, _, 0 => some []
  | [], _, _ + 1 => none
  | m :: ms, off, len =>
    let count := min (m.mLen - off) len
    (mCopydataLoop ms 0 (len - count)).map (((m.mData.drop off).take count) ++ ·)

/-- Copies a range of a chain into a buffer. -/
def mCopydata (m : List Mbuf) (off len : Int) : Option (List Byte) :=
  if off < 0 ∨ len < 0 then none
  else (mSkip m off.toNat).bind fun r => mCopydataLoop r.1 r.2 len.toNat

/-- What `m_copym` can do: panic, fail for lack of mbufs (everything allocated on the way is
freed), fault, or return a chain. It counts the reference to a cluster in `mclrefcnt`, and nothing
in the repository sets that pointer. -/
inductive CopyRes where
  | panic
  | nospace
  | fault
  | ok (n : List Mbuf)
  deriving DecidableEq, Repr

def CopyRes.cons (m : Mbuf) : CopyRes → CopyRes
  | .ok n => .ok (m :: n)
  | r => r

/-- The loop `while (len > 0)` of `m_copym`; `avail` more calls of `MGET` succeed, and `hdr` is the
length for a copied packet header while `copyhdr` is set. -/
def mCopymLoop (hdr : Option (Int → Int)) : List Mbuf → Nat → Nat → Nat → CopyRes
  | _, _, 0, _ => .ok []
  | [], _, len + 1, _ => if len + 1 = mCopyall then .ok [] else .panic
  | _ :: _, _, _ + 1, 0 => .nospace
  | m :: ms, off, len + 1, avail + 1 =>
    if m.mExt.isSome then .fault
    else
      let nlen := min (len + 1) (m.mLen - off)
      let n : Mbuf :=
        { mType := m.mType
          mEor := hdr.isSome && m.mEor
          mPkthdr := hdr.bind fun f => m.mPkthdr.map f
          mData := (m.mData.drop off).take nlen }
      CopyRes.cons n
        (mCopymLoop none ms 0 (if len + 1 = mCopyall then len + 1 else len + 1 - nlen) avail)

/-- Copies a range of a chain into a new one. -/
def mCopym (m : List Mbuf) (off0 len : Int) (avail : Nat) : CopyRes :=
  if off0 < 0 ∨ len < 0 then .panic
  else
    let copyhdr := off0 = 0 ∧ (m.head?.bind (·.mPkthdr)).isSome
    let hdr : Option (Int → Int) :=
      if copyhdr then some fun l => if len = mCopyall then l - off0 else len else none
    match mSkip m off0.toNat with
    | none => .panic
    | some r => mCopymLoop hdr r.1 r.2 len.toNat avail

/-! ## Taking one byte out of a chain -/

/-- The loop of `tcp_pulloutofband`: the byte `cnt` places into the chain, and the chain without it.
`none` is the panic at the end. -/
def pullByte : List Mbuf → Nat → Option (Byte × List Mbuf)
  | [], _ => none
  | m :: ms, cnt =>
    if h : cnt < m.mLen then
      some (m.mData.get ⟨cnt, h⟩, { m with mData := m.mData.eraseIdx cnt } :: ms)
    else (pullByte ms (cnt - m.mLen)).map fun r => (r.1, m :: r.2)

/-! ## Bytes of a chain -/

@[simp] theorem chainBytes_nil : chainBytes [] = [] := rfl

@[simp] theorem chainBytes_cons (m : Mbuf) (ms : List Mbuf) :
    chainBytes (m :: ms) = m.mData ++ chainBytes ms := rfl

@[simp] theorem chainBytes_append (a b : List Mbuf) :
    chainBytes (a ++ b) = chainBytes a ++ chainBytes b := by
  simp [chainBytes]

@[simp] theorem chainBytes_adjPkthdr (f : Int → Int) (m : List Mbuf) :
    chainBytes (adjPkthdr f m) = chainBytes m := by
  cases m <;> rfl

theorem chainBytes_map_empty (ms : List Mbuf) :
    chainBytes (ms.map fun m => { m with mData := [] }) = [] := by
  induction ms with
  | nil => rfl
  | cons m ms ih => simpa using ih

theorem length_chainBytes (m : List Mbuf) : (chainBytes m).length = chainLen m := rfl

@[simp] theorem chainLen_nil : chainLen [] = 0 := rfl

@[simp] theorem chainLen_cons (m : Mbuf) (ms : List Mbuf) :
    chainLen (m :: ms) = m.mLen + chainLen ms := by
  simp [chainLen, Mbuf.mLen]

/-! ## `m_adj` is drop and take -/

theorem chainBytes_mAdjHead (ms : List Mbuf) (len : Nat) :
    chainBytes (mAdjHead ms len).1 = (chainBytes ms).drop len := by
  induction ms generalizing len with
  | nil => simp [mAdjHead]
  | cons m ms ih =>
    unfold mAdjHead
    by_cases h0 : len = 0
    · simp [h0]
    · rw [if_neg h0]
      split
      · next hle =>
        simp only [chainBytes_cons, nil_append, ih]
        rw [drop_append, drop_eq_nil_of_le hle, nil_append, Mbuf.mLen]
      · next hle =>
        simp only [chainBytes_cons]
        rw [drop_append_of_le_length (by unfold Mbuf.mLen at hle; omega)]

theorem chainBytes_mAdjTail (ms : List Mbuf) (count : Nat) :
    chainBytes (mAdjTail ms count) = (chainBytes ms).take count := by
  induction ms generalizing count with
  | nil => simp [mAdjTail]
  | cons m ms ih =>
    unfold mAdjTail
    split
    · next hle =>
      simp only [chainBytes_cons, chainBytes_map_empty, append_nil]
      rw [take_append_of_le_length hle]
    · next hle =>
      simp only [chainBytes_cons, ih]
      have hlen : m.mData.length ≤ count := by unfold Mbuf.mLen at hle; omega
      rw [take_append, take_of_length_le hlen, Mbuf.mLen]

/-- **`m_adj(m, k)`, `k >= 0`, drops the first `k` bytes.** -/
theorem chainBytes_mAdj_head (m : List Mbuf) (k : Nat) :
    chainBytes (mAdj m k) = (chainBytes m).drop k := by
  have hk : (0 : Int) ≤ k := by omega
  rw [mAdj, if_pos hk]
  simp only [chainBytes_adjPkthdr, Int.toNat_natCast, chainBytes_mAdjHead]

/-- **`m_adj(m, -k)` keeps all but the last `k` bytes.** -/
theorem chainBytes_mAdj_tail (m : List Mbuf) (k : Nat) :
    chainBytes (mAdj m (-k)) = (chainBytes m).take (chainLen m - k) := by
  rcases Nat.eq_zero_or_pos k with rfl | hk
  · have h := chainBytes_mAdj_head m 0
    simpa [← length_chainBytes] using h
  · rw [mAdj, if_neg (by omega)]
    simp only [Int.neg_neg, Int.toNat_natCast]
    cases hlast : m.getLast? with
    | none =>
      rw [getLast?_eq_none_iff] at hlast
      simp [hlast]
    | some last =>
      obtain ⟨ys, hys⟩ := getLast?_eq_some_iff.mp hlast
      subst hys
      simp only
      split
      · next hle =>
        have hlen : chainLen (ys ++ [last]) - k = (chainBytes ys).length + (last.mLen - k) := by
          simp only [chainLen, chainBytes_append, chainBytes_cons, chainBytes_nil,
            append_nil, length_append, Mbuf.mLen] at hle ⊢
          omega
        rw [hlen]
        simp only [chainBytes_adjPkthdr, dropLast_concat, chainBytes_append, chainBytes_cons,
          chainBytes_nil, append_nil]
        rw [take_append, take_of_length_le (Nat.le_add_right _ _), Nat.add_sub_cancel_left]
      · rw [chainBytes_adjPkthdr, chainBytes_mAdjTail]

/-! ## A copy is a slice of the bytes -/

theorem mSkip_spec (m : List Mbuf) (off : Nat) (h : off ≤ chainLen m) :
    ∃ ms o, mSkip m off = some (ms, o) ∧ (chainBytes m).drop off = (chainBytes ms).drop o ∧
      o + (chainLen m - off) ≤ chainLen ms ∧ ∀ m' ∈ ms.head?, o ≤ m'.mLen := by
  fun_induction mSkip m off with
  | case1 ms => exact ⟨ms, 0, rfl, rfl, by simp, by simp⟩
  | case2 => simp at h
  | case3 m ms off _ hlt => exact ⟨m :: ms, off, rfl, rfl, by omega, by simpa using Nat.le_of_lt hlt⟩
  | case4 m ms off _ hlt ih =>
    rw [chainLen_cons] at h
    obtain ⟨ms', o, hs, hb, hl, hhd⟩ := ih (by omega)
    refine ⟨ms', o, hs, ?_, by rw [chainLen_cons]; omega, hhd⟩
    rw [chainBytes_cons, drop_append,
      drop_eq_nil_of_le (by unfold Mbuf.mLen at hlt; omega), nil_append]
    exact hb

theorem mCopydataLoop_spec (ms : List Mbuf) (off len : Nat)
    (hhd : ∀ m ∈ ms.head?, off ≤ m.mLen) (h : off + len ≤ chainLen ms) :
    mCopydataLoop ms off len = some (((chainBytes ms).drop off).take len) := by
  fun_induction mCopydataLoop ms off len
  case case1 => simp
  case case2 => simp at h
  case case3 m ms off len _ count ih =>
    have hoff : off ≤ m.mLen := hhd m (by simp)
    rw [chainLen_cons] at h
    rw [ih (by simp) (by omega)]
    simp only [Option.map_some, drop_zero, chainBytes_cons]
    rw [drop_append_of_le_length hoff, take_append, length_drop]
    congr 2
    · rw [take_eq_take_iff]
      simp only [length_drop, ← show m.mLen = m.mData.length from rfl]
      omega
    · rw [show len - count = len - (m.mLen - off) by omega, Mbuf.mLen]

/-- **`m_copydata` copies bytes `[off, off + len)`** and does not panic when they exist. -/
theorem mCopydata_eq (m : List Mbuf) (off len : Nat) (h : off + len ≤ chainLen m) :
    mCopydata m off len = some (((chainBytes m).drop off).take len) := by
  obtain ⟨ms, o, hs, hb, hl, hhd⟩ := mSkip_spec m off (by omega)
  rw [mCopydata, if_neg (by omega)]
  simp only [Int.toNat_natCast, hs, Option.bind_some]
  rw [mCopydataLoop_spec ms o len hhd (by omega), hb]

/-- No mbuf of the chain has a cluster. -/
def Plain (m : List Mbuf) : Prop := ∀ b ∈ m, b.mExt = none
deriving Decidable

theorem not_plain_cons {b : Mbuf} (h : b.mExt.isSome) : ¬Plain (b :: m) := by
  intro hp
  rw [hp b mem_cons_self] at h
  cases h

/-- **`m_copym` copies what `m_copydata` copies**, or fails for lack of mbufs or at a cluster. -/
theorem mCopymLoop_copydata (hdr : Option (Int → Int)) (ms : List Mbuf) (off len avail : Nat)
    (hall : len < mCopyall) :
    (mCopymLoop hdr ms off len avail = .nospace ∧ avail < ms.length) ∨
      (mCopymLoop hdr ms off len avail = .fault ∧ ¬Plain ms) ∨
      (mCopymLoop hdr ms off len avail = .panic ∧ mCopydataLoop ms off len = none) ∨
      ∃ n, mCopymLoop hdr ms off len avail = .ok n ∧
        mCopydataLoop ms off len = some (chainBytes n) := by
  fun_induction mCopymLoop hdr ms off len avail
  case case1 => exact .inr (.inr (.inr ⟨[], rfl, by simp [mCopydataLoop]⟩))
  case case2 h => omega
  case case3 => exact .inr (.inr (.inl ⟨rfl, rfl⟩))
  case case4 => exact .inl ⟨rfl, Nat.zero_lt_succ _⟩
  case case5 m ms _ _ _ hext => exact .inr (.inl ⟨rfl, not_plain_cons hext⟩)
  case case6 m ms off len avail _ nlen n ih =>
    rw [mCopydataLoop.eq_3 _ _ _ _ (by simp), Nat.min_comm]
    rw [if_neg (show ¬len + 1 = mCopyall by omega)] at ih ⊢
    rcases ih (by omega) with ⟨hr, hlt⟩ | ⟨hr, hp⟩ | ⟨hr, hd⟩ | ⟨n, hr, hd⟩
    · exact .inl ⟨by rw [hr]; rfl, Nat.succ_lt_succ hlt⟩
    · exact .inr (.inl ⟨by rw [hr]; rfl, fun h => hp (forall_mem_cons.mp h).2⟩)
    · exact .inr (.inr (.inl ⟨by rw [hr]; rfl, by rw [hd]; rfl⟩))
    · exact .inr (.inr (.inr ⟨_, by rw [hr]; rfl, by rw [hd]; rfl⟩))

theorem Plain.mAdjTail (h : Plain m) (count : Nat) : Plain (mAdjTail m count) := by
  induction m generalizing count with
  | nil => exact h
  | cons b m ih =>
    obtain ⟨hb, hm⟩ := forall_mem_cons.mp h
    rw [Anp.mAdjTail]
    split
    · exact forall_mem_cons.mpr ⟨hb, forall_mem_map.mpr hm⟩
    · exact forall_mem_cons.mpr ⟨hb, ih hm _⟩

theorem Plain.adjPkthdr (h : Plain m) (f : Int → Int) : Plain (adjPkthdr f m) := by
  cases m with
  | nil => exact h
  | cons b m => exact forall_mem_cons.mpr (forall_mem_cons.mp h)

theorem Plain.mAdj_tail (h : Plain m) {k : Int} (hk : k < 0) : Plain (mAdj m k) := by
  rw [mAdj, if_neg (by omega)]
  dsimp only
  split
  · exact h
  next last hlast =>
    split
    · refine Plain.adjPkthdr (forall_mem_append.mpr ⟨?_, ?_⟩) _
      · exact fun b hb => h b (dropLast_subset m hb)
      · exact forall_mem_singleton.mpr (h last (mem_of_getLast? hlast))
    · exact (h.mAdjTail _).adjPkthdr _

/-- The mbufs that a copy from `off` on can reach. -/
def copySource (m : List Mbuf) (off : Nat) : List Mbuf := ((mSkip m off).map Prod.fst).getD []

theorem copySource_suffix (m : List Mbuf) (off : Nat) : copySource m off <:+ m := by
  unfold copySource
  fun_induction mSkip m off with
  | case1 ms => exact suffix_rfl
  | case2 => exact nil_suffix
  | case3 => exact suffix_rfl
  | case4 m ms _ _ _ ih => exact ih.trans (suffix_cons m ms)

theorem copySource_later {off off' : Nat} (h : off ≤ off') :
    copySource m off' <:+ copySource m off := by
  conv_rhs => unfold copySource
  fun_induction mSkip m off generalizing off' with
  | case1 ms => exact copySource_suffix ms off'
  | case2 => exact copySource_suffix [] off'
  | case3 m ms => exact copySource_suffix (m :: ms) off'
  | case4 m ms off hpos hge ih =>
    have hoff : off ≠ 0 := hpos
    have hskip : copySource (m :: ms) off' = copySource ms (off' - m.mLen) := by
      rw [copySource, mSkip, if_neg (by omega), copySource]
      omega
    rw [hskip]
    exact ih (by omega)

theorem mCopym_copydata (m : List Mbuf) (off : Int) {len : Int} (avail : Nat)
    (hall : len < mCopyall) :
    (mCopym m off len avail = .nospace ∧ avail < (copySource m off.toNat).length) ∨
      (mCopym m off len avail = .fault ∧ ¬Plain (copySource m off.toNat)) ∨
      (mCopym m off len avail = .panic ∧ mCopydata m off len = none) ∨
      ∃ n, mCopym m off len avail = .ok n ∧ mCopydata m off len = some (chainBytes n) := by
  rw [mCopym, mCopydata, copySource]
  split
  · exact .inr (.inr (.inl ⟨rfl, rfl⟩))
  · cases mSkip m off.toNat with
    | none => exact .inr (.inr (.inl ⟨rfl, rfl⟩))
    | some r => exact mCopymLoop_copydata _ r.1 r.2 len.toNat avail (by omega)

/-- **`m_copym` returns bytes `[off, off + len)`**, fails for lack of mbufs, or faults at a cluster;
it does not panic when the bytes exist. -/
theorem mCopym_spec (m : List Mbuf) (off len avail : Nat) (h : off + len ≤ chainLen m)
    (hall : len < mCopyall) :
    (mCopym m off len avail = .nospace ∧ avail < (copySource m off).length) ∨
      (mCopym m off len avail = .fault ∧ ¬Plain (copySource m off)) ∨
      ∃ n, mCopym m off len avail = .ok n ∧ chainBytes n = ((chainBytes m).drop off).take len := by
  have hdata := mCopydata_eq m off len h
  rcases mCopym_copydata m off avail (Int.ofNat_lt.mpr hall) with hr | hr | ⟨-, hd⟩ | ⟨n, hr, hd⟩
  · exact .inl hr
  · exact .inr (.inl hr)
  · cases hdata.symm.trans hd
  · exact .inr (.inr ⟨n, hr, Option.some.inj (hd.symm.trans hdata)⟩)

/-! ## A copy past the end of the chain -/

theorem mSkip_none (m : List Mbuf) (off : Nat) (h : chainLen m < off) : mSkip m off = none := by
  fun_induction mSkip m off with
  | case1 => omega
  | case2 => rfl
  | case3 =>
    rw [chainLen_cons] at h
    omega
  | case4 m ms off _ _ ih =>
    rw [chainLen_cons] at h
    exact ih (by omega)

theorem mSkip_short {o l : Nat} (h : chainLen m < o + l) :
    mSkip m o = none ∨ ∃ ms o', mSkip m o = some (ms, o') ∧ (∀ b ∈ ms.head?, o' ≤ b.mLen) ∧
      chainLen ms < o' + l := by
  by_cases ho : o ≤ chainLen m
  · obtain ⟨ms, o', hs, hb, hl, hhd⟩ := mSkip_spec m o ho
    have hlen := congrArg List.length hb
    rw [length_drop, length_drop, length_chainBytes, length_chainBytes] at hlen
    exact Or.inr ⟨ms, o', hs, hhd, by omega⟩
  · exact Or.inl (mSkip_none m o (by omega))

theorem mCopydataLoop_none (ms : List Mbuf) (off len : Nat) (hhd : ∀ m ∈ ms.head?, off ≤ m.mLen)
    (hlen : 0 < len) (h : chainLen ms < off + len) : mCopydataLoop ms off len = none := by
  fun_induction mCopydataLoop ms off len
  case case1 => omega
  case case2 => rfl
  case case3 m ms off len _ count ih =>
    have hoff : off ≤ m.mLen := hhd m (by simp)
    rw [chainLen_cons] at h
    rw [ih (by simp) (by omega) (by omega)]
    rfl

theorem mCopydata_some {off len : Int} {b : List Byte} (hlen : 0 < len)
    (h : mCopydata m off len = some b) :
    0 ≤ off ∧ off + len ≤ chainLen m ∧ b = ((chainBytes m).drop off.toNat).take len.toNat := by
  have hoff : 0 ≤ off := by
    by_contra hneg
    rw [mCopydata, if_pos (by omega)] at h
    simp at h
  obtain ⟨o, rfl⟩ := Int.eq_ofNat_of_zero_le hoff
  obtain ⟨l, rfl⟩ := Int.eq_ofNat_of_zero_le (by omega : 0 ≤ len)
  have hle : o + l ≤ chainLen m := by
    by_contra hgt
    rw [mCopydata, if_neg (by omega)] at h
    simp only [Int.toNat_natCast] at h
    obtain hs | ⟨ms, o', hs, hhd, hshort⟩ := mSkip_short (Nat.lt_of_not_le hgt)
    · rw [hs] at h
      simp at h
    · rw [hs, Option.bind_some, mCopydataLoop_none ms o' l hhd (by omega) hshort] at h
      simp at h
  refine ⟨hoff, by omega, ?_⟩
  rw [mCopydata_eq m o l hle] at h
  simpa using h.symm

theorem mCopym_ok {off len : Int} (hlen : 0 < len) (hall : len < mCopyall)
    (h : mCopym m off len avail = .ok n) :
    0 ≤ off ∧ off + len ≤ chainLen m ∧
      chainBytes n = ((chainBytes m).drop off.toNat).take len.toNat := by
  rcases mCopym_copydata m off avail hall with ⟨hr, -⟩ | ⟨hr, -⟩ | ⟨hr, -⟩ | ⟨n', hr, hd⟩ <;>
    cases hr.symm.trans h
  exact mCopydata_some hlen hd

/-! ## A copy of the whole chain -/

theorem mCopymLoop_all (hdr : Option (Int → Int)) (ms : List Mbuf) (avail : Nat) :
    mCopymLoop hdr ms 0 mCopyall avail = .nospace ∨
      (mCopymLoop hdr ms 0 mCopyall avail = .fault ∧ ¬Plain ms) ∨ ∃ n,
      mCopymLoop hdr ms 0 mCopyall avail = .ok n ∧
        (chainLen ms < mCopyall → n.map (·.mData) = ms.map (·.mData)) := by
  obtain ⟨k, hk⟩ : ∃ k, mCopyall = k + 1 := ⟨999999999, rfl⟩
  induction ms generalizing hdr avail with
  | nil =>
    exact .inr (.inr ⟨[], rfl, fun _ => rfl⟩)
  | cons m ms ih =>
    cases avail with
    | zero => exact .inl rfl
    | succ avail =>
      rw [hk, mCopymLoop]
      dsimp only
      rw [if_pos hk.symm, ← hk]
      by_cases hext : m.mExt.isSome = true
      · rw [if_pos hext]
        exact .inr (.inl ⟨rfl, not_plain_cons hext⟩)
      rw [if_neg hext]
      rcases ih none avail with hrec | ⟨hrec, hp⟩ | ⟨n, hrec, hmap⟩
      · rw [hrec]
        exact .inl rfl
      · rw [hrec]
        exact .inr (.inl ⟨rfl, fun h => hp (forall_mem_cons.mp h).2⟩)
      · rw [hrec]
        refine .inr (.inr ⟨_, rfl, fun hlt => ?_⟩)
        rw [chainLen_cons] at hlt
        have hall : min mCopyall (m.mLen - 0) = m.mData.length := by
          exact Nat.min_eq_right (by omega)
        rw [map_cons, map_cons, hmap (by omega), hall]
        simp

theorem mCopym_zero_all (m : List Mbuf) (avail : Nat) :
    mCopym m 0 mCopyall avail = .nospace ∨ (mCopym m 0 mCopyall avail = .fault ∧ ¬Plain m) ∨
      ∃ n, mCopym m 0 mCopyall avail = .ok n ∧
        (chainLen m < mCopyall → n.map (·.mData) = m.map (·.mData)) := by
  rw [mCopym, if_neg (by omega)]
  simp only [Int.toNat_zero, mSkip, Int.toNat_natCast]
  exact mCopymLoop_all _ m avail

theorem mCopym_all (hlt : chainLen m < mCopyall) (h : mCopym m 0 mCopyall avail = .ok n) :
    n.map (·.mData) = m.map (·.mData) := by
  rcases mCopym_zero_all m avail with h' | ⟨h', -⟩ | ⟨n', h', hmap⟩ <;> cases h'.symm.trans h
  exact hmap hlt

end Anp
