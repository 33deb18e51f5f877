import Anp.Kern.Mbuf
import Anp.Lib.Machine

/-!
# Pullup — `m_pullup` and `m_cat`

`kern/uipc_mbuf.c`. Both move bytes between the mbufs of a chain and keep their order.

`m_pullup_exact_iff` says when the chain or a clean failure comes back. `mPullup_eq` joins the two
models, `mPullup_spec` and `mPullup_cluster` are what the callers use.
-/

namespace Anp

open Machine List

/-- `max_protohdr`, set by `tcp_init` to `sizeof(struct tcpiphdr)`. -/
def maxProtohdr : Nat := 40

/-! ## `m_cat` -/

/-- The loop of `m_cat`, at the last mbuf `m` of the first chain. -/
def mCatLast (m : Mbuf) : List Mbuf → List Mbuf
  | [] => [m]
  | n :: ns =>
    if m.mExt.isSome ∨ mlen ≤ m.mOff + m.mLen + n.mLen then m :: n :: ns
    else mCatLast { m with mData := m.mData ++ n.mData } ns

/-- `m_cat`: join two chains, filling the last mbuf of the first one as long as the next mbuf fits
into it. -/
def mCat : List Mbuf → List Mbuf → List Mbuf
  | [], n => n
  | [m], n => mCatLast m n
  | m :: m' :: ms, n => m :: mCat (m' :: ms) n

/-! ## `m_pullup` -/

/-- The `do ... while` of `m_pullup`: fill `m` from the chain, `len` more bytes being needed and
`space` bytes free. Where an mbuf is not used up, `count` is at least `len` and the loop ends. -/
def mPullupLoop (m : Mbuf) (len space : Nat) : List Mbuf → Option (List Mbuf)
  | [] => if len = 0 then some [m] else none
  | n :: ns =>
    let count := min (min (max len maxProtohdr) space) n.mLen
    let m' := { m with mData := m.mData ++ n.mData.take count }
    if count < n.mLen then
      some (m' :: { n with mData := n.mData.drop count, mOff := n.mOff + count } :: ns)
    else if len ≤ count then some (m' :: ns)
    else mPullupLoop m' (len - count) (space - count) ns

/-- `m_pullup`: the first `len` bytes, and up to `max_protohdr` if there is room, moved into one
plain mbuf at the front. `mget` is what `MGET` does. -/
def mPullup (mget : Bool) : List Mbuf → Nat → Option (List Mbuf)
  | [], _ => none
  | n :: ns, len =>
    if n.mExt = none ∧ n.mOff + len < mlen ∧ ns ≠ [] then
      if len ≤ n.mLen then some (n :: ns)
      else mPullupLoop n (len - n.mLen) (mlen - (n.mOff + n.mLen)) ns
    else if mhlen < len then none
    else if mget = false then none
    else
      -- `M_COPY_PKTHDR`: the data of an mbuf with a packet header starts at `m_pktdat`
      let off := if n.mPkthdr.isSome then mlen - mhlen else 0
      let m : Mbuf :=
        { mType := n.mType
          mEor := n.mPkthdr.isSome && n.mEor
          mPkthdr := n.mPkthdr
          mOff := off
          mData := [] }
      mPullupLoop m len (mlen - off) ({ n with mPkthdr := none } :: ns)

/-! ## The bytes stay in order -/

theorem chainBytes_mCatLast (m : Mbuf) (n : List Mbuf) :
    chainBytes (mCatLast m n) = m.mData ++ chainBytes n := by
  induction n generalizing m with
  | nil => simp [mCatLast]
  | cons n ns ih =>
    rw [mCatLast]
    split
    · simp
    · rw [ih]
      simp

theorem chainBytes_mCat (m n : List Mbuf) :
    chainBytes (mCat m n) = chainBytes m ++ chainBytes n := by
  induction m with
  | nil => simp [mCat]
  | cons m ms ih =>
    cases ms with
    | nil =>
      rw [mCat, chainBytes_mCatLast]
      simp
    | cons m' ms =>
      rw [mCat, chainBytes_cons, ih]
      simp

theorem mCatLast_head (m : Mbuf) (n : List Mbuf) :
    ∃ d ns, mCatLast m n = { m with mData := m.mData ++ d } :: ns := by
  induction n generalizing m with
  | nil => exact ⟨[], [], by simp [mCatLast]⟩
  | cons n ns ih =>
    rw [mCatLast]
    split
    · exact ⟨[], n :: ns, by simp⟩
    · obtain ⟨d, r, h⟩ := ih { m with mData := m.mData ++ n.mData }
      exact ⟨n.mData ++ d, r, by simp [h]⟩

theorem mCat_head (m : Mbuf) (ms n : List Mbuf) :
    ∃ d ns, mCat (m :: ms) n = { m with mData := m.mData ++ d } :: ns := by
  cases ms with
  | nil => exact mCatLast_head m n
  | cons m' ms => exact ⟨[], mCat (m' :: ms) n, by simp [mCat]⟩

/-! ## The mbufs that are freed -/

/-- The mbufs of a call: those of the chain by their places, and the one from `MGET`. -/
inductive PullId where
  | old (i : Nat)
  | new
  deriving DecidableEq, Repr

inductive Pulled where
  | chain (m : List Mbuf)
  | null
  -- the loop does not end
  | stuck
  deriving DecidableEq, Repr

/-- The result, the mbufs freed and allocated, and whether `MGET` was called in vain. -/
structure PullRun where
  res : Pulled
  freed : List PullId := []
  got : List PullId := []
  failed : Bool := false
  deriving DecidableEq, Repr

def Pulled.toOption : Pulled → Option (List Mbuf)
  | .chain m => some m
  | _ => none

def pullCount (len : Int) (space : Nat) (n : Mbuf) : Nat :=
  min (min (max (u32 len) maxProtohdr) space) n.mLen

/-- The `do ... while` at the `i`th mbuf, `m` being the mbuf `me` that is filled. Where an mbuf is
not used up and `len` is still positive no space is left, so nothing changes any more. -/
def pullupLoop (me : PullId) (m : Mbuf) (len : Int) (space i : Nat) : List Mbuf → PullRun
  | [] => { res := .null, freed := [me] }
  | n :: ns =>
    let count := pullCount len space n
    let len' := int32 (len - count)
    let m' := { m with mData := m.mData ++ n.mData.take count }
    if count < n.mLen then
      if len' ≤ 0 then
        { res := .chain
            (m' :: { n with mData := n.mData.drop count, mOff := n.mOff + count } :: ns) }
      else { res := .stuck }
    else if len' ≤ 0 then { res := .chain (m' :: ns), freed := [.old i] }
    else
      let r := pullupLoop me m' len' (space - count) (i + 1) ns
      { r with freed := .old i :: r.freed }

/-- The first mbuf is the one that is filled. -/
def Fills (n : Mbuf) (ns : List Mbuf) (len : Int) : Prop :=
  n.mExt = none ∧ n.mOff + len < mlen ∧ ns ≠ []
deriving Decidable

/-- Where the data of the new mbuf starts: with a packet header at `m_pktdat`. -/
def pullOff (n : Mbuf) : Nat := if n.mPkthdr.isSome then mlen - mhlen else 0

def oldIds (m : List Mbuf) : List PullId := (List.range m.length).map .old

/-- The mbuf of `MGET`, with the packet header of `n` moved into it. -/
def pullNew (n : Mbuf) : Mbuf where
  mType := n.mType
  mEor := n.mPkthdr.isSome && n.mEor
  mPkthdr := n.mPkthdr
  mOff := pullOff n
  mData := []

/-- `m_pullup(n, len)`. `MHLEN` is made from `sizeof`, so `len > MHLEN` compares unsigned numbers. -/
def pullup (mget : Bool) (n : Mbuf) (ns : List Mbuf) (len : Int) : PullRun :=
  if Fills n ns len then
    if len ≤ n.mLen then { res := .chain (n :: ns) }
    else pullupLoop (.old 0) n (len - n.mLen) (mlen - (n.mOff + n.mLen)) 1 ns
  else if mhlen < u32 len then { res := .null, freed := oldIds (n :: ns) }
  else if mget = false then { res := .null, freed := oldIds (n :: ns), failed := true }
  else
    { pullupLoop .new (pullNew n) len (mlen - pullOff n) 0 ({ n with mPkthdr := none } :: ns) with
      got := [.new] }

/-- What the caller may rely on. -/
def PullupRight (mget : Bool) (n : Mbuf) (ns : List Mbuf) (len : Int) : Prop :=
  match pullup mget n ns len with
  | ⟨.chain r, _, _, _⟩ => chainBytes r = chainBytes (n :: ns) ∧ ∃ m rs, r = m :: rs ∧
      m.mPkthdr = n.mPkthdr ∧ m.mExt = none ∧ m.mOff + len ≤ mlen ∧ len ≤ m.mLen
  | ⟨.null, freed, got, failed⟩ => freed.Perm (oldIds (n :: ns) ++ got) ∧
      (chainLen (n :: ns) < len ∨ mhlen < len ∨ failed = true)
  | ⟨.stuck, _, _, _⟩ => False

/-- A new mbuf is not asked for with a negative length. -/
def PullupCond (n : Mbuf) (ns : List Mbuf) (len : Int) : Prop := 0 ≤ len ∨ Fills n ns len

section

variable {me : PullId} {m n : Mbuf} {len : Int} {space i : Nat} {ns : List Mbuf}

/-- The loop, from `len` bytes on that are missing in `m`. -/
def LoopRight (me : PullId) (m : Mbuf) (len : Int) (i : Nat) (ns : List Mbuf) : PullRun → Prop
  | ⟨.chain r, _, _, _⟩ => chainBytes r = m.mData ++ chainBytes ns ∧
      ∃ d rs, r = { m with mData := m.mData ++ d } :: rs ∧ len ≤ d.length
  | ⟨.null, freed, got, _⟩ =>
    freed = (List.range' i ns.length).map .old ++ [me] ∧ got = [] ∧ chainLen ns < len
  | ⟨.stuck, _, _, _⟩ => False

theorem pullCount_spec (h0 : 0 ≤ len) (hs : len ≤ space) (hsp : space ≤ mlen) :
    int32 (len - pullCount len space n) = len - pullCount len space n ∧
      (pullCount len space n < n.mLen → len ≤ pullCount len space n) := by
  have hmlen : mlen < 1000 := by decide
  rw [pullCount, u32_of_range (by omega) (by omega)]
  exact ⟨int32_of_range (by omega) (by omega), by omega⟩

theorem pullupLoop_right (h0 : 0 ≤ len) (hs : len ≤ space) (hsp : space ≤ mlen)
    (hne : 0 < len ∨ ns ≠ []) :
    LoopRight me m len i ns (pullupLoop me m len space i ns) := by
  fun_induction pullupLoop me m len space i ns
  case case1 => exact ⟨rfl, rfl, hne.resolve_right (absurd rfl)⟩
  case case2 m len space i n ns count len' m' hlt hle =>
    -- the rest of `n` stays in the chain
    obtain ⟨-, hpart⟩ := pullCount_spec (n := n) h0 hs hsp
    refine ⟨?_, n.mData.take count, _, rfl, ?_⟩
    · simp only [chainBytes_cons, m', append_assoc]
      rw [← append_assoc (n.mData.take count), take_append_drop]
    · rw [length_take_of_le hlt.le]
      exact hpart hlt
  case case3 m len space i n ns count len' hlt hgt =>
    obtain ⟨hint, hpart⟩ : len' = len - count ∧ _ := pullCount_spec (n := n) h0 hs hsp
    exact hgt (by have := hpart hlt; omega)
  case case4 m len space i n ns count len' m' hge hle =>
    obtain ⟨hint, -⟩ : len' = len - count ∧ _ := pullCount_spec (n := n) h0 hs hsp
    have hall : n.mData.take count = n.mData := take_of_length_le (Nat.le_of_not_lt hge)
    have hcount : count ≤ n.mLen := min_le_right _ _
    refine ⟨by simp [m', hall], n.mData, ns, by simp only [m', hall], ?_⟩
    rw [← Mbuf.mLen]
    omega
  case case5 m len space i n ns count len' m' hge hgt r ih =>
    obtain ⟨hint, -⟩ : len' = len - count ∧ _ := pullCount_spec (n := n) h0 hs hsp
    have hall : n.mData.take count = n.mData := take_of_length_le (Nat.le_of_not_lt hge)
    have hcount : count ≤ n.mLen ∧ count ≤ space :=
      ⟨min_le_right _ _, (min_le_left _ _).trans (min_le_right _ _)⟩
    have hrec : LoopRight me m' len' (i + 1) ns r :=
      ih (by omega) (by omega) (by omega) (.inl (by omega))
    obtain ⟨res, freed, got, failed⟩ := r
    cases res with
    | chain rs =>
      obtain ⟨hb, d, rs, hr, hd⟩ := hrec
      refine ⟨by simpa [m', hall] using hb, n.mData ++ d, rs, by simpa [m', hall] using hr, ?_⟩
      rw [length_append, ← Mbuf.mLen]
      omega
    | null =>
      obtain ⟨hfreed, hgot, hshort⟩ := hrec
      refine ⟨?_, hgot, by rw [chainLen_cons]; omega⟩
      rw [length_cons, range'_succ, map_cons, cons_append, ← hfreed]
    | stuck => exact hrec

end

/-- Where `len` is not negative, the loop is `mPullupLoop`. -/
theorem mPullupLoop_eq {m : Mbuf} {len space : Nat} {ns : List Mbuf} (me : PullId) (i : Nat)
    (hs : len ≤ space) (hsp : space ≤ mlen) (h0 : 0 < len ∨ ns ≠ []) :
    mPullupLoop m len space ns = (pullupLoop me m len space i ns).res.toOption := by
  have hmlen : mlen < 1000 := by decide
  induction ns generalizing m len space i with
  | nil =>
    rw [mPullupLoop, if_neg (h0.resolve_right (absurd rfl)).ne']
    rfl
  | cons n ns ih =>
    rw [mPullupLoop, pullupLoop, pullCount, u32_of_range (by omega) (by omega), Int.toNat_natCast]
    rw [int32_of_range (by omega) (by omega)]
    split_ifs with _ _ hle _ hle
    · rfl
    · omega
    · rfl
    · omega
    · omega
    · rw [← Int.ofNat_sub (by omega)]
      exact ih (i + 1) (by omega) (by omega) (.inl (by omega))

theorem pullOff_le (n : Mbuf) : pullOff n + mhlen ≤ mlen := by
  rw [pullOff]
  split <;> decide

theorem oldIds_cons (n : Mbuf) (ns : List Mbuf) :
    oldIds (n :: ns) = [.old 0] ++ (List.range' 1 ns.length).map .old := by
  rw [oldIds, length_cons, range_eq_range', range'_succ]
  rfl

theorem pullup_right {mget : Bool} {n : Mbuf} {ns : List Mbuf} {len : Int}
    (hhi : len < 2147483648) (h : PullupCond n ns len) : PullupRight mget n ns len := by
  have hoff := pullOff_le n
  rw [PullupRight, pullup]
  split_ifs with hf hle hbad hget
  · exact ⟨rfl, n, ns, rfl, rfl, hf.1, by have := hf.2.1; omega, hle⟩
  · obtain ⟨hext, hroom, -⟩ := hf
    have h := @pullupLoop_right (.old 0) n (len - n.mLen) (mlen - (n.mOff + n.mLen)) 1 ns
      (by omega) (by omega) (by omega) (.inl (by omega))
    generalize pullupLoop _ _ _ _ _ _ = r at h
    obtain ⟨res, freed, got, failed⟩ := r
    cases res with
    | chain r =>
      obtain ⟨hb, d, rs, rfl, hd⟩ := h
      refine ⟨by simpa using hb, _, rs, rfl, rfl, hext, by dsimp only; omega, ?_⟩
      rw [Mbuf.mLen, length_append, ← Mbuf.mLen]
      omega
    | null =>
      obtain ⟨rfl, rfl, hshort⟩ := h
      refine ⟨?_, .inl (by rw [chainLen_cons]; omega)⟩
      rw [oldIds_cons, append_nil]
      exact perm_append_comm
    | stuck => exact h
  · have h0 := h.resolve_right hf
    refine ⟨by rw [append_nil], .inr (.inl ?_)⟩
    rw [u32_of_range h0 (by omega)] at hbad
    omega
  · exact ⟨by rw [append_nil], .inr (.inr rfl)⟩
  · have h0 := h.resolve_right hf
    rw [u32_of_range h0 (by omega)] at hbad
    have h := @pullupLoop_right .new (pullNew n) len (mlen - pullOff n) 0
      ({ n with mPkthdr := none } :: ns) h0 (by omega) (by omega) (.inr (by simp))
    generalize pullupLoop _ _ _ _ _ _ = r at h
    obtain ⟨res, freed, got, failed⟩ := r
    cases res with
    | chain r =>
      obtain ⟨hb, d, rs, rfl, hd⟩ := h
      exact ⟨hb, _, rs, rfl, rfl, rfl, by dsimp only [pullNew]; omega, hd⟩
    | null =>
      obtain ⟨rfl, -, hshort⟩ := h
      refine ⟨?_, .inl hshort⟩
      rw [oldIds, range_eq_range']
      rfl
    | stuck => exact h

/-- **`m_pullup`**, for every chain and every `int`. -/
theorem m_pullup_exact_iff (mget : Bool) (n : Mbuf) (ns : List Mbuf) (len : Int)
    (hlo : -2147483648 ≤ len) (hhi : len < 2147483648) :
    PullupRight mget n ns len ↔ PullupCond n ns len := by
  refine ⟨fun h => ?_, pullup_right hhi⟩
  by_contra hneg
  obtain ⟨hlt, hf⟩ := not_or.mp hneg
  have hbig : mhlen < u32 len := by
    have : mhlen < 1000 := by decide
    rw [u32]
    omega
  rw [PullupRight, pullup, if_neg hf, if_pos hbig] at h
  obtain ⟨-, hlen | hlen | hfail⟩ := h
  · omega
  · omega
  · cases hfail

/-- A header taken from the next mbuf, and more than there is. -/
theorem m_pullup_exact_two :
    PullupRight true { mData := [1, 2] } [{ mData := [3, 4] }] 3 ∧
      PullupRight true { mData := [1, 2] } [{ mData := [3, 4] }] 5 :=
  ⟨(m_pullup_exact_iff true _ _ 3 (by decide) (by decide)).mpr (.inl (by decide)),
    (m_pullup_exact_iff true _ _ 5 (by decide) (by decide)).mpr (.inl (by decide))⟩

/-- A negative length loses the packet: no mbuf is asked for. -/
theorem m_pullup_loses :
    pullup true { mData := [1] } [] (-1) = { res := .null, freed := [.old 0] } ∧
      ¬PullupRight true { mData := [1] } [] (-1) := by
  have h : pullup true { mData := [1] } [] (-1) = { res := .null, freed := [.old 0] } := by decide
  refine ⟨h, ?_⟩
  rw [PullupRight, h]
  simp

/-! ## Lengths that are not negative -/

theorem mPullup_eq (mget : Bool) (n : Mbuf) (ns : List Mbuf) {len : Nat} (hlt : len < 2147483648) :
    mPullup mget (n :: ns) len = (pullup mget n ns len).res.toOption := by
  have hoff := pullOff_le n
  have hf : (n.mExt = none ∧ n.mOff + len < mlen ∧ ns ≠ []) ↔ Fills n ns len := by
    rw [Fills]
    norm_cast
  rw [mPullup, pullup, ← pullOff, u32_of_range (by omega) (by omega), Int.toNat_natCast]
  simp only [hf, Nat.cast_le]
  split_ifs with hfill hle hmax
  · rfl
  · rw [mPullupLoop_eq (.old 0) 1 (by have := hfill.2.1; omega) (by omega) (.inl (by omega)),
      Int.ofNat_sub (by omega)]
  · rfl
  · rfl
  · exact mPullupLoop_eq .new 0 (by omega) (by omega) (.inr (by simp))

/-- **`m_pullup`**: the bytes of the chain stay, and a plain mbuf with the packet header of the
first one holds at least `len` of them. -/
theorem mPullup_spec {mget : Bool} {n : Mbuf} {ns r : List Mbuf} {len : Nat}
    (h : mPullup mget (n :: ns) len = some r) :
    chainBytes r = chainBytes (n :: ns) ∧
      ∃ m rs, r = m :: rs ∧ len ≤ m.mLen ∧ m.mExt = none ∧ m.mPkthdr = n.mPkthdr := by
  have hlt : len < 2147483648 := by
    have hmax : mhlen < 1000 ∧ mlen < 1000 := by decide
    by_contra hge
    rw [mPullup, if_neg (by omega), if_pos (by omega)] at h
    cases h
  have hr := @pullup_right mget n ns len (by omega) (.inl (by omega))
  rw [mPullup_eq mget n ns hlt] at h
  rw [PullupRight] at hr
  generalize pullup mget n ns len = p at h hr
  obtain ⟨res, freed, got, failed⟩ := p
  cases res with
  | chain c =>
    cases h
    obtain ⟨hb, m, rs, hc, hhdr, hext, -, hlen⟩ := hr
    exact ⟨hb, m, rs, hc, Int.ofNat_le.mp hlen, hext, hhdr⟩
  | null | stuck => cases h

/-- **A cluster at the front.** `m_pullup(m, len)` with `len <= max_protohdr` takes `max_protohdr`
bytes out of it, or all it has. -/
theorem Plain.mPullupLoop {m : Mbuf} {len space : Nat} {ns r : List Mbuf} (hm : m.mExt = none)
    (hns : Plain ns) (h : mPullupLoop m len space ns = some r) : Plain r := by
  induction ns generalizing m len space with
  | nil =>
    rw [Anp.mPullupLoop] at h
    split at h <;> cases h
    exact forall_mem_singleton.mpr hm
  | cons n ns ih =>
    obtain ⟨hn, hns⟩ := forall_mem_cons.mp hns
    rw [Anp.mPullupLoop] at h
    split_ifs at h
    · cases h
      exact forall_mem_cons.mpr ⟨hm, forall_mem_cons.mpr ⟨hn, hns⟩⟩
    · cases h
      exact forall_mem_cons.mpr ⟨hm, hns⟩
    · exact ih (by exact hm) hns h

/-- `m_pullup` puts no cluster into a chain. -/
theorem Plain.mPullup {mget : Bool} {m r : List Mbuf} {len : Nat} (hm : Plain m)
    (h : mPullup mget m len = some r) : Plain r := by
  cases m with
  | nil => cases h
  | cons n ns =>
    obtain ⟨hn, hns⟩ := forall_mem_cons.mp hm
    have hcleared : Plain ({ n with mPkthdr := none } :: ns) := forall_mem_cons.mpr ⟨hn, hns⟩
    rw [Anp.mPullup] at h
    split_ifs at h
    · cases h
      exact hm
    · exact Plain.mPullupLoop hn hns h
    all_goals exact Plain.mPullupLoop rfl hcleared h

theorem mPullup_cluster {n : Mbuf} (ns : List Mbuf) (len : Nat) (hext : n.mExt.isSome)
    (hlen : len ≤ maxProtohdr) (hn : len ≤ n.mLen) :
    ∃ m rs, mPullup true (n :: ns) len = some (m :: rs) ∧ m.mData = n.mData.take maxProtohdr := by
  have hne : ¬ (n.mExt = none ∧ n.mOff + len < mlen ∧ ns ≠ []) := by
    rintro ⟨h0, -⟩
    simp [h0] at hext
  have hmax : ¬ mhlen < len := by
    have : maxProtohdr ≤ mhlen := by decide
    omega
  rw [mPullup, if_neg hne, if_neg hmax, if_neg (by decide)]
  dsimp only
  generalize hsp : mlen - (if n.mPkthdr.isSome then mlen - mhlen else 0) = space
  have hspace : maxProtohdr ≤ space := by
    have : maxProtohdr ≤ mhlen ∧ mhlen ≤ mlen := by decide
    split at hsp <;> omega
  rw [mPullupLoop]
  have hn' : ({ n with mPkthdr := none } : Mbuf).mLen = n.mLen := rfl
  have hcount : min (min (max len maxProtohdr) space) n.mLen = min maxProtohdr n.mLen := by omega
  have htake : n.mData.take (min maxProtohdr n.mLen) = n.mData.take maxProtohdr := by
    rw [Mbuf.mLen, ← take_eq_take_min]
  rw [hn', hcount, htake]
  split
  · exact ⟨_, _, rfl, by simp⟩
  · rw [if_pos (by omega)]
    exact ⟨_, _, rfl, by simp⟩

/-! ## `M_PREPEND` -/

def mLeadingspace (m : Mbuf) : Nat :=
  if m.mExt.isSome then 0 else if m.mPkthdr.isSome then m.mOff - (mlen - mhlen) else m.mOff

/-- There is room for `plen` octets before the data, or an mbuf to be had. -/
def mRoom (mget : Bool) (plen : Nat) : List Mbuf → Bool
  | [] => false
  | m :: _ => decide (plen ≤ mLeadingspace m) || mget

/-- `M_PREPEND(m, plen, how)`, the new room holding the octets `b`. -/
def mPrepend (mget : Bool) (b : List Byte) : List Mbuf → Option (List Mbuf)
  | [] => none
  | m :: ms =>
    let pkthdr := m.mPkthdr.map (· + (b.length : Int))
    if b.length ≤ mLeadingspace m then
      some ({ m with mPkthdr := pkthdr, mOff := m.mOff - b.length, mData := b ++ m.mData } :: ms)
    else if mget = false then none
    else
      some ({ mType := m.mType
              mPkthdr := pkthdr
              mOff := (if m.mPkthdr.isSome then mlen - mhlen else 0) +
                (if b.length < mhlen then (mhlen - b.length) / 4 * 4 else 0)
              mData := b } :: { m with mPkthdr := none } :: ms)

theorem mPrepend_isSome (mget : Bool) (b : List Byte) (m : List Mbuf) :
    (mPrepend mget b m).isSome = mRoom mget b.length m := by
  cases m with
  | nil => rfl
  | cons m ms =>
    rw [mPrepend, mRoom]
    by_cases hle : b.length ≤ mLeadingspace m
    · simp [hle]
    · cases mget <;> simp [hle]

end Anp
