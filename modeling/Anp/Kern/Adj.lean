import Anp.Kern.Mbuf
import Anp.Lib.Machine

/-!
# Adj — `m_adj` as drop and take

`mAdj` counts with numbers that do not end. `mAdjInt` has the two places where an `int` does: the
negation of `req_len` and the sum `count` of the lengths.
-/

namespace Anp

open Machine List

/-- What `m_adj` has no business with. -/
def Mbuf.frame (m : Mbuf) : Mbuf := { m with mOff := 0, mData := [] }

/-- `m_adj(mp, req_len)`; an error is the `m_len` that it leaves in the last mbuf. -/
def mAdjInt (mp : List Mbuf) (reqLen : Int) : Except Int (List Mbuf) :=
  match mp.getLast? with
  | none => .ok mp
  | some last =>
    let len := int32 (-reqLen)
    if 0 ≤ reqLen then .ok (mAdj mp reqLen)
    else if len < 0 then .error (int32 (last.mLen - len))
    else if len ≤ last.mLen then .ok (mAdj mp reqLen)
    else
      let count := (int32 (chainLen mp - len)).toNat
      .ok (adjPkthdr (fun _ => count) (mAdjTail mp count))

/-- The bytes that are to be left. -/
def adjBytes (m : List Mbuf) (k : Int) : List Byte :=
  if 0 ≤ k then (chainBytes m).drop k.toNat else (chainBytes m).take (chainLen m - (-k).toNat)

/-- The first or the last bytes are gone, `m_pkthdr.len` is the new total, and the chain has the
same mbufs. -/
structure Adjusted (m : List Mbuf) (k : Int) (m' : List Mbuf) : Prop where
  bytes : chainBytes m' = adjBytes m k
  links : m'.map (·.frame) = adjPkthdr (fun _ => chainLen m') (m.map (·.frame))

/-- The number can be negated, and if the last mbuf is not enough, what is left is an `int`. -/
def AdjCond (m : List Mbuf) (k : Int) : Prop := ∀ last ∈ m.getLast?, k < 0 →
    k ≠ -2147483648 ∧ (-k ≤ last.mLen ∨ chainLen m + k < 2147483648)

/-- `m_pkthdr.len` is the total, if there is a packet header. -/
def HdrTotal (m : List Mbuf) : Prop := ∀ l ∈ m.head?.bind (·.mPkthdr), l = chainLen m

variable {m c : List Mbuf} {k : Int}

theorem mAdjHead_frame (ms : List Mbuf) (len : Nat) :
    (mAdjHead ms len).1.map (·.frame) = ms.map (·.frame) ∧
      (mAdjHead ms len).2 = len - chainLen ms := by
  induction ms generalizing len with
  | nil => exact ⟨rfl, rfl⟩
  | cons m ms ih =>
    rw [mAdjHead, chainLen_cons]
    split_ifs with h0 hle
    · exact ⟨rfl, by omega⟩
    · obtain ⟨hf, hr⟩ := ih (len - m.mLen)
      exact ⟨by rw [map_cons, hf]; rfl, by rw [hr]; omega⟩
    · exact ⟨rfl, by omega⟩

theorem mAdjTail_frame (ms : List Mbuf) (count : Nat) :
    (mAdjTail ms count).map (·.frame) = ms.map (·.frame) := by
  induction ms generalizing count with
  | nil => rfl
  | cons m ms ih =>
    rw [mAdjTail]
    split_ifs
    · rw [map_cons, List.map_map]
      rfl
    · rw [map_cons, ih, map_cons]

theorem length_adjBytes (m : List Mbuf) (hk : ¬0 ≤ k) :
    (adjBytes m k).length = chainLen m - (-k).toNat := by
  rw [adjBytes, if_neg hk, length_take, length_chainBytes, Nat.min_eq_left (Nat.sub_le _ _)]

theorem Adjusted.of {f : Int → Int} (hc : c.map (·.frame) = m.map (·.frame))
    (hb : chainBytes c = adjBytes m k)
    (hf : ∀ l ∈ m.head?.bind (·.mPkthdr), f l = (adjBytes m k).length) :
    Adjusted m k (adjPkthdr f c) := by
  have hb' := (chainBytes_adjPkthdr f c).trans hb
  refine ⟨hb', ?_⟩
  rw [← hc, chainLen, hb']
  cases c with
  | nil => rfl
  | cons a as =>
    cases m with
    | nil => cases hc
    | cons b bs =>
      have hp : a.frame.mPkthdr = b.frame.mPkthdr := congrArg _ (List.cons.inj hc).1
      have hmap : a.mPkthdr.map f = a.mPkthdr.map fun _ => ((adjBytes (b :: bs) k).length : Int) := by
        rw [show a.mPkthdr = b.mPkthdr from hp]
        exact Option.map_congr hf
      show { a.frame with mPkthdr := a.mPkthdr.map f } :: _ = _
      rw [hmap]
      rfl

theorem adjusted_mAdj (hh : HdrTotal m) (k : Int) : Adjusted m k (mAdj m k) := by
  by_cases hk : 0 ≤ k
  · obtain ⟨hf, hr⟩ := mAdjHead_frame m k.toNat
    have hadj : adjBytes m k = (chainBytes m).drop k.toNat := if_pos hk
    rw [mAdj, if_pos hk]
    refine .of hf ((chainBytes_mAdjHead m _).trans hadj.symm) fun l hl => ?_
    rw [hh l hl, hr, hadj, length_drop, length_chainBytes]
    omega
  · have hadj : adjBytes m k = (chainBytes m).take (chainLen m - (-k).toNat) := if_neg hk
    have hlen := length_adjBytes m hk
    have hb := chainBytes_mAdj_tail m (-k).toNat
    rw [Int.toNat_of_nonneg (by omega), Int.neg_neg, ← hadj, mAdj, if_neg hk] at hb
    rw [mAdj, if_neg hk]
    cases hlast : m.getLast? with
    | none =>
      rw [getLast?_eq_none_iff] at hlast
      subst hlast
      exact ⟨by simp [adjBytes], rfl⟩
    | some last =>
      obtain ⟨ys, rfl⟩ := getLast?_eq_some_iff.mp hlast
      rw [hlast] at hb
      dsimp only at hb ⊢
      split_ifs at hb ⊢ with hle
      · refine .of (by simp [Mbuf.frame]) ((chainBytes_adjPkthdr _ _).symm.trans hb) fun l hl => ?_
        have hpart : last.mLen ≤ chainLen (ys ++ [last]) := by simp [chainLen, Mbuf.mLen]
        rw [hh l hl, hlen]
        omega
      · refine .of (mAdjTail_frame _ _) ((chainBytes_adjPkthdr _ _).symm.trans hb) fun l hl => ?_
        rw [hlen]

/-- **`m_adj` is drop and take** exactly where its `int`s are large enough, for every chain and
every `req_len`. -/
theorem m_adj_exact_iff (m : List Mbuf) (k : Int) (hh : HdrTotal m)
    (hlo : -2147483648 ≤ k) (hhi : k < 2147483648) :
    (∃ m', mAdjInt m k = .ok m' ∧ Adjusted m k m') ↔ AdjCond m k := by
  have hgood := adjusted_mAdj hh k
  rw [mAdjInt, AdjCond]
  cases hlast : m.getLast? with
  | none =>
    rw [getLast?_eq_none_iff] at hlast
    subst hlast
    exact iff_of_true ⟨[], rfl, by simp [adjBytes], rfl⟩ nofun
  | some last =>
    simp only [Option.mem_some_iff, forall_eq']
    split
    · exact iff_of_true ⟨_, rfl, hgood⟩ fun h => absurd h (by omega)
    · next hk =>
      rw [imp_iff_right (by omega)]
      by_cases hmin : k = -2147483648
      · subst hmin
        exact iff_of_false (by rintro ⟨m', h, -⟩; cases h) fun h => h.1 rfl
      · rw [int32_of_range (by omega) (by omega), if_neg (by omega), and_iff_right hmin]
        split
        · next hle =>
          exact iff_of_true ⟨_, rfl, hgood⟩ (.inl hle)
        · next hle =>
          generalize hcount : (int32 (chainLen m - -k)).toNat = count
          constructor
          · rintro ⟨m', h, hadj⟩
            cases h
            have hlen := congrArg List.length hadj.bytes
            rw [chainBytes_adjPkthdr, chainBytes_mAdjTail, length_adjBytes m hk, length_take,
              length_chainBytes] at hlen
            have := Int.bmod_lt (x := chainLen m - -k) (m := 4294967296) (by decide)
            rw [int32] at hcount
            omega
          · intro hlt
            rw [int32_of_range (by omega) (by omega)] at hcount
            refine ⟨_, rfl, .of (mAdjTail_frame m count) ?_ fun l _ => ?_⟩
            · rw [chainBytes_mAdjTail, adjBytes, if_neg hk]
              congr 1
              omega
            · rw [length_adjBytes m hk]
              omega

def adjChain : List Mbuf := [{ mPkthdr := some 4, mData := [1, 2] }, { mData := [3, 4] }]

/-- Three bytes off the end: more than the last mbuf has. -/
theorem m_adj_exact_three :
    ∃ m', mAdjInt adjChain (-3) = .ok m' ∧ Adjusted adjChain (-3) m' ∧ chainBytes m' = [1] := by
  have hcond : AdjCond adjChain (-3) := fun last _ _ => ⟨by decide, .inr (by decide)⟩
  obtain ⟨m', hm, hadj⟩ := (m_adj_exact_iff adjChain (-3) (by rintro l ⟨⟩; rfl) (by decide)
    (by decide)).mpr hcond
  exact ⟨m', hm, hadj, hadj.bytes.trans (by decide)⟩

/-- The least `int` has no negation: the mbuf is left with a negative `m_len`. -/
theorem m_adj_negative_len : mAdjInt [{ mData := [1] }] (-2147483648) = .error (-2147483647) := by
  decide

end Anp
