import Anp.Net.BpfFilter
import Anp.Lib.Runs
import Anp.Kern.Mbuf

/-!
# BpfPacket — loads from a flat packet and from a chain

The loads of `bpf_filter` in `net/bpf_filter.c`. `bpf_tap` gives it a packet in one buffer, `bpf_mtap`
a chain of mbufs (with `buflen` 0), for which `m_xword`, `m_xhalf` and `MINDEX` find the octets.

`BpfLoad.wild` is a load of octets that are not in the packet, `BpfLoad.under` the machine with
arbitrary ones there.
-/

namespace Anp

open Machine Runs List

variable {s : BpfRegs} {ms : List Mbuf} {x : Mbuf} {k n : Nat}

/-! ## Loads -/

inductive BpfLoad where
  | val (v : BitVec 32)
  /-- `return 0`. -/
  | zero
  | wild
  deriving DecidableEq, Repr

/-- What the machine goes on with, if `w` stands where a wild load reads. -/
def BpfLoad.under (w : BitVec 32) : BpfLoad → Option (BitVec 32)
  | .val v => some v
  | .zero => none
  | .wild => some w

def bpfBe (o : List Byte) : BitVec 32 := BitVec.ofNat 32 (o.foldl (fun n b => 256 * n + b.toNat) 0)

def BpfSize.octets : BpfSize → Nat
  | .w => 4
  | .h => 2
  | .b => 1

def BpfKind.size : BpfKind → BpfSize
  | .pkt size _ => size
  | .msh => .b

/-- What a load should find: the octets, or nothing if one of them is not in the packet. -/
def bpfInside (b : List Byte) (n k : Nat) : BpfLoad :=
  if k + n ≤ b.length then .val (bpfBe ((b.drop k).take n)) else .zero

/-- A load from a buffer. With `buflen` 0 the buffer is taken for an mbuf. The sum in the test of
words and halves is one of 32 bits. -/
def bpfFlat (b : List Byte) (kind : BpfKind) (k : BitVec 32) : BpfLoad :=
  if b = [] then .wild
  else match kind.size with
  | .b => bpfInside b 1 k.toNat
  | size =>
    if b.length < (k.toNat + size.octets) % 4294967296 then .zero
    else if k.toNat + size.octets ≤ b.length then bpfInside b size.octets k.toNat
    else .wild

/-! ## The chain -/

/-- The octets that `m_xword` and `m_xhalf` put together, if they are in the mbufs. -/
def bpfJoin (o : List (Option Byte)) : BpfLoad :=
  match o.mapM id with
  | some o => .val (bpfBe o)
  | none => .wild

/-- A word that does not end in the mbuf `m` it starts in, at `k`. In the `switch` `k` is added to
`cp` a second time. -/
def mXwordCross (m : Mbuf) (k : Int) : List Mbuf → BpfLoad
  | [] => .zero
  | m0 :: _ =>
    if m0.mLen + m.mLen - k < 4 then .zero
    else if k < 0 then .wild
    else
      let cp (i : Nat) : Option Byte := m.mData[k.toNat + (k.toNat + i)]?
      let np (i : Nat) : Option Byte := m0.mData[i]?
      bpfJoin (match m.mLen - k.toNat with
        | 1 => [cp 0, np 0, np 1, np 2]
        | 2 => [cp 0, cp 1, np 0, np 1]
        | _ => [cp 0, cp 1, cp 2, np 0])

/-- `m_xword(m, k, err)`; `zero` is `*err = 1`. -/
def mXword : List Mbuf → Int → BpfLoad
  | [], _ => .zero
  | m :: ms, k =>
    if (m.mLen : Int) ≤ k then mXword ms (k - m.mLen)
    else if 4 ≤ m.mLen - k then
      if 0 ≤ k then .val (bpfBe ((m.mData.drop k.toNat).take 4)) else .wild
    else mXwordCross m k ms

/-- A half that does not end in the mbuf it starts in. -/
def mXhalfCross (m : Mbuf) (k : Int) : List Mbuf → BpfLoad
  | [] => .zero
  | m0 :: _ =>
    if k < 0 then .wild else bpfJoin [m.mData[k.toNat + k.toNat]?, m0.mData[0]?]

def mXhalf : List Mbuf → Int → BpfLoad
  | [], _ => .zero
  | m :: ms, k =>
    if (m.mLen : Int) ≤ k then mXhalf ms (k - m.mLen)
    else if 2 ≤ m.mLen - k then
      if 0 ≤ k then .val (bpfBe ((m.mData.drop k.toNat).take 2)) else .wild
    else mXhalfCross m k ms

/-- `MINDEX(m, k)` and the octet there. -/
def mIndex : List Mbuf → Int → Option (Option Byte)
  | [], _ => none
  | m :: ms, k =>
    if (m.mLen : Int) ≤ k then mIndex ms (k - m.mLen)
    else some (if 0 ≤ k then m.mData[k.toNat]? else none)

/-- An octet as a `u_char`, or, for `BPF_LD|BPF_B|BPF_IND`, as a `char`. -/
def bpfOctet (signed : Bool) (b : Byte) : BitVec 32 :=
  if signed then b.toBitVec.signExtend 32 else b.toBitVec.setWidth 32

/-- A load from a chain, `buflen` being 0. `BPF_LD|BPF_H|BPF_ABS` does not look at `merr`. -/
def bpfChain (m : List Mbuf) (kind : BpfKind) (k : BitVec 32) : BpfLoad :=
  match kind with
  | .pkt .w _ => if 0 < (k.toNat + 4) % 4294967296 then mXword m k.toInt else .wild
  | .pkt .h ind =>
    if 0 < (k.toNat + 2) % 4294967296 then
      match mXhalf m k.toInt with
      | .zero => if ind then .zero else .val 0
      | r => r
    else .wild
  | .pkt .b _ | .msh =>
    match mIndex m k.toInt with
    | none => .zero
    | some none => .wild
    | some (some b) => .val (bpfOctet (kind == .pkt .b true) b)

/-! ## Loads that agree -/

/-- The `n` octets at `k` lie in one mbuf, or are not all in the packet, or start with an mbuf and
end in the next. -/
def Within (n : Nat) : List Mbuf → Nat → Prop
  | [], _ => True
  | m :: ms, k =>
    if m.mLen ≤ k then Within n ms (k - m.mLen)
    else k + n ≤ m.mLen ∨ m.mLen + chainLen ms < k + n ∨
      (k = 0 ∧ n ≤ m.mLen + (ms.head?.map Mbuf.mLen).getD 0)

/-- The loads that the chain makes as the buffer does: no negative offset; words and halves in one
mbuf or at the start of one; `BPF_LD|BPF_H|BPF_ABS` inside the packet; `BPF_LD|BPF_B|BPF_IND` of an
octet below 0x80. -/
def LoadOk (m : List Mbuf) (kind : BpfKind) (k : BitVec 32) : Prop := 0 ≤ k.toInt ∧
    match kind with
    | .pkt .w _ => Within 4 m k.toNat
    | .pkt .h ind => Within 2 m k.toNat ∧ (ind = true ∨ k.toNat + 2 ≤ chainLen m)
    | .pkt .b ind => ind = true → ((chainBytes m).getD k.toNat 0).toNat < 128
    | .msh => True

instance Within.instDecidable (n : Nat) : (m : List Mbuf) → (k : Nat) → Decidable (Within n m k)
  | [], _ => .isTrue trivial
  | m :: ms, k =>
    have := Within.instDecidable n ms (k - m.mLen)
    inferInstanceAs (Decidable (if m.mLen ≤ k then _ else _ ∨ _ ∨ (_ ∧ _)))

instance (m : List Mbuf) (kind : BpfKind) (k : BitVec 32) : Decidable (LoadOk m kind k) := by
  unfold LoadOk
  cases kind with
  | pkt size ind => cases size <;> infer_instance
  | msh => infer_instance

section

variable {m : List Mbuf}

theorem toInt_of_nonneg {k : BitVec 32} (h : 0 ≤ k.toInt) :
    k.toInt = k.toNat ∧ k.toNat < 2147483648 := by
  rw [BitVec.toInt_eq_toNat_cond] at h ⊢
  split at h
  next hlt =>
    omega
  next => omega

theorem take_drop_chain (x : Mbuf) (ms : List Mbuf) (h : k + n ≤ x.mLen) :
    ((chainBytes (x :: ms)).drop k).take n = (x.mData.drop k).take n := by
  have hlen : x.mLen = x.mData.length := rfl
  rw [chainBytes_cons, drop_append_of_le_length (by omega),
    take_append_of_le_length (by rw [length_drop]; omega)]

theorem bpfInside_tail (x : Mbuf) (ms : List Mbuf) (h : x.mLen ≤ k) :
    bpfInside (chainBytes (x :: ms)) n k = bpfInside (chainBytes ms) n (k - x.mLen) := by
  have hlen : x.mLen = x.mData.length := rfl
  have hdrop : (chainBytes (x :: ms)).drop k = (chainBytes ms).drop (k - x.mLen) := by
    rw [chainBytes_cons, drop_append, drop_eq_nil_of_le (by omega), nil_append, hlen]
  rw [bpfInside, bpfInside, hdrop, chainBytes_cons, length_append]
  split
  · rw [if_pos (by omega)]
  · rw [if_neg (by omega)]

theorem bpfInside_zero {b : List Byte} (h : b.length < k + n) :
    bpfInside b n k = .zero := if_neg (by omega)

theorem bpfInside_head (x : Mbuf) (ms : List Mbuf) (h : k + n ≤ x.mLen) :
    bpfInside (chainBytes (x :: ms)) n k = .val (bpfBe ((x.mData.drop k).take n)) := by
  have hlen : x.mLen = x.mData.length := rfl
  rw [bpfInside, take_drop_chain x ms h, if_pos]
  rw [chainBytes_cons, length_append]
  omega

theorem bpfInside_join {y : Mbuf} (ms : List Mbuf) (h : n ≤ x.mLen + y.mLen) :
    bpfInside (chainBytes (x :: y :: ms)) n 0 = .val (bpfBe ((x.mData ++ y.mData).take n)) := by
  have hlen : n ≤ (x.mData ++ y.mData).length := by
    rw [length_append]
    exact h
  rw [bpfInside, chainBytes_cons, chainBytes_cons, ← append_assoc, drop_zero,
    take_append_of_le_length hlen, if_pos]
  rw [length_append]
  omega

theorem bpfJoin_some (o : List Byte) : bpfJoin (o.map some) = .val (bpfBe o) := by
  have hm : (o.map some).mapM id = some o := by
    induction o with
    | nil => rfl
    | cons b o ih => simp [mapM_cons, ih]
  rw [bpfJoin, hm]

theorem Within.cross (hw : Within n (x :: ms) k) (hk : k < x.mLen) (hin : x.mLen < k + n) :
    x.mLen + chainLen ms < k + n ∨ ∃ y ys, ms = y :: ys ∧ k = 0 ∧ n ≤ x.mLen + y.mLen := by
  rw [Within, if_neg (Nat.not_le.mpr hk)] at hw
  rcases hw with hw | hw | ⟨rfl, hw⟩
  · exact absurd hw (Nat.not_le.mpr hin)
  · exact .inl hw
  · cases ms with
    | nil =>
      simp at hw
      omega
    | cons y ys => exact .inr ⟨y, ys, rfl, rfl, hw⟩

theorem Within.tail (hw : Within n (x :: ms) k) (hk : x.mLen ≤ k) : Within n ms (k - x.mLen) := by
  rw [Within, if_pos hk] at hw
  exact hw

theorem mXwordCross_inside (hw : Within 4 (x :: ms) k) (hk : k < x.mLen) (hin : x.mLen < k + 4) :
    mXwordCross x k ms = bpfInside (chainBytes (x :: ms)) 4 k := by
  have hlen : (chainBytes (x :: ms)).length = x.mLen + chainLen ms := by
    rw [length_chainBytes, chainLen_cons]
  rcases hw.cross hk hin with hshort | ⟨y, ys, rfl, rfl, hlong⟩
  · rw [bpfInside_zero (by omega)]
    cases ms with
    | nil => rfl
    | cons y ys =>
      have hy : chainLen (y :: ys) = y.mLen + chainLen ys := chainLen_cons y ys
      rw [mXwordCross, if_pos (by omega)]
  · rw [mXwordCross, if_neg (by omega), if_neg (by omega), bpfInside_join ys hlong, ← bpfJoin_some]
    -- one, two or three octets in the first mbuf
    have hsum : 4 ≤ x.mData.length + y.mData.length := hlong
    have hpos : 0 < x.mData.length := hk
    have hlt : x.mData.length < 4 := hin
    rcases hx : x.mData with _ | ⟨a, _ | ⟨b, _ | ⟨c, _ | ⟨d, l⟩⟩⟩⟩
    · simp [hx] at hpos
    · rcases hy : y.mData with _ | ⟨b, _ | ⟨c, _ | ⟨d, l⟩⟩⟩ <;> simp [hx, hy] at hsum
      simp [Mbuf.mLen, hx]
    · rcases hy : y.mData with _ | ⟨c, _ | ⟨d, l⟩⟩ <;> simp [hx, hy] at hsum
      simp [Mbuf.mLen, hx]
    · rcases hy : y.mData with _ | ⟨d, l⟩ <;> simp [hx, hy] at hsum
      simp [Mbuf.mLen, hx]
    · rw [hx, length_cons, length_cons, length_cons, length_cons] at hlt
      omega

theorem mXword_inside (hw : Within 4 m k) :
    mXword m k = bpfInside (chainBytes m) 4 k := by
  induction m generalizing k with
  | nil => exact (bpfInside_zero (by simp)).symm
  | cons x ms ih =>
    rw [mXword]
    by_cases hle : x.mLen ≤ k
    · rw [if_pos (by omega), bpfInside_tail x ms hle, ← ih (hw.tail hle), Int.ofNat_sub hle]
    rw [if_neg (by omega)]
    by_cases hin : k + 4 ≤ x.mLen
    · rw [if_pos (by omega), if_pos (by omega), bpfInside_head x ms hin, Int.toNat_natCast]
    · rw [if_neg (by omega)]
      exact mXwordCross_inside hw (by omega) (by omega)

theorem mXhalfCross_inside (hw : Within 2 (x :: ms) k) (hnz : ∀ y ∈ ms, 0 < y.mLen)
    (hk : k < x.mLen) (hin : x.mLen < k + 2) :
    mXhalfCross x k ms = bpfInside (chainBytes (x :: ms)) 2 k := by
  have hlen : (chainBytes (x :: ms)).length = x.mLen + chainLen ms := by
    rw [length_chainBytes, chainLen_cons]
  rcases hw.cross hk hin with hshort | ⟨y, ys, rfl, rfl, hlong⟩
  · rw [bpfInside_zero (by omega)]
    cases ms with
    | nil => rfl
    | cons y ys =>
      have hy : chainLen (y :: ys) = y.mLen + chainLen ys := chainLen_cons y ys
      have hpos := hnz y mem_cons_self
      omega
  · rw [mXhalfCross, if_neg (by omega), bpfInside_join ys hlong, ← bpfJoin_some]
    match hx : x.mData, (show x.mData.length < 2 from hin), (show 0 < x.mData.length from hk) with
    | [a], _, _ =>
      match hy : y.mData, (show 0 < y.mData.length from hnz y mem_cons_self) with
      | b :: _, _ => rfl

theorem mXhalf_inside (hw : Within 2 m k) (hnz : ∀ y ∈ m, 0 < y.mLen) :
    mXhalf m k = bpfInside (chainBytes m) 2 k := by
  induction m generalizing k with
  | nil => exact (bpfInside_zero (by simp)).symm
  | cons x ms ih =>
    rw [forall_mem_cons] at hnz
    rw [mXhalf]
    by_cases hle : x.mLen ≤ k
    · rw [if_pos (by omega), bpfInside_tail x ms hle, ← ih (hw.tail hle) hnz.2, Int.ofNat_sub hle]
    rw [if_neg (by omega)]
    by_cases hin : k + 2 ≤ x.mLen
    · rw [if_pos (by omega), if_pos (by omega), bpfInside_head x ms hin, Int.toNat_natCast]
    · rw [if_neg (by omega)]
      exact mXhalfCross_inside hw hnz.2 (by omega) (by omega)

theorem mIndex_eq (m : List Mbuf) (k : Nat) : mIndex m k = (chainBytes m)[k]?.map some := by
  induction m generalizing k with
  | nil => rfl
  | cons x ms ih =>
    rw [mIndex, chainBytes_cons]
    by_cases hle : x.mLen ≤ k
    · rw [if_pos (by omega), ← Int.ofNat_sub hle, ih, getElem?_append_right hle]
      rfl
    · have hlt : k < x.mData.length := Nat.lt_of_not_le hle
      rw [if_neg (by omega), if_pos (by omega), Int.toNat_natCast, getElem?_append_left hlt,
        getElem?_eq_getElem hlt]
      rfl

theorem bpfInside_one (b : List Byte) (k : Nat) :
    bpfInside b 1 k = match b[k]? with
      | none => .zero
      | some o => .val (bpfOctet false o) := by
  rw [bpfInside]
  by_cases hin : k + 1 ≤ b.length
  · have hlt : k < b.length := hin
    rw [if_pos hin, drop_eq_getElem_cons hlt, getElem?_eq_getElem hlt]
    congr 1
    show bpfBe [b[k]] = _
    rw [bpfBe, bpfOctet]
    apply BitVec.eq_of_toNat_eq
    simp
  · rw [if_neg hin, getElem?_eq_none (by omega)]

theorem bpfOctet_small {b : Byte} (h : b.toNat < 128) (signed : Bool) :
    bpfOctet signed b = bpfOctet false b := by
  cases signed with
  | false => rfl
  | true =>
    have hmsb : b.toBitVec.msb = false := by
      rw [BitVec.msb_eq_false_iff_two_mul_lt]
      have hnat : b.toBitVec.toNat = b.toNat := rfl
      omega
    rw [bpfOctet, bpfOctet]
    exact BitVec.signExtend_eq_setWidth_of_msb_false hmsb

theorem LoadOk.agree {kind : BpfKind} {k : BitVec 32} (h : LoadOk m kind k)
    (hnz : ∀ y ∈ m, 0 < y.mLen) (hne : chainBytes m ≠ []) :
    bpfFlat (chainBytes m) kind k = bpfInside (chainBytes m) kind.size.octets k.toNat ∧
      bpfChain m kind k = bpfInside (chainBytes m) kind.size.octets k.toNat := by
  rw [bpfFlat, if_neg hne]
  obtain ⟨hge, hkind⟩ := h
  obtain ⟨hint, hlt⟩ := toInt_of_nonneg hge
  have hflat (n : Nat) (hn : n ≤ 4) :
      (if (chainBytes m).length < (k.toNat + n) % 4294967296 then BpfLoad.zero
        else if k.toNat + n ≤ (chainBytes m).length then bpfInside (chainBytes m) n k.toNat
        else .wild) = bpfInside (chainBytes m) n k.toNat := by
    by_cases hin : k.toNat + n ≤ (chainBytes m).length
    · rw [if_neg (by omega), if_pos hin]
    · rw [if_pos (by omega), bpfInside_zero (by omega)]
  have hoctet (signed : Bool) (hs : signed = true → ((chainBytes m).getD k.toNat 0).toNat < 128) :
      (match mIndex m k.toInt with
        | none => BpfLoad.zero
        | some none => .wild
        | some (some b) => .val (bpfOctet signed b)) = bpfInside (chainBytes m) 1 k.toNat := by
    rw [hint, mIndex_eq, bpfInside_one]
    cases hget : (chainBytes m)[k.toNat]? with
    | none => rfl
    | some b =>
      cases signed with
      | false => rfl
      | true =>
        have hb := hs rfl
        rw [getD_eq_getElem?_getD, hget] at hb
        exact congrArg BpfLoad.val (bpfOctet_small hb true)
  match kind with
  | .pkt .w ind =>
    refine ⟨hflat 4 (by omega), ?_⟩
    rw [bpfChain, if_pos (by omega), hint]
    exact mXword_inside hkind
  | .pkt .h ind =>
    refine ⟨hflat 2 (by omega), ?_⟩
    rw [bpfChain, if_pos (by omega), hint, mXhalf_inside hkind.1 hnz]
    show (match bpfInside (chainBytes m) 2 k.toNat with
      | .zero => if ind then BpfLoad.zero else .val 0
      | r => r) = bpfInside (chainBytes m) 2 k.toNat
    rcases hkind.2 with rfl | hin
    · split <;> simp_all
    · rw [bpfInside, if_pos (by rw [length_chainBytes]; exact hin)]
  | .pkt .b false => exact ⟨rfl, hoctet false nofun⟩
  | .pkt .b true => exact ⟨rfl, hoctet true hkind⟩
  | .msh => exact ⟨rfl, hoctet false nofun⟩

end

/-! ## Runs -/

def BpfOp.load (op : BpfOp) (p : BpfInsn) (s : BpfRegs) : Option (BpfKind × BitVec 32) :=
  match op with
  | .ld size ind => some (.pkt size ind, if ind then s.x + p.k else p.k)
  | .ldxMsh => some (.msh, p.k)
  | _ => none

/-- The condition on a state of the machine: the load it comes to, if any. -/
def BpfStateOk (m : List Mbuf) (f : List BpfInsn) (st : Nat × BpfRegs) : Prop :=
  ∀ p op kind k, f[st.1]? = some p → bpfDecode p.code.toNat = some op →
    op.load p st.2 = some (kind, k) → LoadOk m kind k

def BpfReach (ld : BpfKind → BitVec 32 → Option (BitVec 32)) (wirelen : BitVec 32)
    (f : List BpfInsn) (s : BpfRegs) (st : Nat × BpfRegs) : Prop :=
  Reach (· = (0, s)) (fun st st' => bpfStep ld wirelen f st.1 st.2 = .next st'.1 st'.2) st

section

variable {ld ld' : BpfKind → BitVec 32 → Option (BitVec 32)} {wirelen : BitVec 32}
  {f : List BpfInsn}

theorem bpfExec_congr {p : BpfInsn} {pc : Nat} {op : BpfOp}
    (h : ∀ kind k, op.load p s = some (kind, k) → ld kind k = ld' kind k) :
    bpfExec ld wirelen p pc s op = bpfExec ld' wirelen p pc s op := by
  cases op with
  | ld | ldxMsh => rw [bpfExec, bpfExec, h _ _ rfl]
  | _ => rfl

theorem bpfStep_congr {pc : Nat}
    (h : ∀ p op kind k, f[pc]? = some p → bpfDecode p.code.toNat = some op →
      op.load p s = some (kind, k) → ld kind k = ld' kind k) :
    bpfStep ld wirelen f pc s = bpfStep ld' wirelen f pc s := by
  rw [bpfStep, bpfStep]
  split
  · rfl
  next p hp =>
  split
  · rfl
  next op hop => exact bpfExec_congr fun kind k => h p op kind k hp hop

theorem bpfRun_congr (h : ∀ st, BpfReach ld wirelen f s st → ∀ p op kind k, f[st.1]? = some p →
      bpfDecode p.code.toNat = some op → op.load p st.2 = some (kind, k) →
        ld kind k = ld' kind k) (n : Nat) (st : Nat × BpfRegs) (hst : BpfReach ld wirelen f s st) :
    bpfRun ld wirelen f n st.1 st.2 = bpfRun ld' wirelen f n st.1 st.2 := by
  induction n generalizing st with
  | zero => rfl
  | succ n ih =>
    rw [bpfRun, bpfRun, ← bpfStep_congr (h st hst)]
    cases hact : bpfStep ld wirelen f st.1 st.2 with
    | ret v => rfl
    | fault => rfl
    | next pc s' => exact ih (pc, s') (hst.step hact)

end

/-- For a packet and mbufs that are not empty: a load of `LoadOk` finds in the buffer and in the
chain what is in the packet (so nothing, and the filter returns 0, where an octet is outside), and a
run that makes only such loads has the same result on both. -/
theorem bpf_chain_as_flat (m : List Mbuf) (hnz : ∀ y ∈ m, 0 < y.mLen) (hne : chainBytes m ≠ [])
    (f : List BpfInsn) (s : BpfRegs) (out out' : BpfKind → BitVec 32 → BitVec 32) :
    (∀ kind k, LoadOk m kind k →
      bpfFlat (chainBytes m) kind k = bpfInside (chainBytes m) kind.size.octets k.toNat ∧
        bpfChain m kind k = bpfInside (chainBytes m) kind.size.octets k.toNat) ∧
    ((∀ st, BpfReach (fun kind k => (bpfFlat (chainBytes m) kind k).under (out kind k))
        (BitVec.ofNat 32 (chainLen m)) f s st → BpfStateOk m f st) →
      ∀ n, bpfRun (fun kind k => (bpfFlat (chainBytes m) kind k).under (out kind k))
          (BitVec.ofNat 32 (chainLen m)) f n 0 s =
        bpfRun (fun kind k => (bpfChain m kind k).under (out' kind k))
          (BitVec.ofNat 32 (chainLen m)) f n 0 s) := by
  refine ⟨fun kind k hk => hk.agree hnz hne, fun hok n => ?_⟩
  refine bpfRun_congr (fun st hst p op kind k hp hop hl => ?_) n (0, s) (.start rfl)
  obtain ⟨hflat, hchain⟩ := (hok st hst p op kind k hp hop hl).agree hnz hne
  rw [hflat, hchain, bpfInside]
  split <;> rfl

/-- An Ethernet header and one octet, in mbufs of 14 octets and of 1. -/
def ipFrame : List Mbuf :=
  [{ mData := [1, 2, 3, 4, 5, 6, 1, 2, 3, 4, 5, 7, 8, 0] }, { mData := [0x45] }]

theorem bpf_chain_as_flat_ip :
    bpfRun (fun kind k => (bpfFlat (chainBytes ipFrame) kind k).under 0) 15 bpfIp 4 0 {} = .ret 96 ∧
      bpfRun (fun kind k => (bpfChain ipFrame kind k).under 1) 15 bpfIp 4 0 {} = .ret 96 := by
  have hflat : bpfRun (fun kind k => (bpfFlat (chainBytes ipFrame) kind k).under 0) 15 bpfIp 4 0 {}
      = .ret 96 := by decide +kernel
  refine ⟨hflat, ?_⟩
  have h := (bpf_chain_as_flat ipFrame (by decide) (by decide) bpfIp {} (fun _ _ => 0)
    (fun _ _ => 1)).2 ?_ 4
  · exact h.symm.trans hflat
  rintro ⟨pc, s⟩ - p op kind k hp hop hl
  -- the only load is the half at 12
  match pc with
  | 0 =>
    cases hp
    cases hop
    cases hl
    show LoadOk ipFrame (.pkt .h false) 12
    decide
  | 1 | 2 | 3 =>
    cases hp
    cases hop
    cases hl
  | n + 4 => cases hp

/-- A word over three mbufs, a half behind the end, and an octet of 0x80. -/
theorem bpf_chain_differs :
    (bpfFlat [1, 2, 3, 4] (.pkt .w false) 0 = .val 0x01020304 ∧
      bpfChain [{ mData := [1] }, { mData := [2] }, { mData := [3, 4] }] (.pkt .w false) 0 = .zero) ∧
    (bpfRun (fun kind k => (bpfFlat [1] kind k).under 0) 1
        [{ code := 0x28, k := 4 }, { code := 0x06, k := 9 }] 2 0 {} = .ret 0 ∧
      bpfRun (fun kind k => (bpfChain [{ mData := [1] }] kind k).under 0) 1
        [{ code := 0x28, k := 4 }, { code := 0x06, k := 9 }] 2 0 {} = .ret 9) ∧
    (bpfRun (fun kind k => (bpfFlat [0x80] kind k).under 0) 1
        [{ code := 0x50 }, { code := 0x16 }] 2 0 {} = .ret 0x80 ∧
      bpfRun (fun kind k => (bpfChain [{ mData := [0x80] }] kind k).under 0) 1
        [{ code := 0x50 }, { code := 0x16 }] 2 0 {} = .ret 0xffffff80) := by
  decide +kernel

end Anp
