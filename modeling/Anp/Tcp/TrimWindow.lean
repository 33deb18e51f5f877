import Anp.Tcp.Input

/-!
# TrimWindow — trimming is intersection with the receive window

Places are counted from `rcv_nxt`: a segment starts at `place`, and the window is from 0 to `rcv_wnd`.
-/

namespace Anp

open Cyclic List

variable {i j : Inp} {tp : Tcpcb}

def place (tp : Tcpcb) (i : Inp) : Int := gap i.tiSeq tp.rcvNxt

/-- The data whose sequence numbers lie from `rcv_nxt` to before `rcv_nxt + rcv_wnd`. -/
def windowPart (tp : Tcpcb) (i : Inp) : List Byte :=
  ((chainBytes i.m).drop (-place tp i).toNat).take (tp.rcvWnd - (place tp i).toNat)

/-- There is a FIN, it is not before `rcv_nxt`, and no data is cut off on the right. -/
def FinNew (tp : Tcpcb) (i : Inp) : Prop := i.tiflags.fin = true ∧ 0 ≤ place tp i + i.tiLen ∧
    ¬(0 < i.tiLen ∧ (tp.rcvWnd : Int) < place tp i + i.tiLen)

/-- The FIN the rest of `tcp_input` takes: text or a FIN in `tiflags` leads to `TCP_REASS`, and that
reads `ti->ti_flags`. -/
def finTaken (i : Inp) : Bool := (decide (i.tiLen ≠ 0) || i.tiflags.fin) && i.tiFlags.fin

/-- In sequence, it is the FIN that `inFin` acts on. -/
theorem inText_fin {s : Sys} (hst : s.tp.tState = .established) (hq : s.tp.segs = [])
    (hseq : i.tiSeq = s.tp.rcvNxt) : (inText i s).1.tiflags.fin = finTaken i := by
  have hfin : haveRcvdFin s.tp.tState = false := by
    rw [hst]
    rfl
  unfold inText
  split
  · next h =>
    rw [tcpReassFast, if_pos ⟨hseq, hq, hst⟩]
    simpa [finTaken] using fun _ => h.1
  · next h =>
    obtain ⟨hlen, hflag⟩ : i.tiLen = 0 ∧ i.tiflags.fin = false := by simpa [hfin] using h
    simp [finTaken, hlen, hflag]

/-- The segment `i` goes on with `data`, which starts at `seq`, and with a FIN if `fin`. -/
structure Carried (seq : Seq) (data : List Byte) (fin : Prop) (i : Inp) : Prop where
  bytes : chainBytes i.m = data
  len : i.tiLen = data.length
  seq : data = [] ∨ i.tiSeq = seq
  fin : finTaken i = true ↔ fin

/-- The verdict: what is in the window is carried on, and a segment is dropped only if nothing
is. -/
def Verdict (seq : Seq) (data : List Byte) (fin : Prop) : Trim → Prop
  | .keep i _ => Carried seq data fin i
  | .dropafterack => data = [] ∧ ¬fin
  | .reopen => False

/-- The two cuts, one after the other as in `inTrim`. -/
def trimBoth (tp : Tcpcb) (i : Inp) : Trim :=
  match trimLeft tp.rcvNxt i with
  | .keep j _ => trimRight tp j
  | r => r

def TrimExact (tp : Tcpcb) (i : Inp) : Prop :=
  Verdict (adv tp.rcvNxt (max (place tp i) 0)) (windowPart tp i) (FinNew tp i) (trimBoth tp i)

/-- A verdict is right for no other FIN. -/
theorem Verdict.fin_iff {q : Seq} {data : List Byte} {fin fin' : Prop} {r : Trim}
    (h : Verdict q data fin r) : Verdict q data fin' r ↔ (fin' ↔ fin) := by
  cases r with
  | keep i acknow =>
    constructor
    · intro h'
      exact h'.fin.symm.trans h.fin
    · intro he
      exact ⟨h.bytes, h.len, h.seq, h.fin.trans he.symm⟩
  | dropafterack =>
    obtain ⟨hnil, hfin⟩ := h
    exact ⟨fun h' => iff_of_false h'.2 hfin, fun he => ⟨hnil, fun h' => hfin (he.mp h')⟩⟩
  | reopen => exact h.elim

/-- No SYN, the FIN of the header, a chain of `ti_len` bytes, and all sequence numbers within `2^31`
of both ends of the window. -/
structure Near (tp : Tcpcb) (i : Inp) : Prop where
  syn : i.tiflags.syn = false
  fin : i.tiFlags.fin = i.tiflags.fin
  len : chainLen i.m = i.tiLen
  lo : -2147483648 < place tp i - tp.rcvWnd
  hi : place tp i + i.tiLen < 2147483648

theorem tiSeq_eq (tp : Tcpcb) (i : Inp) : i.tiSeq = adv tp.rcvNxt (place tp i) :=
  (adv_gap i.tiSeq tp.rcvNxt).symm

theorem gap_rcvNxt (h : Near tp i) : gap tp.rcvNxt i.tiSeq = -place tp i := by
  have hlo := h.lo
  have hhi := h.hi
  have hgap := gap_adv_adv tp.rcvNxt (x := 0) (y := place tp i) (by omega) (by omega)
  rw [adv_zero, ← tiSeq_eq] at hgap
  omega

/-! ## The right edge -/

theorem trimRight_eq {p : Int} (hseq : j.tiSeq = adv tp.rcvNxt p) (hsyn : j.tiflags.syn = false)
    (hlo : -2147483648 < p - tp.rcvWnd) (hhi : p + j.tiLen < 2147483648) :
    trimRight tp j =
      if p + j.tiLen ≤ tp.rcvWnd then .keep j false
      else if p < tp.rcvWnd then .keep (trimTail j (p + j.tiLen - tp.rcvWnd)) false
      else if tp.rcvWnd = 0 ∧ p = 0 then .keep (trimTail j (p + j.tiLen - tp.rcvWnd)) true
      else .dropafterack := by
  have hgap : gap (adv j.tiSeq j.tiLen) (adv tp.rcvNxt tp.rcvWnd) = p + j.tiLen - tp.rcvWnd := by
    rw [hseq, adv_adv]
    exact gap_adv_adv tp.rcvNxt (by omega) (by omega)
  have hzero : j.tiSeq = tp.rcvNxt ↔ p = 0 := by
    refine ⟨fun he => adv_inj tp.rcvNxt (by omega) (by omega) ?_, fun he => by simp [hseq, he]⟩
    rw [← hseq, he, adv_zero]
  rw [trimRight]
  simp only [hgap, hsyn, hzero, Bool.false_eq_true, false_and, if_false]
  by_cases hfit : p + j.tiLen ≤ tp.rcvWnd
  · rw [if_pos hfit, if_neg (by omega)]
  rw [if_neg hfit, if_pos (by omega)]
  by_cases hin : p < tp.rcvWnd
  · rw [if_pos hin, if_neg (by omega)]
  · rw [if_neg hin, if_pos (by omega)]

/-- The cut on the right leaves what comes before the edge, and the FIN with it unless nothing is
left. -/
theorem trimRight_spec {p : Int} (hseq : j.tiSeq = adv tp.rcvNxt p) (hp : 0 ≤ p)
    (hsyn : j.tiflags.syn = false) (hfin : j.tiFlags.fin = j.tiflags.fin)
    (hlen : chainLen j.m = j.tiLen) (hlo : -2147483648 < p - tp.rcvWnd)
    (hhi : p + j.tiLen < 2147483648) :
    Verdict (adv tp.rcvNxt p) ((chainBytes j.m).take (tp.rcvWnd - p.toNat))
      (j.tiflags.fin = true ∧ (p + j.tiLen ≤ tp.rcvWnd ∨ p < tp.rcvWnd)) (trimRight tp j) := by
  have hbytes := length_chainBytes j.m
  rw [trimRight_eq hseq hsyn hlo hhi]
  by_cases hfit : p + j.tiLen ≤ tp.rcvWnd
  · rw [if_pos hfit, take_of_length_le (by omega)]
    exact ⟨rfl, by omega, .inr hseq, by simp +contextual [finTaken, hfin, hfit]⟩
  have hcut (hin : p ≤ tp.rcvWnd) :
      Carried (adv tp.rcvNxt p) ((chainBytes j.m).take (tp.rcvWnd - p.toNat))
        (j.tiflags.fin = true ∧ (p + j.tiLen ≤ tp.rcvWnd ∨ p < tp.rcvWnd))
        (trimTail j (p + j.tiLen - tp.rcvWnd)) := by
    obtain ⟨k, hk⟩ := Int.eq_ofNat_of_zero_le (show 0 ≤ p + j.tiLen - tp.rcvWnd by omega)
    refine ⟨?_, ?_, .inr hseq, ?_⟩
    · rw [trimTail, hk, chainBytes_mAdj_tail, hlen]
      congr 1
      omega
    · simp only [trimTail, length_take, hbytes, hlen]
      omega
    · have hleft : j.tiLen - (p + j.tiLen - tp.rcvWnd).toNat ≠ 0 ↔ p < tp.rcvWnd := by omega
      simp only [finTaken, trimTail, hfin, hfit, hleft, Bool.or_false, Bool.and_eq_true,
        decide_eq_true_eq, false_or]
      exact and_comm
  rw [if_neg hfit]
  split
  · exact hcut (by omega)
  · split
    · exact hcut (by omega)
    · refine ⟨?_, fun hfin => by omega⟩
      rw [show tp.rcvWnd - p.toNat = 0 by omega, take_zero]

/-! ## Both cuts -/

theorem trimLeft_of_place (h : Near tp i) : trimLeft tp.rcvNxt i =
    if 0 ≤ place tp i then .keep i false else trimDup i (-place tp i) := by
  rw [trimLeft, gap_rcvNxt h, h.syn]
  by_cases hd : 0 ≤ place tp i
  · rw [if_pos hd, if_neg (by omega)]
  · rw [if_neg hd, if_pos (by omega)]
    rfl

/-- The FINs that are dropped although no data is cut off before them, at `rcv_nxt` behind old data
or beyond the window, and the one behind data that is cut off in part. -/
def FinWrong (tp : Tcpcb) (i : Inp) : Prop := i.tiflags.fin = true ∧
    ((0 < i.tiLen ∧ place tp i + i.tiLen = 0) ∨ (i.tiLen = 0 ∧ tp.rcvWnd < place tp i) ∨
      (max (place tp i) 0 < tp.rcvWnd ∧ tp.rcvWnd < place tp i + i.tiLen))

/-- It is enough to know what becomes of the FIN. -/
theorem trimExact_iff {c : Prop} (h : Verdict (adv tp.rcvNxt (max (place tp i) 0)) (windowPart tp i)
      (i.tiflags.fin = true ∧ c) (trimBoth tp i))
    (hc : ((0 ≤ place tp i + i.tiLen ∧ ¬(0 < i.tiLen ∧ (tp.rcvWnd : Int) < place tp i + i.tiLen)) ↔ c)
      ↔ ¬((0 < i.tiLen ∧ place tp i + i.tiLen = 0) ∨ (i.tiLen = 0 ∧ tp.rcvWnd < place tp i) ∨
        (max (place tp i) 0 < tp.rcvWnd ∧ tp.rcvWnd < place tp i + i.tiLen))) :
    TrimExact tp i ↔ ¬FinWrong tp i := by
  rw [TrimExact, h.fin_iff, FinNew, FinWrong]
  by_cases hfin : i.tiflags.fin = true
  · simpa only [hfin, true_and] using hc
  · rw [Bool.not_eq_true] at hfin
    simp only [hfin, Bool.false_eq_true, false_and, not_false_eq_true]

theorem trimExact_ahead (h : Near tp i) (hd : 0 ≤ place tp i) :
    TrimExact tp i ↔ ¬FinWrong tp i := by
  have hboth : trimBoth tp i = trimRight tp i := by
    rw [trimBoth, trimLeft_of_place h, if_pos hd]
  have hright := trimRight_spec (tiSeq_eq tp i) hd h.syn h.fin h.len h.lo h.hi
  refine trimExact_iff (c := place tp i + i.tiLen ≤ tp.rcvWnd ∨ place tp i < tp.rcvWnd) ?_ (by omega)
  rw [hboth, max_eq_left hd, windowPart, show (-place tp i).toNat = 0 by omega, drop_zero]
  exact hright

theorem trimExact_partly (h : Near tp i) (hd : place tp i < 0)
    (hpart : 0 < place tp i + i.tiLen) : TrimExact tp i ↔ ¬FinWrong tp i := by
  obtain ⟨k, hk⟩ := Int.eq_ofNat_of_zero_le (show 0 ≤ -place tp i by omega)
  have hboth : trimBoth tp i = trimRight tp (trimHead i k) := by
    rw [trimBoth, trimLeft_of_place h, if_neg (by omega), trimDup, if_neg (by omega), hk]
    rfl
  have hlen : chainLen (mAdj i.m k) = i.tiLen - k := by
    rw [← length_chainBytes, chainBytes_mAdj_head, length_drop, length_chainBytes, h.len]
  have hseq : adv i.tiSeq k = adv tp.rcvNxt 0 := by
    rw [tiSeq_eq tp i, adv_adv, show place tp i + k = 0 by omega]
  have hlo := h.lo
  have hhi := h.hi
  have hright := trimRight_spec (j := trimHead i k) hseq le_rfl h.syn h.fin hlen (by omega)
    (by simp only [trimHead]; omega)
  refine trimExact_iff
    (c := 0 + ((i.tiLen - k : Nat) : Int) ≤ tp.rcvWnd ∨ (0 : Int) < tp.rcvWnd) ?_ (by omega)
  rw [hboth, windowPart, max_eq_right hd.le, hk, Int.toNat_natCast,
    show (place tp i).toNat = 0 by omega, ← chainBytes_mAdj_head]
  exact hright

theorem trimExact_old (h : Near tp i) (hold : place tp i + i.tiLen ≤ 0) (hd : place tp i < 0) :
    TrimExact tp i ↔ ¬FinWrong tp i := by
  have hbytes := length_chainBytes i.m
  have hlen := h.len
  have hnil : windowPart tp i = [] := by
    rw [windowPart, drop_eq_nil_of_le (by omega), take_nil]
  have hlo := h.lo
  refine trimExact_iff (c := False) ?_ (by rw [iff_false]; omega)
  rw [hnil, trimBoth, trimLeft_of_place h, if_neg (by omega), trimDup, if_pos (by omega)]
  by_cases hfin : i.tiflags.fin = true ∧ -place tp i = i.tiLen + 1
  · -- the FIN has been received before, and goes alone
    rw [if_pos (by simpa using hfin)]
    have hseq : adv i.tiSeq i.tiLen = adv tp.rcvNxt (-1) := by
      rw [tiSeq_eq tp i, adv_adv, show place tp i + i.tiLen = -1 by omega]
    have hright := trimRight_eq (j := trimHead { i with
      tiflags := { i.tiflags with fin := false } } i.tiLen) hseq h.syn (by omega)
      (by simp only [trimHead]; omega)
    rw [if_pos (by simp only [trimHead]; omega)] at hright
    simp only [hright]
    refine ⟨?_, ?_, .inl rfl, by simp [finTaken, trimHead]⟩
    · rw [trimHead, chainBytes_mAdj_head]
      exact drop_eq_nil_of_le (hbytes.trans hlen).le
    · exact Nat.sub_self _
  · rw [if_neg (by simpa using hfin), if_pos (.inl (by omega))]
    exact ⟨rfl, And.right⟩

/-- **Trimming is intersection with the window**, except for a FIN that comes with old data only, at
`rcv_nxt`, and for a FIN alone beyond the window, which are dropped, and for a FIN behind data of
which the window takes a part: that FIN is taken. -/
theorem trim_window (h : Near tp i) : TrimExact tp i ↔ ¬FinWrong tp i := by
  by_cases hd : 0 ≤ place tp i
  · exact trimExact_ahead h hd
  by_cases hpart : 0 < place tp i + i.tiLen
  · exact trimExact_partly h (by omega) hpart
  · exact trimExact_old h (by omega) (by omega)

/-- Four bytes from 98 on, with a FIN. -/
def finSegment : Inp :=
  { tiSeq := 98, tiAck := 0, tiLen := 4, tiUrp := 0, tiFlags := { fin := true, ack := true }
    m := [{ mData := [1, 2, 3, 4] }], tiflags := { fin := true, ack := true }, tiwin := 0, ts := none
    needoutput := false, bcast := false }

/-- Two of the bytes are new, and so is the FIN. -/
theorem trim_window_two : windowPart { rcvNxt := 100, rcvWnd := 10 } finSegment = [3, 4] ∧
    TrimExact { rcvNxt := 100, rcvWnd := 10 } finSegment := by
  refine ⟨by decide, (trim_window ⟨rfl, rfl, by decide, by decide, by decide⟩).mpr ?_⟩
  unfold FinWrong
  decide

/-- What the two cuts leave of four bytes with a FIN, two of them in the window. -/
def cutSegment : Inp := trimTail finSegment 2

/-- All the data is old, and the FIN is the next thing to come: the segment is dropped. And with two
of the bytes beyond the window the FIN is taken, although they are cut off before it. -/
theorem fin_misjudged :
    (trimBoth { rcvNxt := 102, rcvWnd := 10 } finSegment = .dropafterack ∧
      FinNew { rcvNxt := 102, rcvWnd := 10 } finSegment ∧
      ¬TrimExact { rcvNxt := 102, rcvWnd := 10 } finSegment) ∧
    trimBoth { rcvNxt := 98, rcvWnd := 2 } finSegment = .keep cutSegment false ∧
      ¬TrimExact { rcvNxt := 98, rcvWnd := 2 } finSegment ∧
      (inText cutSegment { tp := { tState := .established, rcvNxt := 98, rcvWnd := 2 }
                           so := {} }).1.tiflags.fin = true := by
  have hdrop : trimBoth { rcvNxt := 102, rcvWnd := 10 } finSegment = .dropafterack := by decide
  have hfin : FinNew { rcvNxt := 102, rcvWnd := 10 } finSegment := by
    unfold FinNew
    decide
  have hkeep : trimBoth { rcvNxt := 98, rcvWnd := 2 } finSegment = .keep cutSegment false := by decide
  refine ⟨⟨hdrop, hfin, fun h => ?_⟩, hkeep, fun h => ?_, ?_⟩
  · rw [TrimExact, hdrop] at h
    exact h.2 hfin
  · rw [TrimExact, hkeep] at h
    exact absurd (h.fin.mp rfl).2.2 (by decide)
  · rw [inText_fin rfl rfl rfl]
    rfl

end Anp
