import Anp.Ip.Header

/-!
# Cksum — `in_cksum` over a chain of mbufs

`netinet/in_cksum.c`. The routine adds the words of each mbuf as the machine reads them, at even
addresses only. Where the data of an mbuf starts at an odd address the first byte is set aside and
the sum is kept shifted by eight bits while the words of that mbuf are added; a byte without its
partner is carried into the next mbuf. Carries are folded back in (`REDUCE`) only now and then.
-/

namespace Anp

open OnesSum List

variable {l : List Byte} {s sum : Nat}

/-! ## The routine -/

/-- `s_util.s` with `a` in `c[0]` and `b` in `c[1]`, and a word `*w` of the mbuf. -/
def sUtil (a b : Byte) : Nat := 256 * a.toNat + b.toNat

/-- `sum += x`. -/
def cksumAdd (sum x : Nat) : Nat := (sum + x) % 4294967296

def reduce (sum : Nat) : Nat := if fold sum > 65535 then fold sum - 65535 else fold sum

/-- `REDUCE; sum <<= 8`. -/
def reduceShift (sum : Nat) : Nat := 256 * reduce sum % 4294967296

/-- `sum += w[0]; ...; sum += w[k - 1]`. -/
def addWords : Nat → Nat → List Byte → Nat
  | k + 1, sum, a :: b :: l => addWords k (cksumAdd sum (sUtil a b)) l
  | _, sum, _ => sum

/-- `while ((mlen -= 2 * k) >= 0)`, with `k` words added in each turn. Returns the sum and the
bytes left. -/
def cksumLoop (k : Nat) : Nat → Nat → List Byte → Nat × List Byte
  | 0, sum, l => (sum, l)
  | n + 1, sum, l =>
    if 2 * k ≤ l.length then cksumLoop k n (addWords k sum l) (l.drop (2 * k)) else (sum, l)

/-- The two unrolled loops. -/
def cksumUnrolled (sum : Nat) (l : List Byte) : Nat × List Byte :=
  let r := cksumLoop 16 l.length sum l
  cksumLoop 4 r.2.length r.1 r.2

/-- `REDUCE` and the loop over the words left. -/
def cksumRest (sum : Nat) (l : List Byte) : Nat × List Byte := cksumLoop 1 l.length (reduce sum) l

/-- The variables that live across mbufs. `pending` is `mlen == -1`: `c0` still wants its
partner. `byte_swapped` is 0 between two mbufs. -/
structure Cksum where
  sum : Nat := 0
  pending : Bool := false
  c0 : Byte := 0
  deriving DecidableEq, Repr

/-- The body of the loop from "Unroll the loop" on, with `byte_swapped` 0. -/
def cksumWords (s : Cksum) (l : List Byte) : Cksum :=
  let r := cksumUnrolled s.sum l
  if r.2 = [] then { s with sum := r.1, pending := false }
  else
    let r := cksumRest r.1 r.2
    match r.2 with
    | [] => { s with sum := r.1, pending := false }
    | b :: _ => { sum := r.1, pending := true, c0 := b }

/-- The same where the mbuf goes on with the byte `b` at an odd address. -/
def cksumSwapped (s : Cksum) (b : Byte) (l : List Byte) : Cksum :=
  let r := cksumUnrolled (reduceShift s.sum) l
  let r := cksumRest r.1 r.2
  match r.2 with
  | [] => { sum := reduceShift r.1, pending := true, c0 := b }
  | b' :: _ => { sum := cksumAdd (reduceShift r.1) (sUtil b b'), pending := false, c0 := b }

/-- One mbuf, of which the bytes `l` count, at the address `w`: the byte that a pending one waits
for, then the rest. -/
def cksumMbuf (s : Cksum) (w : Nat) (l : List Byte) : Cksum :=
  match s.pending, l with
  | _, [] => s
  | true, a :: l => go { s with sum := cksumAdd s.sum (sUtil s.c0 a), pending := false } (w + 1) l
  | false, a :: l => go s w (a :: l)
where
  go (s : Cksum) (w : Nat) : List Byte → Cksum
    | [] => cksumWords s []
    | b :: l => if w % 2 = 1 then cksumSwapped s b l else cksumWords s (b :: l)

/-- `for (;m && len; m = m->m_next)`. -/
def cksumChain (s : Cksum) : List Mbuf → Nat → Cksum
  | [], _ => s
  | m :: ms, len =>
    if len = 0 then s
    else cksumChain (cksumMbuf s m.mOff (m.mData.take len)) ms (len - m.mLen)

/-- `in_cksum`; `sum` is the 32 bits of the `int`. -/
def inCksum (m : List Mbuf) (len : Nat) : Nat :=
  let s := cksumChain {} m len
  let sum := if s.pending then cksumAdd s.sum (sUtil s.c0 0) else s.sum
  65535 - reduce sum % 65536

/-! ## Plain sums of words -/

theorem hdrWords_lt (l : List Byte) : ∀ w ∈ hdrWords l, w < 65536 := by
  induction l using hdrWords.induct with
  | case1 a b l ih =>
    rw [hdrWords, forall_mem_cons]
    have ha := a.toNat_lt
    have hb := b.toNat_lt
    exact ⟨by omega, ih⟩
  | case2 a =>
    have ha := a.toNat_lt
    simp only [hdrWords, mem_singleton, forall_eq]
    omega
  | case3 => simp [hdrWords]

def wordSum (l : List Byte) : Nat := (hdrWords l).sum

@[simp] theorem wordSum_nil : wordSum [] = 0 := rfl

@[simp] theorem wordSum_single (a : Byte) : wordSum [a] = 256 * a.toNat := rfl

theorem wordSum_cons (a b : Byte) (l : List Byte) :
    wordSum (a :: b :: l) = sUtil a b + wordSum l := rfl

theorem sUtil_lt (a b : Byte) : sUtil a b < 65536 := by
  have ha := a.toNat_lt
  have hb := b.toNat_lt
  rw [sUtil]
  omega

theorem wordSum_le (l : List Byte) : wordSum l ≤ 65535 * ((l.length + 1) / 2) := by
  induction l using hdrWords.induct with
  | case1 a b l ih =>
    have hab := sUtil_lt a b
    rw [wordSum_cons, length_cons, length_cons]
    omega
  | case2 a =>
    have ha := a.toNat_lt
    rw [wordSum_single, length_singleton]
    omega
  | case3 => exact Nat.le_refl 0

variable {p : List Byte}

theorem wordSum_append (hp : p.length % 2 = 0) (l : List Byte) :
    wordSum (p ++ l) = wordSum p + wordSum l := by
  induction p using hdrWords.induct with
  | case1 a b p ih =>
    simp only [length_cons] at hp
    rw [cons_append, cons_append, wordSum_cons, wordSum_cons, ih (by omega), Nat.add_assoc]
  | case2 a => simp at hp
  | case3 => rw [nil_append, wordSum_nil, Nat.zero_add]

theorem wordSum_append_low (hp : p.length % 2 = 1) (a : Byte) :
    wordSum (p ++ [a]) = wordSum p + a.toNat := by
  induction p using hdrWords.induct with
  | case1 b c p ih =>
    simp only [length_cons] at hp
    rw [cons_append, cons_append, wordSum_cons, wordSum_cons, ih (by omega), Nat.add_assoc]
  | case2 b =>
    show sUtil b a + 0 = _
    rw [wordSum_single, sUtil, Nat.add_zero]
  | case3 => simp at hp

/-- The words read one byte further on are the same words with their bytes swapped. -/
theorem wordSum_swap (b : Byte) (l : List Byte) :
    Same (wordSum (b :: l)) (256 * b.toNat + 256 * wordSum l) := by
  induction l using hdrWords.induct generalizing b with
  | case1 a c l ih =>
    have hac : Same (a.toNat + wordSum (c :: l))
        (65536 * a.toNat + (256 * c.toNat + 256 * wordSum l)) :=
      (Same.mul_base _).symm.add (ih c)
    have h := (Same.refl (256 * b.toNat)).add hac
    rw [wordSum_cons, wordSum_cons, sUtil, sUtil]
    convert h using 1 <;> omega
  | case2 a =>
    have h := (Same.refl (256 * b.toNat)).add (Same.mul_base a.toNat).symm
    rw [wordSum_cons, wordSum_nil, sUtil, wordSum_single]
    convert h using 1 <;> omega
  | case3 =>
    exact Same.refl _

/-! ## Folding -/

section

variable (h : s < 4294967296)
include h

theorem same_reduce : Same (reduce s) s := by
  rw [reduce, fold]
  constructor <;> split <;> omega

theorem reduce_le : reduce s ≤ 65535 := by
  rw [reduce, fold]
  split <;> omega

theorem reduceShift_eq : reduceShift s = 256 * reduce s := by
  have hle := reduce_le h
  rw [reduceShift]
  omega

theorem same_reduceShift : Same (reduceShift s) (256 * s) := by
  rw [reduceShift_eq h]
  exact (same_reduce h).mul 256

theorem reduceShift_le : reduceShift s ≤ 16776960 := by
  have hle := reduce_le h
  rw [reduceShift_eq h]
  omega

end

theorem cksumAdd_eq {x : Nat} (h : s + x < 4294967296) : cksumAdd s x = s + x := Nat.mod_eq_of_lt h

/-! ## The loops

As long as nothing overflows, a loop moves words from the bytes left into the sum. -/

/-- The sum and the bytes left `r`, from `sum` and `l`. -/
structure WordsMoved (sum : Nat) (l : List Byte) (r : Nat × List Byte) : Prop where
  total : r.1 + wordSum r.2 = sum + wordSum l
  parity : r.2.length % 2 = l.length % 2
  le : r.2.length ≤ l.length

theorem WordsMoved.trans {r r' : Nat × List Byte} (h : WordsMoved sum l r)
    (h' : WordsMoved r.1 r.2 r') : WordsMoved sum l r' :=
  ⟨h'.total.trans h.total, h'.parity.trans h.parity, h'.le.trans h.le⟩

theorem wordsMoved_addWords (k : Nat) (hl : 2 * k ≤ l.length) (hlt : sum + wordSum l < 4294967296) :
    WordsMoved sum l (addWords k sum l, l.drop (2 * k)) := by
  induction k generalizing sum l with
  | zero =>
    rw [addWords]
    · exact ⟨rfl, rfl, Nat.le_refl _⟩
    · simp
  | succ k ih =>
    match l, hl, hlt with
    | a :: b :: l, hl, hlt =>
      simp only [length_cons] at hl
      rw [wordSum_cons] at hlt
      have hadd : cksumAdd sum (sUtil a b) = sum + sUtil a b := cksumAdd_eq (by omega)
      have hrec := @ih l (cksumAdd sum (sUtil a b)) (by omega) (by omega)
      constructor
      · rw [wordSum_cons, ← Nat.add_assoc, ← hadd]
        exact hrec.total
      · have hpar := hrec.parity
        simp only [length_drop, length_cons] at hpar ⊢
        omega
      · simp only [length_drop]
        omega
    | [], hl, _ => simp at hl
    | [_], hl, _ =>
      simp only [length_singleton] at hl
      omega

theorem wordsMoved_cksumLoop (k n : Nat) (hlt : sum + wordSum l < 4294967296) :
    WordsMoved sum l (cksumLoop k n sum l) := by
  induction n generalizing sum l with
  | zero => exact ⟨rfl, rfl, Nat.le_refl _⟩
  | succ n ih =>
    rw [cksumLoop]
    split
    next h =>
      have hstep := wordsMoved_addWords k h hlt
      exact hstep.trans (ih (hstep.total.trans_lt hlt))
    next => exact ⟨rfl, rfl, Nat.le_refl _⟩

theorem wordsMoved_cksumUnrolled (hlt : sum + wordSum l < 4294967296) :
    WordsMoved sum l (cksumUnrolled sum l) := by
  have h16 := wordsMoved_cksumLoop 16 l.length hlt
  exact h16.trans (wordsMoved_cksumLoop 4 _ (h16.total.trans_lt hlt))

theorem cksumLoop_one_length (n sum : Nat) (hn : l.length ≤ n) :
    (cksumLoop 1 n sum l).2.length ≤ 1 := by
  induction n generalizing sum l with
  | zero => exact hn.trans (by omega)
  | succ n ih =>
    rw [cksumLoop]
    split
    · apply ih
      rw [length_drop]
      omega
    · show l.length ≤ 1
      omega

theorem cksumRest_spec (hsum : sum < 4294967296) (hl : l.length ≤ 65535) :
    WordsMoved (reduce sum) l (cksumRest sum l) ∧ (cksumRest sum l).2.length ≤ 1 := by
  have hle := reduce_le hsum
  have hw := wordSum_le l
  exact ⟨wordsMoved_cksumLoop 1 _ (by omega), cksumLoop_one_length _ _ (Nat.le_refl _)⟩

/-! ## One mbuf -/

/-- The part of the sum that the byte set aside will be. -/
def Cksum.aside (s : Cksum) : Nat := if s.pending then 256 * s.c0.toNat else 0

/-- The state after the bytes `p`: with the byte set aside it stands for the plain sum of the words
of `p`, up to `Same`, and it is far enough from `2^32`. -/
structure Summed (p : List Byte) (s : Cksum) : Prop where
  pending : s.pending = (p.length % 2 == 1)
  same : Same (s.sum + s.aside) (wordSum p)
  bound : s.sum ≤ 16777216 + 65535 * (p.length / 2)

theorem Summed.init : Summed [] {} := ⟨rfl, Same.refl 0, Nat.zero_le _⟩

section

variable {p : List Byte} {sum : Nat} {b : Byte}

theorem Summed.even (hp : p.length % 2 = 0) (hs : Same sum (wordSum p))
    (hb : sum ≤ 16777216 + 65535 * (p.length / 2)) : Summed p ⟨sum, false, b⟩ := by
  refine ⟨?_, hs, hb⟩
  rw [hp]
  rfl

theorem Summed.odd (hp : p.length % 2 = 1) (hs : Same (sum + 256 * b.toNat) (wordSum p))
    (hb : sum ≤ 16777216 + 65535 * (p.length / 2)) : Summed p ⟨sum, true, b⟩ := by
  refine ⟨?_, hs, hb⟩
  rw [hp]
  rfl

end

section

variable {p : List Byte} {s : Cksum}

section

variable (h : Summed p s)
include h

theorem Summed.whole (hp : p.length % 2 = 0) : Same s.sum (wordSum p) := by
  have hpend : s.pending = false := by
    rw [h.pending, hp]
    rfl
  have hsame := h.same
  rw [Cksum.aside, hpend] at hsame
  exact hsame

theorem Summed.room (hl : p.length + l.length ≤ 65535) :
    s.sum + wordSum l < 4294967296 := by
  have hb := h.bound
  have hw := wordSum_le l
  omega

theorem Summed.partner (hp : p.length % 2 = 1) (hl : p.length ≤ 65535) (a : Byte) :
    Summed (p ++ [a]) { s with sum := cksumAdd s.sum (sUtil s.c0 a), pending := false } := by
  have hpend : s.pending = true := by
    rw [h.pending, hp]
    rfl
  have hb := h.bound
  have hu := sUtil_lt s.c0 a
  have hadd : cksumAdd s.sum (sUtil s.c0 a) = s.sum + sUtil s.c0 a := cksumAdd_eq (by omega)
  have hlen : (p ++ [a]).length = p.length + 1 := length_append
  rw [hadd]
  apply Summed.even
  · omega
  · have hsame := h.same.add (Same.refl a.toNat)
    rw [Cksum.aside, hpend, if_pos rfl, Nat.add_assoc] at hsame
    rw [wordSum_append_low hp]
    exact hsame
  · omega

theorem Summed.words (hp : p.length % 2 = 0) {l : List Byte}
    (hl : p.length + l.length ≤ 65535) : Summed (p ++ l) (cksumWords s l) := by
  have hmoved := wordsMoved_cksumUnrolled (h.room hl)
  have htotal := hmoved.total
  have hpar := hmoved.parity
  have hle := hmoved.le
  have hw := wordSum_le l
  have hb := h.bound
  have hlen : (p ++ l).length = p.length + l.length := length_append
  have hsum : Same (s.sum + wordSum l) (wordSum (p ++ l)) := by
    rw [wordSum_append hp]
    exact (h.whole hp).add (Same.refl _)
  rw [cksumWords]
  generalize cksumUnrolled s.sum l = r at hmoved htotal hpar hle
  dsimp only
  split
  next hnil =>
    -- the unrolled loops took all of it, and nothing is folded
    rw [hnil, wordSum_nil, Nat.add_zero] at htotal
    rw [hnil, length_nil] at hpar
    exact Summed.even (by omega) (htotal ▸ hsum) (by omega)
  next =>
    have hr1 : r.1 < 4294967296 := by omega
    obtain ⟨hrest, hone⟩ := cksumRest_spec hr1 (hle.trans (by omega))
    have hfold : Same (reduce r.1 + wordSum r.2) (wordSum (p ++ l)) :=
      ((same_reduce hr1).add (Same.refl _)).trans (htotal ▸ hsum)
    have hred := reduce_le hr1
    have hw2 := wordSum_le r.2
    have hrt := hrest.total
    have hrp := hrest.parity
    generalize cksumRest r.1 r.2 = q at hone hrt hrp
    match hq : q.2 with
    | [] =>
      rw [hq, wordSum_nil, Nat.add_zero] at hrt
      rw [hq, length_nil] at hrp
      exact Summed.even (by omega) (hrt ▸ hfold) (by omega)
    | b :: l' =>
      have hl' : l' = [] := by
        rw [hq, length_cons] at hone
        exact length_eq_zero_iff.mp (by omega)
      rw [hq, hl', wordSum_single] at hrt
      rw [hq, hl', length_singleton] at hrp
      exact Summed.odd (by omega) (hrt ▸ hfold) (by omega)

/-- The words of an mbuf at an odd address: the sum is shifted before and after them. -/
theorem Summed.swapped (hp : p.length % 2 = 0) {b : Byte}
    (hl : p.length + (b :: l).length ≤ 65535) : Summed (p ++ b :: l) (cksumSwapped s b l) := by
  rw [length_cons] at hl
  have hs : s.sum < 4294967296 := by
    have := h.room (l := []) (by rw [length_nil]; omega)
    omega
  have hshift := reduceShift_le hs
  have hw := wordSum_le l
  have hmoved := @wordsMoved_cksumUnrolled l (reduceShift s.sum) (by omega)
  have htotal := hmoved.total
  have hlen : (p ++ b :: l).length = p.length + (l.length + 1) := length_append
  -- what the sum, the bytes left and the first byte stand for together
  have hall : Same (256 * (reduceShift s.sum + wordSum l) + 256 * b.toNat)
      (wordSum (p ++ b :: l)) := by
    have hold : Same (256 * reduceShift s.sum) (wordSum p) := by
      have h1 := (same_reduceShift hs).mul 256
      rw [← Nat.mul_assoc] at h1
      exact (h1.trans (Same.mul_base _)).trans (h.whole hp)
    have hnew := hold.add (wordSum_swap b l).symm
    rw [← wordSum_append hp] at hnew
    convert hnew using 1
    omega
  rw [cksumSwapped]
  have hpar := hmoved.parity
  have hle := hmoved.le
  generalize cksumUnrolled (reduceShift s.sum) l = r at htotal hpar hle
  have hr1 : r.1 < 4294967296 := by omega
  obtain ⟨hrest, hone⟩ := cksumRest_spec hr1 (hle.trans (by omega))
  have hred := reduce_le hr1
  have hrt := hrest.total
  have hrp := hrest.parity
  generalize cksumRest r.1 r.2 = q at hone hrt hrp
  have hq1 : q.1 < 4294967296 := by omega
  have hq := reduceShift_le hq1
  have hfold : Same (256 * (q.1 + wordSum q.2) + 256 * b.toNat) (wordSum (p ++ b :: l)) := by
    rw [hrt]
    refine Same.trans (((Same.add (same_reduce hr1) (Same.refl _)).mul 256).add (Same.refl _)) ?_
    rw [htotal]
    exact hall
  match hq2 : q.2 with
  | [] =>
    rw [hq2, length_nil] at hrp
    rw [hq2, wordSum_nil, Nat.add_zero] at hfold
    exact Summed.odd (by omega) (((same_reduceShift hq1).add (Same.refl _)).trans hfold) (by omega)
  | b' :: l' =>
    have hl' : l' = [] := by
      rw [hq2, length_cons] at hone
      exact length_eq_zero_iff.mp (by omega)
    rw [hq2, hl', length_singleton] at hrp
    rw [hq2, hl', wordSum_single] at hfold
    have hu := sUtil_lt b b'
    dsimp only
    rw [cksumAdd_eq (by omega)]
    refine Summed.even (by omega) (Same.trans ?_ hfold) (by omega)
    -- the last byte is the partner of the first, a low byte
    have hlow := ((same_reduceShift hq1).add (Same.refl (256 * b.toNat))).add
      (Same.mul_base b'.toNat).symm
    rw [sUtil]
    convert hlow using 1 <;> omega

theorem Summed.go (hp : p.length % 2 = 0) (w : Nat)
    (hl : p.length + l.length ≤ 65535) : Summed (p ++ l) (cksumMbuf.go s w l) := by
  match l with
  | [] => exact h.words hp hl
  | b :: l =>
    rw [cksumMbuf.go]
    split
    · exact h.swapped hp hl
    · exact h.words hp hl

/-- One mbuf, with the two cases `Summed.words` (even) and `Summed.swapped` (odd). -/
theorem Summed.mbuf (w : Nat) (hl : p.length + l.length ≤ 65535) :
    Summed (p ++ l) (cksumMbuf s w l) := by
  match hpend : s.pending, l with
  | true, [] | false, [] =>
    rw [append_nil, cksumMbuf]
    exact h
  | true, a :: l =>
    have hp : p.length % 2 = 1 := by
      rw [h.pending, beq_iff_eq] at hpend
      exact hpend
    rw [length_cons] at hl
    have hpa := h.partner hp (by omega) a
    have hlen : (p ++ [a]).length = p.length + 1 := length_append
    rw [cksumMbuf.eq_def, hpend, append_cons]
    exact hpa.go (by omega) (w + 1) (by omega)
  | false, a :: l =>
    have hp : p.length % 2 = 0 := by
      rw [h.pending, beq_eq_false_iff_ne] at hpend
      omega
    rw [cksumMbuf.eq_def, hpend]
    exact h.go hp w hl

end

end

/-! ## The chain -/

theorem Summed.chain {s : Cksum} (h : Summed p s) (m : List Mbuf) {len : Nat}
    (hl : p.length + len ≤ 65535) :
    Summed (p ++ (chainBytes m).take len) (cksumChain s m len) := by
  induction m generalizing p s len with
  | nil =>
    rw [show chainBytes [] = [] from rfl, take_nil, append_nil]
    exact h
  | cons m ms ih =>
    rw [cksumChain]
    split
    next h0 =>
      rw [h0, take_zero, append_nil]
      exact h
    next h0 =>
      have htake : (m.mData.take len).length = min len m.mLen := length_take
      have hm := h.mbuf m.mOff (l := m.mData.take len) (by omega)
      have hlen : (p ++ m.mData.take len).length = p.length + min len m.mLen := by
        rw [length_append, htake]
      have hrec := ih hm (show _ + (len - m.mLen) ≤ 65535 by omega)
      rw [append_assoc] at hrec
      rw [show chainBytes (m :: ms) = m.mData ++ chainBytes ms from rfl, take_append]
      exact hrec

/-- **`in_cksum` is the Internet checksum** of the first `len` bytes of the chain. -/
theorem inCksum_eq (m : List Mbuf) {len : Nat} (hl : len ≤ 65535) :
    inCksum m len = hdrCksum ((chainBytes m).take len) := by
  have h := Summed.init.chain m (show ([] : List Byte).length + len ≤ 65535 by
    rw [length_nil]
    omega)
  rw [nil_append] at h
  have hplen : ((chainBytes m).take len).length ≤ len := length_take_le _ _
  rw [inCksum, hdrCksum]
  generalize (chainBytes m).take len = p at h hplen
  generalize cksumChain {} m len = s at h
  have hb := h.bound
  have hu := sUtil_lt s.c0 0
  -- the last odd byte gets its zero
  have hsum : (if s.pending = true then cksumAdd s.sum (sUtil s.c0 0) else s.sum)
      = s.sum + s.aside := by
    rw [Cksum.aside]
    split
    · rw [cksumAdd_eq (by omega), sUtil]
      rfl
    · rfl
  have hlt : s.sum + s.aside < 4294967296 := by
    have ha : s.aside ≤ 65535 := by
      have hc := s.c0.toNat_lt
      rw [Cksum.aside]
      split <;> omega
    omega
  have hle := reduce_le hlt
  have hrep : Represents (reduce (s.sum + s.aside)) (hdrWords p).sum :=
    .of_same (by omega) ((same_reduce hlt).trans h.same)
  have heq := hrep.unique (represents_onesSum (hdrWords_lt p))
  rw [hsum, ← heq]
  omega

/-! ## Storing the checksum -/

theorem wordSum_wrShort {n : Nat} (hn : n < 65536) : wordSum (wrShort n) = n := by
  show 256 * (UInt8.ofNat (n / 256)).toNat + (UInt8.ofNat n).toNat + 0 = n
  rw [UInt8.toNat_ofNat', UInt8.toNat_ofNat']
  omega

theorem hdrCksum_stored {a : List Byte} (ha : a.length % 2 = 0) (l : List Byte) :
    hdrCksum (a ++ wrShort (hdrCksum (a ++ wrShort 0 ++ l)) ++ l) = 0 := by
  have hsum (n : Nat) (hn : n < 65536) :
      wordSum (a ++ wrShort n ++ l) = wordSum (a ++ wrShort 0 ++ l) + n := by
    have heven (k : Nat) : (a ++ wrShort k).length % 2 = 0 := by
      rw [length_append, show (wrShort k).length = 2 from rfl]
      omega
    rw [wordSum_append (heven n), wordSum_append (heven 0), wordSum_append ha, wordSum_append ha,
      wordSum_wrShort hn, wordSum_wrShort (by decide)]
    omega
  have h0 := represents_onesSum (hdrWords_lt (a ++ wrShort 0 ++ l))
  have hlt : hdrCksum (a ++ wrShort 0 ++ l) < 65536 := by
    rw [hdrCksum]
    omega
  have hc := represents_onesSum (hdrWords_lt (a ++ wrShort (hdrCksum (a ++ wrShort 0 ++ l)) ++ l))
  have hsame : (hdrWords (a ++ wrShort (hdrCksum (a ++ wrShort 0 ++ l)) ++ l)).sum
      = (hdrWords (a ++ wrShort 0 ++ l)).sum + hdrCksum (a ++ wrShort 0 ++ l) := hsum _ hlt
  rw [hsame] at hc
  rw [hdrCksum, h0.complement hc]

/-- **The Internet checksum of a chain**: the complement of the one's complement sum of its first
`len` bytes. With the result in a field that was 0 a second call returns 0. -/
theorem in_cksum_internet (m : List Mbuf) (len : Nat) (hmax : len ≤ 65535) :
    inCksum m len = 65535 - onesSum (hdrWords ((chainBytes m).take len)) ∧
    (∀ m', (chainBytes m').take len = (chainBytes m).take len → inCksum m' len = inCksum m len) ∧
    ∀ a l m', a.length % 2 = 0 → (chainBytes m).take len = a ++ wrShort 0 ++ l →
      (chainBytes m').take len = a ++ wrShort (inCksum m len) ++ l → inCksum m' len = 0 := by
  refine ⟨inCksum_eq m hmax, ?_, ?_⟩
  · intro m' hm'
    rw [inCksum_eq m' hmax, inCksum_eq m hmax, hm']
  · intro a l m' ha hm hm'
    rw [inCksum_eq m' hmax, hm', inCksum_eq m hmax, hm]
    exact hdrCksum_stored ha l

/-- Five bytes in three mbufs, two of them at odd addresses. -/
def splitFive : List Mbuf :=
  [{ mOff := 1, mData := [1] }, { mData := [] }, { mOff := 4, mData := [2, 0] },
    { mOff := 7, mData := [0, 9] }]

/-- The checksum of these five bytes, stored in the two that are 0. -/
theorem in_cksum_internet_five :
    inCksum splitFive 5 = 62973 ∧ inCksum [{ mOff := 3, mData := [1, 2, 245, 253, 9] }] 5 = 0 := by
  have h := in_cksum_internet splitFive 5 (by decide)
  have hsum : inCksum splitFive 5 = 62973 := h.1.trans (by decide)
  refine ⟨hsum, ?_⟩
  apply h.2.2 [1, 2] [9] _ rfl rfl
  rw [hsum]
  decide

end Anp
