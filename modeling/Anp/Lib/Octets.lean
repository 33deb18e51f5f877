import Mathlib.Data.BitVec
import Mathlib.Data.List.Basic

/-!
# Octets — byte memory and the words in it

Memory is a function from addresses to octets. Words of two and four octets are kept with the
most significant octet first.
-/

namespace Octets

variable {l : List UInt8} {hi lo o : Nat}

/-- Addresses to octets. -/
abbrev Mem : Type := Nat → UInt8

variable {m m' : Mem}

def wr8 (m : Mem) (o : Nat) (v : UInt8) : Mem := fun i => if i = o then v else m i

def rd16 (m : Mem) (o : Nat) : BitVec 16 := (m o).toBitVec ++ (m (o + 1)).toBitVec

def rd32 (m : Mem) (o : Nat) : BitVec 32 := rd16 m o ++ rd16 m (o + 2)

/-- The two octets of a word. -/
def hi8 (v : BitVec 16) : UInt8 := ⟨v.extractLsb' 8 8⟩

def lo8 (v : BitVec 16) : UInt8 := ⟨v.extractLsb' 0 8⟩

def wr16 (m : Mem) (o : Nat) (v : BitVec 16) : Mem := wr8 (wr8 m o (hi8 v)) (o + 1) (lo8 v)

def wr32 (m : Mem) (o : Nat) (v : BitVec 32) : Mem :=
  wr16 (wr16 m o (v.extractLsb' 16 16)) (o + 2) (v.extractLsb' 0 16)

/-- `bcopy`: `n` octets at `src` of `from` to `dst`. -/
def copy (m : Mem) (dst : Nat) (src : Mem) (o n : Nat) : Mem :=
  fun i => if dst ≤ i ∧ i < dst + n then src (o + (i - dst)) else m i

/-- The list stands in memory at `o`. -/
def Holds (m : Mem) : Nat → List UInt8 → Prop
  | _, [] => True
  | o, b :: l => m o = b ∧ Holds m (o + 1) l

/-- The memories agree on the octets `lo … hi - 1`. -/
def Same (m m' : Mem) (lo hi : Nat) : Prop := ∀ i, lo ≤ i → i < hi → m i = m' i

/-! ## Lists in memory -/

theorem holds_append {l' : List UInt8} :
    Holds m o (l ++ l') ↔ Holds m o l ∧ Holds m (o + l.length) l' := by
  induction l generalizing o with
  | nil => simp [Holds]
  | cons b l ih =>
    rw [List.cons_append, Holds, ih, Holds, and_assoc, List.length_cons]
    rw [show o + 1 + l.length = o + (l.length + 1) by omega]

theorem holds_iff :
    Holds m o l ↔ ∀ i (h : i < l.length), m (o + i) = l[i] := by
  induction l generalizing o with
  | nil => simp [Holds]
  | cons b l ih =>
    rw [Holds, ih]
    constructor
    · rintro ⟨h0, hl⟩ i hi
      cases i with
      | zero => exact h0
      | succ i =>
        have := hl i (by simpa using hi)
        rw [show o + (i + 1) = o + 1 + i by omega, this]
        rfl
    · intro h
      refine ⟨h 0 (by simp), fun i hi => ?_⟩
      have := h (i + 1) (by simpa using hi)
      rw [show o + 1 + i = o + (i + 1) by omega, this]
      rfl

theorem holds_map_range' (h : Holds m o l) :
    (List.range' o l.length).map m = l := by
  induction l generalizing o with
  | nil => rfl
  | cons b l ih =>
    rw [List.length_cons, List.range'_succ, List.map_cons, ih h.2, h.1]

theorem Holds.of_same (h : Holds m o l) (hs : Same m' m o (o + l.length)) : Holds m' o l := by
  rw [holds_iff] at h ⊢
  intro i hi
  rw [hs (o + i) (by omega) (by omega)]
  exact h i hi

theorem Holds.copy {m src : Mem} {o : Nat} {l : List UInt8} (h : Holds src o l) (dst : Nat) :
    Holds (copy m dst src o l.length) dst l := by
  rw [holds_iff] at h ⊢
  intro i hi
  rw [Octets.copy, if_pos (by omega), Nat.add_sub_cancel_left]
  exact h i hi

/-! ## Agreement -/

theorem Same.symm (h : Same m m' lo hi) : Same m' m lo hi := fun i hlo hhi => (h i hlo hhi).symm

theorem Same.trans {m'' : Mem} (h : Same m m' lo hi) (h' : Same m' m'' lo hi) : Same m m'' lo hi :=
  fun i hlo hhi => (h i hlo hhi).trans (h' i hlo hhi)

theorem Same.mono {lo' hi' : Nat} (h : Same m m' lo hi) (hlo : lo ≤ lo') (hhi : hi' ≤ hi) :
    Same m m' lo' hi' :=
  fun i hl hh => h i (hlo.trans hl) (hh.trans_le hhi)

theorem Same.glue {mid : Nat} (h : Same m m' lo mid) (h' : Same m m' mid hi) :
    Same m m' lo hi := by
  intro i hlo hhi
  rcases Nat.lt_or_ge i mid with hi' | hi'
  · exact h i hlo hi'
  · exact h' i hi' hhi

theorem Same.rd16 {m m' : Mem} {lo hi o : Nat} (h : Same m m' lo hi) (hlo : lo ≤ o)
    (hhi : o + 2 ≤ hi) : rd16 m o = rd16 m' o := by
  rw [Octets.rd16, Octets.rd16, h o hlo (by omega), h (o + 1) (by omega) (by omega)]

theorem Same.rd32 {m m' : Mem} {lo hi o : Nat} (h : Same m m' lo hi) (hlo : lo ≤ o)
    (hhi : o + 4 ≤ hi) : rd32 m o = rd32 m' o := by
  rw [Octets.rd32, Octets.rd32, h.rd16 hlo (by omega), h.rd16 (o := o + 2) (by omega) (by omega)]

theorem hi8_rd16 (m : Mem) (o : Nat) : hi8 (rd16 m o) = m o := by
  have h : (rd16 m o).extractLsb' 8 8 = (m o).toBitVec := BitVec.extractLsb'_append_eq_left
  rw [hi8, h]

theorem lo8_rd16 (m : Mem) (o : Nat) : lo8 (rd16 m o) = m (o + 1) := by
  have h : (rd16 m o).extractLsb' 0 8 = (m (o + 1)).toBitVec := BitVec.extractLsb'_append_eq_right
  rw [lo8, h]

theorem wr16_hi (m : Mem) (o : Nat) (v : BitVec 16) : wr16 m o v o = hi8 v := by
  rw [wr16, wr8, if_neg (by omega), wr8, if_pos rfl]

theorem wr16_lo (m : Mem) (o : Nat) (v : BitVec 16) : wr16 m o v (o + 1) = lo8 v := by
  rw [wr16, wr8, if_pos rfl]

theorem rd16_wr16 (m : Mem) (o : Nat) (v : BitVec 16) : rd16 (wr16 m o v) o = v := by
  rw [rd16, wr16_hi, wr16_lo]
  exact BitVec.extractLsb'_append_extractLsb'

theorem same_of_rd16 (h : rd16 m o = rd16 m' o) : Same m m' o (o + 2) := by
  intro i hlo hhi
  obtain rfl | rfl : i = o ∨ i = o + 1 := by omega
  · rw [← hi8_rd16 m, h, hi8_rd16]
  · rw [← lo8_rd16 m, h, lo8_rd16]

theorem hi16_rd32 (m : Mem) (o : Nat) : (rd32 m o).extractLsb' 16 16 = rd16 m o :=
  BitVec.extractLsb'_append_eq_left

theorem lo16_rd32 (m : Mem) (o : Nat) : (rd32 m o).extractLsb' 0 16 = rd16 m (o + 2) :=
  BitVec.extractLsb'_append_eq_right

theorem same_of_rd32 (h : rd32 m o = rd32 m' o) : Same m m' o (o + 4) := by
  have hhi : rd16 m o = rd16 m' o := by rw [← hi16_rd32, h, hi16_rd32]
  have hlo : rd16 m (o + 2) = rd16 m' (o + 2) := by rw [← lo16_rd32, h, lo16_rd32]
  exact (same_of_rd16 hhi).glue (same_of_rd16 hlo)

/-! ## Fields of one memory taken over into another

A word write whose value is the word of another memory at the same address copies its octets. -/

theorem wr8_self (m p : Mem) (o : Nat) : wr8 m o (p o) = copy m o p o 1 := by
  funext i
  rw [wr8, copy]
  split
  · next h =>
    rw [if_pos (by omega), h, Nat.sub_self, Nat.add_zero]
  · rw [if_neg (by omega)]

theorem wr8_wr8 (m : Mem) (o : Nat) (v w : UInt8) : wr8 (wr8 m o v) o w = wr8 m o w := by
  funext i
  rw [wr8, wr8, wr8]
  split <;> rfl

theorem same_wr8_off (m : Mem) (o : Nat) (v : UInt8) (h : hi ≤ o ∨ o < lo) :
    Same (wr8 m o v) m lo hi := by
  intro i hlo hhi
  rw [wr8, if_neg (by omega)]

theorem wr16_off (m : Mem) (o : Nat) (v : BitVec 16) {i : Nat} (h : i < o ∨ o + 2 ≤ i) :
    wr16 m o v i = m i := by
  rw [wr16, wr8, if_neg (by omega), wr8, if_neg (by omega)]

theorem wr16_rd16 (m p : Mem) (o : Nat) : wr16 m o (rd16 p o) = copy m o p o 2 := by
  funext i
  rw [wr16, hi8_rd16, lo8_rd16, wr8, wr8, copy]
  split
  · next h1 =>
    rw [if_pos (by omega), h1, Nat.add_sub_cancel_left]
  · split
    · next h0 =>
      rw [if_pos (by omega), h0, Nat.sub_self, Nat.add_zero]
    · rw [if_neg (by omega)]

theorem copy_copy (m p : Mem) (o n k : Nat) :
    copy (copy m o p o n) (o + n) p (o + n) k = copy m o p o (n + k) := by
  funext i
  rw [copy, copy, copy]
  by_cases h : o ≤ i ∧ i < o + (n + k)
  · rw [if_pos h]
    by_cases h' : i < o + n
    · rw [if_neg (by omega), if_pos ⟨h.1, h'⟩]
    · rw [if_pos (by omega)]
      exact congrArg p (by omega)
  · rw [if_neg (by omega), if_neg (by omega), if_neg h]

theorem wr32_rd32 (m p : Mem) (o : Nat) : wr32 m o (rd32 p o) = copy m o p o 4 := by
  rw [wr32, hi16_rd32, lo16_rd32, wr16_rd16, wr16_rd16, copy_copy]

theorem copy_of_same {p : Mem} {n : Nat} (h : Same m p o (o + n)) : copy m o p o n = m := by
  funext i
  rw [copy]
  split
  · next hi => rw [h i hi.1 hi.2, Nat.add_sub_cancel' hi.1]
  · rfl

theorem same_copy (m p : Mem) (o n : Nat) : Same (copy m o p o n) p o (o + n) := by
  intro i hlo hhi
  rw [copy, if_pos ⟨hlo, hhi⟩, Nat.add_sub_cancel' hlo]

theorem Same.copy {m p : Mem} {lo hi : Nat} (h : Same m p lo hi) (o n : Nat) :
    Same (copy m o p o n) p lo hi := by
  intro i hlo hhi
  rw [Octets.copy]
  split
  · next hi => rw [Nat.add_sub_cancel' hi.1]
  · exact h i hlo hhi

theorem same_copy_off (m src : Mem) (dst o n : Nat) (h : hi ≤ dst ∨ dst + n ≤ lo) :
    Same (copy m dst src o n) m lo hi := by
  intro i hlo hhi
  rw [copy, if_neg (by omega)]

theorem copy_off (m src : Mem) (dst o n : Nat) {i : Nat} (h : i < dst ∨ dst + n ≤ i) :
    copy m dst src o n i = m i :=
  if_neg (by omega)

theorem rd16_copy_off (m src : Mem) (dst o n : Nat) {a : Nat} (h : a + 2 ≤ dst ∨ dst + n ≤ a) :
    rd16 (copy m dst src o n) a = rd16 m a :=
  (same_copy_off m src dst o n h).rd16 (le_refl _) (le_refl _)

theorem rd32_copy_off (m src : Mem) (dst o n : Nat) {a : Nat} (h : a + 4 ≤ dst ∨ dst + n ≤ a) :
    rd32 (copy m dst src o n) a = rd32 m a :=
  (same_copy_off m src dst o n h).rd32 (le_refl _) (le_refl _)

end Octets
