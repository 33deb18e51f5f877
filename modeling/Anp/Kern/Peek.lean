import Anp.Kern.Soreceive

/-!
# Peek — `soreceive` with `MSG_PEEK` and an urgent mark

The function of `Soreceive` with the flag `MSG_PEEK` and with `so_oobmark`, the number of bytes up to
the mark of urgent data. A call that peeks walks along the first record with a pointer of its own and
counts in `offset` how far it is from the mark. Without either it is `Soreceive` (`mkPass_plain`).

As in `Soreceive`, data goes out with `uiomove` and there is one reader.
-/

namespace Anp

open Machine Runs List

/-! ## The loop over the data -/

/-- The variables the loop changes. `atmark` is `SS_RCVATMARK`. -/
structure MkLoop where
  sb : Sockbuf
  resid : Nat
  eor : Bool
  oobmark : Nat
  offset : Nat
  atmark : Bool
  deriving DecidableEq, Repr

/-- What the loop leaves: `chain` is what `m` points to, `stop` that it was left by a `break` behind
the data it moved. -/
structure MkMoved where
  var : MkLoop
  chain : List Mbuf
  out : List Byte
  stop : Bool
  deriving DecidableEq, Repr

/-- `len`: what is asked for, up to the mark, and up to the end of the mbuf. -/
def MkLoop.len (l : MkLoop) (m : Mbuf) : Nat :=
  min (if l.oobmark ≠ 0 then min l.resid (l.oobmark - l.offset) else l.resid) m.mLen

def MkLoop.whole (l : MkLoop) (peek : Bool) (m : Mbuf) : MkLoop :=
  { l with
    atmark := false
    resid := l.resid - m.mLen
    eor := l.eor || m.mEor
    sb := if peek then l.sb else sbfree l.sb m }

def MkLoop.part (l : MkLoop) (peek : Bool) (len : Nat) : MkLoop :=
  { l with
    atmark := false
    resid := l.resid - len
    sb := if peek then l.sb else { l.sb with sbCc := l.sb.sbCc - len } }

/-- The mark comes nearer by `len` bytes. -/
def MkLoop.nearer (l : MkLoop) (peek : Bool) (len : Nat) : MkLoop :=
  if l.oobmark = 0 then l
  else if peek then { l with offset := l.offset + len }
  else { l with oobmark := l.oobmark - len, atmark := decide (l.oobmark - len = 0) }

/-- The mark is reached, after `len` bytes. -/
def MkLoop.hits (l : MkLoop) (peek : Bool) (len : Nat) : Prop :=
  l.oobmark ≠ 0 ∧ if peek then l.offset + len = l.oobmark else l.oobmark - len = 0
deriving Decidable

/-- The loop `while (m && uio->uio_resid > 0 && error == 0)`, up to the end of the record. -/
def mkMove (peek oob : Bool) : List Mbuf → MkLoop → MkMoved
  | [], l => ⟨l, [], [], false⟩
  | m :: ms, l =>
    if l.resid = 0 ∨ decide (m.mType = .oobdata) ≠ oob then ⟨l, m :: ms, [], false⟩
    else if l.len m = m.mLen then
      let l' := (l.whole peek m).nearer peek m.mLen
      if l.hits peek m.mLen ∨ l'.eor then ⟨l', ms, m.mData, true⟩
      else
        let r := mkMove peek oob ms l'
        { r with out := m.mData ++ r.out }
    else
      -- either all that is asked for was moved, or the mark is reached
      let len := l.len m
      let rest := if peek then m else { m with mData := m.mData.drop len, mOff := m.mOff + len }
      ⟨(l.part peek len).nearer peek len, rest :: ms, m.mData.take len,
        decide (l.hits peek len ∨ l.eor = true)⟩

/-! ## The call -/

/-- A socket with its mark, and the reader's flag `MSG_PEEK` and its `offset`. -/
structure MkSys where
  s : RcvSys
  oobmark : Nat := 0
  atmark : Bool := false
  peek : Bool := false
  offset : Nat := 0
  deriving DecidableEq, Repr

/-- The address at the head of a record: copied by a call that peeks. -/
def mkAddr (peek : Bool) (s : RcvSys) (rec : List Mbuf) : RcvSys × List Mbuf :=
  let r := soAddr s rec
  if peek then ({ r.1 with sb := s.sb }, r.2) else r

/-- The control mbufs, likewise. -/
def mkControl (peek : Bool) (s : RcvSys) (m : List Mbuf) : RcvSys × List Mbuf :=
  let r := soControl s m
  if peek then ({ r.1 with sb := s.sb }, r.2) else r

/-- The buffer behind the data; a call that peeks only notes what it cut off. -/
def mkSettle (peek : Bool) (s : RcvSys) (chain : List Mbuf) (next : List (List Mbuf)) : RcvSys :=
  if peek then { s with rcv := { s.rcv with trunc := s.rcv.trunc || (chain ≠ [] ∧ s.pr.prAtomic) } }
  else soSettle s chain next

/-- From `if (m && pr->pr_flags & PR_ATOMIC)` on. -/
def mkFinish (σ : MkSys) (chain : List Mbuf) (next : List (List Mbuf)) : MkSys :=
  let s := mkSettle σ.peek σ.s chain next
  if σ.s.rcv.origResid = σ.s.rcv.resid ∧ σ.s.rcv.origResid ≠ 0 ∧ σ.s.rcv.eor = false ∧
      σ.s.cantrcvmore = false then { σ with s := { s with pc := .restart } }
  else { σ with s := soReturn s 0 }

/-- The loop `while (flags & MSG_WAITALL && m == 0 ...)`. -/
def mkWaitall (σ : MkSys) : MkSys :=
  if σ.s.soError ≠ 0 ∨ σ.s.cantrcvmore then mkFinish σ [] []
  else
    { σ with
      s := { σ.s with
        pc := .waitall
        sb := if σ.peek then σ.s.sb else { σ.s.sb with sbMb := [] } } }

def mkMoved (σ : MkSys) (r : MkMoved) : MkSys :=
  { σ with
    s := { σ.s with
      sb := r.var.sb
      rcv := { σ.s.rcv with
        resid := r.var.resid, eor := r.var.eor, out := σ.s.rcv.out ++ r.out } }
    oobmark := r.var.oobmark
    atmark := r.var.atmark
    offset := r.var.offset }

def MkSys.loop (σ : MkSys) : MkLoop :=
  ⟨σ.s.sb, σ.s.rcv.resid, σ.s.rcv.eor, σ.oobmark, σ.offset, σ.atmark⟩

def mkData (σ : MkSys) (chain : List Mbuf) (next : List (List Mbuf)) : MkSys :=
  let r := mkMove σ.peek σ.s.rcv.oob chain σ.loop
  if chain ≠ [] ∧ r.chain = [] ∧ r.stop = false ∧ σ.s.rcv.waitall ∧ 0 < r.var.resid ∧
      σ.s.pr.prAtomic = false ∧ next = [] then mkWaitall (mkMoved σ r)
  else mkFinish (mkMoved σ r) r.chain next

/-- From the label `dontblock` on. -/
def mkDontblock (σ : MkSys) (rec : List Mbuf) (next : List (List Mbuf)) : MkSys :=
  let r := mkAddr σ.peek { σ.s with rcv := { σ.s.rcv with hit := true } } rec
  let r := mkControl σ.peek r.1 r.2
  mkData { σ with
    s := { r.1 with rcv := { r.1.rcv with oob := r.2.head?.any (·.mType = .oobdata) } }
    offset := 0 } r.2 next

/-- With this record at the head, the call waits for more. -/
def RcvSys.blocks (s : RcvSys) (rec : List Mbuf) (next : List (List Mbuf)) : Prop :=
  soShort s next ∧ s.soError = 0 ∧ s.cantrcvmore = false ∧
    rec.any (fun m => m.mType = .oobdata ∨ m.mEor) = false
deriving Decidable

/-- From the label `restart` on. -/
def mkPass (σ : MkSys) : MkSys :=
  match σ.s.sb.sbMb with
  | [] =>
    if σ.s.soError ≠ 0 then
      { σ with s := { soReturn σ.s σ.s.soError with soError := if σ.peek then σ.s.soError else 0 } }
    else if σ.s.cantrcvmore then { σ with s := soReturn σ.s 0 }
    else { σ with s := soBlock σ.s }
  | rec :: next =>
    if σ.s.blocks rec next then { σ with s := soBlock σ.s } else mkDontblock σ rec next

inductive MkOp where
  -- `sbappend`
  | append (m : List Mbuf)
  -- `sbappendaddr`
  | appendaddr (asa : List Byte) (m0 control : List Mbuf) (mget : Bool)
  -- urgent data is announced: `tcp_input` sets the mark behind what is in the buffer
  | mark (n : Nat)
  -- `soreceive` is called
  | call (want : Nat) (waitall dontwait paddr controlp peek : Bool)
  -- the reader goes on from `restart`
  | go
  -- `sbwait` returns
  | wake (error : Nat)
  -- the protocol changes the state of the socket
  | socket (soError : Nat) (cantrcvmore nbio connected : Bool)
  deriving DecidableEq, Repr

/-- A step of the reader, or something that arrives. -/
def mkStep (σ : MkSys) : MkOp → MkSys
  | .append m => { σ with s := { σ.s with sb := sbappend σ.s.sb m } }
  | .appendaddr asa m0 control mget =>
    { σ with s := { σ.s with sb := (sbappendaddr σ.s.sb asa m0 control mget).1 } }
  | .mark n => if σ.s.sb.sbCc ≤ n then { σ with oobmark := n, atmark := σ.atmark || n == 0 } else σ
  | .call want waitall dontwait paddr controlp peek =>
    if σ.s.pc = .idle then
      mkPass { σ with
        s := { σ.s with rcv := { want, resid := want, origResid := want, waitall, dontwait, paddr,
                                 controlp } }
        peek
        offset := 0 }
    else σ
  | .go => if σ.s.pc = .restart then mkPass σ else σ
  | .wake error =>
    match σ.s.pc with
    | .wait => if error ≠ 0 then { σ with s := soReturn σ.s error } else mkPass σ
    | .waitall =>
      if error ≠ 0 then { σ with s := soReturn σ.s 0 }
      else
        match σ.s.sb.sbMb with
        | [] => mkWaitall σ
        | rec :: next => mkData σ rec next
    | _ => σ
  | .socket soError cantrcvmore nbio connected =>
    { σ with s := { σ.s with soError, cantrcvmore, nbio, connected } }

/-! ## Without `MSG_PEEK` and without a mark -/

/-- The loop moves what that of `Soreceive` does, and stops where it has seen `M_EOR`. -/
theorem mkMove_plain (oob : Bool) (ms : List Mbuf) {l : MkLoop} (h : l.oobmark = 0) {r : Moved}
    (hr : soMove oob l.sb ms l.resid l.eor = r) :
    ∃ atmark stop, mkMove false oob ms l =
        ⟨{ l with sb := r.sb, resid := r.resid, eor := r.eor, atmark }, r.chain, r.out, stop⟩ ∧
      (ms ≠ [] → r.chain = [] → stop = r.eor) := by
  induction ms generalizing l r with
  | nil =>
    subst hr
    exact ⟨_, _, rfl, fun hne => absurd rfl hne⟩
  | cons m ms ih =>
    have hlen : l.len m = min l.resid m.mLen := by
      rw [MkLoop.len, h]
      rfl
    have hnear {l' : MkLoop} (hl' : l'.oobmark = 0) (n : Nat) : l'.nearer false n = l' := if_pos hl'
    rw [soMove] at hr
    rw [mkMove]
    by_cases hstop : l.resid = 0 ∨ decide (m.mType = .oobdata) ≠ oob
    · rw [if_pos hstop] at hr
      rw [if_pos hstop, ← hr]
      exact ⟨_, _, rfl, fun _ hnil => by cases hnil⟩
    rw [if_neg hstop] at hr
    rw [if_neg hstop, hlen]
    by_cases hall : m.mLen ≤ l.resid
    · have hwhole : (l.whole false m).oobmark = 0 := h
      rw [if_pos hall] at hr
      rw [if_pos (by omega), hnear hwhole]
      by_cases heor : (l.eor || m.mEor) = true
      · rw [if_pos heor] at hr
        rw [if_pos (.inr heor), ← hr]
        refine ⟨false, true, ?_, fun _ _ => rfl⟩
        rw [MkLoop.whole, heor]
        rfl
      · rw [if_neg heor] at hr
        have heor' : (l.whole false m).eor = false := Bool.eq_false_iff.mpr heor
        obtain ⟨atmark, stop, hmove, hst⟩ := ih hwhole rfl
        rw [heor'] at hmove hst
        have hgo : ¬(l.hits false m.mLen ∨ (l.whole false m).eor = true) :=
          not_or.mpr ⟨fun hh => hh.1 h, heor⟩
        rw [if_neg hgo, hmove, ← hr]
        refine ⟨atmark, stop, rfl, fun _ hnil => ?_⟩
        cases ms with
        | nil => exact (congrArg MkMoved.stop hmove).symm
        | cons m' ms => exact hst (cons_ne_nil _ _) hnil
    · have hpart : (l.part false l.resid).oobmark = 0 := h
      have hmin : min l.resid m.mLen = l.resid := by omega
      rw [if_neg hall] at hr
      rw [if_neg (by omega), hmin, ← hr]
      dsimp only
      rw [hnear hpart, MkLoop.part, Nat.sub_self]
      exact ⟨_, _, rfl, fun _ hnil => by cases hnil⟩

section

variable {σ : MkSys} (hp : σ.peek = false)
include hp

theorem mkFinish_plain (chain : List Mbuf) (next : List (List Mbuf)) :
    (mkFinish σ chain next).s = soFinish σ.s chain next := by
  unfold mkFinish soFinish mkSettle
  rw [hp]
  dsimp only
  split <;> rfl

theorem mkWaitall_plain : (mkWaitall σ).s = soWaitall σ.s := by
  unfold mkWaitall soWaitall
  split
  · exact mkFinish_plain hp [] []
  · rw [hp]
    rfl

theorem mkData_plain (hm : σ.oobmark = 0) (chain : List Mbuf) (next : List (List Mbuf)) :
    (mkData σ chain next).s = soData σ.s chain next := by
  obtain ⟨atmark, stop, hmove, hst⟩ := mkMove_plain σ.s.rcv.oob chain (l := σ.loop) hm rfl
  unfold mkData soData
  rw [hp, hmove]
  dsimp only
  rw [MkSys.loop] at hst ⊢
  generalize soMove _ _ _ _ _ = r at hst ⊢
  by_cases hend : chain ≠ [] ∧ r.chain = []
  · rw [hst hend.1 hend.2]
    split
    · exact mkWaitall_plain (σ := mkMoved σ _) hp
    · exact mkFinish_plain (σ := mkMoved σ _) hp _ _
  · rw [if_neg fun h => hend ⟨h.1, h.2.1⟩, if_neg fun h => hend ⟨h.1, h.2.1⟩]
    exact mkFinish_plain (σ := mkMoved σ _) hp _ _

/-- **A call that does not peek, with no mark set, is the call of `Soreceive`.** -/
theorem mkPass_plain (hm : σ.oobmark = 0) : (mkPass σ).s = soPass σ.s := by
  unfold mkPass soPass
  cases σ.s.sb.sbMb with
  | nil =>
    dsimp only
    rw [hp]
    split
    · rfl
    · split <;> rfl
  | cons rec next =>
    dsimp only
    by_cases hb : σ.s.blocks rec next
    · rw [if_pos hb]
      exact (if_pos hb).symm
    · rw [if_neg hb]
      refine Eq.trans ?_ (if_neg hb).symm
      refine (mkData_plain (σ := { σ with s := _, offset := 0 }) hp hm _ _).trans ?_
      rw [hp]
      rfl

end

/-! ## What the loop gives -/

/-- The first `k` bytes of a chain lie in mbufs of one kind, with no mark `M_EOR` between them. -/
def Clear (oob : Bool) : Nat → List Mbuf → Prop
  | k, [] => k = 0
  | k, m :: ms =>
    k = 0 ∨ (decide (m.mType = .oobdata) = oob ∧
      (k ≤ m.mLen ∨ (m.mEor = false ∧ Clear oob (k - m.mLen) ms)))

@[simp] theorem MkLoop.nearer_resid (l : MkLoop) (peek : Bool) (n : Nat) :
    (l.nearer peek n).resid = l.resid := by
  unfold MkLoop.nearer
  split_ifs <;> rfl

@[simp] theorem MkLoop.nearer_eor (l : MkLoop) (peek : Bool) (n : Nat) :
    (l.nearer peek n).eor = l.eor := by
  unfold MkLoop.nearer
  split_ifs <;> rfl

@[simp] theorem MkLoop.nearer_sb (l : MkLoop) (peek : Bool) (n : Nat) :
    (l.nearer peek n).sb = l.sb := by
  unfold MkLoop.nearer
  split_ifs <;> rfl

def MkLoop.toMark (l : MkLoop) : Nat := l.oobmark - l.offset

def MkLoop.Before (l : MkLoop) (k : Nat) : Prop := l.oobmark = 0 ∨ k ≤ l.toMark

theorem MkLoop.len_le (l : MkLoop) (m : Mbuf) : l.len m ≤ l.resid ∧ l.Before (l.len m) := by
  unfold MkLoop.len MkLoop.Before MkLoop.toMark
  split_ifs with h
  · omega
  · omega

theorem MkLoop.nearer_before {l : MkLoop} {peek : Bool} {n k : Nat} (hn : l.Before n)
    (h : (l.nearer peek n).Before k) (hhit : ¬l.hits peek n) : l.Before (n + k) := by
  unfold MkLoop.Before MkLoop.toMark MkLoop.nearer MkLoop.hits at *
  cases peek with
  | false =>
    by_cases h0 : l.oobmark = 0
    · exact .inl h0
    · simp only [h0, if_false, Bool.false_eq_true, ne_eq, not_false_eq_true, true_and] at h hhit
      omega
  | true =>
    by_cases h0 : l.oobmark = 0
    · exact .inl h0
    · simp only [h0, ↓reduceIte, false_or] at h hn
      omega

theorem MkLoop.Before.nearer {l : MkLoop} {peek : Bool} {n k : Nat} (h : l.Before (n + k)) :
    (l.nearer peek n).Before k := by
  unfold MkLoop.Before MkLoop.toMark MkLoop.nearer at *
  by_cases h0 : l.oobmark = 0
  · simp [h0]
  · rw [if_neg h0]
    cases peek <;> simp only [Bool.false_eq_true, ↓reduceIte] <;> omega

theorem mkMove_bytes (peek oob : Bool) (ms : List Mbuf) (l : MkLoop) :
    (mkMove peek oob ms l).out <+: chainBytes ms ∧
      (mkMove peek oob ms l).out.length + (mkMove peek oob ms l).var.resid = l.resid := by
  induction ms generalizing l with
  | nil => exact ⟨ nil_prefix, Nat.zero_add _⟩
  | cons m ms ih =>
    have hm : m.mData.length = m.mLen := rfl
    obtain ⟨hresid, -⟩ := l.len_le m
    have hleft : ((l.whole peek m).nearer peek m.mLen).resid = l.resid - m.mLen := by
      rw [MkLoop.nearer_resid, MkLoop.whole]
    rw [mkMove]
    dsimp only
    split_ifs with hstop hall hlast hpeek
    · exact ⟨ nil_prefix, Nat.zero_add _⟩
    · refine ⟨prefix_append _ _, ?_⟩
      dsimp only
      omega
    · obtain ⟨hpre, hlen⟩ := ih ((l.whole peek m).nearer peek m.mLen)
      refine ⟨(prefix_append_right_inj _).mpr hpre, ?_⟩
      dsimp only
      rw [length_append]
      omega
    all_goals
      have hle : l.len m ≤ m.mLen := min_le_right _ _
      refine ⟨( take_prefix _ _).trans (prefix_append _ _), ?_⟩
      simp only [MkLoop.nearer_resid, MkLoop.part, length_take]
      omega

/-- **What a call gets** are bytes of one kind, without a mark between them and none behind the
urgent mark. -/
theorem mkMove_clear (peek oob : Bool) (ms : List Mbuf) (l : MkLoop) (heor : l.eor = false) :
    Clear oob (mkMove peek oob ms l).out.length ms ∧
      l.Before (mkMove peek oob ms l).out.length := by
  fun_induction mkMove peek oob ms l
  case case1 => exact ⟨rfl, .inr (Nat.zero_le _)⟩
  case case2 => exact ⟨.inl rfl, .inr (Nat.zero_le _)⟩
  case case3 m ms l hgo hall l' _ =>
    have hbefore : l.Before m.mLen := hall ▸ (l.len_le m).2
    exact ⟨.inr ⟨not_not.mp (not_or.mp hgo).2, .inl (Nat.le_refl _)⟩, hbefore⟩
  case case4 m ms l hgo hall l' hlast r ih =>
    -- the mbuf is moved as a whole
    have hbefore : l.Before m.mLen := hall ▸ (l.len_le m).2
    obtain ⟨hnohit, hnoeor⟩ := not_or.mp hlast
    simp only [l', MkLoop.nearer_eor, MkLoop.whole, heor, Bool.false_or, Bool.not_eq_true] at hnoeor
    obtain ⟨hclear, hmark⟩ := ih (by simp [l', MkLoop.whole, heor, hnoeor])
    rw [length_append, ← Mbuf.mLen]
    refine ⟨.inr ⟨not_not.mp (not_or.mp hgo).2, .inr ⟨hnoeor, ?_⟩⟩, ?_⟩
    · rwa [Nat.add_sub_cancel_left]
    · exact MkLoop.nearer_before (l := l.whole peek m) hbefore hmark hnohit
  case case5 m ms l hgo _ len _ =>
    -- a part of it, up to the end of the request or to the mark
    have hle : len ≤ m.mLen := min_le_right _ _
    have hout : (m.mData.take len).length = len := length_take_of_le hle
    rw [hout]
    exact ⟨.inr ⟨not_not.mp (not_or.mp hgo).2, .inl hle⟩, (l.len_le m).2⟩

/-- **What a call gets at least**: such bytes, up to what it asks for. -/
theorem Clear.moved {oob : Bool} {k : Nat} {ms : List Mbuf} (h : Clear oob k ms) (peek : Bool)
    (l : MkLoop) (hk : k ≤ l.resid) (heor : l.eor = false) (hmark : l.Before k) :
    (chainBytes ms).take k <+: (mkMove peek oob ms l).out := by
  have htake (m : Mbuf) (ms : List Mbuf) (k : Nat) : (chainBytes (m :: ms)).take k =
      m.mData.take k ++ (chainBytes ms).take (k - m.mLen) := by
    rw [chainBytes_cons, take_append, Mbuf.mLen]
  have hdata {m : Mbuf} {ms : List Mbuf} {k : Nat} (hle : k ≤ m.mLen) :
      (chainBytes (m :: ms)).take k = m.mData.take k := by
    rw [htake, Nat.sub_eq_zero_of_le hle, take_zero, append_nil]
  fun_induction mkMove peek oob ms l generalizing k
  case case1 => simp
  case case2 m ms l hstop =>
    rcases h with rfl | ⟨hkind, -⟩
    · simp
    · have h0 := hstop.resolve_right (not_not.mpr hkind)
      simp [show k = 0 by omega]
  case case3 m ms l _ _ l' hlast =>
    -- the loop ends here: the bytes are all in this mbuf
    rcases h with rfl | ⟨-, hrest⟩
    · simp
    suffices hle : k ≤ m.mLen by
      rw [hdata hle]
      exact take_prefix _ _
    by_contra hlong
    obtain ⟨hnoeor, -⟩ := hrest.resolve_left hlong
    rcases hlast with hhit | heor'
    · unfold MkLoop.hits at hhit
      unfold MkLoop.Before MkLoop.toMark at hmark
      have := hhit.2
      split at this <;> omega
    · simp [l', MkLoop.whole, heor, hnoeor] at heor'
  case case4 m ms l _ _ l' _ r ih =>
    rcases h with rfl | ⟨-, hrest⟩
    · simp
    by_cases hle : k ≤ m.mLen
    · rw [hdata hle]
      exact ( take_prefix _ _).trans (prefix_append _ _)
    · obtain ⟨hnoeor, hclear⟩ := hrest.resolve_left hle
      have hpre := ih hclear (by simp only [l', MkLoop.nearer_resid, MkLoop.whole]; omega)
        (by simp [l', MkLoop.whole, heor, hnoeor])
        (MkLoop.Before.nearer (l := l.whole peek m)
          (by rwa [Nat.add_sub_cancel' (Nat.le_of_not_le hle)]))
      rw [htake, take_of_length_le (Nat.le_of_not_le hle)]
      exact (prefix_append_right_inj _).mpr hpre
  case case5 m ms l _ hpart len _ =>
    rcases h with rfl | ⟨-, -⟩
    · simp
    have hlen : min k m.mLen ≤ len := by
      unfold MkLoop.Before MkLoop.toMark at hmark
      simp only [len, MkLoop.len]
      split_ifs <;> omega
    have hle : len ≤ m.mLen := min_le_right _ _
    rw [hdata (by omega)]
    exact take_prefix_take_left (by omega)

end Anp
