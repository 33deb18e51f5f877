import Anp.Tcp.Options

/-!
# Trim — a received segment and its cut to the receive window

The local variables of `tcp_input` (`netinet/tcp_input.c`) and the part of it that trims a
segment: leading data (and SYN) before `rcv_nxt`, trailing data (and FIN) after the window.

The header keeps its flags: only the copy in `tiflags` loses a SYN, FIN or URG that is cut off.
-/

namespace Anp

open Cyclic Machine

variable {b : Bool} {tp : Tcpcb}

/-- A segment as IP hands it to `tcp_input`, checksum and header length verified. `optTail` lies in
memory behind the option bytes `opts`; `bcast` is set for a broadcast or multicast address. `ip_len`
is a `short`. -/
structure Segment where
  tiSeq : Seq
  tiAck : Seq
  tiFlags : Flags
  tiWin : Nat := 0
  tiUrp : Nat := 0
  opts : List Byte := []
  optTail : List Byte := []
  m : List Mbuf := []
  bcast : Bool := false
  len_lt : chainLen m < 32768 := by decide

theorem octet_len_lt : chainLen [{ mData := [7] }] < 32768 := by decide

/-- The segment inside `tcp_input`: the header as it is changed on the way, `tiflags`, the unscaled
window, the timestamp option, and `needoutput`. -/
structure Inp where
  tiSeq : Seq
  tiAck : Seq
  tiLen : Nat
  tiUrp : Nat
  tiFlags : Flags
  m : List Mbuf
  tiflags : Flags
  tiwin : Nat
  ts : Option Tstamp
  needoutput : Bool
  bcast : Bool
  deriving DecidableEq, Repr

variable {i i' : Inp}

/-- What trimming decides: go on with the rest of the segment (with an immediate ACK or not), answer
and drop it, or reopen a connection in TIME_WAIT. -/
inductive Trim where
  | keep (i : Inp) (acknow : Bool)
  | dropafterack
  | reopen
  deriving DecidableEq, Repr

/-! ## Left of the window -/

/-- The SYN before `rcv_nxt` goes first, and takes a place of the urgent pointer. -/
def trimSyn (i : Inp) : Inp :=
  { i with
    tiSeq := i.tiSeq + 1
    tiUrp := if 1 < i.tiUrp then i.tiUrp - 1 else i.tiUrp
    tiflags := { i.tiflags with syn := false, urg := i.tiflags.urg && decide (1 < i.tiUrp) } }

/-- `m_adj(m, todrop)` and the header fields that follow. -/
def trimHead (i : Inp) (todrop : Nat) : Inp :=
  { i with
    m := mAdj i.m todrop
    tiSeq := adv i.tiSeq todrop
    tiLen := i.tiLen - todrop
    tiUrp := if todrop < i.tiUrp then i.tiUrp - todrop else 0
    tiflags := { i.tiflags with urg := i.tiflags.urg && decide (todrop < i.tiUrp) } }

/-- Drop `todrop > 0` units left of the window. -/
def trimDup (i : Inp) (todrop : Int) : Trim :=
  if (i.tiLen : Int) ≤ todrop then
    -- only a FIN one to the left of the window: drop it, but go on to the ACK
    if i.tiflags.fin && decide (todrop = i.tiLen + 1) then
      .keep (trimHead { i with tiflags := { i.tiflags with fin := false } } i.tiLen) true
    else if todrop ≠ 0 ∨ !i.tiflags.ack then .dropafterack
    else .keep (trimHead i todrop.toNat) false
  else .keep (trimHead i todrop.toNat) false

def trimLeft (rcvNxt : Seq) (i : Inp) : Trim :=
  let todrop := gap rcvNxt i.tiSeq
  if 0 < todrop then
    if i.tiflags.syn then trimDup (trimSyn i) (todrop - 1) else trimDup i todrop
  else .keep i false

/-! ## Right of the window -/

/-- `m_adj(m, -todrop)`; PUSH and FIN go with the data. -/
def trimTail (i : Inp) (todrop : Int) : Inp :=
  { i with
    m := mAdj i.m (-todrop)
    tiLen := i.tiLen - todrop.toNat
    tiflags := { i.tiflags with push := false, fin := false } }

def trimRight (tp : Tcpcb) (i : Inp) : Trim :=
  let todrop := gap (adv i.tiSeq i.tiLen) (adv tp.rcvNxt tp.rcvWnd)
  if 0 < todrop then
    if (i.tiLen : Int) ≤ todrop then
      if i.tiflags.syn ∧ tp.tState = .timeWait ∧ seqGT i.tiSeq tp.rcvNxt then .reopen
      -- if the window is closed, can only take segments at the window edge
      else if tp.rcvWnd = 0 ∧ i.tiSeq = tp.rcvNxt then .keep (trimTail i todrop) true
      else .dropafterack
    else .keep (trimTail i todrop) false
  else .keep i false

/-! ## What trimming leaves alone -/

/-- The fields of a segment that trimming does not touch; the flags are those of the header. -/
structure SameHeader (i i' : Inp) : Prop where
  tiAck : i'.tiAck = i.tiAck
  tiFlags : i'.tiFlags = i.tiFlags
  bcast : i'.bcast = i.bcast

theorem trimDup_header {todrop : Int} (h : trimDup i todrop = .keep i' b) :
    SameHeader i i' := by
  unfold trimDup at h
  split at h
  · split at h
    · cases h
      exact ⟨rfl, rfl, rfl⟩
    · split at h
      · cases h
      · cases h
        exact ⟨rfl, rfl, rfl⟩
  · cases h
    exact ⟨rfl, rfl, rfl⟩

theorem trimLeft_header {q : Seq} (h : trimLeft q i = .keep i' b) :
    SameHeader i i' := by
  unfold trimLeft at h
  simp only at h
  split at h
  · split at h
    · have h1 := trimDup_header h
      exact { h1 with }
    · exact trimDup_header h
  · cases h
    exact ⟨rfl, rfl, rfl⟩

theorem trimRight_keep (h : trimRight tp i = .keep i' b) :
    i' = i ∨ i' = trimTail i (gap (adv i.tiSeq i.tiLen) (adv tp.rcvNxt tp.rcvWnd)) := by
  unfold trimRight at h
  simp only at h
  split at h
  · split at h
    · split at h
      · cases h
      · split at h
        · cases h
          exact Or.inr rfl
        · cases h
    · cases h
      exact Or.inr rfl
  · cases h
    exact Or.inl rfl

theorem trimRight_header (h : trimRight tp i = .keep i' b) :
    SameHeader i i' := by
  rcases trimRight_keep h with rfl | rfl <;> exact ⟨rfl, rfl, rfl⟩

theorem trimLeft_tiwin {q : Seq} (h : trimLeft q i = .keep i' b) :
    i'.tiwin = i.tiwin := by
  have hdup : ∀ (i : Inp) (n : Int), trimDup i n = .keep i' b → i'.tiwin = i.tiwin := by
    intro i n h
    unfold trimDup at h
    split at h
    · split at h
      · cases h
        rfl
      · split at h <;> cases h
        rfl
    · cases h
      rfl
  unfold trimLeft at h
  simp only at h
  split at h
  · split at h
    · exact hdup (trimSyn i) _ h
    · exact hdup i _ h
  · cases h
    rfl

theorem trimRight_tiwin (h : trimRight tp i = .keep i' b) :
    i'.tiwin = i.tiwin := by
  rcases trimRight_keep h with rfl | rfl <;> rfl

end Anp
