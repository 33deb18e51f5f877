import Anp.Kern.Peek

/-!
# PeekRun — a call that peeks reads and changes nothing

From a call of `soreceive` with `MSG_PEEK` to its return, with arrivals in between.
-/

namespace Anp

open Machine Runs List

variable {next : List (List Mbuf)} {ms ms' rec : List Mbuf} {ops : List MkOp} {op : MkOp}
  {σ : MkSys} {a : Rcv}

def MkOp.isCall : MkOp → Bool
  | .call .. => true
  | _ => false

/-- Something that happens to the socket, not in the reader. -/
def MkOp.arrives : MkOp → Bool
  | .append _ | .appendaddr .. | .mark _ | .socket .. => true
  | .call .. | .go | .wake _ => false

/-! ## The head of a record -/

/-- The data of a record: behind the address and the control mbufs. -/
def SoProto.dataPart (pr : SoProto) (rec : List Mbuf) : List Mbuf :=
  (if pr.prAddr then rec.tail else rec).dropWhile (·.mType = .control)

theorem soAddr_eq (s : RcvSys) (rec : List Mbuf) :
    ∃ sb orig addr, (orig = s.rcv.origResid ∨ orig = 0) ∧
      soAddr s rec = ({ s with sb, rcv := { s.rcv with origResid := orig, addr } },
        if s.pr.prAddr then rec.tail else rec) := by
  cases rec with
  | nil => exact ⟨s.sb, _, s.rcv.addr, .inl rfl, by simp [soAddr]⟩
  | cons m ms =>
    by_cases h : s.pr.prAddr = true
    · exact ⟨sbfree s.sb m, 0, _, .inr rfl, by rw [soAddr, if_pos h, if_pos h]; rfl⟩
    · exact ⟨s.sb, _, s.rcv.addr, .inl rfl, by rw [soAddr, if_neg h, if_neg h]⟩

theorem soControl_eq (s : RcvSys) (m : List Mbuf) :
    ∃ sb orig control, (orig = s.rcv.origResid ∨ orig = 0) ∧
      soControl s m = ({ s with sb, rcv := { s.rcv with origResid := orig, control } },
        m.dropWhile (·.mType = .control)) := by
  induction m generalizing s with
  | nil => exact ⟨s.sb, _, s.rcv.control, .inl rfl, rfl⟩
  | cons m ms ih =>
    rw [soControl]
    split
    · next h =>
      rw [dropWhile_cons_of_pos (by exact decide_eq_true h)]
      split
      · obtain ⟨sb, orig, control, horig, heq⟩ := ih { s with
          sb := sbfree s.sb m
          rcv := { s.rcv with control := s.rcv.control ++ [m], origResid := 0 } }
        exact ⟨sb, orig, control, .inr (horig.elim id id), heq⟩
      · exact ih { s with sb := sbfree s.sb m }
    · next h =>
      rw [dropWhile_cons_of_neg (by simpa using h)]
      exact ⟨s.sb, _, s.rcv.control, .inl rfl, rfl⟩

def MkSys.atData (σ : MkSys) (rec : List Mbuf) (sb : Sockbuf) (orig : Nat)
    (addr : Option (List Byte)) (control : List Mbuf) : MkSys :=
  { σ with
    s := { σ.s with
      sb
      rcv := { σ.s.rcv with
        hit := true, origResid := orig, addr, control,
        oob := (σ.s.pr.dataPart rec).head?.any (·.mType = .oobdata) } }
    offset := 0 }

theorem mkDontblock_eq (σ : MkSys) (rec : List Mbuf) (next : List (List Mbuf)) :
    ∃ sb orig addr control, (σ.peek = true → sb = σ.s.sb) ∧ (orig = σ.s.rcv.origResid ∨ orig = 0) ∧
      mkDontblock σ rec next =
        mkData (σ.atData rec sb orig addr control) (σ.s.pr.dataPart rec) next := by
  obtain ⟨sb1, orig1, addr, horig1, h1⟩ :=
    soAddr_eq { σ.s with rcv := { σ.s.rcv with hit := true } } rec
  obtain ⟨sb, orig, control, horig, h2⟩ := soControl_eq
    { σ.s with
      sb := if σ.peek then σ.s.sb else sb1
      rcv := { σ.s.rcv with hit := true, origResid := orig1, addr } }
    (if σ.s.pr.prAddr then rec.tail else rec)
  refine ⟨if σ.peek then σ.s.sb else sb, orig, addr, control, fun hp => if_pos hp, ?_, ?_⟩
  · rcases horig with rfl | rfl
    · exact horig1
    · exact .inr rfl
  · unfold mkDontblock mkAddr mkControl
    rw [h1]
    by_cases hp : σ.peek = true
    · simp only [if_pos hp] at h2 ⊢
      rw [h2]
      rfl
    · simp only [if_neg hp] at h2 ⊢
      rw [h2]
      rfl

/-! ## Behind the data -/

/-- The call ends, starts again or sleeps: nothing but its own variables changes. -/
def MkSys.ends (σ : MkSys) (pc : RcvPc) (trunc : Bool) (rets : List RcvRet) : MkSys :=
  { σ with s := { σ.s with pc, rets, rcv := { σ.s.rcv with trunc } } }

theorem mkMove_peek (oob : Bool) (ms : List Mbuf) (l : MkLoop) :
    (mkMove true oob ms l).var.sb = l.sb ∧ (mkMove true oob ms l).var.oobmark = l.oobmark := by
  have hnear (l : MkLoop) (n : Nat) : (l.nearer true n).oobmark = l.oobmark := by
    unfold MkLoop.nearer
    split <;> rfl
  induction ms generalizing l with
  | nil => exact ⟨rfl, rfl⟩
  | cons m ms ih =>
    rw [mkMove]
    simp only [↓reduceIte]
    split_ifs
    · exact ⟨rfl, rfl⟩
    · exact ⟨MkLoop.nearer_sb _ _ _, hnear _ _⟩
    · obtain ⟨hsb, hmark⟩ := ih ((l.whole true m).nearer true m.mLen)
      exact ⟨hsb.trans (MkLoop.nearer_sb _ _ _), hmark.trans (hnear _ _)⟩
    · exact ⟨MkLoop.nearer_sb _ _ _, hnear _ _⟩

/-- The call is to start again: it has read nothing of what it asks for. -/
def Rcv.again (r : Rcv) : Prop := r.origResid = r.resid ∧ r.origResid ≠ 0 ∧ r.eor = false

theorem mkFinish_peek (hp : σ.peek = true) (chain : List Mbuf) (next : List (List Mbuf)) :
    ∃ pc trunc rets, mkFinish σ chain next = σ.ends pc trunc rets ∧
      (pc = .idle ∨ (pc = .restart ∧ σ.s.rcv.again)) := by
  unfold mkFinish mkSettle
  simp only [if_pos hp]
  split
  · next h => exact ⟨.restart, _, σ.s.rets, rfl, .inr ⟨rfl, h.1, h.2.1, h.2.2.1⟩⟩
  · exact ⟨.idle, _, _, rfl, .inl rfl⟩

theorem mkWaitall_peek (hp : σ.peek = true) :
    ∃ pc trunc rets, mkWaitall σ = σ.ends pc trunc rets ∧
      (pc = .idle ∨ (pc = .restart ∧ σ.s.rcv.again) ∨
        (pc = .waitall ∧ σ.s.soError = 0 ∧ σ.s.cantrcvmore = false)) := by
  unfold mkWaitall
  split
  · obtain ⟨pc, trunc, rets, heq, hpc⟩ := mkFinish_peek hp [] []
    exact ⟨pc, trunc, rets, heq, hpc.imp id .inl⟩
  · next h =>
    simp only [not_or, not_not, Bool.not_eq_true] at h
    exact ⟨.waitall, σ.s.rcv.trunc, σ.s.rets, rfl, .inr (.inr ⟨rfl, h⟩)⟩

theorem mkData_peek (hp : σ.peek = true) (chain : List Mbuf) (next : List (List Mbuf)) :
    ∃ pc trunc rets, mkData σ chain next =
        (mkMoved σ (mkMove true σ.s.rcv.oob chain σ.loop)).ends pc trunc rets ∧
      (pc = .idle ∨
        (pc = .restart ∧ (mkMoved σ (mkMove true σ.s.rcv.oob chain σ.loop)).s.rcv.again) ∨
        (pc = .waitall ∧ σ.s.soError = 0 ∧ σ.s.cantrcvmore = false)) := by
  unfold mkData
  rw [hp]
  generalize mkMove true σ.s.rcv.oob chain σ.loop = r
  have hp' : (mkMoved σ r).peek = true := hp
  dsimp only
  split
  · exact mkWaitall_peek hp'
  · obtain ⟨pc, trunc, rets, heq, hpc⟩ := mkFinish_peek hp' r.chain next
    exact ⟨pc, trunc, rets, heq, hpc.imp id .inl⟩

/-! ### The bytes read -/

theorem mkFinish_out (σ : MkSys) (chain : List Mbuf) (next : List (List Mbuf)) :
    (mkFinish σ chain next).s.rcv.out = σ.s.rcv.out := by
  have hsettle : (mkSettle σ.peek σ.s chain next).rcv.out = σ.s.rcv.out := by
    unfold mkSettle soSettle
    split_ifs <;> rfl
  unfold mkFinish
  dsimp only
  split_ifs <;> exact hsettle

theorem mkWaitall_out (σ : MkSys) : (mkWaitall σ).s.rcv.out = σ.s.rcv.out := by
  unfold mkWaitall
  split
  · exact mkFinish_out σ [] []
  · rfl

theorem mkData_out (σ : MkSys) (chain : List Mbuf) (next : List (List Mbuf)) :
    (mkData σ chain next).s.rcv.out =
      σ.s.rcv.out ++ (mkMove σ.peek σ.s.rcv.oob chain σ.loop).out := by
  unfold mkData
  dsimp only
  split_ifs
  · exact mkWaitall_out _
  · exact mkFinish_out _ _ _

theorem soBlock_eq (s : RcvSys) : ∃ pc rets, soBlock s = { s with pc, rets } := by
  unfold soBlock
  split_ifs
  iterate 3 exact ⟨.idle, _, rfl⟩
  exact ⟨.wait, s.rets, rfl⟩

/-- A pass leaves all but its own end alone, or it finds a record and does not wait. -/
theorem mkPass_cases (σ : MkSys) :
    (∃ s, mkPass σ = { σ with s } ∧ s.sb = σ.s.sb ∧ s.rcv = σ.s.rcv) ∨
      ∃ rec next, σ.s.sb.sbMb = rec :: next ∧ ¬σ.s.blocks rec next ∧
        mkPass σ = mkDontblock σ rec next := by
  obtain ⟨pc, rets, hblock⟩ := soBlock_eq σ.s
  rw [mkPass, hblock]
  split
  · refine Or.inl ?_
    split
    · exact ⟨_, rfl, rfl, rfl⟩
    · split
      · exact ⟨_, rfl, rfl, rfl⟩
      · exact ⟨_, rfl, rfl, rfl⟩
  · next rec next hmb =>
    split
    · exact Or.inl ⟨_, rfl, rfl, rfl⟩
    · next hgo => exact Or.inr ⟨rec, next, hmb, hgo, rfl⟩

theorem mkPass_out (σ : MkSys) : σ.s.rcv.out <+: (mkPass σ).s.rcv.out := by
  rcases mkPass_cases σ with ⟨s, heq, -, hrcv⟩ | ⟨rec, next, -, -, heq⟩
  · simp only [heq, hrcv, prefix_rfl]
  · obtain ⟨sb, orig, addr, control, -, -, hdata⟩ := mkDontblock_eq σ rec next
    rw [heq, hdata, mkData_out]
    exact prefix_append _ _

theorem mkStep_out (σ : MkSys) (h : op.isCall = false) :
    σ.s.rcv.out <+: (mkStep σ op).s.rcv.out := by
  cases op with
  | append | appendaddr | socket => exact prefix_rfl
  | mark n =>
    rw [mkStep]
    split_ifs <;> exact prefix_rfl
  | call want waitall dontwait paddr controlp peek => cases h
  | go =>
    rw [mkStep]
    split_ifs
    · exact mkPass_out σ
    · exact prefix_rfl
  | wake error =>
    rw [mkStep]
    split
    · split_ifs
      · exact prefix_rfl
      · exact mkPass_out σ
    · split_ifs
      · exact prefix_rfl
      · split
        · exact (mkWaitall_out σ).symm ▸ prefix_rfl
        · rw [mkData_out]
          exact prefix_append _ _
    · exact prefix_rfl

theorem foldl_mkStep_out (σ : MkSys) (h : ∀ op ∈ ops, op.isCall = false) :
    σ.s.rcv.out <+: (ops.foldl mkStep σ).s.rcv.out := by
  induction ops generalizing σ with
  | nil => exact prefix_rfl
  | cons op ops ih =>
    obtain ⟨hop, hops⟩ := forall_mem_cons.mp h
    exact (mkStep_out σ hop).trans (ih _ hops)

/-! ## What arrives goes behind what is there -/

/-- A record with more in its last mbuf and behind it. -/
def Grown (rec rec' : List Mbuf) : Prop := rec' = rec ∨ ∃ p n x e t, rec = p ++ [n] ∧
    rec' = p ++ { n with mData := n.mData ++ x, mEor := n.mEor || e } :: t

theorem sbcompressLoop_grown (sb : Sockbuf) (n : Mbuf) (ms : List Mbuf) (eor : Bool) :
    ∃ x e t, (sbcompressLoop sb (some n) ms eor).2 =
      { n with mData := n.mData ++ x, mEor := n.mEor || e } :: t := by
  induction ms generalizing sb n eor with
  | nil =>
    refine ⟨[], eor, [], ?_⟩
    cases eor <;> simp [sbcompressLoop]
  | cons m ms ih =>
    rw [sbcompressLoop]
    split_ifs
    · exact ih sb n _
    · -- copied into it
      obtain ⟨x, e, t, heq⟩ := ih { sb with sbCc := sb.sbCc + m.mLen }
        { n with mData := n.mData ++ m.mData } (eor || m.mEor)
      refine ⟨m.mData ++ x, e, t, ?_⟩
      rw [Option.map_some, heq, append_assoc]
    · refine ⟨[], false, (sbcompressLoop (sballoc sb m) (some { m with mEor := false }) ms
        (eor || m.mEor)).2, ?_⟩
      rw [append_nil, Bool.or_false]
      rfl

/-- The first record of a buffer, and whether it is the last one, after an append. -/
def HeadGrown (sb sb' : Sockbuf) : Prop := ∀ rec next, sb.sbMb = rec :: next → rec ≠ [] →
    ∃ rec' next', sb'.sbMb = rec' :: next' ∧ Grown rec rec' ∧ (next ≠ [] → next' ≠ [])

theorem sbcompress_head (sb : Sockbuf) (m : List Mbuf) : HeadGrown sb (sbcompress sb m) := by
  intro rec next h hne
  rw [sbcompress]
  cases next with
  | nil =>
    obtain ⟨p, n, rfl⟩ := rec.eq_nil_or_concat'.resolve_left hne
    simp only [h, getLast?_singleton, dropLast_singleton, nil_append,
      getLast?_concat, dropLast_concat]
    obtain ⟨x, e, t, hloop⟩ := sbcompressLoop_grown sb n m false
    exact ⟨_, [], rfl, .inr ⟨p, n, x, e, t, rfl, by rw [hloop]⟩, id⟩
  | cons r rs =>
    -- the chain goes to a record behind the first one
    obtain ⟨q, z, hq⟩ := (r :: rs).eq_nil_or_concat'.resolve_left (cons_ne_nil r rs)
    simp only [h, hq, ← cons_append, getLast?_concat, dropLast_concat]
    exact ⟨rec, q ++ [z.dropLast ++ (sbcompressLoop sb z.getLast? m false).2], rfl, .inl rfl,
      by simp⟩

theorem sbappendrecord_head (sb : Sockbuf) (m : List Mbuf) :
    HeadGrown sb (sbappendrecord sb m) := by
  intro rec next h hne
  match m with
  | [] => exact ⟨rec, next, h, .inl rfl, id⟩
  | [m0] => exact ⟨rec, next ++ [[m0]], by rw [sbappendrecord, h]; rfl, .inl rfl, by simp⟩
  | m0 :: m :: ms =>
    obtain ⟨rec', next', heq, hgrown, hnext⟩ := sbcompress_head
      { sballoc sb m0 with sbMb := sb.sbMb ++ [[{ m0 with mEor := false }]] }
      ({ m with mEor := m.mEor || m0.mEor } :: ms) rec (next ++ [[{ m0 with mEor := false }]])
      (by dsimp only; rw [h]; rfl) hne
    exact ⟨rec', next', heq, hgrown, fun _ => hnext (by simp)⟩

theorem sbappend_head (sb : Sockbuf) (m : List Mbuf) : HeadGrown sb (sbappend sb m) := by
  rw [sbappend]
  split_ifs
  · exact fun rec next h _ => ⟨rec, next, h, .inl rfl, id⟩
  · exact sbappendrecord_head sb m
  · exact sbcompress_head sb m

theorem sbappendaddr_eq (sb : Sockbuf) (asa : List Byte) (m0 control : List Mbuf) (mget : Bool) :
    (sbappendaddr sb asa m0 control mget).1 = sb ∨
      ∃ m cnt, (sbappendaddr sb asa m0 control mget).1 =
        { sb with sbCc := sb.sbCc + chainLen m, sbMbcnt := cnt, sbMb := sb.sbMb ++ [m] } := by
  rw [sbappendaddr]
  dsimp only
  split_ifs
  · exact .inl rfl
  · obtain ⟨cnt, heq⟩ := foldl_sballoc sb ({ mType := .soname, mData := asa } :: (control ++ m0))
    exact .inr ⟨_, cnt, by rw [heq]⟩

theorem sbappendaddr_wf {sb : Sockbuf} (asa : List Byte) (m0 control : List Mbuf) (mget : Bool)
    (h : SbWf sb) : SbWf (sbappendaddr sb asa m0 control mget).1 := by
  rcases sbappendaddr_eq sb asa m0 control mget with heq | ⟨m, cnt, heq⟩
  · rwa [heq]
  · rw [heq]
    unfold SbWf sbBytes at *
    rw [flatMap_append, length_append, ← h, flatMap_singleton, length_chainBytes]

/-! ### The bytes that were read -/

theorem Grown.dropWhile (h : Grown ms ms') (f : MType → Bool)
    (hne : ms.dropWhile (fun m => f m.mType) ≠ []) :
    Grown (ms.dropWhile (fun m => f m.mType)) (ms'.dropWhile (fun m => f m.mType)) := by
  obtain rfl | ⟨p, n, x, e, t, rfl, rfl⟩ := h
  · exact .inl rfl
  · induction p with
    | nil =>
      cases hf : f n.mType with
      | true => simp [hf] at hne
      | false => exact .inr ⟨[], n, x, e, t, by simp [hf], by simp [hf]⟩
    | cons m p ih =>
      cases hf : f m.mType with
      | true =>
        simp only [cons_append, dropWhile_cons, hf, ↓reduceIte] at hne ⊢
        exact ih hne
      | false => exact .inr ⟨m :: p, n, x, e, t, by simp [hf], by simp [hf]⟩

theorem Grown.tail (h : Grown ms ms') (hne : ms.tail ≠ []) :
    Grown ms.tail ms'.tail := by
  obtain rfl | ⟨p, n, x, e, t, rfl, rfl⟩ := h
  · exact .inl rfl
  · cases p with
    | nil => exact absurd rfl hne
    | cons m p => exact .inr ⟨p, n, x, e, t, rfl, rfl⟩

theorem Grown.dataPart {rec' : List Mbuf} (h : Grown rec rec') (pr : SoProto)
    (hne : pr.dataPart rec ≠ []) : Grown (pr.dataPart rec) (pr.dataPart rec') := by
  unfold SoProto.dataPart at hne ⊢
  split_ifs at hne ⊢
  · refine (h.tail ?_).dropWhile (fun ty => decide (ty = .control)) hne
    rintro hnil
    rw [hnil] at hne
    exact hne rfl
  · exact h.dropWhile (fun ty => decide (ty = .control)) hne

/-- **Bytes that arrive stay behind the bytes that were read.** -/
theorem Clear.grown {oob : Bool} {k : Nat} (h : Clear oob k ms) (hg : Grown ms ms') :
    Clear oob k ms' := by
  obtain rfl | ⟨p, n, x, e, t, rfl, rfl⟩ := hg
  · exact h
  · induction p generalizing k with
    | nil =>
      refine h.imp id (And.imp id fun hk => .inl ?_)
      have hle : k ≤ n.mLen := by
        rcases hk with hk | ⟨-, hk⟩
        · exact hk
        · exact Nat.le_of_sub_eq_zero hk
      refine hle.trans ?_
      unfold Mbuf.mLen
      rw [length_append]
      exact Nat.le_add_right _ _
    | cons m p ih => exact h.imp id (And.imp id (Or.imp id (And.imp id ih)))

theorem Grown.bytes (h : Grown ms ms') : chainBytes ms <+: chainBytes ms' := by
  obtain rfl | ⟨p, n, x, e, t, rfl, rfl⟩ := h
  · exact prefix_rfl
  · rw [chainBytes_append, chainBytes_append, prefix_append_right_inj]
    simp [append_assoc]

theorem Grown.head (h : Grown ms ms') (f : MType → Bool) :
    ms'.head?.any (fun m => f m.mType) = ms.head?.any (fun m => f m.mType) := by
  obtain rfl | ⟨p, n, x, e, t, rfl, rfl⟩ := h
  · rfl
  · cases p <;> rfl

theorem Grown.any (h : Grown ms ms') (hany : ms.any (fun m => m.mType = .oobdata ∨ m.mEor) = true) :
    ms'.any (fun m => m.mType = .oobdata ∨ m.mEor) = true := by
  obtain rfl | ⟨p, n, x, e, t, rfl, rfl⟩ := h
  · exact hany
  · simp only [any_append, any_cons, any_nil, Bool.or_eq_true, decide_eq_true_eq] at hany ⊢
    tauto

/-! ## The call -/

def Rcv.args (r : Rcv) : Rcv :=
  { want := r.want, resid := r.want, origResid := r.want, waitall := r.waitall,
    dontwait := r.dontwait, paddr := r.paddr, controlp := r.controlp }

def RcvSys.asked (s : RcvSys) : RcvSys := { s with rcv := s.rcv.args }

structure Unread (r : Rcv) : Prop where
  resid : r.resid = r.want
  orig : r.origResid = r.want
  eor : r.eor = false
  out : r.out = []

/-- What was read are the first bytes of the data of the first record, and a call for as many
bytes can read them. -/
structure Shown (s : RcvSys) (mark : Nat) (rec : List Mbuf) (next : List (List Mbuf)) : Prop where
  mb : s.sb.sbMb = rec :: next
  clear : Clear s.rcv.oob s.rcv.out.length (s.pr.dataPart rec)
  bytes : s.rcv.out <+: chainBytes (s.pr.dataPart rec)
  le : s.rcv.out.length ≤ s.rcv.want
  mark : mark = 0 ∨ s.rcv.out.length ≤ mark
  oob : s.rcv.oob = (s.pr.dataPart rec).head?.any (fun m => decide (m.mType = .oobdata))

/-- With this record, a call does not wait for more even while the socket is open. -/
def RcvSys.goes (s : RcvSys) (rec : List Mbuf) (next : List (List Mbuf)) : Prop :=
  ¬soShort s next ∨ rec.any (fun m => m.mType = .oobdata ∨ m.mEor) = true

/-- From a call with the arguments `a` to its return. -/
structure PeekInv (a : Rcv) (σ : MkSys) : Prop where
  peek : σ.peek = true
  wf : SbWf σ.s.sb
  args : σ.s.rcv.args = a
  fresh : σ.s.pc = .restart ∨ σ.s.pc = .wait → Unread σ.s.rcv
  len : σ.s.rcv.out.length + σ.s.rcv.resid = σ.s.rcv.want
  orig : σ.s.rcv.origResid = σ.s.rcv.want ∨ σ.s.rcv.origResid = 0
  shown : σ.s.rcv.out = [] ∨ ∃ rec next, Shown σ.s σ.oobmark rec next ∧
    (σ.s.pc = .idle → ¬σ.s.asked.blocks rec next) ∧ (σ.s.pc = .waitall → σ.s.asked.goes rec next)

theorem Shown.dataPart_ne {s : RcvSys} {mark : Nat} (h : Shown s mark rec next)
    (hout : s.rcv.out ≠ []) : s.pr.dataPart rec ≠ [] := by
  intro hnil
  have hclear := h.clear
  rw [hnil] at hclear
  exact hout (length_eq_zero_iff.mp hclear)

theorem Shown.length_le {s : RcvSys} {mark : Nat} (h : Shown s mark rec next) (hwf : SbWf s.sb) :
    s.rcv.out.length ≤ s.sb.sbCc := by
  have hpart : s.pr.dataPart rec <:+ rec := by
    unfold SoProto.dataPart
    split_ifs
    · exact (dropWhile_suffix _).trans (tail_suffix _)
    · exact dropWhile_suffix _
  have hlen : chainLen (s.pr.dataPart rec) ≤ chainLen rec := by
    obtain ⟨head, hhead⟩ := hpart
    calc chainLen (s.pr.dataPart rec)
        ≤ chainLen head + chainLen (s.pr.dataPart rec) := Nat.le_add_left _ _
      _ = chainLen (head ++ s.pr.dataPart rec) := by
        rw [chainLen, chainLen, chainLen, chainBytes_append, length_append]
      _ = chainLen rec := by rw [hhead]
  have hrec : chainLen rec ≤ s.sb.sbCc := by
    rw [hwf, sbBytes, h.mb, flatMap_cons, length_append, length_chainBytes]
    exact Nat.le_add_right _ _
  have hout := h.bytes.length_le
  rw [length_chainBytes] at hout
  omega

/-- **The next call reads at least what was shown.** -/
theorem Shown.read {rec : List Mbuf} {next : List (List Mbuf)}
    (h : Shown σ.s σ.oobmark rec next) (hgo : ¬σ.s.asked.blocks rec next) :
    σ.s.rcv.out <+:
      (mkPass { σ with s := σ.s.asked, peek := false, offset := 0 }).s.rcv.out := by
  have hpass : mkPass { σ with s := σ.s.asked, peek := false, offset := 0 } =
      mkDontblock { σ with s := σ.s.asked, peek := false, offset := 0 } rec next := by
    rw [mkPass]
    simp only [RcvSys.asked, h.mb]
    exact if_neg hgo
  obtain ⟨sb, orig, addr, control, -, -, heq⟩ :=
    mkDontblock_eq { σ with s := σ.s.asked, peek := false, offset := 0 } rec next
  rw [hpass, heq, mkData_out]
  have hmark : MkLoop.Before ⟨sb, σ.s.rcv.want, false, σ.oobmark, 0, σ.atmark⟩
      σ.s.rcv.out.length := h.mark
  have hmoved := h.clear.moved false ⟨sb, σ.s.rcv.want, false, σ.oobmark, 0, σ.atmark⟩ h.le rfl hmark
  rw [← prefix_iff_eq_take.mp h.bytes, h.oob] at hmoved
  exact hmoved

theorem PeekInv.miss {τ : MkSys} (hp : τ.peek = true) (hsb : τ.s.sb = σ.s.sb)
    (hrcv : τ.s.rcv = σ.s.rcv) (hwf : SbWf σ.s.sb) (hargs : σ.s.rcv.args = a)
    (hfresh : Unread σ.s.rcv) : PeekInv a τ :=
  ⟨hp, hsb ▸ hwf, hrcv ▸ hargs, fun _ => hrcv ▸ hfresh, by simp [hrcv, hfresh.out, hfresh.resid],
    .inl (hrcv ▸ hfresh.orig), .inl (hrcv ▸ hfresh.out)⟩

theorem PeekInv.data (hp : σ.peek = true) (hwf : SbWf σ.s.sb) (hargs : σ.s.rcv.args = a)
    (hfresh : Unread σ.s.rcv) (hmb : σ.s.sb.sbMb = rec :: next) (hgo : ¬σ.s.asked.blocks rec next)
    {orig : Nat} (horig : orig = σ.s.rcv.origResid ∨ orig = 0) (addr : Option (List Byte))
    (control : List Mbuf) :
    PeekInv a (mkData (σ.atData rec σ.s.sb orig addr control) (σ.s.pr.dataPart rec) next) := by
  let τ := σ.atData rec σ.s.sb orig addr control
  let ms := σ.s.pr.dataPart rec
  obtain ⟨pc, trunc, rets, heq, hpc⟩ := mkData_peek (σ := τ) hp ms next
  rw [heq]
  obtain ⟨hsb, hmark⟩ := mkMove_peek τ.s.rcv.oob ms τ.loop
  obtain ⟨hbytes, hlen⟩ := mkMove_bytes true τ.s.rcv.oob ms τ.loop
  obtain ⟨hclear, hbefore⟩ := mkMove_clear true τ.s.rcv.oob ms τ.loop hfresh.eor
  generalize mkMove true τ.s.rcv.oob ms τ.loop = r at *
  obtain ⟨⟨sb, resid, eor, mark, offset, atmark⟩, chain, out, stop⟩ := r
  obtain rfl : sb = σ.s.sb := hsb
  obtain rfl : mark = σ.oobmark := hmark
  have hout : out = σ.s.rcv.out ++ out := by rw [hfresh.out, nil_append]
  have hsum : out.length + resid = σ.s.rcv.want := hlen.trans hfresh.resid
  have hle : out.length ≤ σ.s.rcv.want := by omega
  have horig' : orig = σ.s.rcv.want ∨ orig = 0 := hfresh.orig ▸ horig
  rw [hout] at hbytes hclear hbefore hle
  refine ⟨hp, hwf, hargs, ?_, ?_, horig',
    .inr ⟨rec, next, ⟨hmb, hclear, hbytes, hle, hbefore, rfl⟩, fun _ => hgo, ?_⟩⟩
  · -- to start again, the call has read nothing of what it asks for
    intro hagain
    obtain ⟨hsame, hne, heor'⟩ : orig = resid ∧ orig ≠ 0 ∧ eor = false := by
      rcases hpc with rfl | ⟨-, h⟩ | ⟨rfl, -⟩
      · rcases hagain with h | h <;> cases h
      · exact h
      · rcases hagain with h | h <;> cases h
    have hwant := horig'.resolve_right hne
    exact ⟨hsame.symm.trans hwant, hwant, heor', hout.symm.trans (length_eq_zero_iff.mp (by omega))⟩
  · show (σ.s.rcv.out ++ out).length + resid = σ.s.rcv.want
    rw [← hout]
    exact hsum
  · -- the socket is open, so it was not for its state that the call did not wait
    intro hwait
    obtain ⟨-, herr, hmore⟩ : pc = .waitall ∧ σ.s.soError = 0 ∧ σ.s.cantrcvmore = false := by
      rcases hpc with rfl | ⟨rfl, -⟩ | h
      · cases hwait
      · cases hwait
      · exact h
    by_contra hstuck
    obtain ⟨hshort, hany⟩ := not_or.mp hstuck
    exact hgo ⟨not_not.mp hshort, herr, hmore, Bool.not_eq_true _ ▸ hany⟩

theorem PeekInv.pass (hp : σ.peek = true) (hwf : SbWf σ.s.sb) (hargs : σ.s.rcv.args = a)
    (hfresh : Unread σ.s.rcv) : PeekInv a (mkPass σ) := by
  rcases mkPass_cases σ with ⟨s, heq, hsb, hrcv⟩ | ⟨rec, next, hmb, hgo, heq⟩
  · rw [heq]
    exact PeekInv.miss (σ := σ) hp hsb hrcv hwf hargs hfresh
  · obtain ⟨sb, orig, addr, control, hsb, horig, hdata⟩ := mkDontblock_eq σ rec next
    rw [heq, hdata, hsb hp]
    refine PeekInv.data hp hwf hargs hfresh hmb ?_ horig addr control
    -- what is left to read is all that was asked for
    show ¬(((σ.s.rcv.dontwait = false ∧ σ.s.sb.sbCc < σ.s.rcv.want) ∧
      (_ ∨ (σ.s.rcv.waitall = true ∧ σ.s.rcv.want ≤ σ.s.sb.sbHiwat)) ∧ _) ∧ _)
    rw [← hfresh.resid]
    exact hgo

/-! ### Arrivals -/

theorem PeekInv.arrive (h : PeekInv a σ) (hpc : σ.s.pc ≠ .idle) {sb : Sockbuf} (hwf : SbWf sb)
    (hcc : σ.s.sb.sbCc ≤ sb.sbCc) (hlim : SameMarks σ.s.sb sb) (hhead : HeadGrown σ.s.sb sb) :
    PeekInv a { σ with s := { σ.s with sb } } := by
  refine ⟨h.peek, hwf, h.args, h.fresh, h.len, h.orig, ?_⟩
  by_cases hout : σ.s.rcv.out = []
  · exact .inl hout
  · obtain ⟨rec, next, hshown, -, hgoes⟩ := h.shown.resolve_left hout
    have hpart := hshown.dataPart_ne hout
    obtain ⟨rec', next', hmb, hgrown, hnext⟩ := hhead rec next hshown.mb (by
      rintro rfl
      apply hpart
      unfold SoProto.dataPart
      split_ifs <;> rfl)
    have hgrown' := hgrown.dataPart σ.s.pr hpart
    refine .inr ⟨rec', next', ⟨hmb, hshown.clear.grown hgrown', hshown.bytes.trans hgrown'.bytes,
      hshown.le, hshown.mark, ?_⟩, fun hidle => absurd hidle hpc, fun hwait => ?_⟩
    · exact hshown.oob.trans (hgrown'.head fun ty => decide (ty = .oobdata)).symm
    · refine (hgoes hwait).imp (mt fun hshort => ?_) hgrown.any
      obtain ⟨⟨hdont, hlt⟩, hlow, hnil, hatomic⟩ := hshort
      refine ⟨⟨hdont, Nat.lt_of_le_of_lt hcc hlt⟩, ?_, ?_, hatomic⟩
      · refine hlow.imp (fun hlow => ?_) (And.imp id fun hhi => hhi.trans hlim.1.le)
        have hlow' : (sb.sbCc : Int) < u32 sb.sbLowat := hlow
        rw [hlim.2] at hlow'
        exact lt_of_le_of_lt (Int.ofNat_le.mpr hcc) hlow'
      · by_contra hne
        exact hnext hne hnil

theorem PeekInv.append (h : PeekInv a σ) (hpc : σ.s.pc ≠ .idle) (m : List Mbuf) :
    PeekInv a (mkStep σ (.append m)) := by
  obtain ⟨-, hcc, hmarks⟩ := sbappend_spec σ.s.sb m
  exact h.arrive hpc (sbappend_wf m h.wf) (by omega) hmarks (sbappend_head _ m)

theorem PeekInv.appendaddr (h : PeekInv a σ) (hpc : σ.s.pc ≠ .idle) (asa : List Byte)
    (m0 control : List Mbuf) (mget : Bool) :
    PeekInv a (mkStep σ (.appendaddr asa m0 control mget)) := by
  have hwf := sbappendaddr_wf asa m0 control mget h.wf
  rcases sbappendaddr_eq σ.s.sb asa m0 control mget with heq | ⟨m, cnt, heq⟩
  · rw [mkStep, heq]
    exact h
  · rw [mkStep, heq]
    rw [heq] at hwf
    refine h.arrive hpc hwf (Nat.le_add_right _ _) ⟨rfl, rfl⟩ ?_
    intro rec next hmb _
    refine ⟨rec, next ++ [m], ?_, .inl rfl, by simp⟩
    show σ.s.sb.sbMb ++ [m] = _
    rw [hmb]
    rfl

theorem PeekInv.mark {a : Rcv} (h : PeekInv a σ) (n : Nat) :
    PeekInv a (mkStep σ (.mark n)) := by
  rw [mkStep]
  split_ifs with hn
  · refine ⟨h.peek, h.wf, h.args, h.fresh, h.len, h.orig, h.shown.imp id ?_⟩
    rintro ⟨rec, next, hshown, hpc⟩
    refine ⟨rec, next, { hshown with mark := .inr ((hshown.length_le h.wf).trans hn) }, hpc⟩
  · exact h

/-! ## Runs -/

/-- A call that peeks is woken up from the sleep of `MSG_WAITALL` only while there is no data. -/
def PeekCond (σ : MkSys) (op : MkOp) : Prop :=
  σ.peek = true → σ.s.pc = .waitall → op = .wake 0 → σ.s.sb.sbCc = 0
deriving Decidable

theorem PeekInv.return (h : PeekInv a σ) (error : Nat) (hpc : σ.s.pc = .wait ∨ σ.s.pc = .waitall) :
    PeekInv a { σ with s := soReturn σ.s error } := by
  refine ⟨h.peek, h.wf, h.args, ?_, h.len, h.orig, ?_⟩
  · rintro (hidle | hidle) <;> cases hidle
  · rcases hpc with hpc | hpc
    · exact .inl (h.fresh (.inr hpc)).out
    · refine h.shown.imp id ?_
      rintro ⟨rec, next, hshown, -, hgoes⟩
      refine ⟨rec, next, { hshown with }, fun _ hblocks => ?_, fun hwait => by cases hwait⟩
      rcases hgoes hpc with hshort | hany
      · exact hshort hblocks.1
      · rw [hblocks.2.2.2] at hany
        cases hany

theorem PeekInv.ends (hp : σ.peek = true) (hwf : SbWf σ.s.sb) (hargs : σ.s.rcv.args = a)
    (hout : σ.s.rcv.out = []) (hresid : σ.s.rcv.resid = σ.s.rcv.want)
    (horig : σ.s.rcv.origResid = σ.s.rcv.want ∨ σ.s.rcv.origResid = 0) {pc : RcvPc}
    (hpc : pc = .idle ∨ (pc = .restart ∧ σ.s.rcv.again) ∨ pc = .waitall) (trunc : Bool)
    (rets : List RcvRet) : PeekInv a (σ.ends pc trunc rets) := by
  have hlen : σ.s.rcv.out.length + σ.s.rcv.resid = σ.s.rcv.want := by
    rw [hout, hresid]
    exact Nat.zero_add _
  refine ⟨hp, hwf, hargs, fun hagain => ?_, hlen, horig, .inl hout⟩
  obtain ⟨-, hne, heor⟩ : σ.s.rcv.again := by
    rcases hpc with rfl | ⟨-, h⟩ | rfl
    · rcases hagain with h | h <;> cases h
    · exact h
    · rcases hagain with h | h <;> cases h
  exact ⟨hresid, horig.resolve_right hne, heor, hout⟩

theorem PeekInv.rewake (h : PeekInv a σ) (hcc : σ.s.sb.sbCc = 0) (hpc : σ.s.pc = .waitall) :
    PeekInv a (mkStep σ (.wake 0)) := by
  have hout : σ.s.rcv.out = [] := by
    rcases h.shown with hout | ⟨rec, next, hshown, -⟩
    · exact hout
    · exact length_eq_zero_iff.mp (Nat.le_zero.mp (hcc ▸ hshown.length_le h.wf))
  have hresid : σ.s.rcv.resid = σ.s.rcv.want := by
    have hlen := h.len
    rw [hout] at hlen
    exact (Nat.zero_add _).symm.trans hlen
  simp only [mkStep, hpc, ne_eq, not_true_eq_false, if_false]
  split
  · obtain ⟨pc, trunc, rets, heq, hnext⟩ := mkWaitall_peek h.peek
    rw [heq]
    exact PeekInv.ends h.peek h.wf h.args hout hresid h.orig
      (hnext.imp id (Or.imp id And.left)) trunc rets
  · next rec next hmb =>
    have hnil : chainBytes rec = [] := by
      have hwf := h.wf
      rw [SbWf, hcc, sbBytes, hmb, flatMap_cons, length_append] at hwf
      exact length_eq_zero_iff.mp (by omega)
    obtain ⟨hbytes, hlen⟩ := mkMove_bytes true σ.s.rcv.oob rec σ.loop
    rw [hnil] at hbytes
    have hnone := prefix_nil.mp hbytes
    rw [hnone] at hlen
    obtain ⟨hsb, -⟩ := mkMove_peek σ.s.rcv.oob rec σ.loop
    obtain ⟨pc, trunc, rets, heq, hnext⟩ := mkData_peek h.peek rec next
    rw [heq]
    refine PeekInv.ends (σ := mkMoved σ (mkMove true σ.s.rcv.oob rec σ.loop)) h.peek ?_ h.args ?_ ?_
      h.orig (hnext.imp id (Or.imp id And.left)) trunc rets
    · show SbWf (mkMove true σ.s.rcv.oob rec σ.loop).var.sb
      rw [hsb]
      exact h.wf
    · show σ.s.rcv.out ++ (mkMove true σ.s.rcv.oob rec σ.loop).out = []
      rw [hout, hnone, nil_append]
    · show (mkMove true σ.s.rcv.oob rec σ.loop).var.resid = σ.s.rcv.want
      exact ((Nat.zero_add _).symm.trans hlen).trans hresid

/-- **One step of a call that peeks.** -/
theorem PeekInv.step {a : Rcv} (h : PeekInv a σ) (hpc : σ.s.pc ≠ .idle) {op : MkOp}
    (hop : PeekCond σ op) : PeekInv a (mkStep σ op) := by
  cases op with
  | append m => exact h.append hpc m
  | appendaddr asa m0 control mget => exact h.appendaddr hpc asa m0 control mget
  | mark n => exact h.mark n
  | call want waitall dontwait paddr controlp peek =>
    rw [mkStep, if_neg hpc]
    exact h
  | go =>
    rw [mkStep]
    split_ifs with hre
    · exact .pass h.peek h.wf h.args (h.fresh (.inl hre))
    · exact h
  | wake error =>
    cases hat : σ.s.pc with
    | idle => exact absurd hat hpc
    | restart =>
      simp only [mkStep, hat]
      exact h
    | wait =>
      simp only [mkStep, hat]
      split
      · exact h.return error (.inl hat)
      · exact .pass h.peek h.wf h.args (h.fresh (.inr hat))
    | waitall =>
      by_cases he : error = 0
      · subst he
        exact h.rewake (hop h.peek hat rfl) hat
      · simp only [mkStep, hat, ne_eq, he, not_false_eq_true, if_true]
        exact h.return 0 (.inr hat)
  | socket soError cantrcvmore nbio connected =>
    refine ⟨h.peek, h.wf, h.args, h.fresh, h.len, h.orig, h.shown.imp id ?_⟩
    rintro ⟨rec, next, hshown, -, hgoes⟩
    exact ⟨rec, next, { hshown with }, fun hidle => absurd hidle hpc, hgoes⟩

abbrev GoesOn (σ : MkSys) (ops : List MkOp) : Prop :=
  MeetsAll mkStep (fun σ _ => σ.s.pc ≠ .idle) σ ops

theorem PeekInv.run (h : PeekInv a σ) (hon : GoesOn σ ops) (hcond : MeetsAll mkStep PeekCond σ ops) :
    PeekInv a (ops.foldl mkStep σ) := by
  induction ops generalizing σ with
  | nil => exact h
  | cons op ops ih => exact ih (h.step hon.1 hcond.1) hon.2 hcond.2

/-! ### The buffer -/

def SameBuf (σ τ : MkSys) : Prop := τ.s.sb = σ.s.sb ∧ τ.oobmark = σ.oobmark

theorem mkData_sameBuf (hp : σ.peek = true) (chain : List Mbuf) (next : List (List Mbuf)) :
    SameBuf σ (mkData σ chain next) ∧ (mkData σ chain next).peek = true := by
  obtain ⟨pc, trunc, rets, heq, -⟩ := mkData_peek hp chain next
  rw [heq]
  exact ⟨mkMove_peek σ.s.rcv.oob chain σ.loop, hp⟩

theorem mkPass_sameBuf (hp : σ.peek = true) :
    SameBuf σ (mkPass σ) ∧ (mkPass σ).peek = true := by
  rcases mkPass_cases σ with ⟨s, heq, hsb, -⟩ | ⟨rec, next, -, -, heq⟩
  · rw [heq]
    exact ⟨⟨hsb, rfl⟩, hp⟩
  · obtain ⟨sb, orig, addr, control, hsb, -, hdata⟩ := mkDontblock_eq σ rec next
    rw [heq, hdata, hsb hp]
    exact mkData_sameBuf (σ := σ.atData rec σ.s.sb orig addr control) hp _ next

theorem mkStep_sameBuf (hp : σ.peek = true) (hpc : σ.s.pc ≠ .idle) (hop : op.arrives = false) :
    SameBuf σ (mkStep σ op) ∧ (mkStep σ op).peek = true := by
  cases op with
  | append | appendaddr | mark | socket => cases hop
  | call want waitall dontwait paddr controlp peek =>
    rw [mkStep, if_neg hpc]
    exact ⟨⟨rfl, rfl⟩, hp⟩
  | go =>
    rw [mkStep]
    split
    · exact mkPass_sameBuf hp
    · exact ⟨⟨rfl, rfl⟩, hp⟩
  | wake error =>
    rw [mkStep]
    split
    · split
      · exact ⟨⟨rfl, rfl⟩, hp⟩
      · exact mkPass_sameBuf hp
    · split
      · exact ⟨⟨rfl, rfl⟩, hp⟩
      · split
        · obtain ⟨pc, trunc, rets, heq, -⟩ := mkWaitall_peek hp
          rw [heq]
          exact ⟨⟨rfl, rfl⟩, hp⟩
        · exact mkData_sameBuf hp _ _
    · exact ⟨⟨rfl, rfl⟩, hp⟩

theorem SameBuf.arrives {ρ : MkSys} (h : SameBuf σ ρ) (hop : op.arrives = true) :
    SameBuf (mkStep σ op) (mkStep ρ op) ∧ (mkStep ρ op).peek = ρ.peek := by
  obtain ⟨hsb, hmark⟩ := h
  cases op with
  | append | appendaddr => exact ⟨⟨by simp only [mkStep, hsb], hmark⟩, rfl⟩
  | mark n =>
    simp only [mkStep, hsb]
    split
    · exact ⟨⟨hsb, rfl⟩, rfl⟩
    · exact ⟨⟨hsb, hmark⟩, rfl⟩
  | call | go | wake => cases hop
  | socket soError cantrcvmore nbio connected => exact ⟨⟨hsb, hmark⟩, rfl⟩

/-- **A call that peeks leaves the buffer as it is without the call.** -/
theorem SameBuf.run {ρ : MkSys} (h : SameBuf σ ρ) (hp : ρ.peek = true) (hon : GoesOn ρ ops) :
    SameBuf ((ops.filter (·.arrives)).foldl mkStep σ) (ops.foldl mkStep ρ) := by
  induction ops generalizing σ ρ with
  | nil => exact h
  | cons op ops ih =>
    cases hop : op.arrives with
    | true =>
      obtain ⟨hsame, hpeek⟩ := h.arrives hop
      rw [filter_cons_of_pos hop]
      exact ih hsame (hpeek.trans hp) hon.2
    | false =>
      obtain ⟨⟨hsb, hmark⟩, hpeek⟩ := mkStep_sameBuf hp hon.1 hop
      rw [filter_cons_of_neg (by simp [hop])]
      exact ih ⟨hsb.trans h.1, hmark.trans h.2⟩ hpeek hon.2

/-! ### The call as a whole -/

def MkSys.after (σ : MkSys) (call : MkOp) (ops : List MkOp) : MkSys :=
  ops.foldl mkStep (mkStep σ call)

/-- What is returned is the beginning of the data in the first record, and of what the same call
without `MSG_PEEK` returns later. -/
structure Previews (σ : MkSys) (again : MkOp) : Prop where
  once : σ.s.rcv.out <+: chainBytes (σ.s.pr.dataPart (σ.s.sb.sbMb.headD []))
  later : ∀ ops : List MkOp, (∀ op ∈ ops, op.isCall = false) →
    σ.s.rcv.out <+: (σ.after again ops).s.rcv.out

theorem PeekInv.previews (h : PeekInv a σ) (hidle : σ.s.pc = .idle) :
    Previews σ (.call a.want a.waitall a.dontwait a.paddr a.controlp false) := by
  have hcall : mkStep σ (.call a.want a.waitall a.dontwait a.paddr a.controlp false) =
      mkPass { σ with s := σ.s.asked, peek := false, offset := 0 } := by
    rw [mkStep, if_pos hidle, ← h.args]
    rfl
  refine ⟨?_, fun ops hops => ?_⟩
  · rcases h.shown with hout | ⟨rec, next, hshown, -⟩
    · rw [hout]
      exact nil_prefix
    · rw [hshown.mb]
      exact hshown.bytes
  · refine IsPrefix.trans ?_ (foldl_mkStep_out _ hops)
    rw [hcall]
    rcases h.shown with hout | ⟨rec, next, hshown, hgo, -⟩
    · rw [hout]
      exact nil_prefix
    · exact hshown.read (hgo hidle)

/-- **`MSG_PEEK` is read-only**, for a call from any state of the socket buffer, with any arrivals
until it returns. -/
theorem peek_reads_only (σ : MkSys) (hidle : σ.s.pc = .idle) (hwf : SbWf σ.s.sb) (want : Nat)
    (waitall dontwait paddr controlp : Bool) (ops : List MkOp)
    (hon : GoesOn (mkStep σ (.call want waitall dontwait paddr controlp true)) ops)
    (hcond : MeetsAll mkStep PeekCond
      (mkStep σ (.call want waitall dontwait paddr controlp true)) ops) :
    SameBuf ((ops.filter (·.arrives)).foldl mkStep σ)
        (σ.after (.call want waitall dontwait paddr controlp true) ops) ∧
      ((σ.after (.call want waitall dontwait paddr controlp true) ops).s.pc = .idle →
        Previews (σ.after (.call want waitall dontwait paddr controlp true) ops)
          (.call want waitall dontwait paddr controlp false)) := by
  let a : Rcv := { want, resid := want, origResid := want, waitall, dontwait, paddr, controlp }
  have hcall : mkStep σ (.call want waitall dontwait paddr controlp true) =
      mkPass { σ with s := { σ.s with rcv := a }, peek := true, offset := 0 } := by
    rw [mkStep, if_pos hidle]
  rw [MkSys.after]
  rw [hcall] at hon hcond ⊢
  constructor
  · obtain ⟨hsame, hp⟩ := mkPass_sameBuf
      (σ := { σ with s := { σ.s with rcv := a }, peek := true, offset := 0 }) rfl
    exact SameBuf.run (σ := σ) ⟨hsame.1, hsame.2⟩ hp hon
  · intro hret
    have hinv := PeekInv.pass (a := a)
      (σ := { σ with s := { σ.s with rcv := a }, peek := true, offset := 0 }) rfl hwf rfl
      ⟨rfl, rfl, rfl, rfl⟩
    exact (hinv.run hon hcond).previews hret

/-- A stream socket with three bytes in its buffer, which holds no more than four. -/
def peekThree : MkSys :=
  { s := { pr := { prAtomic := false, prAddr := false, prConnrequired := true }
           sb := { sbCc := 3, sbMbcnt := 128, sbHiwat := 4, sbMbmax := 256, sbLowat := 1
                   sbMb := [[{ mData := [1, 2, 3] }]] } } }

/-- A call for five bytes with `MSG_WAITALL` that gets another byte, and is interrupted. -/
theorem peek_reads_only_interrupted :
    (peekThree.after (.call 5 true false false false true)
        [.append [{ mData := [4] }], .wake 4]).s.pc = .idle ∧
      (peekThree.after (.call 5 true false false false true)
        [.append [{ mData := [4] }], .wake 4]).s.rcv.out = [1, 2, 3] ∧
      Previews (peekThree.after (.call 5 true false false false true)
        [.append [{ mData := [4] }], .wake 4]) (.call 5 true false false false false) := by
  have hall := peek_reads_only peekThree (by decide) (by unfold SbWf; decide) 5 true false false false
    [.append [{ mData := [4] }], .wake 4] (by decide) (by decide)
  exact ⟨by decide, by decide, hall.2 (by decide)⟩

/-- The same call, woken up by the byte: it reads the three bytes a second time. -/
theorem peek_waitall_twice :
    (peekThree.after (.call 5 true false false false true)
        [.append [{ mData := [4] }], .wake 0]).s.pc = .idle ∧
      (peekThree.after (.call 5 true false false false true)
        [.append [{ mData := [4] }], .wake 0]).s.rcv.out = [1, 2, 3, 1, 2] ∧
      ¬Previews (peekThree.after (.call 5 true false false false true)
        [.append [{ mData := [4] }], .wake 0]) (.call 5 true false false false false) := by
  refine ⟨by decide, by decide, fun h => ?_⟩
  have honce := h.once
  revert honce
  decide

end Anp
