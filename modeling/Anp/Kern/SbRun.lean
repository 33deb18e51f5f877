import Anp.Kern.PeekRun
import Anp.Kern.SbCount

/-!
# SbRun — the counters of a socket buffer, over runs

The operations on a socket buffer in any order: those of `kern/uipc_socket2.c` called directly, and
`soreceive` step by step, so that they come in between its sleeps too.
-/

namespace Anp

open Machine Runs List

variable {σ : MkSys}

/-! ## The operations -/

inductive CountOp where
  -- `sbappend`, `sbappendaddr`, `soreceive`
  | rcv (op : MkOp)
  | sbappendrecord (m : List Mbuf)
  | sbappendcontrol (m0 control : List Mbuf)
  | sbinsertoob (m : List Mbuf)
  | sbcompress (m : List Mbuf)
  | sbdrop (len : Int)
  | sbdroprecord
  | sbflush
  deriving DecidableEq, Repr

def MkSys.withSb (σ : MkSys) (sb : Sockbuf) : MkSys := { σ with s := { σ.s with sb } }

/-- The operation, with counters that do not wrap. A reader in the sleep of `MSG_WAITALL` has the
buffer locked, and `sbflush` then panics. -/
def countDo (σ : MkSys) : CountOp → Option MkSys
  | .rcv op => some (mkStep σ op)
  | .sbappendrecord m => some (σ.withSb (sbappendrecord σ.s.sb m))
  | .sbappendcontrol m0 control =>
    (sbappendcontrol σ.s.sb m0 control).map fun r => σ.withSb r.1
  | .sbinsertoob m => some (σ.withSb (sbinsertoob σ.s.sb m))
  | .sbcompress m => some (σ.withSb (sbcompress σ.s.sb m))
  | .sbdrop len => (sbdrop σ.s.sb len).map σ.withSb
  | .sbdroprecord => some (σ.withSb (sbdroprecord σ.s.sb))
  | .sbflush => if σ.s.pc = .waitall then none else (sbflush σ.s.sb).map σ.withSb

def Sockbuf.wrap (sb : Sockbuf) : Sockbuf :=
  { sb with sbCc := u32 sb.sbCc, sbMbcnt := u32 sb.sbMbcnt }

/-- One operation; `none` is a panic, and the counters are `u_long`. -/
def countStep (σ : MkSys) (op : CountOp) : Option MkSys :=
  (countDo σ op).map fun τ => τ.withSb τ.s.sb.wrap

def countNext (σ : MkSys) (op : CountOp) : MkSys := (countStep σ op).getD σ

/-! ## `soreceive` -/

theorem Counts.move {o : Bool} {ms rest : List Mbuf} {l : MkLoop} (h : Counts l.sb (ms ++ rest)) :
    Counts (mkMove false o ms l).var.sb ((mkMove false o ms l).chain ++ rest) := by
  induction ms generalizing l with
  | nil => exact h
  | cons m ms ih =>
    have hfree : Counts ((l.whole false m).nearer false m.mLen).sb (ms ++ rest) := by
      rw [MkLoop.nearer_sb]
      exact Counts.free h
    rw [mkMove]
    simp only [Bool.false_eq_true, ↓reduceIte]
    split_ifs
    · exact h
    · exact hfree
    · exact ih hfree
    · dsimp only
      rw [MkLoop.nearer_sb]
      exact Counts.trim h (min_le_right _ _)

theorem Accounted.mkFinish (hp : σ.peek = false) {chain : List Mbuf}
    {next : List (List Mbuf)} (h : Counts σ.s.sb (chain ++ next.flatten))
    (hnext : ∀ rec ∈ next, rec ≠ []) : Accounted (mkFinish σ chain next).s.sb := by
  have hsettle : Accounted (mkSettle σ.peek σ.s chain next).sb := by
    have hsb : Accounted { σ.s.sb with sbMb := if chain = [] then next else chain :: next } := by
      split_ifs with hnil
      · rw [hnil] at h
        exact ⟨h.of_eq rfl rfl, hnext⟩
      · exact ⟨h.of_eq rfl rfl, forall_mem_cons.mpr ⟨hnil, hnext⟩⟩
    rw [mkSettle, hp]
    simp only [Bool.false_eq_true, ↓reduceIte, soSettle]
    split
    · exact hsb.sbdroprecord
    · exact hsb
  rw [Anp.mkFinish]
  split
  · exact hsettle
  · exact hsettle

theorem Accounted.mkWaitall (hp : σ.peek = false) (h : Counts σ.s.sb []) :
    Accounted (mkWaitall σ).s.sb := by
  rw [Anp.mkWaitall]
  split
  · exact Accounted.mkFinish hp h (forall_mem_nil _)
  · rw [hp]
    exact ⟨h.of_eq rfl rfl, forall_mem_nil _⟩

theorem Accounted.mkData (hp : σ.peek = false) {chain : List Mbuf}
    {next : List (List Mbuf)} (h : Counts σ.s.sb (chain ++ next.flatten))
    (hnext : ∀ rec ∈ next, rec ≠ []) : Accounted (mkData σ chain next).s.sb := by
  rw [Anp.mkData, hp]
  have hmove := Counts.move (o := σ.s.rcv.oob) (l := σ.loop) h
  generalize mkMove false σ.s.rcv.oob chain σ.loop = r at *
  split
  · next hwait =>
    obtain ⟨-, hnil, -, -, -, -, hlast⟩ := hwait
    rw [hnil, hlast] at hmove
    exact Accounted.mkWaitall (σ := mkMoved σ r) hp hmove
  · exact Accounted.mkFinish (σ := mkMoved σ r) hp hmove hnext

theorem Counts.soAddr {s : RcvSys} {rec rest : List Mbuf} (h : Counts s.sb (rec ++ rest)) :
    Counts (soAddr s rec).1.sb ((soAddr s rec).2 ++ rest) := by
  cases rec with
  | nil => exact h
  | cons m ms =>
    rw [Anp.soAddr]
    split
    · exact Counts.free h
    · exact h

theorem Counts.soControl {s : RcvSys} {ms rest : List Mbuf} (h : Counts s.sb (ms ++ rest)) :
    Counts (soControl s ms).1.sb ((soControl s ms).2 ++ rest) := by
  induction ms generalizing s with
  | nil => exact h
  | cons m ms ih =>
    rw [Anp.soControl]
    split
    · exact ih (Counts.free h)
    · exact h

theorem Accounted.mkPass (h : Accounted σ.s.sb) : Accounted (mkPass σ).s.sb := by
  by_cases hp : σ.peek = true
  · rw [(mkPass_sameBuf hp).1.1]
    exact h
  · have hp' : σ.peek = false := by simpa using hp
    obtain ⟨pc, rets, hblock⟩ := soBlock_eq σ.s
    rw [Anp.mkPass, hblock]
    split
    · split
      · exact h
      · split
        · exact h
        · exact h
    · next rec next hmb =>
      split
      · exact h
      · have hcounts := h.counts
        have hrecs := h.recs
        rw [hmb] at hcounts hrecs
        have hdata := Counts.soControl (Counts.soAddr
          (s := { σ.s with rcv := { σ.s.rcv with hit := true } }) hcounts)
        unfold mkDontblock mkAddr mkControl
        simp only [if_neg hp]
        generalize Anp.soControl _ _ = r at *
        exact Accounted.mkData (σ := { σ with
          s := { r.1 with rcv := { r.1.rcv with oob := r.2.head?.any (·.mType = .oobdata) } }
          offset := 0 }) hp' hdata fun r hr => hrecs r (mem_cons_of_mem _ hr)

/-- **`soreceive` keeps the counters right.** -/
theorem Accounted.mkStep (h : Accounted σ.s.sb) (op : MkOp) :
    Accounted (mkStep σ op).s.sb := by
  cases op with
  | append m => exact h.sbappend m
  | appendaddr asa m0 control mget => exact h.sbappendaddr asa m0 control mget
  | mark n =>
    rw [Anp.mkStep]
    split <;> exact h
  | call | go =>
    rw [Anp.mkStep]
    split
    · exact Accounted.mkPass h
    · exact h
  | wake error =>
    rw [Anp.mkStep]
    split
    · split
      · exact h
      · exact Accounted.mkPass h
    · split
      · exact h
      · by_cases hp : σ.peek = true
        · split
          · obtain ⟨pc, trunc, rets, heq, -⟩ := mkWaitall_peek hp
            rw [heq]
            exact h
          · next rec next _ =>
            rw [(mkData_sameBuf hp rec next).1.1]
            exact h
        · have hp' : σ.peek = false := by simpa using hp
          have hcounts := h.counts
          have hrecs := h.recs
          split
          · next hmb =>
            rw [hmb] at hcounts
            exact Accounted.mkWaitall hp' hcounts
          · next rec next hmb =>
            rw [hmb] at hcounts hrecs
            exact Accounted.mkData hp' hcounts fun r hr => hrecs r (mem_cons_of_mem _ hr)
    · exact h
  | socket soError cantrcvmore nbio connected => exact h

/-! ## Runs -/

/-- `sbflush` is called for a buffer that is not locked, with fewer than `2^31` bytes; and what is
in the buffer afterwards can be counted. -/
@[mk_iff]
structure CountCond (σ : MkSys) (op : CountOp) : Prop where
  flush : op = .sbflush → σ.s.pc ≠ .waitall ∧ σ.s.sb.sbCc < 2 ^ 31
  fits : ∀ τ ∈ countDo σ op,
    chainLen τ.s.sb.sbMb.flatten < 2 ^ 32 ∧ chainSpace τ.s.sb.sbMb.flatten < 2 ^ 32

instance (σ : MkSys) (op : CountOp) : Decidable (CountCond σ op) :=
  decidable_of_iff' _ (countCond_iff σ op)

/-- The states that runs from a right buffer with no reader lead to. -/
abbrev CountReach (C : MkSys → CountOp → Prop) : MkSys → Prop :=
  Reach (fun σ => σ.s.pc = .idle ∧ Accounted σ.s.sb) (By countNext C)

theorem Accounted.countDo {σ τ : MkSys} (h : Accounted σ.s.sb) {op : CountOp} (hdo : countDo σ op = some τ)
    (hcc : op = .sbflush → σ.s.sb.sbCc < 2 ^ 31) : Accounted τ.s.sb := by
  cases op with
  | rcv op =>
    obtain rfl := Option.some.inj hdo
    exact h.mkStep op
  | sbappendrecord m =>
    obtain rfl := Option.some.inj hdo
    exact h.sbappendrecord m
  | sbappendcontrol m0 control =>
    obtain ⟨r, hr, rfl⟩ := Option.map_eq_some_iff.mp hdo
    exact h.sbappendcontrol hr
  | sbinsertoob m =>
    obtain rfl := Option.some.inj hdo
    exact h.sbinsertoob m
  | sbcompress m =>
    obtain rfl := Option.some.inj hdo
    exact h.sbcompress m
  | sbdrop len =>
    obtain ⟨sb, hsb, rfl⟩ := Option.map_eq_some_iff.mp hdo
    exact h.sbdrop hsb
  | sbdroprecord =>
    obtain rfl := Option.some.inj hdo
    exact h.sbdroprecord
  | sbflush =>
    rw [Anp.countDo] at hdo
    split at hdo
    · cases hdo
    · obtain ⟨sb, hsb, rfl⟩ := Option.map_eq_some_iff.mp hdo
      obtain ⟨sb', hsb', hmb, hzero, hcnt⟩ := h.sbflush (hcc rfl)
      obtain rfl : sb' = sb := Option.some.inj (hsb'.symm.trans hsb)
      refine ⟨?_, ?_⟩
      · show Counts sb' sb'.sbMb.flatten
        rw [hmb]
        exact ⟨hzero, hcnt⟩
      · show ∀ rec ∈ sb'.sbMb, rec ≠ []
        rw [hmb]
        exact forall_mem_nil _

theorem Accounted.wrap {sb : Sockbuf} (h : Accounted sb)
    (hfits : chainLen sb.sbMb.flatten < 2 ^ 32 ∧ chainSpace sb.sbMb.flatten < 2 ^ 32) :
    Accounted sb.wrap := by
  rw [← h.counts.cc, ← h.counts.mbcnt] at hfits
  refine ⟨h.counts.of_eq ?_ ?_, h.recs⟩
  · show u32 sb.sbCc = sb.sbCc
    rw [u32_of_range (by omega) (by omega)]
    exact Int.toNat_natCast _
  · show u32 sb.sbMbcnt = sb.sbMbcnt
    rw [u32_of_range (by omega) (by omega)]
    exact Int.toNat_natCast _

theorem Accounted.next (h : Accounted σ.s.sb) {op : CountOp} (hop : CountCond σ op) :
    Accounted (countNext σ op).s.sb := by
  rw [countNext, countStep]
  cases hdo : Anp.countDo σ op with
  | none => exact h
  | some τ => exact (h.countDo hdo fun he => (hop.flush he).2).wrap (hop.fits τ hdo)

/-- **Socket-buffer accounting.** -/
theorem sb_accounting {σ : MkSys} (h : CountReach CountCond σ) :
    Accounted σ.s.sb ∧ (∀ len : Int, len ≤ σ.s.sb.sbCc → (countStep σ (.sbdrop len)).isSome) ∧
      (CountCond σ .sbflush → ∃ τ, countStep σ .sbflush = some τ ∧
        τ.s.sb.sbMb = [] ∧ τ.s.sb.sbCc = 0 ∧ τ.s.sb.sbMbcnt = 0) := by
  have hacc : Accounted σ.s.sb := by
    refine Reach.ops (I := fun σ => Accounted σ.s.sb) ?_ ?_ h
    · exact fun σ hinit => hinit.2
    · exact fun σ op hI hop => hI.next hop
  refine ⟨hacc, fun len hlen => ?_, fun hflush => ?_⟩
  · rw [countStep, countDo, Option.isSome_map, Option.isSome_map]
    exact hacc.sbdrop_isSome hlen
  · obtain ⟨hunlocked, hcc⟩ := hflush.flush rfl
    obtain ⟨sb, hsb, hmb, hzero, hcnt⟩ := hacc.sbflush hcc
    refine ⟨(σ.withSb sb).withSb sb.wrap, ?_, hmb, ?_, ?_⟩
    · rw [countStep, countDo, if_neg hunlocked, hsb]
      rfl
    · show u32 sb.sbCc = 0
      rw [hzero]
      rfl
    · show u32 sb.sbMbcnt = 0
      rw [hcnt]
      rfl

/-- Data and urgent data arrive, a call reads three bytes, and one more is dropped. -/
def countedRun : List CountOp :=
  [.rcv (.append [{ mData := [4, 5] }]), .sbinsertoob [{ mType := .oobdata, mData := [9] }],
    .rcv (.call 3 false false false false false), .sbappendrecord [{ mData := [6] }, { mData := [7] }],
    .sbdrop 1]

theorem sb_accounting_counted :
    (countedRun.foldl countNext peekThree).s.sb.sbCc = 6 ∧
      Accounted (countedRun.foldl countNext peekThree).s.sb ∧
      ∃ τ, countStep (countedRun.foldl countNext peekThree) .sbflush = some τ ∧ τ.s.sb.sbMb = [] ∧
        τ.s.sb.sbCc = 0 ∧ τ.s.sb.sbMbcnt = 0 := by
  have hstart : CountReach CountCond peekThree :=
    Reach.start ⟨rfl, ⟨by decide, by decide⟩, by decide⟩
  have hall := sb_accounting (hstart.foldl (l := countedRun) (by decide))
  exact ⟨by decide, hall.1, hall.2.2 (by decide)⟩

/-- A reader for five bytes with `MSG_WAITALL` has taken three and sleeps; now the buffer is
flushed, as `tcp_disconnect` does. -/
theorem flush_locked :
    CountReach (fun _ _ => True) (countNext peekThree (.rcv (.call 5 true false false false false))) ∧
      (countNext peekThree (.rcv (.call 5 true false false false false))).s.sb.sbCc = 0 ∧
      countStep (countNext peekThree (.rcv (.call 5 true false false false false))) .sbflush = none := by
  refine ⟨?_, by decide, by decide⟩
  have hstart : CountReach (fun _ _ => True) peekThree :=
    Reach.start ⟨rfl, ⟨by decide, by decide⟩, by decide⟩
  exact hstart.step ⟨_, trivial, rfl⟩

end Anp
