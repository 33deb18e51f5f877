import Anp.Lib.Runs
import Mathlib.Logic.Function.Basic

/-!
# SbLock — the lock of a socket buffer

`sblock` and `sbunlock` of `sys/socketvar.h`, `sb_lock` of `kern/uipc_socket2.c`, and the way
`sosend` and `soreceive` use them. Kernel code runs until it sleeps, so what lies between two
sleeps is one step. The lock of a buffer is the flag `SB_LOCK`; it is kept over a sleep.
-/

namespace Anp

open Runs

variable {t : Nat}

inductive Buf where
  | snd
  | rcv
  deriving DecidableEq, Repr

variable {b : Buf}

/-- A thread in `sosend` (`so_snd`) or `soreceive` (`so_rcv`); `waitok` is `SBLOCKWAIT(flags)`. -/
inductive SockPc where
  | out
  -- asleep in `sb_lock`
  | lockWait (b : Buf)
  -- between `sblock` and `sbunlock`
  | inside (b : Buf) (waitok : Bool)
  -- asleep there
  | insideWait (b : Buf) (waitok : Bool)
  -- in the `sbwait` behind an `sbunlock`, on the way to `restart`
  | restartWait (b : Buf) (waitok : Bool)
  deriving DecidableEq, Repr

structure SbSys where
  sbLock : Buf → Bool := fun _ => false
  sbWant : Buf → Bool := fun _ => false
  pc : Nat → SockPc := fun _ => .out

variable {s : SbSys}

def ewouldblock : Nat := 35

/-- The C expression `e, 0`. -/
def comma (_ : Nat) : Nat := 0

/-- `sblock(sb, wf)`: the conditional expression is the left operand of the comma operator. `none`
while `sb_lock` sleeps; without a timeout it returns 0. -/
def sblock (s : SbSys) (b : Buf) (waitok : Bool) : SbSys × Option Nat :=
  if s.sbLock b then
    if waitok then ({ s with sbWant := Function.update s.sbWant b true }, none)
    else (s, some (comma ewouldblock))
  else ({ s with sbLock := Function.update s.sbLock b true }, some (comma 1))

def sbunlock (s : SbSys) (b : Buf) : SbSys :=
  { s with sbLock := Function.update s.sbLock b false, sbWant := Function.update s.sbWant b false }

def SbSys.setPc (s : SbSys) (t : Nat) (pc : SockPc) : SbSys :=
  { s with pc := Function.update s.pc t pc }

/-- `if (error = sblock(...)) return`: the thread sleeps, leaves, or goes on to the buffer. -/
def enterSb (s : SbSys) (t : Nat) (b : Buf) (waitok : Bool) : SbSys :=
  match sblock s b waitok with
  | (s, none) => s.setPc t (.lockWait b)
  | (s, some 0) => s.setPc t (.inside b waitok)
  | (s, some _) => s.setPc t .out

inductive SockOp where
  -- `sosend` or `soreceive` is called
  | call (t : Nat) (b : Buf) (waitok : Bool)
  -- the sleep the thread is in is over
  | wake (t : Nat)
  -- `sbwait` inside, as for `MSG_WAITALL`
  | nap (t : Nat)
  -- `sbunlock` and `goto restart`, most often with an `sbwait` between them
  | unlockWait (t : Nat)
  -- that `sbwait` returns an error, as when `SO_RCVTIMEO` has passed, and the call returns it
  | fail (t : Nat)
  -- `sbunlock` and return
  | leave (t : Nat)

/-- One step; nothing happens when the thread is not there. -/
def sockStep (s : SbSys) : SockOp → SbSys
  | .call t b waitok => if s.pc t = .out then enterSb s t b waitok else s
  | .wake t =>
    match s.pc t with
    -- the loop of `sb_lock`
    | .lockWait b => enterSb s t b true
    | .insideWait b waitok => s.setPc t (.inside b waitok)
    | .restartWait b waitok => enterSb s t b waitok
    | _ => s
  | .nap t =>
    match s.pc t with
    | .inside b waitok => s.setPc t (.insideWait b waitok)
    | _ => s
  | .unlockWait t =>
    match s.pc t with
    | .inside b waitok => (sbunlock s b).setPc t (.restartWait b waitok)
    | _ => s
  | .fail t =>
    match s.pc t with
    | .restartWait _ _ => s.setPc t .out
    | _ => s
  | .leave t =>
    match s.pc t with
    | .inside b _ => (sbunlock s b).setPc t .out
    | _ => s

/-- Between `sblock` and `sbunlock` of the buffer, asleep or not. -/
def SockPc.isInside (b : Buf) : SockPc → Bool
  | .inside b' _ | .insideWait b' _ => b' == b
  | _ => false

/-- The buffer whose lock the thread is about to ask for without waiting for it. -/
def asksNowait (s : SbSys) : SockOp → Option Buf
  | .call _ b false => some b
  | .wake t =>
    match s.pc t with
    | .restartWait b false => some b
    | _ => none
  | _ => none

/-- Nobody asks for a lock that is taken without waiting for it. -/
def NowaitCond (s : SbSys) (op : SockOp) : Prop := ∀ b ∈ asksNowait s op, s.sbLock b = false

def SbReach (C : SbSys → SockOp → Prop) (s : SbSys) : Prop := Reach (· = {}) (By sockStep C) s

/-! ## The invariant -/

theorem setPc_self (s : SbSys) (t : Nat) (pc : SockPc) : (s.setPc t pc).pc t = pc := by
  exact Function.update_self _ _ _

theorem setPc_of_ne (s : SbSys) {u : Nat} (pc : SockPc) (h : u ≠ t) :
    (s.setPc t pc).pc u = s.pc u := by
  exact Function.update_of_ne h _ _

/-- A buffer whose flag is clear has nobody inside, and never more than one. -/
structure SbInv (s : SbSys) : Prop where
  free : ∀ b t, (s.pc t).isInside b = true → s.sbLock b = true
  one : ∀ b t u, (s.pc t).isInside b = true → (s.pc u).isInside b = true → t = u

theorem SbInv.move {s' : SbSys} (h : SbInv s) {pc : SockPc}
    (hs : s'.sbLock = s.sbLock ∧ s'.pc = Function.update s.pc t pc)
    (hpc : ∀ b, pc.isInside b = true → (s.pc t).isInside b = true) : SbInv s' := by
  have hin : ∀ b u, (s'.pc u).isInside b = true → (s.pc u).isInside b = true := by
    intro b u hu
    rw [hs.2] at hu
    by_cases he : u = t
    · subst he
      rw [Function.update_self] at hu
      exact hpc b hu
    · rw [Function.update_of_ne he] at hu
      exact hu
  refine ⟨fun b u hu => ?_, fun b u v hu hv => h.one b u v (hin b u hu) (hin b v hv)⟩
  rw [hs.1]
  exact h.free b u (hin b u hu)

theorem SbInv.take (h : SbInv s) {waitok : Bool} (hfree : s.sbLock b = false)
    (hout : ∀ b', (s.pc t).isInside b' = false) :
    SbInv (({ s with sbLock := Function.update s.sbLock b true } : SbSys).setPc t
      (.inside b waitok)) := by
  have hin : ∀ b' u, ((SbSys.setPc { s with sbLock := Function.update s.sbLock b true } t
      (.inside b waitok)).pc u).isInside b' = true →
      u = t ∧ b' = b ∨ u ≠ t ∧ b' ≠ b ∧ (s.pc u).isInside b' = true := by
    intro b' u hu
    by_cases he : u = t
    · subst he
      rw [setPc_self] at hu
      exact Or.inl ⟨rfl, (eq_of_beq hu).symm⟩
    · rw [setPc_of_ne _ _ he] at hu
      refine Or.inr ⟨he, ?_, hu⟩
      rintro rfl
      exact absurd (h.free b' u hu) (Bool.eq_false_iff.mp hfree)
  refine ⟨fun b' u hu => ?_, fun b' u v hu hv => ?_⟩
  · show Function.update s.sbLock b true b' = true
    obtain ⟨-, rfl⟩ | ⟨-, hb, hu⟩ := hin b' u hu
    · exact Function.update_self _ _ _
    · rw [Function.update_of_ne hb]
      exact h.free b' u hu
  · obtain ⟨rfl, rfl⟩ | ⟨-, hb, hu⟩ := hin b' u hu
    · obtain ⟨rfl, -⟩ | ⟨-, hb, -⟩ := hin _ v hv
      · rfl
      · exact absurd rfl hb
    · obtain ⟨-, rfl⟩ | ⟨-, -, hv⟩ := hin _ v hv
      · exact absurd rfl hb
      · exact h.one b' u v hu hv

theorem SbInv.enter (h : SbInv s) {waitok : Bool} (hout : ∀ b', (s.pc t).isInside b' = false)
    (hc : waitok = false → s.sbLock b = false) :
    SbInv (enterSb s t b waitok) := by
  unfold enterSb sblock
  cases hl : s.sbLock b with
  | true =>
    cases waitok with
    | true => exact h.move ⟨rfl, rfl⟩ fun b' hb' => nomatch hb'
    | false => exact absurd hl (Bool.eq_false_iff.mp (hc rfl))
  | false => exact h.take hl hout

theorem SbInv.unlock (h : SbInv s) {pc : SockPc} (ht : (s.pc t).isInside b = true)
    (hb : ∀ b', (s.pc t).isInside b' = true → b' = b) (hpc : ∀ b', pc.isInside b' = false) :
    SbInv ((sbunlock s b).setPc t pc) := by
  have hin : ∀ b' u, (((sbunlock s b).setPc t pc).pc u).isInside b' = true →
      u ≠ t ∧ (s.pc u).isInside b' = true := by
    intro b' u hu
    by_cases he : u = t
    · subst he
      rw [setPc_self] at hu
      exact absurd hu (Bool.eq_false_iff.mp (hpc b'))
    · rw [setPc_of_ne _ _ he] at hu
      exact ⟨he, hu⟩
  refine ⟨fun b' u hu => ?_, fun b' u v hu hv => h.one b' u v (hin b' u hu).2 (hin b' v hv).2⟩
  obtain ⟨hne, hu'⟩ := hin b' u hu
  have hbb : b' ≠ b := fun he => hne (h.one b' u t hu' (he ▸ ht))
  show Function.update s.sbLock b false b' = true
  rw [Function.update_of_ne hbb]
  exact h.free b' u hu'

theorem sbInv_sockStep {op : SockOp} (h : SbInv s) (hc : NowaitCond s op) :
    SbInv (sockStep s op) := by
  cases op with
  | call t b waitok =>
    rw [sockStep]
    split
    · next hp =>
      refine h.enter (fun b' => by rw [hp]; rfl) ?_
      rintro rfl
      exact hc b rfl
    · exact h
  | wake t =>
    rw [sockStep]
    split
    · next b hp => exact h.enter (fun b' => by rw [hp]; rfl) nofun
    · next b waitok hp =>
      refine h.move ⟨rfl, rfl⟩ fun b' hb' => ?_
      rw [hp]
      exact hb'
    · next b waitok hp =>
      refine h.enter (fun b' => by rw [hp]; rfl) ?_
      rintro rfl
      refine hc b ?_
      rw [asksNowait, hp]
      rfl
    · exact h
  | nap t =>
    rw [sockStep]
    split
    · next b waitok hp =>
      refine h.move ⟨rfl, rfl⟩ fun b' hb' => ?_
      rw [hp]
      exact hb'
    · exact h
  | fail t =>
    rw [sockStep]
    split
    · exact h.move ⟨rfl, rfl⟩ fun b' hb' => by cases hb'
    · exact h
  | unlockWait | leave =>
    rw [sockStep]
    split
    · next b waitok hp =>
      refine h.unlock (by rw [hp]; exact beq_self_eq_true b) (fun b' hb' => ?_) fun _ => rfl
      rw [hp] at hb'
      exact (eq_of_beq hb').symm
    · exact h

/-- **One thread at a time between `sblock` and `sbunlock`**, in every run in which nobody asks for
a lock that is taken without waiting for it. -/
theorem sb_lock_exclusive {s : SbSys} (h : SbReach NowaitCond s) (b : Buf) (t u : Nat)
    (ht : (s.pc t).isInside b = true) (hu : (s.pc u).isInside b = true) : t = u := by
  have hinv : SbInv s := by
    refine Reach.ops (I := SbInv) ?_ (fun s op hI hc => sbInv_sockStep hI hc) h
    rintro s rfl
    exact ⟨fun b t ht => (nomatch ht), fun b t u ht => (nomatch ht)⟩
  exact hinv.one b t u ht hu

/-- A reader sleeps inside, and a second one waits for the lock. -/
def secondWaits : List SockOp := [.call 0 .rcv true, .nap 0, .call 1 .rcv true]

theorem sb_lock_exclusive_waits :
    ((secondWaits.foldl sockStep {}).pc 0).isInside .rcv = true ∧
      ((secondWaits.foldl sockStep {}).pc 1).isInside .rcv = false := by
  have hr : SbReach NowaitCond (secondWaits.foldl sockStep {}) := Reach.foldl (Reach.start rfl)
      ⟨fun b hb => (nomatch hb), fun b hb => (nomatch hb), fun b hb => (nomatch hb), trivial⟩
  have h0 : ((secondWaits.foldl sockStep {}).pc 0).isInside .rcv = true := by decide
  refine ⟨h0, Bool.eq_false_iff.mpr fun h1 => ?_⟩
  exact absurd (sb_lock_exclusive hr .rcv 0 1 h0 h1) (by decide)

def secondBarges : List SockOp := [.call 0 .rcv true, .nap 0, .call 1 .rcv false]

theorem sb_lock_shared :
    (secondBarges.foldl sockStep {}).pc 0 = .insideWait .rcv true ∧
      (sblock (([.call 0 .rcv true, .nap 0] : List SockOp).foldl sockStep {}) .rcv false).2 =
        some 0 ∧
      (secondBarges.foldl sockStep {}).pc 1 = .inside .rcv false := by
  decide

end Anp
