import Anp.Kern.SbLock
import Anp.Uspace.Threads

/-!
# Sleep — calls of `tsleep` and their timers

`uspace/ksync.c` over the callout queue of `uspace/timers.c`. The timer of a call points at
`timoarg`, a variable in the frame of the call. Each step is a section that is run under
`kern_lock`: a call up to `COND_WAIT`, a call from there to its return, a round of
`callout_thread`.

Two calls that have not returned have their variables at different addresses. `timed` and `fired`
are kept beside the source's data.
-/

namespace Anp

open Runs List

/-! ## Calls -/

def chash (chan : Nat) : Fin 8 := Fin.ofNat 8 chan

/-- A call of `tsleep`: `timoarg` (`none` for `NULL`), its condition variable, and whether it was
woken, started a timer (`timed`), or had a callout run for its variable (`fired`). -/
structure Frame where
  timoarg : Option (Fin 8)
  cond : Fin 8
  woken : Bool := false
  timed : Bool
  fired : Bool := false
  deriving DecidableEq, Repr

/-- `fault` is set when a callout writes to the frame of a call that has returned, or
`COND_BCAST` is given `NULL`. -/
structure Sleepers where
  timers : Timers := {}
  frames : Nat → Option Frame := fun _ => none
  fault : Bool := false

variable {s : Sleepers} {a : Nat} {f : Frame}

def Sleepers.setFrame (s : Sleepers) (a : Nat) (o : Option Frame) : Sleepers :=
  { s with frames := Function.update s.frames a o }

/-- `COND_BCAST`. -/
def Sleepers.bcast (s : Sleepers) (cond : Fin 8) : Sleepers :=
  { s with frames := fun a =>
      (s.frames a).map fun f => if f.cond = cond then { f with woken := true } else f }

/-- `tsleep` up to `COND_WAIT`; a `timo` of 0 or less is `none`. -/
def tsleep (s : Sleepers) (a chan : Nat) (timo : Option Ticks) : Sleepers :=
  let s := s.setFrame a
    (some { timoarg := some (chash chan), cond := chash chan, timed := timo.isSome })
  match timo with
  | none => s
  | some n => { s with timers := timerStep s.timers (.timeout sleepTimefunc a n) }

/-- `tsleep` behind `COND_WAIT`: what it returns, and what it leaves. -/
def tsleepReturn (s : Sleepers) (a : Nat) (f : Frame) : Nat × Sleepers :=
  let s := s.setFrame a none
  match f.timoarg with
  | none => (ewouldblock, s)
  | some _ => (0, { s with timers := timerStep s.timers (.untimeout sleepTimefunc a) })

/-- `sleep_timefunc`. -/
def timefunc (s : Sleepers) (a : Nat) : Sleepers :=
  match s.frames a with
  | none => { s with fault := true }
  | some f =>
    let s := s.setFrame a (some { f with timoarg := none, fired := true })
    match f.timoarg with
    | none => { s with fault := true }
    | some cond => s.bcast cond

/-- A round of `callout_thread`. What another function than `sleep_timefunc` does are steps of
their own. -/
def calloutRound (s : Sleepers) : Sleepers :=
  match s.timers.cqHead with
  | [] => s
  | c :: _ =>
    if c.ticks ≤ 0 then
      let s := { s with timers := timerStep s.timers .drainOne }
      if c.reg.func = sleepTimefunc then timefunc s c.reg.arg else s
    else s

/-- The queue as other code uses it; `sleep_timefunc` is known in `ksync.c` only. -/
def TimerOp.Other : TimerOp → Prop
  | .timeout func _ _ | .untimeout func _ => func ≠ sleepTimefunc
  | .hardclock => True
  | .drainOne | .drain => False

inductive SleepOp where
  | tsleep (a chan : Nat) (timo : Option Ticks)
  -- a thread that was woken has the lock again
  | resume (a : Nat)
  | wakeup (chan : Nat)
  | spurious (a : Nat)
  | callout
  | other (op : TimerOp) (h : op.Other)

/-- Nothing happens when a thread cannot do it. -/
def sleepStep (s : Sleepers) : SleepOp → Sleepers
  | .tsleep a chan timo => if s.frames a = none then tsleep s a chan timo else s
  | .resume a =>
    match s.frames a with
    | none => s
    | some f => if f.woken then (tsleepReturn s a f).2 else s
  | .wakeup chan => s.bcast (chash chan)
  | .spurious a => s.setFrame a ((s.frames a).map fun f => { f with woken := true })
  | .callout => calloutRound s
  | .other op _ => { s with timers := timerStep s.timers op }

def SleepReach (s : Sleepers) : Prop := Reach (· = {}) (By sleepStep fun _ _ => True) s

/-! ## What a call leaves -/

/-- The callout is for the variable at `a`. -/
def Reg.refersTo (a : Nat) (r : Reg) : Bool := r.func == sleepTimefunc && r.arg == a

/-- What was registered and is still in the queue. -/
def Sleepers.regs (s : Sleepers) : List Reg := s.timers.cqHead.map (·.reg)

/-- The timers in the queue for a variable: none when its call has returned; else the one the call
has started, until it is run. -/
def owed : Option Frame → Nat
  | none => 0
  | some f => if f.timed && !f.fired then 1 else 0

/-- What holds of the calls and the queue: every callout run found the variable it was made for, and
the variables cleared are those of calls whose timer was run. -/
structure NoTrace (s : Sleepers) : Prop where
  safe : s.fault = false
  count : ∀ a, s.regs.countP (Reg.refersTo a) = owed (s.frames a)
  cleared : ∀ a f, s.frames a = some f → (f.timoarg = none ↔ f.fired = true)

/-- What a call returns, and that nothing but its own timer leaves the queue. -/
def ReturnsOk (s : Sleepers) (a : Nat) (f : Frame) : Prop :=
  (tsleepReturn s a f).1 = (if f.fired then ewouldblock else 0) ∧
    (tsleepReturn s a f).2.regs = s.regs.eraseP (Reg.refersTo a) ∧
    (tsleepReturn s a f).2.regs.countP (Reg.refersTo a) = 0

/-! ### The queue -/

theorem countP_eraseP_self {α : Type*} (p : α → Bool) (l : List α) :
    (l.eraseP p).countP p = l.countP p - 1 := by
  induction l with
  | nil => rfl
  | cons x l ih =>
    by_cases hx : p x = true
    · simp [hx]
    · simp [hx, ih]

theorem countP_eraseP_of_disjoint {α : Type*} {p q : α → Bool} (h : ∀ x, p x = true → q x = false)
    (l : List α) : (l.eraseP p).countP q = l.countP q := by
  induction l with
  | nil => rfl
  | cons x l ih =>
    by_cases hx : p x = true
    · simp [hx, h x hx]
    · simp [hx, countP_cons, ih]

theorem refersTo_ne {a b : Nat} (hne : a ≠ b) (r : Reg) (h : r.refersTo a = true) :
    r.refersTo b = false := by
  simp only [Reg.refersTo, Bool.and_eq_true, beq_iff_eq] at h
  simp [Reg.refersTo, h.2, hne]

theorem countP_timeout (s : Sleepers) (func arg : Nat) (n : Ticks) (a : Nat) :
    ({ s with timers := timerStep s.timers (.timeout func arg n) } : Sleepers).regs.countP
        (Reg.refersTo a) =
      s.regs.countP (Reg.refersTo a) + if func = sleepTimefunc ∧ arg = a then 1 else 0 := by
  refine ((regs_timeout _ n.1 s.timers.cqHead).countP_eq _).trans ?_
  simp [Sleepers.regs, Reg.refersTo]

theorem countP_other {op : TimerOp} (h : op.Other) (a : Nat) :
    ({ s with timers := timerStep s.timers op } : Sleepers).regs.countP (Reg.refersTo a) =
      s.regs.countP (Reg.refersTo a) := by
  cases op with
  | timeout func arg n =>
    rw [countP_timeout, if_neg fun hf => h hf.1]
    rfl
  | untimeout func arg =>
    refine (congrArg _ (regs_untimeout_eq func arg s.timers.cqHead).1).trans
      (countP_eraseP_of_disjoint (fun r hr => ?_) _)
    simp only [Bool.and_eq_true, beq_iff_eq] at hr
    simp only [Reg.refersTo, hr.1, beq_eq_false_iff_ne.mpr h, Bool.false_and]
  | hardclock => exact congrArg (List.countP _) (regs_hardclock _)
  | drainOne => exact h.elim
  | drain => exact h.elim

/-! ### Steps -/

theorem owed_woken (o : Option Frame) {g : Frame → Frame}
    (hg : ∀ f, g f = { f with woken := (g f).woken }) : owed (o.map g) = owed o := by
  cases o with
  | none => rfl
  | some f =>
    rw [Option.map_some, hg f]
    rfl

section

variable (h : NoTrace s)
include h

theorem NoTrace.bcast (cond : Fin 8) : NoTrace (s.bcast cond) := by
  refine ⟨h.safe, fun a => (h.count a).trans (owed_woken _ fun f => ?_).symm, fun a f hf => ?_⟩
  · split <;> rfl
  · obtain ⟨f', hf', rfl⟩ := Option.map_eq_some_iff.mp hf
    have := h.cleared a f' hf'
    split <;> exact this

theorem NoTrace.update {s' : Sleepers} {o : Option Frame}
    (hs : s'.frames = Function.update s.frames a o) (hfault : s'.fault = s.fault)
    (hcount : ∀ b, b ≠ a → s'.regs.countP (Reg.refersTo b) = s.regs.countP (Reg.refersTo b))
    (hself : s'.regs.countP (Reg.refersTo a) = owed o)
    (ho : ∀ f, o = some f → (f.timoarg = none ↔ f.fired = true)) : NoTrace s' := by
  refine ⟨hfault.trans h.safe, fun b => ?_, fun b f hf => ?_⟩
  · by_cases hb : b = a
    · rw [hb, hself, hs, Function.update_self]
    · rw [hcount b hb, hs, Function.update_of_ne hb]
      exact h.count b
  · rw [hs] at hf
    by_cases hb : b = a
    · rw [hb, Function.update_self] at hf
      exact ho f hf
    · rw [Function.update_of_ne hb] at hf
      exact h.cleared b f hf

theorem NoTrace.tsleep (ha : s.frames a = none) (chan : Nat)
    (timo : Option Ticks) : NoTrace (Anp.tsleep s a chan timo) := by
  have hzero : s.regs.countP (Reg.refersTo a) = 0 := by rw [h.count, ha]; rfl
  cases timo with
  | none => exact h.update rfl rfl (fun _ _ => rfl) hzero fun _ ho => by cases ho; simp
  | some n =>
    refine h.update rfl rfl (fun b hb => ?_) ?_ fun _ ho => by cases ho; simp
    · refine (countP_timeout s sleepTimefunc a n b).trans ?_
      rw [if_neg fun h => hb h.2.symm]
      rfl
    · refine (countP_timeout s sleepTimefunc a n a).trans ?_
      rw [hzero, if_pos ⟨rfl, rfl⟩]
      rfl

theorem NoTrace.returns (hf : s.frames a = some f) : ReturnsOk s a f := by
  have hcount : s.regs.countP (Reg.refersTo a) = if f.timed && !f.fired then 1 else 0 := by
    rw [h.count, hf]
    rfl
  have hclear := h.cleared a f hf
  unfold ReturnsOk tsleepReturn
  cases hc : f.timoarg with
  | none =>
    -- the timer was run, so nothing is there to cancel
    have hfired := hclear.mp hc
    rw [hfired] at hcount ⊢
    rw [Bool.not_true, Bool.and_false] at hcount
    refine ⟨rfl, (eraseP_of_forall_not ?_).symm, hcount⟩
    exact countP_eq_zero.mp hcount
  | some c =>
    have hfired : f.fired = false := by
      by_contra hne
      rw [hclear.mpr (Bool.eq_true_of_not_eq_false hne)] at hc
      cases hc
    have hregs := (regs_untimeout_eq sleepTimefunc a s.timers.cqHead).1
    refine ⟨by rw [hfired]; rfl, hregs, ?_⟩
    refine (congrArg _ hregs).trans ((countP_eraseP_self _ _).trans ?_)
    show s.regs.countP (Reg.refersTo a) - 1 = 0
    rw [hcount]
    split <;> rfl

theorem NoTrace.resume (hf : s.frames a = some f) :
    NoTrace (tsleepReturn s a f).2 := by
  obtain ⟨-, hregs, hzero⟩ := h.returns hf
  have hframes : (tsleepReturn s a f).2.frames = Function.update s.frames a none ∧
      (tsleepReturn s a f).2.fault = s.fault := by
    unfold tsleepReturn
    cases f.timoarg <;> exact ⟨rfl, rfl⟩
  refine h.update hframes.1 hframes.2 (fun b hb => ?_) hzero (fun _ ho => by cases ho)
  rw [hregs]
  exact countP_eraseP_of_disjoint (refersTo_ne (Ne.symm hb)) _

/-- The call of a timer that is run has not returned, and its variable is not cleared yet. -/
theorem NoTrace.timefunc {t : Timers} {r : Reg} (hr : r.func = sleepTimefunc)
    (hregs : s.regs = r :: ({ s with timers := t } : Sleepers).regs) :
    NoTrace (Anp.timefunc { s with timers := t } r.arg) := by
  have hself : r.refersTo r.arg = true := by simp [Reg.refersTo, hr]
  have hone := h.count r.arg
  rw [hregs, countP_cons, if_pos hself] at hone
  unfold Anp.timefunc
  cases hf : s.frames r.arg with
  | none =>
    rw [hf] at hone
    cases hone
  | some f =>
    rw [hf, owed] at hone
    split at hone
    · next hlive =>
      dsimp only
      cases hc : f.timoarg with
      | none => simp [(h.cleared _ f hf).mp hc] at hlive
      | some cond =>
        refine NoTrace.bcast ?_ cond
        refine h.update rfl rfl (fun b hb => ?_) ?_ fun _ ho => ?_
        · rw [hregs, countP_cons, refersTo_ne (Ne.symm hb) r hself]
          rfl
        · refine (Nat.succ.inj hone).trans ?_
          simp [owed]
        · cases ho
          simp
    · cases hone

theorem NoTrace.callout : NoTrace (calloutRound s) := by
  unfold calloutRound
  split
  · exact h
  · next c cs hcq =>
    split
    · next hle =>
      have hregs : s.regs =
          c.reg :: ({ s with timers := timerStep s.timers .drainOne } : Sleepers).regs := by
        simp [Sleepers.regs, timerStep, Timers.invoke, drainOne, hcq, hle]
      split
      · next hr =>
        exact h.timefunc hr hregs
      · next hr =>
        refine ⟨h.safe, fun a => ?_, h.cleared⟩
        have hcount := h.count a
        rwa [hregs, countP_cons, if_neg (by simp [Reg.refersTo, hr])] at hcount
    · exact h

theorem noTrace_step (op : SleepOp) : NoTrace (sleepStep s op) := by
  cases op with
  | tsleep a chan timo =>
    rw [sleepStep]
    split
    · next ha => exact h.tsleep ha chan timo
    · exact h
  | resume a =>
    rw [sleepStep]
    split
    · exact h
    · next f hf =>
      split
      · exact h.resume hf
      · exact h
  | wakeup chan => exact h.bcast _
  | spurious a =>
    refine h.update rfl rfl (fun _ _ => rfl) ?_ fun f ho => ?_
    · refine (h.count a).trans (Eq.symm (owed_woken _ ?_))
      exact fun f => rfl
    · obtain ⟨f', hf', rfl⟩ := Option.map_eq_some_iff.mp ho
      exact h.cleared a f' hf'
  | callout => exact h.callout
  | other op hop => exact ⟨h.safe, fun a => (countP_other hop a).trans (h.count a), h.cleared⟩

end

/-! ## Every run -/

/-- **A timed sleep leaves no trace**: no callout outlives its call, a call returns `EWOULDBLOCK`
just when its own callout was run, and none cancels the timer of another. -/
theorem tsleep_no_trace (h : SleepReach s) :
    NoTrace s ∧ ∀ a f, s.frames a = some f → f.woken = true → ReturnsOk s a f := by
  have hinv : NoTrace s := by
    refine h.ops ?_ fun _ op hs _ => noTrace_step hs op
    rintro _ rfl
    exact ⟨rfl, fun _ => rfl, fun _ _ hf => by cases hf⟩
  exact ⟨hinv, fun _ _ hf _ => hinv.returns hf⟩

/-- Two calls on channels that share a condition variable: the timer of the first wakes both. -/
def collision : Sleepers :=
  [SleepOp.tsleep 1 3 (some oneTick), .tsleep 2 11 (some fewTicks), .other .hardclock trivial,
    .callout].foldl sleepStep {}

theorem tsleep_no_trace_collision :
    ((∃ f, collision.frames 1 = some f ∧ f.woken = true ∧ f.fired = true) ∧
      ∃ f, collision.frames 2 = some f ∧ f.woken = true ∧ f.fired = false) ∧
    NoTrace collision ∧
      ∀ a f, collision.frames a = some f → f.woken = true → ReturnsOk collision a f := by
  refine ⟨⟨⟨_, rfl, rfl, rfl⟩, ⟨_, rfl, rfl, rfl⟩⟩, tsleep_no_trace ?_⟩
  exact Reach.foldl (.start rfl) (.trivial _ _)

end Anp
