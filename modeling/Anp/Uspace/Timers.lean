import Anp.Lib.Machine
import Anp.Lib.Runs

/-!
# Timers — the callout queue

`uspace/timers.c`. The queue holds the ticks of each callout relative to the one before it;
`hardclock` counts down the front, `callout_thread` takes off what is due. A callout that is
overdue and not yet taken off has ticks below zero and stands for no distance: `lefts` adds the
positive parts only.

`due` and the lists of what was made, invoked and cancelled are kept beside the source's data.
-/

namespace Anp

open Machine Runs List

variable {r : Int} {now : Nat}

/-! ## The queue -/

/-- What a callout was registered with; `due` is the tick it asks for. -/
structure Reg where
  func : Nat
  arg : Nat
  due : Nat
  deriving DecidableEq, Repr

/-- `cqueue_t`. -/
structure Callout where
  reg : Reg
  ticks : Int
  deriving DecidableEq, Repr

variable {cq : List Callout}

/-- A tick count as `timeout` is called with. -/
abbrev Ticks := { n : Int // 1 ≤ n ∧ n < 2147483648 }

/-- The loop of `timeout` behind the head. The entry it stops at keeps its ticks. -/
def timeoutLoop (reg : Reg) (ticks : Int) : List Callout → List Callout
  | [] => [⟨reg, ticks⟩]
  | c :: cs =>
    if c.ticks ≤ ticks then c :: timeoutLoop reg (int32 (ticks - c.ticks)) cs
    else ⟨reg, ticks⟩ :: c :: cs

/-- Puts a callout into the queue. -/
def timeout (reg : Reg) (ticks : Int) : List Callout → List Callout
  | [] => [⟨reg, ticks⟩]
  | c :: cs =>
    if ticks < c.ticks then ⟨reg, ticks⟩ :: { c with ticks := int32 (c.ticks - ticks) } :: cs
    else c :: timeoutLoop reg (int32 (ticks - c.ticks)) cs

/-- The ticks of an entry that leaves go to the one behind it. -/
def giveTicks (ticks : Int) : List Callout → List Callout
  | [] => []
  | c :: cs => { c with ticks := int32 (c.ticks + ticks) } :: cs

/-- The first entry with this function and argument leaves. The source has the head apart. -/
def untimeout (func arg : Nat) : List Callout → List Callout × List Reg
  | [] => ([], [])
  | c :: cs =>
    if c.reg.func = func ∧ c.reg.arg = arg then (giveTicks c.ticks cs, [c.reg])
    else
      let r := untimeout func arg cs
      (c :: r.1, r.2)

/-- The loop of `hardclock`: it ends at the first entry that is not below zero. -/
def hardclock : List Callout → List Callout
  | [] => []
  | c :: cs =>
    let c := { c with ticks := int32 (c.ticks - 1) }
    if 0 ≤ c.ticks then c :: cs else c :: hardclock cs

/-- The inner loop of `callout_thread`: what is left, and what was invoked. -/
def drain : List Callout → List Callout × List Reg
  | [] => ([], [])
  | c :: cs =>
    if c.ticks ≤ 0 then
      let r := drain cs
      (r.1, c.reg :: r.2)
    else (c :: cs, [])

/-- One round of that loop; the lock is released behind it. -/
def drainOne : List Callout → List Callout × List Reg
  | [] => ([], [])
  | c :: cs => if c.ticks ≤ 0 then (cs, [c.reg]) else (c :: cs, [])

/-! ## Runs -/

structure Timers where
  cqHead : List Callout := []
  ticks : Nat := 0
  made : List Reg := []
  cancelled : List Reg := []
  invoked : List (Reg × Nat) := []
  deriving DecidableEq, Repr

/-- The operations. A callout function that registers or cancels callouts does so between two
rounds of the drain. -/
inductive TimerOp where
  | timeout (func arg : Nat) (n : Ticks)
  | untimeout (func arg : Nat)
  | hardclock
  | drainOne
  | drain

/-- `r` was invoked at the tick the clock shows. -/
def Timers.invoke (s : Timers) (r : List Callout × List Reg) : Timers :=
  { s with cqHead := r.1, invoked := s.invoked ++ r.2.map fun reg => (reg, s.ticks) }

def timerStep (s : Timers) : TimerOp → Timers
  | .timeout func arg n =>
    let reg : Reg := ⟨func, arg, s.ticks + n.1.toNat⟩
    { s with cqHead := timeout reg n.1 s.cqHead, made := s.made ++ [reg] }
  | .untimeout func arg =>
    let r := untimeout func arg s.cqHead
    { s with cqHead := r.1, cancelled := s.cancelled ++ r.2 }
  | .hardclock => { s with cqHead := hardclock s.cqHead, ticks := s.ticks + 1 }
  | .drainOne => s.invoke (drainOne s.cqHead)
  | .drain => s.invoke (drain s.cqHead)

def lefts : Int → List Callout → List Int
  | _, [] => []
  | r, c :: cs => (r + max c.ticks 0) :: lefts (r + max c.ticks 0) cs

/-- The place of a new callout: before all others, or behind all that are due by then, with none
behind it unless due at the same tick, and none overdue before it. -/
def TimeoutOk (n : Int) (cq : List Callout) : Prop := (∀ l ∈ lefts 0 cq, n < l) ∨
    (∀ c ∈ cq, 0 ≤ c.ticks) ∧ ((∀ l ∈ lefts 0 cq, l ≤ n) ∨ n ∈ lefts 0 cq)
deriving Decidable

/-- An overdue callout that leaves has behind it only such as are due. -/
def UntimeoutOk (func arg : Nat) : List Callout → Prop
  | [] => True
  | c :: cs =>
    if c.reg.func = func ∧ c.reg.arg = arg then
      c.ticks < 0 → ∀ d ∈ cs.head?, d.ticks ≤ 0 ∧ -2147483648 ≤ d.ticks + c.ticks
    else UntimeoutOk func arg cs

instance UntimeoutOk.instDecidable (func arg : Nat) :
    (cq : List Callout) → Decidable (UntimeoutOk func arg cq)
  | [] => .isTrue trivial
  | c :: cs => by
    unfold UntimeoutOk
    have := UntimeoutOk.instDecidable func arg cs
    infer_instance

def CalloutCond (s : Timers) : TimerOp → Prop
  | .timeout _ _ n => TimeoutOk n.1 s.cqHead
  | .untimeout func arg => UntimeoutOk func arg s.cqHead
  | .hardclock => ∀ c ∈ s.cqHead, c.ticks ≠ -2147483648
  | _ => True

instance CalloutCond.instDecidable (s : Timers) (op : TimerOp) : Decidable (CalloutCond s op) := by
  cases op <;> unfold CalloutCond <;> infer_instance

/-- What a run whose steps all meet the condition can lead to. -/
def TimerReach (s : Timers) : Prop := Reach (· = {}) (By timerStep CalloutCond) s

/-- Every callout made is in the queue, cancelled or invoked, and only one of these; none was
invoked before its tick; a drain, and the last of several single rounds, leaves none that is due. -/
structure OnTime (s : Timers) : Prop where
  fates : (s.cqHead.map (·.reg) ++ s.cancelled ++ s.invoked.map (·.1)).Perm s.made
  early : ∀ e ∈ s.invoked, e.1.due ≤ e.2
  drained : ∀ c ∈ (timerStep s .drain).cqHead, s.ticks < c.reg.due
  idle : (drainOne s.cqHead).2 = [] → ∀ c ∈ s.cqHead, s.ticks < c.reg.due

/-! ## The invariant -/

/-- From `r` ticks on, each entry has as many ticks left as are missing to its own. -/
def Exact (now : Nat) : Int → List Callout → Prop
  | _, [] => True
  | r, c :: cs =>
    r + max c.ticks 0 = max ((c.reg.due : Int) - now) 0 ∧ Exact now (r + max c.ticks 0) cs

/-- Overdue entries come first: none stands behind one with ticks left. -/
def NegFirst : List Callout → Prop
  | [] => True
  | c :: cs => (0 < c.ticks → ∀ d ∈ cs, 0 ≤ d.ticks) ∧ NegFirst cs

/-- Ticks are an `int`, and nobody asks for more than one can hold. -/
def InRange (now : Nat) (c : Callout) : Prop :=
  -2147483648 ≤ c.ticks ∧ c.ticks < 2147483648 ∧ (c.reg.due : Int) - now < 2147483648

structure QueueOk (now : Nat) (r : Int) (cq : List Callout) : Prop where
  exact : Exact now r cq
  neg : NegFirst cq
  range : ∀ c ∈ cq, InRange now c

theorem QueueOk.nil (now : Nat) (r : Int) : QueueOk now r [] := ⟨trivial, trivial, forall_mem_nil _⟩

theorem NegFirst.of_nonneg (h : ∀ c ∈ cq, 0 ≤ c.ticks) : NegFirst cq := by
  induction cq with
  | nil => trivial
  | cons c cs ih =>
    have hcs : ∀ d ∈ cs, 0 ≤ d.ticks := fun d hd => h d (mem_cons_of_mem c hd)
    exact ⟨fun _ => hcs, ih hcs⟩

theorem Exact.le_due (h : Exact now r cq) :
    ∀ c ∈ cq, r ≤ max ((c.reg.due : Int) - now) 0 := by
  induction cq generalizing r with
  | nil => exact fun c hc => nomatch hc
  | cons c cs ih =>
    intro d hd
    rcases mem_cons.mp hd with rfl | hd
    · have := h.1
      omega
    · have := ih h.2 d hd
      omega

/-! ### `hardclock` -/

/-- A tick is taken off the distance to the entries that follow. -/
theorem Exact.tick (h : Exact now r cq) (hr : 1 ≤ r) :
    Exact (now + 1) (r - 1) cq := by
  induction cq generalizing r with
  | nil => trivial
  | cons c cs ih =>
    have hcs := ih h.2 (by omega)
    rw [show r + max c.ticks 0 - 1 = r - 1 + max c.ticks 0 by omega] at hcs
    refine ⟨?_, hcs⟩
    have := h.1
    push_cast
    omega

variable {c : Callout}

theorem hardclock_cons (cs : List Callout) (hr : InRange now c)
    (hne : c.ticks ≠ -2147483648) : hardclock (c :: cs) =
      { c with ticks := c.ticks - 1 } :: if 1 ≤ c.ticks then cs else hardclock cs := by
  obtain ⟨hlo, hhi, -⟩ := hr
  have hdec : int32 (c.ticks - 1) = c.ticks - 1 := int32_of_range (by omega) (by omega)
  rw [hardclock]
  dsimp only
  rw [hdec]
  split
  · rw [if_pos (by omega)]
  · rw [if_neg (by omega)]

theorem hardclock_ok (h : QueueOk now 0 cq) (hmin : ∀ c ∈ cq, c.ticks ≠ -2147483648) :
    QueueOk (now + 1) 0 (hardclock cq) := by
  have hnow : ∀ d, InRange now d → InRange (now + 1) d := by
    rintro d ⟨h1, h2, h3⟩
    exact ⟨h1, h2, by push_cast; omega⟩
  induction cq with
  | nil => exact .nil _ _
  | cons c cs ih =>
    obtain ⟨⟨hc, hcs⟩, ⟨hnc, hns⟩, hr⟩ := h
    obtain ⟨hrc, hrs⟩ := forall_mem_cons.mp hr
    obtain ⟨hmc, hms⟩ := forall_mem_cons.mp hmin
    have hc' : InRange (now + 1) { c with ticks := c.ticks - 1 } := by
      obtain ⟨h1, h2, h3⟩ := hnow c hrc
      exact ⟨by dsimp only; omega, by dsimp only; omega, h3⟩
    rw [hardclock_cons cs hrc hmc]
    split
    · next hpos =>
      -- the first entry with ticks left takes the tick for all behind it
      have hrest := hcs.tick (by omega)
      rw [show 0 + max c.ticks 0 - 1 = 0 + max (c.ticks - 1) 0 by omega] at hrest
      refine ⟨⟨?_, hrest⟩, ⟨fun _ => hnc hpos, hns⟩,
        forall_mem_cons.mpr ⟨hc', fun d hd => hnow d (hrs d hd)⟩⟩
      push_cast
      omega
    · next hneg =>
      have hz : 0 + max c.ticks 0 = 0 := by omega
      rw [hz] at hc hcs
      obtain ⟨hex, hng, hrg⟩ := ih ⟨hcs, hns, hrs⟩ hms
      refine ⟨⟨?_, ?_⟩, ⟨fun hpos => absurd (show 0 < c.ticks - 1 from hpos) (by omega), hng⟩,
        forall_mem_cons.mpr ⟨hc', hrg⟩⟩
      · push_cast
        omega
      · rw [show 0 + max (c.ticks - 1) 0 = 0 by omega]
        exact hex

theorem regs_hardclock (cq : List Callout) : (hardclock cq).map (·.reg) = cq.map (·.reg) := by
  induction cq with
  | nil => rfl
  | cons c cs ih =>
    unfold hardclock
    dsimp only
    split
    · rfl
    · rw [map_cons, map_cons, ih]

/-! ### `timeout` -/

theorem le_lefts (r : Int) (cq : List Callout) : ∀ l ∈ lefts r cq, r ≤ l := by
  induction cq generalizing r with
  | nil => exact fun l hl => nomatch hl
  | cons c cs ih =>
    intro l hl
    rcases mem_cons.mp hl with rfl | hl
    · omega
    · have := ih _ l hl
      omega

/-- The loop finds the place of a callout that is due in `n` ticks, `r` of them passed already. -/
theorem exact_timeoutLoop {reg : Reg} {n : Int} (h : Exact now r cq)
    (hdue : n = (reg.due : Int) - now) (hn : 0 ≤ n) (hr : 0 ≤ r) (hrn : r ≤ n)
    (hlim : n < 2147483648) (hpos : ∀ c ∈ cq, 0 ≤ c.ticks)
    (hplace : r = n ∨ (∀ l ∈ lefts r cq, l ≤ n) ∨ n ∈ lefts r cq) :
    Exact now r (timeoutLoop reg (n - r) cq) := by
  induction cq generalizing r with
  | nil => exact ⟨by dsimp only; omega, trivial⟩
  | cons c cs ih =>
    obtain ⟨hc, hcs⟩ := h
    obtain ⟨hcp, hcsp⟩ := forall_mem_cons.mp hpos
    have hmax : r + max c.ticks 0 = r + c.ticks := by omega
    rw [hmax] at hc hcs
    rw [lefts, hmax] at hplace
    unfold timeoutLoop
    split
    · next hle =>
      have hsub : n - r - c.ticks = n - (r + c.ticks) := by omega
      rw [hsub, int32_of_range (by omega) (by omega)]
      refine ⟨by rw [hmax]; exact hc, ?_⟩
      rw [hmax]
      refine ih hcs (by omega) (by omega) hcsp ?_
      rcases hplace with he | hall | hmem
      · exact .inl (by omega)
      · exact .inr (.inl fun l hl => hall l (mem_cons_of_mem _ hl))
      · rcases mem_cons.mp hmem with he | hmem
        · exact .inl he.symm
        · exact .inr (Or.inr hmem)
    · next hgt =>
      -- an entry that is due later: it keeps its ticks, so the new one may have none
      have hrn : r = n := by
        rcases hplace with he | hall | hmem
        · exact he
        · have := hall _ mem_cons_self
          omega
        · rcases mem_cons.mp hmem with he | hmem
          · omega
          · have := le_lefts _ _ n hmem
            omega
      subst hrn
      refine ⟨by dsimp only; omega, ?_⟩
      dsimp only
      rw [show r + max (r - r) 0 = r by omega]
      exact ⟨by rw [hmax]; exact hc, by rw [hmax]; exact hcs⟩

theorem timeoutLoop_nonneg {reg : Reg} {t : Int} (ht : 0 ≤ t) (hlim : t < 2147483648)
    (hpos : ∀ c ∈ cq, 0 ≤ c.ticks) :
    ∀ c ∈ timeoutLoop reg t cq, 0 ≤ c.ticks ∧ (c ∈ cq ∨ c.reg = reg ∧ c.ticks ≤ t) := by
  fun_induction timeoutLoop reg t cq with
  | case1 t =>
    rw [forall_mem_singleton]
    exact ⟨ht, .inr ⟨rfl, le_refl t⟩⟩
  | case2 t c cs hle ih =>
    obtain ⟨hcp, hcsp⟩ := forall_mem_cons.mp hpos
    rw [int32_of_range (by omega) (by omega)] at ih ⊢
    refine forall_mem_cons.mpr ⟨⟨hcp, .inl mem_cons_self⟩, fun d hd => ?_⟩
    obtain ⟨h1, h2⟩ := ih (by omega) (by omega) hcsp d hd
    refine ⟨h1, h2.imp (mem_cons_of_mem c) fun h => ⟨h.1, ?_⟩⟩
    omega
  | case3 t c cs _ =>
    exact forall_mem_cons.mpr ⟨⟨ht, .inr ⟨rfl, le_refl t⟩⟩, fun d hd => ⟨hpos d hd, .inl hd⟩⟩

theorem regs_timeoutLoop (reg : Reg) (t : Int) (cq : List Callout) :
    ∃ a b, cq.map (·.reg) = a ++ b ∧ (timeoutLoop reg t cq).map (·.reg) = a ++ reg :: b := by
  fun_induction timeoutLoop reg t cq with
  | case1 => exact ⟨[], [], rfl, rfl⟩
  | case2 t c cs _ ih =>
    obtain ⟨a, b, hab, hnew⟩ := ih
    exact ⟨c.reg :: a, b, congrArg (c.reg :: ·) hab, congrArg (c.reg :: ·) hnew⟩
  | case3 => exact ⟨[], _, rfl, rfl⟩

section

variable {now : Nat} {reg : Reg} {n : Int} {cq : List Callout}

theorem timeout_cases (reg : Reg) (hok : TimeoutOk n cq) (hn : 1 ≤ n) (hlim : n < 2147483648)
    (hr : ∀ c ∈ cq, InRange now c) :
    (cq = [] ∧ timeout reg n cq = [⟨reg, n⟩]) ∨
    (∃ c cs, cq = c :: cs ∧ n < c.ticks ∧
      timeout reg n cq = ⟨reg, n⟩ :: { c with ticks := c.ticks - n } :: cs) ∨
    (∃ c cs, cq = c :: cs ∧ c.ticks ≤ n ∧ (∀ d ∈ cq, 0 ≤ d.ticks) ∧
      ((∀ l ∈ lefts 0 cq, l ≤ n) ∨ n ∈ lefts 0 cq) ∧
      timeout reg n cq = c :: timeoutLoop reg (n - c.ticks) cs) := by
  cases cq with
  | nil => exact .inl ⟨rfl, rfl⟩
  | cons c cs =>
    obtain ⟨hlo, hhi, -⟩ := hr c mem_cons_self
    rw [timeout]
    split
    · next hlt =>
      rw [int32_of_range (by omega) (by omega)]
      exact .inr (.inl ⟨c, cs, rfl, hlt, rfl⟩)
    · next hlt =>
      rcases hok with hall | ⟨hpos, hplace⟩
      · have := hall _ mem_cons_self
        omega
      · have := hpos c mem_cons_self
        rw [int32_of_range (by omega) (by omega)]
        exact .inr (.inr ⟨c, cs, rfl, not_lt.mp hlt, hpos, hplace, rfl⟩)

theorem timeout_ok (h : QueueOk now 0 cq) (hdue : n = (reg.due : Int) - now)
    (hok : TimeoutOk n cq) (hn : 1 ≤ n) (hlim : n < 2147483648) :
    QueueOk now 0 (timeout reg n cq) := by
  have hnew : ∀ t : Int, 0 ≤ t → t ≤ n → InRange now ⟨reg, t⟩ :=
    fun t h0 ht => ⟨by dsimp only; omega, by dsimp only; omega, by dsimp only; omega⟩
  have hself := hnew n (by omega) (le_refl n)
  obtain ⟨-, he⟩ | ⟨c, cs, rfl, hlt, he⟩ | ⟨c, cs, rfl, hle, hpos, hplace, he⟩ :=
    timeout_cases reg hok hn hlim h.range
  · rw [he]
    exact ⟨⟨by dsimp only; omega, trivial⟩, ⟨fun _ => forall_mem_nil _, trivial⟩,
      forall_mem_singleton.mpr hself⟩
  · rw [he]
    obtain ⟨⟨hc, hcs⟩, ⟨hnc, hns⟩, hr⟩ := h
    obtain ⟨⟨h1, h2, h3⟩, hrs⟩ := forall_mem_cons.mp hr
    have hpos := hnc (by omega)
    refine ⟨⟨by dsimp only; omega, ?_⟩,
      ⟨fun _ => forall_mem_cons.mpr ⟨by dsimp only; omega, hpos⟩, fun _ => hpos, hns⟩,
      forall_mem_cons.mpr ⟨hself, forall_mem_cons.mpr
        ⟨⟨by dsimp only; omega, by dsimp only; omega, h3⟩, hrs⟩⟩⟩
    rw [show (0 : Int) + max n 0 = n by omega]
    refine ⟨by dsimp only; omega, ?_⟩
    rw [show n + max (c.ticks - n) 0 = 0 + max c.ticks 0 by omega]
    exact hcs
  · rw [he]
    obtain ⟨⟨hc, hcs⟩, -, hr⟩ := h
    obtain ⟨hrc, hrs⟩ := forall_mem_cons.mp hr
    obtain ⟨hcp, hcsp⟩ := forall_mem_cons.mp hpos
    have hloop d (hd : d ∈ timeoutLoop reg (n - c.ticks) cs) :=
      timeoutLoop_nonneg (by omega) (by omega) hcsp d hd
    refine ⟨⟨hc, ?_⟩, .of_nonneg (forall_mem_cons.mpr ⟨hcp, fun d hd => (hloop d hd).1⟩),
      forall_mem_cons.mpr ⟨hrc, fun d hd => ?_⟩⟩
    · rw [show 0 + max c.ticks 0 = c.ticks by omega] at hcs ⊢
      rw [lefts, show 0 + max c.ticks 0 = c.ticks by omega] at hplace
      refine exact_timeoutLoop hcs hdue (by omega) hcp hle hlim hcsp ?_
      rcases hplace with hall | hmem
      · exact .inr (.inl fun l hl => hall l (mem_cons_of_mem _ hl))
      · rcases mem_cons.mp hmem with he | hmem
        · exact .inl he.symm
        · exact .inr (Or.inr hmem)
    · obtain ⟨hd0, hd | ⟨hreg, hdt⟩⟩ := hloop d hd
      · exact hrs d hd
      · have := hnew d.ticks hd0 (by omega)
        rw [← hreg] at this
        exact this

/-- A new entry comes somewhere between the others. -/
theorem regs_timeout_eq (reg : Reg) (n : Int) (cq : List Callout) :
    ∃ a b, cq.map (·.reg) = a ++ b ∧ (timeout reg n cq).map (·.reg) = a ++ reg :: b := by
  cases cq with
  | nil => exact ⟨[], [], rfl, rfl⟩
  | cons c cs =>
    rw [timeout]
    split
    · exact ⟨[], (c :: cs).map (·.reg), rfl, rfl⟩
    · obtain ⟨a, b, hab, hnew⟩ := regs_timeoutLoop reg (int32 (n - c.ticks)) cs
      exact ⟨c.reg :: a, b, congrArg (c.reg :: ·) hab, congrArg (c.reg :: ·) hnew⟩

theorem regs_timeout (reg : Reg) (n : Int) (cq : List Callout) :
    ((timeout reg n cq).map (·.reg)).Perm (cq.map (·.reg) ++ [reg]) := by
  obtain ⟨a, b, hab, hnew⟩ := regs_timeout_eq reg n cq
  rw [hab, hnew]
  exact perm_middle.trans (perm_append_singleton reg _).symm

end

/-! ### `untimeout` -/

section

variable {now : Nat} {cq : List Callout} {func arg : Nat}

theorem giveTicks_ok (h : QueueOk now r (c :: cq)) (hr0 : 0 ≤ r)
    (hok : c.ticks < 0 → ∀ d ∈ cq.head?, d.ticks ≤ 0 ∧ -2147483648 ≤ d.ticks + c.ticks) :
    QueueOk now r (giveTicks c.ticks cq) ∧
      ((∀ d ∈ c :: cq, 0 ≤ d.ticks) → ∀ d ∈ giveTicks c.ticks cq, 0 ≤ d.ticks) := by
  cases cq with
  | nil => exact ⟨.nil _ _, fun _ => forall_mem_nil _⟩
  | cons d ds =>
    obtain ⟨⟨hc, hd, hds⟩, ⟨hnc, hnd, hnds⟩, hr⟩ := h
    obtain ⟨hrc, hrd, hrds⟩ := (forall_mem_cons.mp hr).imp_right forall_mem_cons.mp
    obtain ⟨h1, h2, h3⟩ := hrd
    have hokd : c.ticks < 0 → d.ticks ≤ 0 ∧ -2147483648 ≤ d.ticks + c.ticks := fun h => hok h d rfl
    have hdc : 0 < c.ticks → 0 ≤ d.ticks := fun h => hnc h d mem_cons_self
    -- a sum of ticks is a distance to the same tick, except that both may be overdue
    have hsum : int32 (d.ticks + c.ticks) = d.ticks + c.ticks := by
      refine int32_of_range ?_ ?_
      · by_cases h : c.ticks < 0
        · exact (hokd h).2
        · omega
      · by_cases h : 0 < c.ticks
        · have := hdc h
          omega
        · omega
    have hmax : r + max (d.ticks + c.ticks) 0 = r + max c.ticks 0 + max d.ticks 0 := by
      by_cases hlt : c.ticks < 0
      · have := (hokd hlt).1
        omega
      · by_cases hp : 0 < c.ticks
        · have := hdc hp
          omega
        · omega
    rw [giveTicks, hsum]
    refine ⟨⟨⟨?_, ?_⟩, ⟨?_, hnds⟩, forall_mem_cons.mpr ⟨⟨?_, ?_, h3⟩, hrds⟩⟩, ?_⟩
    · dsimp only
      rw [hmax]
      exact hd
    · dsimp only
      rw [hmax]
      exact hds
    · intro hpos e he
      have hpos : 0 < d.ticks + c.ticks := hpos
      by_cases hp : 0 < c.ticks
      · exact hnc hp e (mem_cons_of_mem d he)
      · exact hnd (by omega) e he
    · rw [← hsum]
      exact (Int.le_bmod (by decide) : _ ≤ int32 (d.ticks + c.ticks))
    · rw [← hsum]
      exact (Int.bmod_lt (by decide) : int32 (d.ticks + c.ticks) < _)
    · intro hpos
      obtain ⟨hpc, hpd, hpds⟩ := (forall_mem_cons.mp hpos).imp_right forall_mem_cons.mp
      exact forall_mem_cons.mpr ⟨by dsimp only; omega, hpds⟩

theorem untimeout_ok (h : QueueOk now r cq) (hr0 : 0 ≤ r) (hok : UntimeoutOk func arg cq) :
    QueueOk now r (untimeout func arg cq).1 ∧
      ((∀ c ∈ cq, 0 ≤ c.ticks) → ∀ c ∈ (untimeout func arg cq).1, 0 ≤ c.ticks) := by
  induction cq generalizing r with
  | nil => exact ⟨.nil _ _, fun _ => forall_mem_nil _⟩
  | cons c cs ih =>
    unfold UntimeoutOk at hok
    unfold untimeout
    split
    · next hm =>
      rw [if_pos hm] at hok
      exact giveTicks_ok h hr0 hok
    · next hm =>
      rw [if_neg hm] at hok
      obtain ⟨⟨hc, hcs⟩, ⟨hnc, hns⟩, hr⟩ := h
      obtain ⟨hrc, hrs⟩ := forall_mem_cons.mp hr
      obtain ⟨⟨he, hn, hi⟩, hp⟩ := ih ⟨hcs, hns, hrs⟩ (by omega) hok
      refine ⟨⟨⟨hc, he⟩, ⟨fun hpos => hp (hnc hpos), hn⟩, forall_mem_cons.mpr ⟨hrc, hi⟩⟩,
        fun hpos => ?_⟩
      obtain ⟨hpc, hps⟩ := forall_mem_cons.mp hpos
      exact forall_mem_cons.mpr ⟨hpc, hp hps⟩

theorem regs_giveTicks (t : Int) (cq : List Callout) :
    (giveTicks t cq).map (·.reg) = cq.map (·.reg) := by
  cases cq <;> rfl

/-- The first callout with this function and argument leaves, and no other. -/
theorem regs_untimeout_eq (func arg : Nat) (cq : List Callout) :
    (untimeout func arg cq).1.map (·.reg) =
        (cq.map (·.reg)).eraseP (fun r => r.func == func && r.arg == arg) ∧
      (untimeout func arg cq).2 =
        ((cq.map (·.reg)).find? fun r => r.func == func && r.arg == arg).toList := by
  induction cq with
  | nil => exact ⟨rfl, rfl⟩
  | cons c cs ih =>
    unfold untimeout
    rw [map_cons, eraseP_cons, find?_cons]
    by_cases h : c.reg.func = func ∧ c.reg.arg = arg
    · simp [h.1, h.2, regs_giveTicks]
    · have hb : (c.reg.func == func && c.reg.arg == arg) = false := by
        simpa [Bool.and_eq_true] using h
      rw [if_neg h, hb]
      exact ⟨congrArg (c.reg :: ·) ih.1, ih.2⟩

theorem regs_untimeout (func arg : Nat) (cq : List Callout) :
    ((untimeout func arg cq).1.map (·.reg) ++ (untimeout func arg cq).2).Perm (cq.map (·.reg)) := by
  induction cq with
  | nil => exact Perm.refl _
  | cons c cs ih =>
    unfold untimeout
    split
    · rw [regs_giveTicks]
      exact perm_append_singleton _ _
    · exact ih.cons c.reg

end

/-! ### Draining -/

theorem QueueOk.tail (h : QueueOk now 0 (c :: cq)) (hle : c.ticks ≤ 0) :
    QueueOk now 0 cq ∧ c.reg.due ≤ now := by
  obtain ⟨⟨hc, hcs⟩, ⟨-, hns⟩, hr⟩ := h
  rw [show 0 + max c.ticks 0 = 0 by omega] at hc hcs
  exact ⟨⟨hcs, hns, (forall_mem_cons.mp hr).2⟩, by omega⟩

theorem drain_ok (h : QueueOk now 0 cq) :
    QueueOk now 0 (drain cq).1 ∧ (∀ reg ∈ (drain cq).2, reg.due ≤ now) ∧
      ∀ c ∈ (drain cq).1, now < c.reg.due := by
  fun_induction drain cq
  case case1 => exact ⟨.nil _ _, forall_mem_nil _, forall_mem_nil _⟩
  case case2 hle _ ih =>
    obtain ⟨hcs, hdue⟩ := h.tail hle
    obtain ⟨h1, h2, h3⟩ := ih hcs
    exact ⟨h1, forall_mem_cons.mpr ⟨hdue, h2⟩, h3⟩
  case case3 hgt =>
    obtain ⟨hc, hcs⟩ := h.exact
    refine ⟨h, forall_mem_nil _, forall_mem_cons.mpr ⟨by omega, fun d hd => ?_⟩⟩
    have := hcs.le_due d hd
    omega

theorem drainOne_ok (h : QueueOk now 0 cq) :
    QueueOk now 0 (drainOne cq).1 ∧ ∀ reg ∈ (drainOne cq).2, reg.due ≤ now := by
  cases cq with
  | nil => exact ⟨h, forall_mem_nil _⟩
  | cons c cs =>
    unfold drainOne
    dsimp only
    split
    · next hle =>
      obtain ⟨hcs, hdue⟩ := h.tail hle
      exact ⟨hcs, forall_mem_singleton.mpr hdue⟩
    · exact ⟨h, forall_mem_nil _⟩

theorem regs_drain (cq : List Callout) :
    (drain cq).2 ++ (drain cq).1.map (·.reg) = cq.map (·.reg) := by
  induction cq with
  | nil => rfl
  | cons c cs ih =>
    unfold drain
    split
    · exact congrArg (c.reg :: ·) ih
    · rfl

theorem regs_drainOne (cq : List Callout) :
    (drainOne cq).2 ++ (drainOne cq).1.map (·.reg) = cq.map (·.reg) := by
  cases cq with
  | nil => rfl
  | cons c cs =>
    unfold drainOne
    dsimp only
    split <;> rfl

theorem drain_of_drainOne (h : (drainOne cq).2 = []) : (drain cq).1 = cq := by
  cases cq with
  | nil => rfl
  | cons c cs =>
    unfold drainOne at h
    dsimp only at h
    unfold drain
    split at h
    · cases h
    · next hgt => rw [if_neg hgt]

/-! ## One fate for every callout -/

def Timers.regs (s : Timers) : List Reg := s.cqHead.map (·.reg)

/-- Every callout made is in the queue, cancelled or invoked, and only one of these. -/
def Timers.Fates (s : Timers) : Prop := (s.regs ++ s.cancelled ++ s.invoked.map (·.1)).Perm s.made

/-- A callout is put between two others, the first that matches is taken out, or some are invoked
from the front on; all others stay in their order. -/
def Timers.Moves (s s' : Timers) : TimerOp → Prop
  | .timeout func arg n =>
    (∃ a b, s.regs = a ++ b ∧ s'.regs = a ++ ⟨func, arg, s.ticks + n.1.toNat⟩ :: b) ∧
      s'.cancelled = s.cancelled ∧ s'.invoked = s.invoked
  | .untimeout func arg =>
    s'.regs = s.regs.eraseP (fun r => r.func == func && r.arg == arg) ∧
      s'.cancelled = s.cancelled ++ (s.regs.find? fun r => r.func == func && r.arg == arg).toList ∧
      s'.invoked = s.invoked
  | .hardclock => s'.regs = s.regs ∧ s'.cancelled = s.cancelled ∧ s'.invoked = s.invoked
  | .drainOne | .drain =>
    ∃ l, s.regs = l ++ s'.regs ∧ s'.cancelled = s.cancelled ∧
      s'.invoked = s.invoked ++ l.map fun reg => (reg, s.ticks)

theorem moves_step (s : Timers) (op : TimerOp) : s.Moves (timerStep s op) op := by
  cases op with
  | timeout func arg n => exact ⟨regs_timeout_eq _ n.1 s.cqHead, rfl, rfl⟩
  | untimeout func arg =>
    obtain ⟨hregs, hout⟩ := regs_untimeout_eq func arg s.cqHead
    exact ⟨hregs, congrArg (s.cancelled ++ ·) hout, rfl⟩
  | hardclock => exact ⟨regs_hardclock s.cqHead, rfl, rfl⟩
  | drainOne => exact ⟨_, (regs_drainOne s.cqHead).symm, rfl, rfl⟩
  | drain => exact ⟨_, (regs_drain s.cqHead).symm, rfl, rfl⟩

variable {s : Timers}

theorem fates_invoke (h : s.Fates) {r : List Callout × List Reg}
    (hregs : r.2 ++ r.1.map (·.reg) = s.cqHead.map (·.reg)) : (s.invoke r).Fates := by
  refine Perm.trans ?_ h
  show (r.1.map (·.reg) ++ s.cancelled ++
    (s.invoked ++ r.2.map fun reg => (reg, s.ticks)).map (·.1)).Perm _
  rw [Timers.regs, ← hregs, map_append, List.map_map, show ((fun e : Reg × Nat => e.1) ∘
    fun reg => (reg, s.ticks)) = id from rfl, map_id]
  grind

theorem fates_step (h : s.Fates) (op : TimerOp) : (timerStep s op).Fates := by
  cases op with
  | timeout func arg n =>
    have hp := regs_timeout ⟨func, arg, s.ticks + n.1.toNat⟩ n.1 s.cqHead
    show (List.map (·.reg) (timeout _ n.1 s.cqHead) ++ s.cancelled ++
      s.invoked.map (·.1)).Perm (s.made ++ [_])
    rw [Timers.Fates, Timers.regs] at h
    grind
  | untimeout func arg =>
    have hp := regs_untimeout func arg s.cqHead
    show (List.map (·.reg) (untimeout func arg s.cqHead).1 ++
      (s.cancelled ++ (untimeout func arg s.cqHead).2) ++ s.invoked.map (·.1)).Perm s.made
    rw [Timers.Fates, Timers.regs] at h
    grind
  | hardclock =>
    show (List.map (·.reg) (hardclock s.cqHead) ++ _ ++ _).Perm _
    rw [regs_hardclock]
    exact h
  | drainOne => exact fates_invoke h (regs_drainOne _)
  | drain => exact fates_invoke h (regs_drain _)

/-- **Every callout has one fate** in every run: it is in the queue, cancelled or invoked. -/
theorem callouts_once {s : Timers} (h : Reach (· = {}) (By timerStep fun _ _ => True) s) :
    s.Fates ∧ ∀ op, s.Moves (timerStep s op) op := by
  refine ⟨Reach.ops (I := Timers.Fates) ?_ (fun s op hs _ => fates_step hs op) h, moves_step s⟩
  rintro s rfl
  exact Perm.refl _

/-! ## Every run -/

structure TimerInv (s : Timers) : Prop where
  exact : Exact s.ticks 0 s.cqHead
  neg : NegFirst s.cqHead
  range : ∀ c ∈ s.cqHead, InRange s.ticks c
  early : ∀ e ∈ s.invoked, e.1.due ≤ e.2
  fates : s.Fates

theorem TimerInv.queue (h : TimerInv s) : QueueOk s.ticks 0 s.cqHead := { h with }

theorem TimerInv.invoke (h : TimerInv s) {r : List Callout × List Reg}
    (hq : QueueOk s.ticks 0 r.1) (hdue : ∀ reg ∈ r.2, reg.due ≤ s.ticks)
    (hf : (s.invoke r).Fates) : TimerInv (s.invoke r) := by
  refine { hq with early := ?_, fates := hf }
  intro e he
  rcases mem_append.mp he with he | he
  · exact h.early e he
  · obtain ⟨reg, hreg, rfl⟩ := mem_map.mp he
    exact hdue reg hreg

theorem timerInv_step {op : TimerOp} (h : TimerInv s) (hc : CalloutCond s op) :
    TimerInv (timerStep s op) := by
  have hf := fates_step h.fates op
  cases op with
  | timeout func arg n =>
    obtain ⟨n, hn, hlim⟩ := n
    have hok : TimeoutOk n s.cqHead := hc
    have hdue : n = ((s.ticks + n.toNat : Nat) : Int) - s.ticks := by omega
    exact { timeout_ok h.queue hdue hok hn hlim with early := h.early, fates := hf }
  | untimeout func arg =>
    exact { (untimeout_ok h.queue (le_refl 0) hc).1 with early := h.early, fates := hf }
  | hardclock => exact { hardclock_ok h.queue hc with early := h.early, fates := hf }
  | drainOne =>
    obtain ⟨hq, hdue⟩ := drainOne_ok h.queue
    exact h.invoke hq hdue hf
  | drain =>
    obtain ⟨hq, hdue, -⟩ := drain_ok h.queue
    exact h.invoke hq hdue hf

/-- **Callouts are invoked on time** in every run whose steps all meet `CalloutCond`. -/
theorem callouts_on_time {s : Timers} (h : TimerReach s) : OnTime s := by
  have hinv : TimerInv s := by
    refine Reach.ops (I := TimerInv) ?_ (fun s op hI hc => timerInv_step hI hc) h
    rintro s rfl
    exact ⟨trivial, trivial, forall_mem_nil _, forall_mem_nil _, Perm.refl _⟩
  obtain ⟨-, -, hdrain⟩ := drain_ok hinv.queue
  refine ⟨hinv.fates, hinv.early, hdrain, fun hidle => ?_⟩
  rw [drain_of_drainOne hidle] at hdrain
  exact hdrain

def oneTick : Ticks := ⟨1, by decide⟩
def fewTicks : Ticks := ⟨3, by decide⟩
def moreTicks : Ticks := ⟨6, by decide⟩

/-- Three callouts, each due behind those before it or with one of them. -/
def orderly : List TimerOp :=
  [.timeout 1 0 oneTick, .timeout 2 0 moreTicks, .timeout 3 0 moreTicks, .hardclock, .hardclock,
    .drain, .untimeout 2 0, .hardclock]

theorem callouts_on_time_orderly :
    TimerReach (orderly.foldl timerStep {}) ∧ OnTime (orderly.foldl timerStep {}) := by
  have hr : TimerReach (orderly.foldl timerStep {}) :=
    Reach.foldl (Reach.start rfl) (by decide +kernel)
  exact ⟨hr, callouts_on_time hr⟩

theorem callouts_once_orderly :
    (orderly.foldl timerStep {}).Fates ∧
      ∀ op, (orderly.foldl timerStep {}).Moves (timerStep (orderly.foldl timerStep {}) op) op :=
  callouts_once (Reach.foldl (Reach.start rfl) (MeetsAll.trivial _ _))

/-- A callout between two others puts off the second by its own ticks. -/
def between : List TimerOp :=
  [.timeout 1 0 oneTick, .timeout 2 0 moreTicks, .timeout 3 0 fewTicks] ++
    (List.replicate 6 [.hardclock, .drain]).flatten

/-- A callout that is made while the head is overdue is late by as much. -/
def behindOverdue : List TimerOp :=
  [.timeout 1 0 oneTick, .hardclock, .hardclock, .timeout 2 0 oneTick, .hardclock]

/-- The cancelled head is overdue and hands its ticks on. -/
def cancelOverdue : List TimerOp :=
  [.timeout 1 0 oneTick, .timeout 2 0 moreTicks, .hardclock, .hardclock, .hardclock,
    .untimeout 1 0, .hardclock, .hardclock, .drain]

theorem callouts_off_time :
    (Reach (· = {}) (By timerStep fun _ _ => True) (between.foldl timerStep {}) ∧
      (between.foldl timerStep {}).ticks = 6 ∧
      ∃ c ∈ (timerStep (between.foldl timerStep {}) .drain).cqHead, c.reg.due = 6) ∧
    (Reach (· = {}) (By timerStep fun _ _ => True) (behindOverdue.foldl timerStep {}) ∧
      (behindOverdue.foldl timerStep {}).ticks = 3 ∧
      ∃ c ∈ (timerStep (behindOverdue.foldl timerStep {}) .drain).cqHead, c.reg.due = 3) ∧
    Reach (· = {}) (By timerStep fun _ _ => True) (cancelOverdue.foldl timerStep {}) ∧
      (cancelOverdue.foldl timerStep {}).invoked = [(⟨2, 0, 6⟩, 5)] := by
  refine ⟨⟨?_, ?_, ?_⟩, ⟨?_, ?_, ?_⟩, ?_, ?_⟩
  any_goals exact Reach.foldl (Reach.start rfl) (MeetsAll.trivial _ _)
  all_goals decide +kernel

end Anp
