import Anp.Uspace.Threads

/-!
# KernLock — who runs kernel code owns `kern_lock`

Every place of a thread's loop says whether the lock is held there (`inKernel`), and `act_ok` checks
each step against it. What that check needs is that a thread starts where the lock is not held:
`callout_thread` does not, it begins with a test of the callout queue and never locks before.
-/

namespace Anp

open Monitor Runs

/-- A step of `callout_thread` from where it starts is made with the lock. -/
def LockCond (s : Kern) : Sched → Prop
  | .step .callout _ => s.pc .callout = .coStart → s.mon.owner = some .callout
  | _ => True

theorem run_ok (d : KernData) (a : KernAct) : (a.run d).1.Ok true true := by
  obtain h | ⟨v, h⟩ := run_op d a <;> rw [h] <;> rfl

theorem act_ok {pc pc' : Pc} {d d' : KernData} {t : Tid} {e : Ev} {o : Monitor.Op CondVar}
    (h : act pc d t e = some (o, pc', d')) : o.Ok (inKernel pc) (inKernel pc') := by
  cases e with
  | go =>
    -- the places where what is done depends on the data come first
    cases pc
    case clockTick =>
      cases h
      split <;> rfl
    case coStart =>
      cases h
      split <;> rfl
    case coTest =>
      cases h
      split <;> rfl
    case swArp n =>
      cases h
      split <;> rfl
    case coDrain =>
      rw [act] at h
      split at h <;> cases h <;> rfl
    case swIp =>
      rw [act] at h
      split at h <;> cases h <;> rfl
    case slept =>
      rw [act] at h
      split at h <;> cases h <;> rfl
    all_goals
      cases h
      first
        | rfl
        | exact ⟨rfl, rfl⟩
  | kern a =>
    cases pc
    case swArp n =>
      simp only [act] at h
      split at h
      · cases h
        exact run_ok d a
      · cases h
    case coInvoke | swProto | inBytes | syscall =>
      cases h
      exact run_ok d a
    all_goals cases h
  | sleep n timo =>
    cases pc
    case syscall =>
      cases timo with
      | none | some =>
        cases h
        rfl
    all_goals cases h

/-! ## The invariant -/

/-- Every thread owns the lock where it should; `callout_thread` does not where it starts. -/
def LockInv (s : Kern) : Prop := ∀ t, ∃ h, Own s.mon t h ∧
    (h = inKernel (s.pc t) ∨ h = false ∧ t = .callout ∧ s.pc t = .coStart)

theorem lockInv_start {o : Option Tid} (ho : o = none ∨ o = some .callout) :
    LockInv (kernStart o) := by
  intro t
  rcases ho with rfl | rfl
  · refine ⟨false, ⟨nofun, nofun⟩, ?_⟩
    cases t with
    | callout => exact .inr ⟨rfl, rfl, rfl⟩
    | _ => exact .inl rfl
  · refine ⟨inKernel (startPc t), ?_, .inl rfl⟩
    cases t with
    | callout => exact ⟨fun _ => rfl, fun _ => rfl⟩
    | _ => exact ⟨nofun, nofun⟩

theorem LockInv.own {s : Kern} (h : LockInv s) {t : Tid} {e : Ev} (hc : LockCond s (.step t e))
    (hr : s.mon.st t = .run) : Own s.mon t (inKernel (s.pc t)) := by
  obtain ⟨b, hb, rfl | ⟨rfl, rfl, hpc⟩⟩ := h t
  · exact hb
  · have hown : s.mon.owner = some .callout := hc hpc
    exact absurd (((own_run hr).mp hb).mpr hown) Bool.false_ne_true

theorem lockInv_kstep {s : Kern} {a : Sched} (h : LockInv s) (hc : LockCond s a) :
    LockInv (kstep s a) := by
  cases a with
  | step t e =>
    obtain he | ⟨o, pc, d, m, hr, ha, hm, he⟩ := kstep_cases s t e
    · rw [he]
      exact h
    rw [he]
    have hown := h.own hc hr
    have hok := act_ok ha
    intro u
    by_cases hu : u = t
    · subst hu
      refine ⟨inKernel pc, hown.self hr hok hm, .inl ?_⟩
      dsimp only
      rw [Function.update_self]
    · obtain ⟨b, hb, hpc⟩ := h u
      refine ⟨b, hb.other hu ?_ hm, ?_⟩
      · rintro (rfl | ⟨v, rfl⟩)
        · exact ((own_run hr).mp hown).mp hok.1
        · exact ((own_run hr).mp hown).mp hok.1
      · dsimp only
        rw [Function.update_of_ne hu]
        exact hpc
  | resume t =>
    obtain he | ⟨m, hm, he⟩ := kstep_resume s t
    · rw [he]
      exact h
    rw [he]
    intro u
    obtain ⟨b, hb, hpc⟩ := h u
    exact ⟨b, hb.resume hm, hpc⟩
  | spurious t =>
    intro u
    obtain ⟨b, hb, hpc⟩ := h u
    exact ⟨b, hb.spurious, hpc⟩

/-- **Kernel lock discipline.** In every interleaving in which `callout_thread` makes no first step
without the lock, a thread that is about to touch the callout queue, to run kernel code, to wait or
to unlock owns `kern_lock`, and no other is about to do so. -/
theorem kern_lock_discipline {s : Kern} {t : Tid} {e : Ev}
    (h : KernReach (fun o => o = none ∨ o = some .callout) LockCond s)
    (hc : LockCond s (.step t e)) (hr : s.mon.st t = .run) (hk : inKernel (s.pc t) = true) :
    s.mon.owner = some t ∧ ∀ u e', LockCond s (.step u e') → s.mon.st u = .run →
      inKernel (s.pc u) = true → u = t := by
  have hinv : LockInv s := by
    refine Reach.ops (I := LockInv) ?_ (fun s a hI ha => lockInv_kstep hI ha) h
    rintro s ⟨o, ho, rfl⟩
    exact lockInv_start ho
  have howner : ∀ u e', LockCond s (.step u e') → s.mon.st u = .run →
      inKernel (s.pc u) = true → s.mon.owner = some u :=
    fun u e' hc hr hk => ((own_run hr).mp (hinv.own hc hr)).mp hk
  have ht := howner t e hc hr hk
  refine ⟨ht, fun u e' hc' hr' hk' => ?_⟩
  exact Option.some.inj ((howner u e' hc' hr' hk').symm.trans ht)

def oneSyscall : List Sched := [.step (.app 0) .go, .step .clock .go]

theorem kern_lock_discipline_syscall :
    (oneSyscall.foldl kstep (kernStart none)).mon.owner = some (.app 0) := by
  refine (kern_lock_discipline (t := .app 0) (e := .go) ?_ trivial ?_ ?_).1
  · exact Reach.foldl (Reach.start ⟨none, .inl rfl, rfl⟩) ⟨trivial, trivial, trivial⟩
  · decide +kernel
  · decide +kernel

/-- `callout_thread` starts: a system call owns the lock when it reads the queue and waits. -/
def calloutStarts : List Sched := [.step (.app 0) .go, .step .callout .go]

theorem callout_waits_unlocked :
    inKernel ((kernStart none).pc .callout) = true ∧ (kernStart none).mon.owner ≠ some .callout ∧
      (calloutStarts.foldl kstep (kernStart none)).mon.owner = some (.app 0) ∧
      (calloutStarts.foldl kstep (kernStart none)).mon.st .callout = .run ∧
      ((act ((calloutStarts.foldl kstep (kernStart none)).pc .callout)
        (calloutStarts.foldl kstep (kernStart none)).data .callout .go).map (·.1)) =
        some (.wait .clock) := by
  refine ⟨rfl, ?_, ?_, ?_, ?_⟩
  · exact nofun
  · decide +kernel
  · decide +kernel
  · decide +kernel

end Anp
