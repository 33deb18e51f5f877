import Anp.Uspace.Threads
import Mathlib.Data.Nat.Bitwise

/-!
# SoftIntr — no packet waits for the next one

`sw_intr_thread` waits on a condition variable without a test of `netisr`. What is scheduled
while it waits wakes it up; what is scheduled before it waits for the first time, or by
`do_sw_intr` itself, does not.
-/

namespace Anp

open Monitor Runs

variable {a : KernAct} {d d' : KernData} {m m' : Mon Tid CondVar} {o : Monitor.Op CondVar} {pc pc' : Pc}
  {t : Tid}

def KernAct.schedules (d : KernData) : KernAct → Bool
  | .ipInput _ => decide (d.ipintrq.length < ifqMaxlen)
  | .arpInput => true
  | _ => false

/-- Who schedules network input owns the lock, and `sw_intr_thread` is in its wait. -/
def SoftCond (s : Kern) : Sched → Prop
  | .step t (.kern a) =>
    a.schedules s.data = true → s.mon.owner = some t ∧ s.mon.st .swIntr ≠ .run
  | _ => True

def IpBit (n : Nat) : Prop := n &&& 1 <<< netisrIp ≠ 0

theorem ipBit_iff (n : Nat) : IpBit n ↔ n.testBit netisrIp = true := by
  unfold IpBit
  rw [Nat.one_shiftLeft, Nat.and_two_pow]
  cases h : n.testBit netisrIp with
  | false => simp
  | true => simp

theorem ipBit_sched (n : Nat) : IpBit (n ||| 1 <<< netisrIp) := by
  rw [ipBit_iff, Nat.one_shiftLeft, Nat.testBit_or, Nat.testBit_two_pow_self, Bool.or_true]

theorem IpBit.or {n : Nat} (h : IpBit n) (k : Nat) : IpBit (n ||| k) := by
  rw [ipBit_iff] at h ⊢
  rw [Nat.testBit_or, h, Bool.true_or]

def Clean (d : KernData) : Prop := d.netisr = 0 ∧ d.ipintrq = []

def Marked (d : KernData) : Prop := d.ipintrq ≠ [] → IpBit d.netisr

/-- At each place of `sw_intr_thread`, while it runs. -/
def SoftAt (d : KernData) : Pc → Prop
  | .swLock | .swWait => Clean d
  | .swFetch => Marked d
  | .swArp n => d.netisr = 0 ∧ (d.ipintrq ≠ [] → IpBit n)
  | .swIp | .swProto => d.netisr = 0
  | _ => False

/-- The same for each status, at the place `pc`. -/
def SoftPlace (d : KernData) (pc : Pc) : Status CondVar → Prop
  | .run => SoftAt d pc
  | .blocked v => v = .swIntr ∧ pc = .swFetch ∧ Clean d
  | .woken => pc = .swFetch ∧ Marked d

/-- What `netisr` and `ipintrq` are at each place of the thread. -/
def SoftInv (s : Kern) : Prop := SoftPlace s.data (s.pc .swIntr) (s.mon.st .swIntr)

theorem Clean.marked (h : Clean d) : Marked d := fun hne => absurd h.2 hne

def SameSoft (d d' : KernData) : Prop := d'.netisr = d.netisr ∧ d'.ipintrq = d.ipintrq

theorem SoftPlace.same {st : Status CondVar} (h : SoftPlace d pc st) (hs : SameSoft d d') :
    SoftPlace d' pc st := by
  obtain ⟨timers, netisr, ipintrq, timedOut⟩ := d
  obtain ⟨rfl, rfl⟩ := hs
  cases st with
  | run =>
    cases pc
    all_goals exact h
  | blocked v => exact h
  | woken => exact h

/-! ## Steps -/

/-- Kernel code that schedules nothing leaves `netisr` and `ipintrq` alone, and wakes up nobody
who waits for them. -/
theorem run_quiet (h : a.schedules d = false) :
    SameSoft d (a.run d).2 ∧ (a.run d).1 ≠ .wake .swIntr := by
  cases a with
  | ipInput m =>
    have hfull : ifqMaxlen ≤ d.ipintrq.length := not_lt.mp (of_decide_eq_false h)
    rw [KernAct.run, if_pos hfull]
    exact ⟨⟨rfl, rfl⟩, fun he => by cases he⟩
  | arpInput => cases h
  | wakeup | timefunc | timeout | untimeout => exact ⟨⟨rfl, rfl⟩, fun he => by cases he⟩

theorem run_schedules (h : a.schedules d = true) :
    (a.run d).1 = .wake .swIntr ∧ (Marked d → Marked (a.run d).2) := by
  cases a with
  | ipInput m =>
    have hroom : ¬ ifqMaxlen ≤ d.ipintrq.length := not_le.mpr (of_decide_eq_true h)
    rw [KernAct.run, if_neg hroom]
    exact ⟨rfl, fun _ _ => ipBit_sched _⟩
  | arpInput => exact ⟨rfl, fun hm hne => (hm hne).or _⟩
  | wakeup | timefunc | timeout | untimeout => cases h

theorem act_quiet {e : Ev} (h : act pc d t e = some (o, pc', d')) (hk : ∀ a, e ≠ .kern a)
    (hfetch : pc ≠ .swFetch) (hip : pc ≠ .swIp) : SameSoft d d' ∧ o ≠ .wake .swIntr := by
  cases e with
  | kern a => exact absurd rfl (hk a)
  | go =>
    cases pc
    case swFetch => exact absurd rfl hfetch
    case swIp => exact absurd rfl hip
    case clockTick =>
      cases h
      refine ⟨⟨rfl, rfl⟩, ?_⟩
      split <;> exact fun he => by cases he
    case coDrain =>
      rw [act] at h
      split at h <;> cases h <;> exact ⟨⟨rfl, rfl⟩, fun he => by cases he⟩
    case slept =>
      rw [act] at h
      split at h <;> cases h <;> exact ⟨⟨rfl, rfl⟩, fun he => by cases he⟩
    all_goals
      cases h
      exact ⟨⟨rfl, rfl⟩, fun he => by cases he⟩
  | sleep n timo =>
    cases pc
    case syscall =>
      cases timo with
      | none | some =>
        cases h
        exact ⟨⟨rfl, rfl⟩, fun he => by cases he⟩
    all_goals cases h

theorem st_op {u : Tid} (hne : u ≠ t) (h : m.op t o = some m') :
    m'.st u = m.st u ∨ ∃ v, o = .wake v ∧ m.st u = .blocked v ∧ m'.st u = .woken := by
  cases o with
  | lock =>
    obtain ⟨-, rfl⟩ := Mon.op_lock h
    exact .inl rfl
  | unlock | other =>
    cases h
    exact .inl rfl
  | wait v =>
    cases h
    exact .inl (Function.update_of_ne hne _ _)
  | wake v =>
    cases h
    dsimp only
    split
    · next hb => exact .inr ⟨v, rfl, hb, rfl⟩
    · exact .inl rfl

theorem SoftPlace.quiet (h : SoftPlace d pc (m.st .swIntr)) (hne : Tid.swIntr ≠ t)
    (hop : m.op t o = some m') (hq : SameSoft d d' ∧ o ≠ .wake .swIntr) :
    SoftPlace d' pc (m'.st .swIntr) := by
  obtain he | ⟨v, rfl, hb, -⟩ := st_op hne hop
  · rw [he]
    exact h.same hq.1
  · rw [hb] at h
    exact absurd (congrArg Monitor.Op.wake h.1) hq.2

theorem SoftPlace.schedules (h : SoftPlace d pc (m.st .swIntr)) (hop : m.op t (a.run d).1 = some m')
    (hs : a.schedules d = true) (hw : m.st .swIntr ≠ .run) :
    SoftPlace (a.run d).2 pc (m'.st .swIntr) := by
  obtain ⟨ho, hm⟩ := run_schedules hs
  rw [ho] at hop
  cases hop
  dsimp only
  cases hst : m.st .swIntr with
  | run => exact absurd hst hw
  | blocked v =>
    rw [hst] at h
    obtain ⟨rfl, hpc, hc⟩ := h
    exact ⟨hpc, hm hc.marked⟩
  | woken =>
    rw [hst] at h
    exact ⟨h.1, hm h.2⟩

theorem softAt_self (h : SoftAt d pc) (hr : m.st .swIntr = .run)
    (ha : act pc d .swIntr .go = some (o, pc', d')) (hop : m.op .swIntr o = some m') :
    SoftPlace d' pc' (m'.st .swIntr) := by
  cases pc with
  | swLock =>
    cases ha
    obtain ⟨-, rfl⟩ := Mon.op_lock hop
    rw [hr]
    exact h
  | swWait =>
    cases ha
    cases hop
    exact ⟨rfl, rfl, h⟩
  | swFetch =>
    cases ha
    cases hop
    rw [hr]
    exact ⟨rfl, h⟩
  | swArp n =>
    cases ha
    cases hop
    rw [hr]
    split
    · exact h.1
    · next hbit => exact ⟨h.1, by_contra fun hq => hbit (h.2 hq)⟩
  | swIp =>
    rw [act] at ha
    split at ha
    · next hq =>
      cases ha
      cases hop
      rw [hr]
      exact ⟨h, hq⟩
    · cases ha
      cases hop
      rw [hr]
      exact h
  | swProto =>
    cases ha
    cases hop
    rw [hr]
    exact h
  | _ => cases h

theorem act_kern (h : act pc d t (.kern a) = some (o, pc', d')) :
    pc' = pc ∧ o = (a.run d).1 ∧ d' = (a.run d).2 := by
  cases pc
  case swArp n =>
    simp only [act] at h
    split at h <;> cases h
    exact ⟨rfl, rfl, rfl⟩
  case coInvoke | swProto | inBytes | syscall =>
    cases h
    exact ⟨rfl, rfl, rfl⟩
  all_goals cases h

theorem softInv_step {s : Kern} {e : Ev} (h : SoftInv s) (hc : SoftCond s (.step t e))
    (hl : (s.pc t).loop = t.loop) : SoftInv (kstep s (.step t e)) := by
  obtain he | ⟨o, pc, d, m, hr, ha, hm, he⟩ := kstep_cases s t e
  · rw [he]
    exact h
  rw [he]
  unfold SoftInv at h ⊢
  dsimp only
  by_cases ht : t = .swIntr
  · subst ht
    rw [hr] at h
    cases e with
    | go => exact softAt_self h hr ha hm
    | kern a =>
      -- `do_sw_intr` runs, so it may not schedule anything
      have hno : a.schedules s.data = false := by
        cases hs : a.schedules s.data with
        | false => rfl
        | true => exact absurd hr (hc hs).2
      obtain ⟨rfl, rfl, rfl⟩ := act_kern ha
      have hrun : m.st .swIntr = .run := by
        obtain ho | ⟨v, ho⟩ := run_op s.data a
        · rw [ho] at hm
          cases hm
          exact hr
        · rw [ho] at hm
          cases hm
          exact (wake_run v _).mpr hr
      rw [hrun]
      exact SoftPlace.same (show SoftPlace _ _ .run from h) (run_quiet hno).1
    | sleep n timo =>
      cases hp : s.pc .swIntr with
      | syscall =>
        rw [hp] at h
        cases h
      | _ =>
        rw [hp] at ha
        cases ha
  · have hne : Tid.swIntr ≠ t := fun h => ht h.symm
    rw [Function.update_of_ne hne]
    have hloop : (s.pc t).loop ≠ .swIntr := by
      rw [hl]
      cases t with
      | swIntr => exact absurd rfl ht
      | _ => exact fun he => by cases he
    by_cases hk : ∃ a, e = .kern a
    · obtain ⟨a, rfl⟩ := hk
      obtain ⟨-, rfl, rfl⟩ := act_kern ha
      cases hs : a.schedules s.data with
      | true => exact h.schedules hm hs (hc hs).2
      | false => exact h.quiet hne hm (run_quiet hs)
    · refine h.quiet hne hm (act_quiet ha (fun a he => hk ⟨a, he⟩) ?_ ?_)
      · exact fun hp => hloop (by rw [hp]; rfl)
      · exact fun hp => hloop (by rw [hp]; rfl)

theorem softInv_kstep {s : Kern} {a : Sched} (h : SoftInv s) (hc : SoftCond s a)
    (hl : ∀ t, (s.pc t).loop = t.loop) : SoftInv (kstep s a) := by
  cases a with
  | step t e => exact softInv_step h hc (hl t)
  | resume t =>
    obtain he | ⟨m, hm, he⟩ := kstep_resume s t
    · rw [he]
      exact h
    rw [he]
    unfold Mon.resume at hm
    split at hm
    · next hw =>
      cases hm
      unfold SoftInv at h ⊢
      dsimp only
      by_cases ht : t = .swIntr
      · subst ht
        rw [hw.1] at h
        rw [h.1]
        exact h.2
      · rw [Function.update_of_ne (fun h => ht h.symm)]
        exact h
    · cases hm
  | spurious t =>
    unfold SoftInv at h ⊢
    rw [kstep]
    unfold Mon.spurious
    split
    · exact h
    · next hw =>
      dsimp only
      by_cases ht : t = .swIntr
      · subst ht
        cases hst : s.mon.st .swIntr with
        | run => exact absurd hst hw
        | blocked v =>
          rw [hst] at h
          exact ⟨h.2.1, h.2.2.marked⟩
        | woken =>
          rw [hst] at h
          exact h
      · rw [Function.update_of_ne (fun h => ht h.symm)]
        exact h

/-- **No lost soft interrupt.** In every interleaving in which network input is scheduled only while
`sw_intr_thread` is in its wait: when that thread is blocked there, not woken, there is nothing to
do. -/
theorem no_lost_softint {s : Kern} (h : KernReach (fun o => o = none) SoftCond s)
    (hb : s.mon.st .swIntr = .blocked .swIntr) : s.data.netisr = 0 ∧ s.data.ipintrq = [] := by
  have hinv : SoftInv s ∧ ∀ t, (s.pc t).loop = t.loop := by
    refine Reach.ops (I := fun s => SoftInv s ∧ ∀ t, (s.pc t).loop = t.loop) ?_ ?_ h
    · rintro s ⟨o, -, rfl⟩
      exact ⟨⟨rfl, rfl⟩, loop_startPc⟩
    · exact fun s a hI hc => ⟨softInv_kstep hI.1 hc hI.2, loop_kstep hI.2 a⟩
  have hs := hinv.1
  unfold SoftInv at hs
  rw [hb] at hs
  exact hs.2.2

def inputWhileWaiting : List Sched :=
  [.step .swIntr .go, .step .swIntr .go, .step .spipe .go, .step .spipe (.kern (.ipInput [1])),
    .step .spipe .go, .resume .swIntr, .step .swIntr .go, .step .swIntr .go, .step .swIntr .go,
    .step .swIntr .go, .step .swIntr .go, .step .swIntr .go]

theorem no_lost_softint_input :
    (inputWhileWaiting.foldl kstep (kernStart none)).mon.st .swIntr = .blocked .swIntr ∧
      (inputWhileWaiting.foldl kstep (kernStart none)).data.netisr = 0 ∧
      (inputWhileWaiting.foldl kstep (kernStart none)).data.ipintrq = [] := by
  have hst : (inputWhileWaiting.foldl kstep (kernStart none)).mon.st .swIntr =
      .blocked .swIntr := by decide +kernel
  refine ⟨hst, no_lost_softint (Reach.foldl (Reach.start ⟨none, rfl, rfl⟩) ?_) hst⟩
  refine ⟨trivial, trivial, trivial, fun _ => ?_, trivial, trivial, trivial, trivial, trivial,
    trivial, trivial, trivial, trivial⟩
  decide +kernel

/-- A packet arrives before the thread waits for the first time. -/
def inputTooEarly : List Sched :=
  [.step .spipe .go, .step .spipe (.kern (.ipInput [1])), .step .spipe .go, .step .swIntr .go,
    .step .swIntr .go]

/-- The packet that `ipintr` handles is answered by one to this host. -/
def inputLooped : List Sched :=
  [.step .swIntr .go, .step .swIntr .go, .step .spipe .go, .step .spipe (.kern (.ipInput [1])),
    .step .spipe .go, .resume .swIntr, .step .swIntr .go, .step .swIntr .go, .step .swIntr .go,
    .step .swIntr (.kern (.ipInput [2])), .step .swIntr .go, .step .swIntr .go,
    .step .swIntr .go, .step .swIntr .go, .step .swIntr .go]

theorem lost_softint :
    ((inputTooEarly.foldl kstep (kernStart none)).mon.owner = none ∧
      (inputTooEarly.foldl kstep (kernStart none)).mon.st .swIntr = .blocked .swIntr ∧
      (inputTooEarly.foldl kstep (kernStart none)).data.netisr = 4 ∧
      (inputTooEarly.foldl kstep (kernStart none)).data.ipintrq = [[1]]) ∧
    (inputLooped.foldl kstep (kernStart none)).mon.owner = none ∧
      (inputLooped.foldl kstep (kernStart none)).mon.st .swIntr = .blocked .swIntr ∧
      (inputLooped.foldl kstep (kernStart none)).data.netisr = 4 ∧
      (inputLooped.foldl kstep (kernStart none)).data.ipintrq = [] := by
  decide +kernel

end Anp
