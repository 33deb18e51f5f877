import Mathlib.Logic.Function.Basic

/-!
# Monitor — a mutex with condition variables

Threads of type `T` share one mutex; a thread that waits on a condition variable of type `V`
gives the mutex up and takes it again before it goes on. A wake-up without a waiter is lost.
-/

namespace Monitor

variable {T V : Type*}

/-- A thread runs, waits for a condition, or was woken and waits for the mutex. -/
inductive Status (V : Type*) where
  | run
  | blocked (v : V)
  | woken
  deriving DecidableEq

/-- Who owns the mutex, and which threads wait. -/
structure Mon (T V : Type*) where
  owner : Option T
  st : T → Status V

/-- What one step of a thread does to it. -/
inductive Op (V : Type*) where
  | lock
  | unlock
  | wait (v : V)
  | wake (v : V)
  | other
  deriving DecidableEq

/-- A program may do this where it holds the mutex or not, and then holds it or not. -/
def Op.Ok : Op V → Bool → Bool → Prop
  | .lock, h, h' => h = false ∧ h' = true
  | .unlock, h, h' => h = true ∧ h' = false
  | .wait _, h, h' => h = true ∧ h' = true
  | _, h, h' => h' = h

/-- The thread owns the mutex where `h` says so; while it waits it does not. -/
def Own (m : Mon T V) (t : T) (h : Bool) : Prop :=
  match m.st t with
  | .run => h = true ↔ m.owner = some t
  | _ => h = true ∧ m.owner ≠ some t

theorem own_run {m : Mon T V} {t : T} {h : Bool} (hr : m.st t = .run) :
    Own m t h ↔ (h = true ↔ m.owner = some t) := by
  unfold Own
  rw [hr]

theorem own_waits {m : Mon T V} {t : T} {h : Bool} (hr : m.st t ≠ .run) :
    Own m t h ↔ h = true ∧ m.owner ≠ some t := by
  unfold Own
  cases hs : m.st t with
  | run => exact absurd hs hr
  | blocked v => exact Iff.rfl
  | woken => exact Iff.rfl

variable {m m' : Mon T V} {t u : T} {o : Op V} {h h' : Bool}

/-- Only whether the thread runs and whether it is the owner counts. -/
theorem Own.keep (ho : Own m u h) (hst : m'.st u = .run ↔ m.st u = .run)
    (hown : m'.owner = some u ↔ m.owner = some u) : Own m' u h := by
  by_cases hr : m.st u = .run
  · rw [own_run (hst.mpr hr), hown]
    exact (own_run hr).mp ho
  · rw [own_waits (fun h => hr (hst.mp h)), ne_eq, hown]
    exact (own_waits hr).mp ho

/-! ## Operations -/

variable [DecidableEq V]

theorem wake_run (v : V) (u : T) :
    (if m.st u = .blocked v then Status.woken else m.st u) = .run ↔ m.st u = .run := by
  split
  · next hb =>
    rw [hb]
    exact ⟨nofun, nofun⟩
  · exact Iff.rfl

variable [DecidableEq T]

/-- One operation of the thread `t`; `none` when it has to wait for the mutex. For a thread that is
not the owner, which the standard leaves undefined, `unlock` frees it and `wait` leaves it. -/
def Mon.op (m : Mon T V) (t : T) : Op V → Option (Mon T V)
  | .lock => if m.owner = none then some { m with owner := some t } else none
  | .unlock => some { m with owner := none }
  | .wait v => some
    { owner := if m.owner = some t then none else m.owner
      st := Function.update m.st t (.blocked v) }
  | .wake v => some { m with st := fun u => if m.st u = .blocked v then .woken else m.st u }
  | .other => some m

/-- A thread that was woken takes the mutex. -/
def Mon.resume (m : Mon T V) (t : T) : Option (Mon T V) :=
  if m.st t = .woken ∧ m.owner = none then
    some { owner := some t, st := Function.update m.st t .run }
  else none

/-- A wait may end without a wake-up. -/
def Mon.spurious (m : Mon T V) (t : T) : Mon T V :=
  if m.st t = .run then m else { m with st := Function.update m.st t .woken }

theorem Mon.op_lock (hop : m.op t .lock = some m') :
    m.owner = none ∧ m' = { m with owner := some t } := by
  rw [Mon.op] at hop
  split at hop
  · next hfree => exact ⟨hfree, (Option.some.inj hop).symm⟩
  · cases hop

/-- The thread that acts keeps it. -/
theorem Own.self (ho : Own m t h) (hr : m.st t = .run) (hok : o.Ok h h')
    (hop : m.op t o = some m') : Own m' t h' := by
  cases o with
  | lock =>
    obtain ⟨-, rfl⟩ := Mon.op_lock hop
    rw [own_run (show ({ m with owner := some t } : Mon T V).st t = .run from hr), hok.2]
    exact ⟨fun _ => rfl, fun _ => rfl⟩
  | unlock =>
    cases hop
    rw [own_run (show ({ m with owner := none } : Mon T V).st t = .run from hr), hok.2]
    exact ⟨nofun, nofun⟩
  | wait v =>
    have hown : m.owner = some t := ((own_run hr).mp ho).mp hok.1
    cases hop
    rw [own_waits (by simp), hok.2, if_pos hown]
    exact ⟨rfl, nofun⟩
  | wake v =>
    cases hop
    rw [show h' = h from hok]
    exact ho.keep (wake_run v t) Iff.rfl
  | other =>
    cases hop
    rw [show h' = h from hok]
    exact ho

/-- So do the others. -/
theorem Own.other (ho : Own m u h) (hne : u ≠ t)
    (hown : (o = .unlock ∨ ∃ v, o = .wait v) → m.owner = some t) (hop : m.op t o = some m') :
    Own m' u h := by
  have hnot : some t ≠ some u := fun h => hne (Option.some.inj h).symm
  cases o with
  | lock =>
    obtain ⟨hfree, rfl⟩ := Mon.op_lock hop
    refine ho.keep Iff.rfl ?_
    rw [hfree]
    exact ⟨fun h => absurd h hnot, nofun⟩
  | unlock =>
    cases hop
    refine ho.keep Iff.rfl ?_
    rw [hown (Or.inl rfl)]
    exact ⟨nofun, fun h => absurd h hnot⟩
  | wait v =>
    cases hop
    refine ho.keep ?_ ?_
    · dsimp only
      rw [Function.update_of_ne hne]
    · have ht := hown (Or.inr ⟨v, rfl⟩)
      rw [if_pos ht, ht]
      exact ⟨nofun, fun h => absurd h hnot⟩
  | wake v =>
    cases hop
    exact ho.keep (wake_run v u) Iff.rfl
  | other =>
    cases hop
    exact ho

theorem Own.resume (ho : Own m u h) (hop : m.resume t = some m') : Own m' u h := by
  unfold Mon.resume at hop
  split at hop
  · next hc =>
    cases hop
    by_cases hu : u = t
    · subst hu
      have hw := (own_waits (by rw [hc.1]; exact nofun)).mp ho
      rw [own_run (by simp), hw.1]
      exact ⟨fun _ => rfl, fun _ => rfl⟩
    · refine ho.keep ?_ ?_
      · dsimp only
        rw [Function.update_of_ne hu]
      · rw [hc.2]
        exact ⟨fun h => absurd (Option.some.inj h).symm hu, nofun⟩
  · cases hop

theorem Own.spurious (ho : Own m u h) : Own (m.spurious t) u h := by
  unfold Mon.spurious
  split
  · exact ho
  · next hr =>
    refine ho.keep ?_ Iff.rfl
    dsimp only
    by_cases hu : u = t
    · subst hu
      rw [Function.update_self]
      exact ⟨nofun, fun h => absurd h hr⟩
    · rw [Function.update_of_ne hu]

end Monitor
