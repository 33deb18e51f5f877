import Anp.Kern.Mbuf
import Anp.Lib.Monitor
import Anp.Uspace.Timers

/-!
# Threads — the kernel's threads and its lock

`uspace/mt.c`, `timers.c`, `ksync.c`, `kspl.c`, `spipe.c` and `anp_syscall.c`. All kernel code is
meant to run under `kern_lock`. Each thread is a loop over the places of `Pc`; `act` says what
a thread does at its place, with the data it changes and what it does to the lock.

`netisr` is the bit mask of the source. Packets and the code that handles them are left open: a
thread in kernel code may do any `KernAct`.
-/

namespace Anp

open Monitor Runs

/-! ## Threads and their places -/

/-- The threads. -/
inductive Tid where
  | clock
  | callout
  | swIntr
  | spipe
  | app (n : Nat)
  deriving DecidableEq, Repr

/-- The condition variables: `clock_cond`, `sw_intr_cond`, and `slpqueue`. -/
inductive CondVar where
  | clock
  | swIntr
  | slp (n : Fin 8)
  deriving DecidableEq, Repr

/-- The places in their loops. -/
inductive Pc where
  -- `clock_thread`: asleep, before `hardclock`, before `MU_UNLOCK`
  | clockSleep | clockTick | clockUnlock
  -- `callout_thread`: where it starts, the outer test, `COND_WAIT`, the inner loop, the call, and
  -- around the lock
  | coStart | coTest | coWait | coDrain | coInvoke | coUnlock | coLock
  -- `sw_intr_thread`: `MU_LOCK`, `COND_WAIT`, and `do_sw_intr` with what it took from `netisr`
  | swLock | swWait | swFetch | swArp (n : Nat) | swIp | swProto
  -- `spipe_input_thread`
  | inRead | inBytes
  -- a thread of the application, and `tsleep`
  | user | syscall | asleep (n : Fin 8) | slept
  deriving DecidableEq, Repr

/-- The thread whose loop a place is in; all threads of the application have the same. -/
def Pc.loop : Pc → Tid
  | .clockSleep | .clockTick | .clockUnlock => .clock
  | .coStart | .coTest | .coWait | .coDrain | .coInvoke | .coUnlock | .coLock => .callout
  | .swLock | .swWait | .swFetch | .swArp _ | .swIp | .swProto => .swIntr
  | .inRead | .inBytes => .spipe
  | .user | .syscall | .asleep _ | .slept => .app 0

def Tid.loop : Tid → Tid
  | .app _ => .app 0
  | t => t

/-- The thread is between `MU_LOCK` and `MU_UNLOCK`: it touches the callout queue, runs a callout
or other kernel code, waits or unlocks. -/
def inKernel : Pc → Bool
  | .clockSleep | .coLock | .swLock | .inRead | .user => false
  | _ => true

/-! ## Data -/

structure KernData where
  timers : Timers := {}
  netisr : Nat := 0
  ipintrq : List (List Byte) := []
  -- `timoarg` of a sleeping thread was cleared
  timedOut : Tid → Bool := fun _ => false

def netisrIp : Nat := 2
def netisrArp : Nat := 18

/-- `ifq_maxlen` of `ipintrq`. -/
def ifqMaxlen : Nat := 50

/-- What kernel code that a thread has entered may do to the data modelled here. -/
inductive KernAct where
  | timeout (func arg : Nat) (n : Ticks)
  | untimeout (func arg : Nat)
  -- `IF_ENQUEUE(&ipintrq, m)` and `schednetisr(NETISR_IP)`, unless the queue is full
  | ipInput (m : List Byte)
  -- `schednetisr(NETISR_ARP)`
  | arpInput
  | wakeup (n : Fin 8)
  -- `sleep_timefunc`
  | timefunc (t : Tid) (n : Fin 8)

def KernAct.run (d : KernData) : KernAct → Monitor.Op CondVar × KernData
  | .timeout func arg n => (.other, { d with timers := timerStep d.timers (.timeout func arg n) })
  | .untimeout func arg => (.other, { d with timers := timerStep d.timers (.untimeout func arg) })
  | .ipInput m =>
    if ifqMaxlen ≤ d.ipintrq.length then (.other, d)
    else (.wake .swIntr,
      { d with ipintrq := d.ipintrq ++ [m], netisr := d.netisr ||| 1 <<< netisrIp })
  | .arpInput => (.wake .swIntr, { d with netisr := d.netisr ||| 1 <<< netisrArp })
  | .wakeup n => (.wake (.slp n), d)
  | .timefunc t n => (.wake (.slp n), { d with timedOut := Function.update d.timedOut t true })

/-! ## Steps -/

/-- What a thread does next: go on in its loop, run kernel code, or sleep in it. -/
inductive Ev where
  | go
  | kern (a : KernAct)
  | sleep (n : Fin 8) (timo : Option Ticks)

/-- `sleep_timefunc` and its argument, the address of `timoarg` in the frame of `tsleep`. -/
def sleepTimefunc : Nat := 0

def timoarg : Tid → Nat
  | .app n => n
  | _ => 0

/-- `hardclock` has to wake `callout_thread`. -/
def needsoft (cq : List Callout) : Bool := cq.head?.any fun c => decide (c.ticks ≤ 0)

/-- The operation on the lock, the next place and the data; `none` when the thread cannot do it. -/
def act (pc : Pc) (d : KernData) (t : Tid) : Ev → Option (Monitor.Op CondVar × Pc × KernData)
  | .go =>
    match pc with
    | .clockSleep => some (.lock, .clockTick, d)
    | .clockTick =>
      let timers := timerStep d.timers .hardclock
      some (if needsoft timers.cqHead then .wake .clock else .other, .clockUnlock,
        { d with timers := timers })
    | .clockUnlock => some (.unlock, .clockSleep, d)
    -- the outer test, which the thread comes to without a lock when it starts
    | .coStart | .coTest =>
      some (.other, if needsoft d.timers.cqHead then .coDrain else .coWait, d)
    | .coWait => some (.wait .clock, .coTest, d)
    | .coDrain =>
      if needsoft d.timers.cqHead then
        some (.other, .coInvoke, { d with timers := timerStep d.timers .drainOne })
      else some (.other, .coTest, d)
    | .coInvoke => some (.other, .coUnlock, d)
    | .coUnlock => some (.unlock, .coLock, d)
    | .coLock => some (.lock, .coDrain, d)
    | .swLock => some (.lock, .swWait, d)
    | .swWait => some (.wait .swIntr, .swFetch, d)
    | .swFetch => some (.other, .swArp d.netisr, { d with netisr := 0 })
    | .swArp n => some (.other, if n &&& 1 <<< netisrIp ≠ 0 then .swIp else .swWait, d)
    | .swIp =>
      match d.ipintrq with
      | [] => some (.other, .swWait, d)
      | _ :: q => some (.other, .swProto, { d with ipintrq := q })
    | .swProto => some (.other, .swIp, d)
    | .inRead => some (.lock, .inBytes, d)
    | .inBytes => some (.unlock, .inRead, d)
    | .user => some (.lock, .syscall, d)
    | .syscall => some (.unlock, .user, d)
    | .asleep n => some (.wait (.slp n), .slept, d)
    | .slept =>
      -- the timer that did not go off is cancelled
      if d.timedOut t then some (.other, .syscall, d)
      else some (.other, .syscall, { d with timers := timerStep d.timers (.untimeout sleepTimefunc (timoarg t)) })
  | .kern a =>
    match pc with
    | .coInvoke | .swProto | .inBytes | .syscall =>
      let r := a.run d
      some (r.1, pc, r.2)
    | .swArp n =>
      if n &&& 1 <<< netisrArp ≠ 0 then
        let r := a.run d
        some (r.1, pc, r.2)
      else none
    | _ => none
  | .sleep n timo =>
    match pc with
    | .syscall =>
      let d := { d with timedOut := Function.update d.timedOut t false }
      match timo with
      | none => some (.other, .asleep n, d)
      | some ticks =>
        some (.other, .asleep n,
          { d with timers := timerStep d.timers (.timeout sleepTimefunc (timoarg t) ticks) })
    | _ => none

structure Kern where
  mon : Mon Tid CondVar
  pc : Tid → Pc
  data : KernData

def startPc : Tid → Pc
  | .clock => .clockSleep
  | .callout => .coStart
  | .swIntr => .swLock
  | .spipe => .inRead
  | .app _ => .user

/-- The system when the threads are created, with the owner of `kern_lock` given. -/
def kernStart (owner : Option Tid) : Kern :=
  { mon := { owner := owner, st := fun _ => .run }, pc := startPc, data := {} }

/-- A step of the interleaving: a thread that runs does something, one that was woken takes the
lock, or one is woken for no reason. -/
inductive Sched where
  | step (t : Tid) (e : Ev)
  | resume (t : Tid)
  | spurious (t : Tid)

/-- Nothing happens when the thread cannot do it. -/
def kstep (s : Kern) : Sched → Kern
  | .step t e =>
    if s.mon.st t = .run then
      match act (s.pc t) s.data t e with
      | none => s
      | some (o, pc, d) =>
        match s.mon.op t o with
        | none => s
        | some m => { mon := m, pc := Function.update s.pc t pc, data := d }
    else s
  | .resume t =>
    match s.mon.resume t with
    | none => s
    | some m => { s with mon := m }
  | .spurious t => { s with mon := s.mon.spurious t }

/-- What an interleaving whose steps all meet `C` can lead to, when `kern_lock` starts with one of
the owners in `O`. -/
def KernReach (O : Option Tid → Prop) (C : Kern → Sched → Prop) (s : Kern) : Prop :=
  Reach (fun s => ∃ o, O o ∧ s = kernStart o) (By kstep C) s

/-! ## What a step does -/

theorem kstep_cases (s : Kern) (t : Tid) (e : Ev) :
    kstep s (.step t e) = s ∨ ∃ o pc d m, s.mon.st t = .run ∧
      act (s.pc t) s.data t e = some (o, pc, d) ∧ s.mon.op t o = some m ∧
      kstep s (.step t e) = { mon := m, pc := Function.update s.pc t pc, data := d } := by
  rw [kstep]
  split
  · next hr =>
    cases ha : act (s.pc t) s.data t e with
    | none => exact .inl rfl
    | some r =>
      obtain ⟨o, pc, d⟩ := r
      dsimp only
      cases hm : s.mon.op t o with
      | none => exact .inl rfl
      | some m => exact .inr ⟨o, pc, d, m, hr, rfl, hm, rfl⟩
  · exact .inl rfl

theorem kstep_resume (s : Kern) (t : Tid) :
    kstep s (.resume t) = s ∨ ∃ m, s.mon.resume t = some m ∧
      kstep s (.resume t) = { s with mon := m } := by
  rw [kstep]
  cases hm : s.mon.resume t with
  | none => exact .inl rfl
  | some m => exact .inr ⟨m, rfl, rfl⟩

theorem loop_startPc (t : Tid) : (startPc t).loop = t.loop := by
  cases t <;> rfl

theorem loop_act {pc pc' : Pc} {d d' : KernData} {t : Tid} {e : Ev} {o : Monitor.Op CondVar}
    (h : act pc d t e = some (o, pc', d')) : pc'.loop = pc.loop := by
  cases e with
  | go =>
    cases pc
    case coStart | coTest | swArp n =>
      cases h
      split <;> rfl
    case coDrain | swIp | slept =>
      rw [act] at h
      split at h <;> cases h <;> rfl
    all_goals
      cases h
      rfl
  | kern a =>
    cases pc
    case swArp n =>
      simp only [act] at h
      split at h <;> cases h
      rfl
    case coInvoke | swProto | inBytes | syscall =>
      cases h
      rfl
    all_goals cases h
  | sleep n timo =>
    cases pc
    case syscall => cases timo <;> cases h <;> rfl
    all_goals cases h

theorem loop_kstep {s : Kern} (h : ∀ t, (s.pc t).loop = t.loop) (a : Sched) (u : Tid) :
    ((kstep s a).pc u).loop = u.loop := by
  cases a with
  | step t e =>
    obtain he | ⟨o, pc, d, m, -, ha, -, he⟩ := kstep_cases s t e
    · rw [he]
      exact h u
    rw [he]
    dsimp only
    by_cases hu : u = t
    · subst hu
      rw [Function.update_self]
      exact (loop_act ha).trans (h u)
    · rw [Function.update_of_ne hu]
      exact h u
  | resume t =>
    obtain he | ⟨m, -, he⟩ := kstep_resume s t
    · rw [he]
      exact h u
    · rw [he]
      exact h u
  | spurious t => exact h u

theorem run_op (d : KernData) (a : KernAct) : (a.run d).1 = .other ∨ ∃ v, (a.run d).1 = .wake v := by
  cases a with
  | ipInput m =>
    rw [KernAct.run]
    split
    · exact .inl rfl
    · exact .inr ⟨_, rfl⟩
  | arpInput | wakeup | timefunc => exact .inr ⟨_, rfl⟩
  | timeout | untimeout => exact .inl rfl

end Anp
