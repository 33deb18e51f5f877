import Anp.Tcp.Closing

/-!
# Stall — data always has a timer

After every operation on an established connection, data in `so_snd` and sequence numbers that
are not acknowledged have the retransmit or the persist timer running. This holds of runs whose
steps meet `TimerCond`: no pass of `tcp_output` stalls, no route brings a zero lower bound for
timeouts, and the count of what is acknowledged is not misled.
-/

namespace Anp

open Cyclic Machine

instance LockOk.instDecidable (rt : Route) : Decidable (LockOk rt) := by
  unfold LockOk
  infer_instance

def TimerCond : Cond := fun s op w =>
  CloseFair (enter s w) op ∧ (∀ p ∈ passesOf s op w, stalls p = false) ∧ ∀ rt ∈ w.route, LockOk rt

instance TimerCond.instDecidable (s : Sys) (op : Op) (w : World) : Decidable (TimerCond s op w) :=
  inferInstanceAs (Decidable (_ ∧ _ ∧ _))

theorem TimerCond.sendCond {s : Sys} {op : Op} {w : World} (h : TimerCond s op w) :
    SendCond (.closing True) s op w :=
  ⟨h.1.opFair, fun p hp => ⟨False.elim, fun _ => h.2.1 p hp⟩, fun _ rt hrt => h.2.2 rt hrt⟩

/-- On a connection that is established and not closed, whatever waits to be sent or acknowledged
has a timer. -/
def TimerOk : Outcome Unit → Prop
  | .ok _ s => 1 ≤ s.log.acked → TcpState.established.toNat ≤ s.tp.tState.toNat →
      0 < s.so.soSnd.sbCc ∨ s.tp.sndUna ≠ s.tp.sndMax → s.tp.rexmt ≠ 0 ∨ s.tp.persist ≠ 0
  | .stop _ _ => True

instance TimerOk.instDecidable (o : Outcome Unit) : Decidable (TimerOk o) :=
  match o with
  | .ok _ _ => by dsimp only [TimerOk]; infer_instance
  | .stop _ _ => .isTrue trivial

/-- **No silent stall.** -/
theorem timer_runs {o : Outcome Unit} (h : Reachable TimerCond o) : TimerOk o := by
  have hr : Reachable (SendCond (.closing True)) o := h.mono fun _ _ _ hc => hc.sendCond
  have hholds : Holds (.closing True) 0 o := hr.holds fun _ => trivial
  cases o with
  | ok u s =>
    intro hak hst hpend
    exact hholds.2 trivial hak hst (hpend.imp_left Nat.ne_of_gt)
  | stop why s => trivial

/-- A byte is written when `MGETHDR` finds no mbuf. -/
def nobufsOps : List (Op × World) := [(.connect, calmWorld 3),
    (.input (bareSeg 500 101 { syn := true, ack := true } 1000 []), calmWorld 3),
    (.send { mData := [0] } false, { outs := [{ mgethdr := false }] })]

/-- It waits, and nothing will send it. -/
theorem nobufs_stalls : Reachable (fun _ _ _ => True) (runOps (.ok () (socreate true)) nobufsOps) ∧
    ¬TimerOk (runOps (.ok () (socreate true)) nobufsOps) :=
  ⟨reachable_runOps (.active true) nobufsOps, by decide +kernel⟩

/-- The same write, with an mbuf. -/
def bufsOps : List (Op × World) := [(.connect, calmWorld 3),
    (.input (bareSeg 500 101 { syn := true, ack := true } 1000 []), calmWorld 3),
    (.send { mData := [0] } false, calmWorld 3)]

theorem timer_runs_bufs : Reachable TimerCond (runOps (.ok () (socreate true)) bufsOps) ∧
    TimerOk (runOps (.ok () (socreate true)) bufsOps) := by
  have hr : Reachable TimerCond (runOps (.ok () (socreate true)) bufsOps) :=
    Reachable.runOps (Runs.Reach.start (.active true)) bufsOps (by decide +kernel)
  exact ⟨hr, timer_runs hr⟩

end Anp
