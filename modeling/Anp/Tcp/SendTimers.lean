import Anp.Tcp.Acts
import Anp.Tcp.Stream

/-!
# SendTimers — retransmitting and persisting exclude each other

The comment of `tcp_output` names three states of the output side: idle, persisting,
(re)transmitting "and thereby not persisting". A pass keeps the two timers apart
(`oneTimer_outPass`), every other act does by `Free.timers`, so no run brings them together, and
`tcp_setpersist` is never called while the retransmit timer runs.
-/

namespace Anp

open Cyclic Machine

variable {s : Sys} {tp : Tcpcb}

theorem oneTimer_outDecide (so : Socket) (h : OneTimer tp) :
    OneTimer (outDecide tp so).tp := by
  have hforce : OneTimer (outForce so.soSnd.sbCc (outStart tp)).tp := by
    unfold outForce
    split
    · split
      · exact h
      · exact .inr rfl
    · exact h
  have hlen : OneTimer (outLen so.soSnd.sbCc (outForce so.soSnd.sbCc (outStart tp))).tp := by
    unfold outLen
    simp only
    split
    · split
      · exact .inl rfl
      · exact hforce
    · exact hforce
  have hcap : ∀ v, (outCap v).tp = v.tp := by
    intro v
    unfold outCap
    split <;> rfl
  have hfin : ∀ cc v, (outFin cc v).tp = v.tp := by
    intro cc v
    unfold outFin
    split <;> rfl
  rw [outDecide, hfin, hcap]
  exact hlen

theorem oneTimer_outArm (h : OneTimer tp) : OneTimer (outArm tp) := by
  unfold outArm
  split
  · exact .inr rfl
  · exact h

theorem oneTimer_outMeasure (q : Seq) (h : OneTimer tp) :
    OneTimer (outMeasure tp q) := by
  obtain ⟨c, d, e, hm, -⟩ := outMeasure_eq tp q
  rw [hm]
  exact h

theorem oneTimer_outAdvance (flags : Flags) (len : Nat) (h : OneTimer tp) :
    OneTimer (outAdvance tp flags len) := by
  unfold outAdvance
  split
  · refine oneTimer_outArm (oneTimer_outMeasure _ ?_)
    exact h
  · simp only
    split <;> exact h

theorem oneTimer_outEmit (win : Int) (flags : Flags) (data : List Byte) (h : OneTimer s.tp) :
    OneTimer (outEmit s win flags data).tp := by
  refine oneTimer_outAdvance flags data.length ?_
  have hfin : OneTimer (outResendFin s.tp flags) := by
    unfold outResendFin
    split <;> exact h
  unfold outPullUp
  split <;> exact hfin

theorem passRel_oneTimer : PassRel fun s s' => OneTimer s.tp → OneTimer s'.tp where
  refl _ := id
  trans h h' := h' ∘ h
  decided s := oneTimer_outDecide s.so
  options h := .same (view_outOptions h).rexmt (view_outOptions h).persist
  error s e := .same (view_outError s e).rexmt (view_outError s e).persist
  emit s win flags data := oneTimer_outEmit win flags data
  acked _ _ := id
  quiet s := by
    -- the persist timer is started where neither runs
    obtain ⟨p, x, he, hp⟩ := outQuiet_eq s
    rw [he]
    rcases hp with rfl | h0
    · exact id
    · exact fun _ => .inl h0

theorem oneTimer_act {s' : Sys} (ha : Act True s s') (h : OneTimer s.tp) : OneTimer s'.tp := by
  cases ha with
  | free hf => exact hf.timers h
  | fresh _ hf => exact hf.timers h
  | pass idle env outs => exact passRel_oneTimer.outPass _ idle env h

theorem oneTimer_init {o : Outcome Unit} (h : Init o) : OneTimer o.st.tp := by
  cases h with
  | active | passive => exact .inl rfl

/-- **The retransmit and the persist timer never run together**, and `tcp_setpersist` does not
panic, in any run. -/
theorem timers_exclusive {o : Outcome Unit} (h : Reachable (fun _ _ _ => True) o) :
    (o.st.tp.rexmt = 0 ∨ o.st.tp.persist = 0) ∧ ∀ s, o ≠ .stop (.panic .tcpSetpersist) s := by
  refine Reachable.invariant (I := fun o => OneTimer o.st.tp ∧
    ∀ s, o ≠ .stop (.panic .tcpSetpersist) s) ?_ ?_ h
  · intro o hinit
    refine ⟨oneTimer_init hinit, ?_⟩
    intro s
    cases hinit <;> simp
  · intro s op w hI _
    have hgo : Goes True (enter s w) (step s op w) := goes_stepOp op rfl fun _ => trivial
    have hkeep : ∀ s', Acts True (enter s w) s' → OneTimer s'.tp := fun s' ha =>
      ha.invariant (I := fun s => OneTimer s.tp) (fun _ _ hact => oneTimer_act hact) hI.1
    refine ⟨hkeep _ hgo.acts, ?_⟩
    intro s' he
    obtain ⟨s1, ha, hboth⟩ := hgo.panic s' he
    exact hboth (hkeep s1 ha)

/-- A closed window starts the persist timer, and an urgent byte is forced out. -/
def urgentOps : List (Op × World) := [(.connect, calmWorld 3),
    (.input (bareSeg 500 101 { syn := true, ack := true } 0 []), calmWorld 3),
    (.send { mData := [0, 1, 2] } false, calmWorld 3),
    (.send { mData := [3] } true, calmWorld 3)]

theorem timers_exclusive_urgent :
    Reachable (fun _ _ _ => True) (runOps (.ok () (socreate true)) urgentOps) ∧
      (runOps (.ok () (socreate true)) urgentOps).st.tp.persist ≠ 0 ∧
      ((runOps (.ok () (socreate true)) urgentOps).st.tp.rexmt = 0 ∨
        (runOps (.ok () (socreate true)) urgentOps).st.tp.persist = 0) := by
  have hr := reachable_runOps (.active true) urgentOps
  exact ⟨hr, by decide +kernel, (timers_exclusive hr).1⟩

end Anp
