import Anp.Tcp.Acts
import Anp.Tcp.Stream

/-!
# Closing — our FIN is acknowledged

The code takes our FIN to be acknowledged when an ACK covers more than `so_snd` holds. In a run
whose steps meet `CloseCond` that is the case only when it covers the FIN (`fin_acked`). It is not
when the user closed before our SYN was acknowledged: then the SYN is what the ACK covers.
-/

namespace Anp

open Cyclic Machine

/-- Operations that mislead the count of what is acknowledged. -/
def CloseFair (s : Sys) : Op → Prop
  | .input seg => (ackStage s seg).isSome = true →
      (s.tp.tState = .synReceived → ¬SynAckBad s.tp seg.tiAck) ∧
      (finState s.tp.tState = true → s.tp.sndUna = s.tp.iss → seg.tiAck ≠ s.tp.iss + 1)
  | .send mb oob => sosendOk s.so mb.mLen oob = true → s.so.soSnd.sbCc + mb.mLen < 2147483645
  | _ => True

def CloseCond : Cond := fun s op w => CloseFair (enter s w) op

instance CloseFair.instDecidable (s : Sys) (op : Op) : Decidable (CloseFair s op) := by
  apply Op.casesOn (motive := fun op => Decidable (CloseFair s op)) op <;> intros <;>
    dsimp only [CloseFair] <;> infer_instance

instance CloseCond.instDecidable (s : Sys) (op : Op) (w : World) : Decidable (CloseCond s op w) :=
  inferInstanceAs (Decidable (CloseFair (enter s w) op))

/-- The mode in which the last states are entered when everything is acknowledged. -/
def Mode.closing (timer : Prop) : Mode := ⟨False, False, True, timer⟩

theorem CloseFair.opFair {timer : Prop} {s : Sys} {op : Op} (h : CloseFair s op) :
    OpFair (.closing timer) s op := by
  cases op with
  | input seg => exact ⟨fun hs => (h hs).1, fun hs _ => (h hs).2⟩
  | send mb oob => exact fun hok => ⟨h hok, False.elim⟩
  | connect => exact False.elim
  | _ => trivial

theorem CloseCond.sendCond {s : Sys} {op : Op} {w : World} (h : CloseCond s op w) :
    SendCond (.closing False) s op w :=
  ⟨CloseFair.opFair h, fun _ _ => ⟨False.elim, False.elim⟩, False.elim⟩

/-- The transitions on an ACK of our FIN. A segment that also carries the peer's goes through
FIN_WAIT_2 to TIME_WAIT. -/
inductive FinMove : TcpState → Outcome Unit → Prop where
  | finWait1 {s' : Sys} (h : s'.tp.tState = .finWait2 ∨ s'.tp.tState = .timeWait) :
    FinMove .finWait1 (.ok () s')
  | closing {s' : Sys} (h : s'.tp.tState = .timeWait) : FinMove .closing (.ok () s')
  | lastAck {s' : Sys} : FinMove .lastAck (.stop (.closed .finAcked) s')

theorem FinMove.finState {st : TcpState} {o : Outcome Unit} (h : FinMove st o) :
    finState st = true := by
  cases h <;> rfl

theorem FinMove.acked {st : TcpState} {o : Outcome Unit} (hm : FinMove st o)
    (h : Holds (.closing False) 0 o) :
    o.st.log.acked = o.st.log.wrote.length + 2 ∧
      o.st.tp.sndUna = adv o.st.tp.iss o.st.log.acked := by
  have hbeyond : ∀ {s' : Sys}, Holds (.closing False) 0 (.ok () s') →
      TcpState.finWait2.toNat ≤ s'.tp.tState.toNat →
      s'.log.acked = s'.log.wrote.length + 2 ∧ s'.tp.sndUna = adv s'.tp.iss s'.log.acked := by
    intro s' h hge
    obtain ⟨⟨n, mx, -, hat⟩, -⟩ := h
    exact ⟨(hat.pos.drained hge).2 trivial, hat.pos.una_eq⟩
  cases hm with
  | finWait1 hst =>
    refine hbeyond h ?_
    rw [Outcome.st_ok]
    rcases hst with hst | hst
    · rw [hst]
    · rw [hst]
      decide
  | closing hst =>
    refine hbeyond h ?_
    rw [Outcome.st_ok, hst]
    decide
  | lastAck =>
    have hstop : StopOk (.closing False) (.closed .finAcked) _ := h
    exact hstop.fin trivial rfl

/-- **Our FIN is acknowledged.** The ACK that ends our side is beyond the FIN, whose number is `iss
+ 1` and as many as were written. -/
theorem fin_acked {s : Sys} {seg : Segment} {w : World} (h : Reachable CloseCond (.ok () s))
    (hc : CloseCond s (.input seg) w) (hm : FinMove s.tp.tState (step s (.input seg) w)) :
    seqGT seg.tiAck (adv s.tp.iss (1 + s.log.wrote.length)) = true := by
  have hr : Reachable (SendCond (.closing False)) (.ok () s) := h.mono fun _ _ _ hc => hc.sendCond
  have hs : Holds (.closing False) 0 (.ok () s) := hr.holds False.elim
  obtain ⟨hak', hun'⟩ := hm.acked (step_holds False.elim hs hc.sendCond)
  have hfs := hm.finState
  -- before, the FIN was not acknowledged
  have hne : s.log.acked ≠ s.log.wrote.length + 2 := by
    obtain ⟨⟨n, mx, -, hat⟩, -⟩ := hs
    intro he
    have hno : finState s.tp.tState = false := hat.pos.fin_ack he
    rw [hfs] at hno
    simp at hno
  have hst : s.tp.tState ≠ .listen ∧ s.tp.tState ≠ .synSent := by
    constructor <;> intro he <;> rw [he] at hfs <;> cases hfs
  have hmove : AckMove seg.tiAck s (step s (.input seg) w).st := by
    have henter : AckMove seg.tiAck s (enter s w) := ⟨rfl, rfl, Or.inl ⟨rfl, rfl⟩, Or.inl rfl⟩
    have hdoes : Does False seg.tiAck (enter s w) (step s (.input seg) w) :=
      does_tcpInput seg rfl hst
    exact henter.trans hdoes.move
  rcases hmove.una with ⟨h1, -⟩ | ⟨h1, -⟩
  · rw [h1, hmove.wrote] at hak'
    exact absurd hak' hne
  · rw [h1, hmove.iss, hak', hmove.wrote] at hun'
    rw [hun', seqGT_adv (by omega) (by omega)]
    simp
    omega

/-- A simultaneous open that the user gives up before the peer has acknowledged our SYN. -/
def earlyClose : Sys := (runOps (.ok () (socreate false)) [(.connect, calmWorld 3),
      (.input (bareSeg 500 0 { syn := true } 1000 []), calmWorld 3),
      (.shutdown false true, calmWorld 3)]).st

/-- An ACK of the SYN alone then leads to FIN_WAIT_2. -/
theorem early_close_fin_wait_2 : Reachable (fun _ _ _ => True) (.ok () earlyClose) ∧
    FinMove earlyClose.tp.tState
      (step earlyClose (.input (bareSeg 501 101 { ack := true } 1000 [])) (calmWorld 3)) ∧
    seqGT 101 (adv earlyClose.tp.iss (1 + earlyClose.log.wrote.length)) = false := by
  have hok : step earlyClose (.input (bareSeg 501 101 { ack := true } 1000 [])) (calmWorld 3) =
      .ok () (step earlyClose (.input (bareSeg 501 101 { ack := true } 1000 []))
        (calmWorld 3)).st := by decide +kernel
  have hst : earlyClose.tp.tState = .finWait1 := by decide +kernel
  refine ⟨?_, ?_, by decide +kernel⟩
  · have hrun := reachable_runOps (.active false)
      [(.connect, calmWorld 3), (.input (bareSeg 500 0 { syn := true } 1000 []), calmWorld 3),
        (.shutdown false true, calmWorld 3)]
    rw [show runOps (.ok () (socreate false)) _ = .ok () earlyClose by decide +kernel] at hrun
    exact hrun
  · rw [hok, hst]
    exact .finWait1 (by decide +kernel)

/-- A connection that has sent three bytes and its FIN, and the ACK of both. -/
def closedByUser : Sys := (runOps (.ok () (socreate true)) plainOps.dropLast).st

def finAck : Segment := bareSeg 501 105 { ack := true } 1000 []

theorem fin_acked_plain :
    (Reachable CloseCond (.ok () closedByUser) ∧ CloseCond closedByUser (.input finAck) (calmWorld 3) ∧
      FinMove closedByUser.tp.tState (step closedByUser (.input finAck) (calmWorld 3))) ∧
    seqGT finAck.tiAck (adv closedByUser.tp.iss (1 + closedByUser.log.wrote.length)) = true := by
  have hr : Reachable CloseCond (.ok () closedByUser) := by
    have hrun : Reachable CloseCond (runOps (.ok () (socreate true)) plainOps.dropLast) :=
      Reachable.runOps (Runs.Reach.start (.active true)) _ (by decide +kernel)
    rw [show runOps (.ok () (socreate true)) plainOps.dropLast = .ok () closedByUser by
      decide +kernel] at hrun
    exact hrun
  have hc : CloseCond closedByUser (.input finAck) (calmWorld 3) := by decide +kernel
  have hm : FinMove closedByUser.tp.tState (step closedByUser (.input finAck) (calmWorld 3)) := by
    have hst : closedByUser.tp.tState = .finWait1 := by decide +kernel
    have hok : step closedByUser (.input finAck) (calmWorld 3) =
        .ok () (step closedByUser (.input finAck) (calmWorld 3)).st := by decide +kernel
    rw [hok, hst]
    exact .finWait1 (by decide +kernel)
  exact ⟨⟨hr, hc, hm⟩, fin_acked hr hc hm⟩

end Anp
