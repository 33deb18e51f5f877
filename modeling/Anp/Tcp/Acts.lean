import Anp.Tcp.Aside
import Anp.Tcp.InputFrame

/-!
# Acts — an operation as a sequence of small acts

Every operation on a connection past the peer's SYN is made of passes of `tcp_output`, of the few
places that set or clear the two timers for sending, and of acts that leave these and the
announced window alone (`Free`). An invariant that each act keeps is kept by the operation.
-/

namespace Anp

open Cyclic Machine

variable {f : Flow} {s s' : Sys}

/-- Not both timers for sending run. -/
def OneTimer (tp : Tcpcb) : Prop := tp.rexmt = 0 ∨ tp.persist = 0
deriving Decidable

/-- No second timer for sending is started, the announced edge does not move, and no pass is
made; `rcv_nxt` moves only while none has been made. -/
structure Free (s s' : Sys) : Prop where
  timers : OneTimer s.tp → OneTimer s'.tp
  rcvAdv : s'.tp.rcvAdv = s.tp.rcvAdv
  passes : s'.log.passes = s.log.passes
  rcvNxt : s'.tp.rcvNxt = s.tp.rcvNxt ∨ s.log.passes = []
  scale : s'.tp.rcvScale = s.tp.rcvScale ∨ s'.tp.rcvScale = s.tp.requestRScale
  reqScale : s'.tp.requestRScale = s.tp.requestRScale
  route : s'.w.route = s.w.route
  snd : SbWf s.so.soSnd → SbWf s'.so.soSnd

theorem OneTimer.same {tp tp' : Tcpcb} (hr : tp'.rexmt = tp.rexmt) (hp : tp'.persist = tp.persist)
    (h : OneTimer tp) : OneTimer tp' := by
  unfold OneTimer
  rw [hr, hp]
  exact h

theorem Still.free (h : Still s s') : Free s s' where
  timers := .same h.rexmt h.persist
  rcvAdv := h.rcvAdv
  passes := h.passes
  rcvNxt := .inl (congrArg View.nxt h.view)
  scale := .inl (congrArg View.scale h.view)
  reqScale := congrArg View.reqScale h.view
  route := congrArg View.route h.view
  snd := SbWf.congr h.snd

/-- What an act leaves alone, besides the timers and the buffer. -/
def edgeView (s : Sys) : (Seq × Seq × Nat × Nat) × List Pass × Option Route :=
  ((s.tp.rcvAdv, s.tp.rcvNxt, s.tp.rcvScale, s.tp.requestRScale), s.log.passes, s.w.route)

theorem Free.timed (ht : OneTimer s.tp → OneTimer s'.tp) (h : edgeView s' = edgeView s)
    (hb : sndBuf s' = sndBuf s) : Free s s' := by
  simp only [edgeView, Prod.mk.injEq] at h
  obtain ⟨⟨hadv, hnxt, hscale, hreq⟩, hp, hw⟩ := h
  exact ⟨ht, hadv, hp, .inl hnxt, .inl hscale, hreq, hw, SbWf.congr hb⟩

theorem Free.same
    (h : (s'.tp.rexmt, s'.tp.persist, edgeView s') = (s.tp.rexmt, s.tp.persist, edgeView s))
    (hb : sndBuf s' = sndBuf s) : Free s s' := by
  simp only [Prod.mk.injEq] at h
  exact .timed (.same h.1 h.2.1) h.2.2 hb

variable {s'' : Sys}

theorem Free.trans (h : Free s s') (h' : Free s' s'') : Free s s'' where
  timers := h'.timers ∘ h.timers
  rcvAdv := h'.rcvAdv.trans h.rcvAdv
  passes := h'.passes.trans h.passes
  rcvNxt := by
    rcases h.rcvNxt with h1 | h1
    · rcases h'.rcvNxt with h2 | h2
      · exact .inl (h2.trans h1)
      · exact .inr (h.passes.symm.trans h2)
    · exact .inr h1
  scale := by
    rcases h'.scale with h1 | h1
    · rcases h.scale with h2 | h2
      · exact .inl (h1.trans h2)
      · exact .inr (h1.trans h2)
    · exact .inr (h1.trans h.reqScale)
  reqScale := h'.reqScale.trans h.reqScale
  route := h'.route.trans h.route
  snd := h'.snd ∘ h.snd

/-- The state a pass starts from: the world has one answer less, the log one pass more. -/
def notePass (s : Sys) (idle : Bool) (env : OutEnv) (outs : List OutEnv) : Sys :=
  { s with
    w := { s.w with outs := outs }
    log := { s.log with passes := ⟨s.tp, s.so, idle, env⟩ :: s.log.passes } }

/-- A connection is opened, which sets `rcv_adv` and `rcv_nxt` anew: no pass has been made, and
the window scale stays within its limit. -/
structure Fresh (s s' : Sys) : Prop where
  first : s.log.passes = []
  timers : OneTimer s.tp → OneTimer s'.tp
  passes : s'.log.passes = s.log.passes
  scale : s'.tp.rcvScale = s.tp.rcvScale
  reqScale : s.tp.requestRScale ≤ 14 → s'.tp.requestRScale ≤ 14
  route : s'.w.route = s.w.route
  snd : SbWf s.so.soSnd → SbWf s'.so.soSnd

/-- The acts. `opens` says whether opening a connection is one of them. -/
inductive Act (opens : Prop) : Sys → Sys → Prop where
  | free {s s' : Sys} (h : Free s s') : Act opens s s'
  | fresh {s s' : Sys} (ho : opens) (h : Fresh s s') : Act opens s s'
  | pass (s : Sys) (idle : Bool) (env : OutEnv) (outs : List OutEnv) :
      Act opens s (outPass (notePass s idle env outs) idle env).st

/-- Sequences of acts. -/
def Acts (opens : Prop) : Sys → Sys → Prop := Relation.ReflTransGen (Act opens)

variable {opens : Prop}

theorem Acts.refl (s : Sys) : Acts opens s s := Relation.ReflTransGen.refl

theorem Acts.trans (h : Acts opens s s') (h' : Acts opens s' s'') : Acts opens s s'' :=
  Relation.ReflTransGen.trans h h'

theorem Act.acts (h : Act opens s s') : Acts opens s s' := Relation.ReflTransGen.single h

theorem Free.acts (h : Free s s') : Acts opens s s' := (Act.free h).acts

theorem Still.acts {s s' : Sys} (h : Still s s') : Acts opens s s' := h.free.acts

/-- **Invariant rule for acts.** -/
theorem Acts.invariant {I : Sys → Prop} (hI : ∀ s s', Act opens s s' → I s → I s')
    (h : Acts opens s s') (hs : I s) : I s' := by
  induction h with
  | refl => exact hs
  | tail _ ha ih => exact hI _ _ ha ih

/-- An operation, or a part of one, from `s` on. -/
structure Goes (opens : Prop) {α : Type} (s : Sys) (o : Outcome α) : Prop where
  acts : Acts opens s o.st
  panic : ∀ s', o = .stop (.panic .tcpSetpersist) s' → ∃ s1, Acts opens s s1 ∧ ¬OneTimer s1.tp

variable {α β : Type}

theorem Goes.ok (a : α) (h : Acts opens s s') : Goes opens s (.ok a s') :=
  ⟨h, fun _ he => by cases he⟩

variable {why : Stop}

theorem Goes.stop (h : Acts opens s s') (hw : why ≠ .panic .tcpSetpersist) :
    Goes opens s (.stop why s' : Outcome α) :=
  ⟨h, fun _ he => by cases he; exact absurd rfl hw⟩

variable {o : Outcome α}

theorem Goes.after (h : Acts opens s s') (ho : Goes opens s' o) : Goes opens s o :=
  ⟨h.trans ho.acts, fun s2 he =>
    let ⟨s1, h1, hr⟩ := ho.panic s2 he
    ⟨s1, h.trans h1, hr⟩⟩

theorem Goes.bind {f : α → Sys → Outcome β} (h : Goes opens s o)
    (hf : ∀ a s', Goes opens s' (f a s')) : Goes opens s (o.bind f) := by
  cases o with
  | ok a s' => exact (hf a s').after h.acts
  | stop why s' =>
    refine ⟨h.acts, fun s2 he => ?_⟩
    cases he
    exact h.panic s' rfl

/-! ## Steps that move `snd_una` at most to `ack` -/

/-- Acts, with what they do to `snd_una`. -/
structure Doing (opens : Prop) (ack : Seq) (s s' : Sys) : Prop where
  acts : Acts opens s s'
  move : AckMove ack s s'

variable {ack : Seq}

theorem Doing.refl (s : Sys) : Doing opens ack s s := ⟨Acts.refl s, AckMove.refl s⟩

theorem Doing.trans (h : Doing opens ack s s') (h' : Doing opens ack s' s'') :
    Doing opens ack s s'' :=
  ⟨h.acts.trans h'.acts, h.move.trans h'.move⟩

theorem Free.doing (h : Free s s') (hm : AckMove ack s s') : Doing opens ack s s' := ⟨h.acts, hm⟩

theorem Still.doing (h : Still s s') (hc : Calm s s') : Doing opens ack s s' := ⟨h.acts, hc.move⟩

/-- What most of the code leaves alone, besides the timers and the state. -/
def stepView (s : Sys) : ((Seq × Seq × Nat × Nat) × List Pass × Option Route) ×
    (Nat × List (List Mbuf)) × (List Byte × Nat) × Seq × Seq :=
  (edgeView s, sndBuf s, (s.log.wrote, s.log.acked), s.tp.iss, s.tp.sndUna)

theorem Doing.timed (ht : OneTimer s.tp → OneTimer s'.tp)
    (hst : s'.tp.tState = s.tp.tState ∨ Synced s'.tp.tState) (h : stepView s' = stepView s) :
    Doing opens ack s s' := by
  simp only [stepView, Prod.mk.injEq] at h
  obtain ⟨he, hb, ⟨hw, ha⟩, hiss, hun⟩ := h
  exact ⟨(Free.timed ht he hb).acts, hw, hiss, .inl ⟨ha, hun⟩, hst⟩

theorem Doing.enter (hst : Synced s'.tp.tState)
    (h : (s'.tp.rexmt, s'.tp.persist, stepView s') = (s.tp.rexmt, s.tp.persist, stepView s)) :
    Doing opens ack s s' := by
  simp only [Prod.mk.injEq] at h
  exact .timed (.same h.1 h.2.1) (Or.inr hst) h.2.2

theorem Doing.same (h : (s'.tp.tState, s'.tp.rexmt, s'.tp.persist, stepView s') =
    (s.tp.tState, s.tp.rexmt, s.tp.persist, stepView s)) : Doing opens ack s s' := by
  simp only [Prod.mk.injEq] at h
  exact .timed (.same h.2.1 h.2.2.1) (.inl h.1) h.2.2.2

/-- `Goes`, with what becomes of `snd_una`. -/
structure Does (opens : Prop) (ack : Seq) {α : Type} (s : Sys) (o : Outcome α) : Prop where
  goes : Goes opens s o
  move : AckMove ack s o.st

theorem Does.ok (a : α) (h : Doing opens ack s s') : Does opens ack s (.ok a s') :=
  ⟨.ok a h.acts, h.move⟩

theorem Does.stop (h : Doing opens ack s s') (hw : why ≠ .panic .tcpSetpersist) :
    Does opens ack s (.stop why s' : Outcome α) :=
  ⟨.stop h.acts hw, h.move⟩

theorem Does.after (h : Doing opens ack s s') (ho : Does opens ack s' o) :
    Does opens ack s o :=
  ⟨ho.goes.after h.acts, h.move.trans ho.move⟩

theorem Does.bind {f : α → Sys → Outcome β} (h : Does opens ack s o)
    (hf : ∀ a s', Does opens ack s' (f a s')) : Does opens ack s (o.bind f) := by
  refine ⟨h.goes.bind fun a s' => (hf a s').goes, ?_⟩
  cases o with
  | ok a s' => exact h.move.trans (hf a s').move
  | stop why s' => exact h.move

/-! ## `tcp_output` -/

theorem does_outLoop (idle : Bool) (outs : List OutEnv) (s : Sys) :
    Does opens ack s (outLoop idle outs s) := by
  refine ⟨?_, (outOnly_outLoop idle outs s).move⟩
  induction outs generalizing s with
  | nil => exact .stop (Acts.refl s) (by simp)
  | cons env outs ih =>
    rw [outLoop]
    have hpass : Goes opens s (outPass (notePass s idle env outs) idle env) := by
      refine ⟨(Act.pass s idle env outs).acts, fun s' he => ?_⟩
      rcases outPass_stop he with hf | ⟨p, hp, hne⟩
      · cases hf
      · cases hp
        exact absurd rfl hne
    refine hpass.bind fun r s' => ?_
    cases r with
    | done e => exact .ok e (Acts.refl s')
    | again => exact ih s'

theorem does_tcpOutput (s : Sys) : Does opens ack s (tcpOutput s) := by
  unfold tcpOutput
  simp only
  split
  · refine Does.after ?_ (does_outLoop _ _ _)
    exact .same rfl
  · exact does_outLoop _ _ _

theorem does_callOutput (s : Sys) : Does opens ack s (callOutput s) :=
  (does_tcpOutput s).bind fun _ s' => .ok () (Doing.refl s')

theorem does_forceOutput (s : Sys) : Does opens ack s (forceOutput s) := by
  have h1 : Doing opens ack s { s with tp := { s.tp with tForce := true } } := .same rfl
  refine ((does_tcpOutput _).after h1).bind fun _ s' => .ok () ?_
  exact .same rfl

/-! ## Closing -/

theorem does_tcpClose (why : Why) (s : Sys) : Does opens ack s (tcpClose why s : Outcome α) := by
  refine .stop ?_ (by simp)
  exact .same rfl

theorem does_tcpDrop (s : Sys) (why : Why) (errno : Option Errno) {after : Sys → Sys}
    (ha : ∀ s, Doing opens ack s (after s)) :
    Does opens ack s (tcpDrop s why errno after : Outcome α) := by
  unfold tcpDrop
  simp only
  refine Does.bind ?_ fun _ s' => ?_
  · split
    · refine Does.after ?_ (does_tcpOutput _)
      exact .enter (by simp [Synced]) rfl
    · exact .ok none (Doing.refl s)
  · generalize (if errno = some .etimedout ∧ s'.tp.tSofterror ≠ none then s'.tp.tSofterror
      else errno) = e
    have h : Doing opens ack s' { s' with so := { s'.so with soError := e } } := .same rfl
    exact (does_tcpClose why _).after (h.trans (ha _))

/-! ## Segments -/

/-- A part of `tcp_input`: it makes no pass before it hands the segment on. -/
def FlowGoes (opens : Prop) (s : Sys) : Flow → Prop
  | .next _ s' => Acts opens s s' ∧ s'.log.passes = s.log.passes
  | .done o => Goes opens s o

theorem FlowGoes.after (h : Acts opens s s') (hp : s'.log.passes = s.log.passes)
    (hf : FlowGoes opens s' f) : FlowGoes opens s f := by
  cases f with
  | next i s'' => exact ⟨h.trans hf.1, hf.2.trans hp⟩
  | done o => exact Goes.after h hf

theorem Free.flow (h : Free s s') (hf : FlowGoes opens s' f) : FlowGoes opens s f :=
  hf.after h.acts h.passes

/-- The same for a part past the peer's SYN, which keeps the acknowledgement number. -/
def FlowDoes (opens : Prop) (ack : Seq) (s : Sys) : Flow → Prop
  | .next i' s' => (Doing opens ack s s' ∧ s'.log.passes = s.log.passes) ∧ i'.tiAck = ack
  | .done o => Does opens ack s o

theorem FlowDoes.after (h : Doing opens ack s s') (hp : s'.log.passes = s.log.passes)
    (hf : FlowDoes opens ack s' f) : FlowDoes opens ack s f := by
  cases f with
  | next i' s'' => exact ⟨⟨h.trans hf.1.1, hf.1.2.trans hp⟩, hf.2⟩
  | done o => exact Does.after h hf

theorem FlowDoes.bind {k : Inp → Sys → Flow} (h : FlowDoes opens ack s f)
    (hk : ∀ i' s', i'.tiAck = ack → f = .next i' s' → FlowDoes opens ack s' (k i' s')) :
    FlowDoes opens ack s (f.bind k) := by
  cases f with
  | next i' s' => exact (hk i' s' h.2 rfl).after h.1.1 h.1.2
  | done o => exact h

variable {i : Inp} {s : Sys}

theorem FlowDoes.here (hi : i.tiAck = ack) : FlowDoes opens ack s (.next i s) :=
  ⟨⟨Doing.refl s, rfl⟩, hi⟩

theorem does_inDropafterack (i : Inp) (s : Sys) : FlowDoes opens ack s (inDropafterack i s) := by
  unfold inDropafterack inDrop
  split
  · exact Does.ok () (Doing.refl s)
  · refine Does.after ?_ (does_callOutput _)
    exact .same rfl

variable {n : Int}

theorem free_dropSnd (h : dropSnd s n = .ok () s') : Free s s' ∧ ∃ so, s' = { s with so } := by
  unfold dropSnd at h
  split at h
  · next sb hsb =>
    cases h
    exact ⟨⟨id, rfl, rfl, .inl rfl, .inl rfl, rfl, rfl, fun hwf => sbdrop_wf hwf hsb⟩, _, rfl⟩
  · cases h

theorem dropSnd_stop (h : dropSnd s n = .stop why s') :
    s' = s ∧ why ≠ .panic .tcpSetpersist := by
  unfold dropSnd at h
  split at h
  · cases h
  · cases h
    exact ⟨rfl, by simp⟩

theorem doing_setUna (h : dropSnd s n = .ok () s') (hst : Synced s.tp.tState) :
    Doing opens ack s (setUna s' ack) := by
  obtain ⟨hf, so, rfl⟩ := free_dropSnd h
  have hset : Free { s with so } (setUna { s with so } ack) := .same rfl rfl
  exact (hf.trans hset).doing ⟨rfl, rfl, .inr ⟨rfl, hst⟩, .inl rfl⟩

theorem doing_ackTimer (s : Sys) (a : Seq) :
    Doing opens ack s { s with tp := ackTimer a s.tp } := by
  unfold ackTimer
  split
  · exact .timed (fun _ => Or.inl rfl) (Or.inl rfl) rfl
  · split
    · next hp => exact .timed (fun _ => Or.inr hp) (Or.inl rfl) rfl
    · exact Doing.refl s

theorem doing_inXmitTimer (i : Inp) (s : Sys) : Doing opens ack s (inXmitTimer i s) :=
  (still_inXmitTimer i s).doing (calm_inXmitTimer i s)

theorem doing_inRespond (i : Inp) (s : Sys) : Doing opens ack s (inRespond i s) :=
  (still_inRespond i s).doing (calm_inRespond i s)

theorem does_sendRest (s : Sys) : Does opens ack s (sendRest s) := by
  unfold sendRest
  split
  · exact does_callOutput s
  · exact .ok () (Doing.refl s)

theorem does_predictAck (hi : i.tiAck = ack) (hst : Synced s.tp.tState) :
    Does opens ack s (predictAck i s) := by
  have hx : Doing opens ack s (inXmitTimer i s) := doing_inXmitTimer i s
  refine Does.after hx ?_
  unfold predictAck
  simp only
  have hst1 := hx.move.synced hst
  generalize inXmitTimer i s = s1 at hst1 ⊢
  cases hd : dropSnd s1 (gap i.tiAck s1.tp.sndUna) with
  | ok u s2 =>
    refine Does.after ((doing_setUna hd hst1).trans ?_) (does_sendRest _)
    rw [← hi]
    exact doing_ackTimer _ _
  | stop why s2 =>
    obtain ⟨rfl, hw⟩ := dropSnd_stop hd
    exact .stop (Doing.refl _) hw

theorem does_predictData (i : Inp) (hp : s.log.passes = []) :
    Does opens ack s (predictData i s) := by
  refine .ok () (Free.doing ?_ ?_)
  · exact ⟨id, rfl, rfl, .inr hp, .inl rfl, rfl, rfl, id⟩
  · exact ⟨rfl, rfl, .inl ⟨rfl, rfl⟩, .inl rfl⟩

theorem does_inPredict (hi : i.tiAck = ack) (hp : s.log.passes = []) :
    FlowDoes opens ack s (inPredict i s) := by
  have hts := (noted_inTsRecent i s 0).still
  unfold inPredict
  simp only
  split
  · next hc =>
    refine FlowDoes.after (hts.doing (calm_inTsRecent i s 0)) hts.passes ?_
    have hst : Synced (inTsRecent i s 0).tp.tState := by
      rw [show (inTsRecent i s 0).tp.tState = .established from
        (congrArg View.st hts.view).trans hc.1]
      simp [Synced]
    split
    · split
      · exact does_predictAck hi hst
      · exact .here hi
    · split
      · exact does_predictData i (hts.passes.trans hp)
      · exact .here hi
  · exact .here hi

theorem Rejected.does {o : Outcome Unit} (h : Rejected i s o) : Does opens ack s o := by
  cases h with
  | drop => exact .ok () (Doing.refl s)
  | ack =>
    refine Does.after ?_ (does_callOutput _)
    exact .same rfl
  | close why e hw =>
    refine Does.after ?_ (does_tcpClose why _)
    exact .same rfl
  | gone => exact (does_tcpClose _ _).after (doing_inRespond i s)
  | reset => exact does_tcpDrop s _ _ fun s => doing_inRespond i s

theorem does_inCheck (hi : i.tiAck = ack) : FlowDoes opens ack s (inCheck i s) := by
  rcases inCheck_cases i s with ⟨i', s', e, hp⟩ | ⟨j, s1, o, e, hn, hr⟩
  · rw [e]
    have hs := hp.noted.still
    exact ⟨⟨hs.doing hp.noted.calm, hs.passes⟩, hp.header.tiAck.trans hi⟩
  · rw [e]
    exact hr.does.after (hn.still.doing hn.calm)

/-! ### ACK processing -/

theorem does_fastRexmt (i : Inp) (s : Sys) : Does opens ack s (fastRexmt i s) := by
  unfold fastRexmt
  split
  · exact .stop (Doing.refl s) (by simp)
  · simp only
    refine (Does.after ?_ (does_callOutput _)).bind fun _ s2 => .ok () ?_
    · exact .timed (fun _ => Or.inl rfl) (Or.inl rfl) rfl
    · exact .same rfl

theorem does_inAckDup (hi : i.tiAck = ack) : FlowDoes opens ack s (inAckDup i s) := by
  have hdup : ∀ v, Doing opens ack s { s with tp := { s.tp with tDupacks := v } } := fun v =>
    .same rfl
  unfold inAckDup
  simp only
  split
  · split
    · exact ⟨⟨hdup 0, rfl⟩, hi⟩
    · refine FlowDoes.after (hdup (int16 (s.tp.tDupacks + 1))) rfl ?_
      split
      · exact does_fastRexmt i _
      · split
        · refine Does.after ?_ (does_callOutput _)
          exact .same rfl
        · exact .here hi
  · exact ⟨⟨hdup 0, rfl⟩, hi⟩

theorem doing_ackPrepare (i : Inp) (s : Sys) : Doing opens ack s (ackPrepare i s) := by
  refine ((doing_inXmitTimer i s).trans (doing_ackTimer _ i.tiAck)).trans ?_
  exact .same rfl

theorem doing_ackData {f : Bool} (hi : i.tiAck = ack) (hst : Synced s.tp.tState)
    (h : ackData i s = .ok f s') : Doing opens ack s s' ∧ s'.log.passes = s.log.passes := by
  unfold ackData at h
  simp only at h
  generalize (if decide (s.so.soSnd.sbCc < u32 (gap i.tiAck s.tp.sndUna)) = true then
    (s.so.soSnd.sbCc : Int) else gap i.tiAck s.tp.sndUna) = n at h
  cases hd : dropSnd s n with
  | stop why s1 =>
    rw [hd] at h
    cases h
  | ok u s1 =>
    rw [hd] at h
    cases h
    subst hi
    refine ⟨(doing_setUna hd hst).trans ?_, (free_dropSnd hd).1.passes⟩
    exact .same rfl

theorem ackData_stop (h : ackData i s = .stop why s') :
    s' = s ∧ why ≠ .panic .tcpSetpersist := by
  unfold ackData dropSnd at h
  simp only at h
  split at h
  · cases h
  · cases h
    exact ⟨rfl, by simp⟩

theorem does_inAckState (f : Bool) (hi : i.tiAck = ack) :
    FlowDoes opens ack s (inAckState f i s) := by
  unfold inAckState
  split
  · split
    · simp only
      refine ⟨⟨?_, ?_⟩, hi⟩ <;> split <;>
        first | rfl | exact .enter (by simp [Synced]) rfl
    · exact .here hi
  · split
    · refine ⟨⟨?_, rfl⟩, hi⟩
      exact .timed (fun _ => Or.inl rfl) (.inr (by simp [Synced, tcpCanceltimers])) rfl
    · exact .here hi
  · split
    · exact does_tcpClose _ s
    · exact .here hi
  · have h : Doing opens ack s { s with tp := { s.tp with msl2 := 2 * tcptvMsl } } := .same rfl
    exact FlowDoes.after h rfl (does_inDropafterack i _)
  · exact .here hi

theorem does_inAckNew (hi : i.tiAck = ack) (hst : Synced s.tp.tState) :
    FlowDoes opens ack s (inAckNew i s) := by
  unfold inAckNew
  simp only
  generalize hs1 : ({ s with tp := _ } : Sys) = s1
  have h1 : Doing opens ack s s1 := by
    rw [← hs1]
    exact .same rfl
  refine FlowDoes.after h1 (by rw [← hs1]) ?_
  split
  · exact does_inDropafterack i s1
  · generalize hi2 : ({ i with needoutput := _ } : Inp) = i2
    have hack2 : i2.tiAck = ack := by rw [← hi2]; exact hi
    have h2 : Doing opens ack s1 (ackPrepare i2 s1) := doing_ackPrepare i2 s1
    have hst2 := (h1.trans h2).move.synced hst
    refine FlowDoes.after h2 (still_inXmitTimer i2 s1).passes ?_
    cases ha : ackData i2 (ackPrepare i2 s1) with
    | ok f s3 =>
      obtain ⟨h3, hp3⟩ := doing_ackData hack2 hst2 ha
      exact FlowDoes.after h3 hp3 (does_inAckState f hack2)
    | stop why s3 =>
      obtain ⟨rfl, hw⟩ := ackData_stop ha
      exact Does.stop (Doing.refl _) hw

theorem free_tcpReass (ti : Option QSeg) (hp : s.log.passes = []) :
    Free s (tcpReass s ti).1 := by
  obtain ⟨nxt, segs, rcv, got, h⟩ := tcpReass_shape s ti
  rw [h]
  exact ⟨id, rfl, rfl, .inr hp, .inl rfl, rfl, rfl, id⟩

theorem free_established {so : Socket} (s : Sys) (hso : so.soSnd = s.so.soSnd) :
    Free s { s with tp := inScale { s.tp with tState := .established }, so := so } := by
  have hsnd : SbWf s.so.soSnd → SbWf so.soSnd := fun h => hso.symm ▸ h
  unfold inScale
  split
  · exact ⟨id, rfl, rfl, .inl rfl, .inr rfl, rfl, rfl, hsnd⟩
  · exact ⟨id, rfl, rfl, .inl rfl, .inl rfl, rfl, rfl, hsnd⟩

theorem does_inAckSynRcvd (hi : i.tiAck = ack) (hp : s.log.passes = []) :
    FlowDoes opens ack s (inAckSynRcvd i s) := by
  unfold inAckSynRcvd
  simp only
  split
  · exact Does.ok () (doing_inRespond i s)
  · have h1 : Free s _ := @free_established (soisconnected s.so) s rfl
    have hm : AckMove ack s { s with
        tp := inScale { s.tp with tState := .established }, so := soisconnected s.so } := by
      unfold inScale
      split <;> exact ⟨rfl, rfl, .inl ⟨rfl, rfl⟩, .inr (by simp [Synced])⟩
    have h2 := free_tcpReass none (h1.passes.trans hp)
    refine FlowDoes.after ((h1.doing hm).trans (h2.doing (calm_tcpReass _ none).move))
      (h2.passes.trans h1.passes) ?_
    exact ⟨⟨.same rfl, rfl⟩, hi⟩

theorem does_inAck (hi : i.tiAck = ack) (hp : s.log.passes = []) (hst : s.tp.tState ≠ .synSent) :
    FlowDoes opens ack s (inAck i s) := by
  have hrest : ∀ {i : Inp} {s : Sys}, i.tiAck = ack → Synced s.tp.tState → FlowDoes opens ack s
      (if seqLEQ i.tiAck s.tp.sndUna = true then inAckDup i s else inAckNew i s) := by
    intro i s hi hs
    split
    · exact does_inAckDup hi
    · exact does_inAckNew hi hs
  unfold inAck
  simp only
  split
  · refine (does_inAckSynRcvd hi hp).bind fun i' s' hi' he => hrest hi' ?_
    rw [synced_of_inAckSynRcvd he]
    simp [Synced]
  · next hrcv => exact hrest hi ⟨hst, hrcv⟩

/-! ### From `step6` on -/

theorem free_inWindow (i : Inp) (s : Sys) : Free s (inWindow i s).2 := by
  unfold inWindow
  simp only
  split <;> exact .same rfl rfl

theorem does_inUrgent (hi : i.tiAck = ack) : FlowDoes opens ack s (inUrgent i s) := by
  have hmark : Doing opens ack s (markUrgent i s) ∧ (markUrgent i s).log.passes = s.log.passes := by
    unfold markUrgent
    simp only
    split <;> exact ⟨.same rfl, rfl⟩
  unfold inUrgent
  split
  · split
    · exact .here hi
    · refine FlowDoes.after hmark.1 hmark.2 ?_
      simp only
      split
      · unfold tcpPulloutofband
        split
        · exact ⟨⟨.same rfl, rfl⟩, hi⟩
        · exact Does.stop (Doing.refl _) (by simp)
      · exact .here hi
  · exact ⟨⟨.same rfl, rfl⟩, hi⟩

theorem free_inText (i : Inp) (hp : s.log.passes = []) : Free s (inText i s).2 := by
  unfold inText
  split
  · obtain ⟨nxt, segs, rcv, got, now, late, h⟩ :=
      tcpReassFast_shape s ⟨i.tiSeq, i.tiLen, i.tiFlags.fin, i.m⟩
    simp only [h]
    exact ⟨id, rfl, rfl, .inr hp, .inl rfl, rfl, rfl, id⟩
  · exact (Still.refl s).free

theorem doing_finState6 (s : Sys) : Doing opens ack s (finState6 s) := by
  unfold finState6
  split
  · exact .enter (by simp [Synced]) rfl
  · exact .enter (by simp [Synced]) rfl
  · exact .enter (by simp [Synced]) rfl
  · exact .timed (fun _ => Or.inl rfl) (.inr (by simp [Synced, tcpCanceltimers])) rfl
  · exact .same rfl
  · exact Doing.refl s

theorem doing_inFin (i : Inp) (hp : s.log.passes = []) : Doing opens ack s (inFin i s) := by
  unfold inFin
  split
  · refine Doing.trans ?_ (doing_finState6 _)
    split
    · refine Free.doing ?_ ?_
      · exact ⟨id, rfl, rfl, .inr hp, .inl rfl, rfl, rfl, id⟩
      · exact ⟨rfl, rfl, .inl ⟨rfl, rfl⟩, .inl rfl⟩
    · exact Doing.refl s
  · exact Doing.refl s

theorem does_inStep6 (hi : i.tiAck = ack) (hp : s.log.passes = []) :
    Does opens ack s (inStep6 i s) := by
  unfold inStep6
  simp only
  have hw := free_inWindow i s
  refine Does.after (hw.doing (calm_inWindow i s).move) ?_
  have hu : FlowDoes opens ack (inWindow i s).2 (inUrgent (inWindow i s).1 (inWindow i s).2) :=
    does_inUrgent <| by
      unfold inWindow
      simp only
      split <;> exact hi
  split
  · next o he =>
    rw [he] at hu
    exact hu
  · next i2 s2 he =>
    rw [he] at hu
    have hp2 : s2.log.passes = [] := (hu.1.2.trans hw.passes).trans hp
    have ht := free_inText i2 hp2
    have hf : Doing opens ack (inText i2 s2).2 (inFin (inText i2 s2).1 (inText i2 s2).2) :=
      doing_inFin _ (ht.passes.trans hp2)
    refine Does.after (hu.1.1.trans ((ht.doing (calm_inText i2 s2).move).trans hf)) ?_
    split
    · exact does_callOutput _
    · exact .ok () (Doing.refl _)

/-! ### Opening -/

theorem goes_inTrimSyn (i : Inp) (s : Sys) : FlowGoes opens s (inTrimSyn i s) := by
  unfold inTrimSyn
  refine ⟨Free.acts ?_, rfl⟩
  exact .same rfl rfl

theorem goes_drop (s : Sys) (why : Why) (errno : Option Errno) :
    Goes opens s (tcpDrop s why errno id : Outcome α) :=
  have h : Does opens 0 s (tcpDrop s why errno id : Outcome α) := does_tcpDrop s why errno Doing.refl
  h.goes

theorem goes_inListen (ho : opens) (iss : Seq) (seg : Segment) (i : Inp) (hp : s.log.passes = []) :
    FlowGoes opens s (inListen iss seg i s) := by
  have h0 : Still s { s with tp := { s.tp with tTemplate := true } } := .same rfl
  refine inListen_elim ?_ (Goes.stop h0.acts (by simp)) fun _ iss' s1 ts1 hopt => ?_
  · rintro s' e (rfl | rfl)
    · exact goes_drop s' _ _
    · exact Goes.after (still_inRespond i s).acts (goes_drop _ _ _)
  · have h1 := h0.trans (reads_still.dooptionsLoop _ hopt)
    refine h1.free.flow ?_
    refine FlowGoes.after (Act.fresh ho ?_).acts ?_ (goes_inTrimSyn _ _)
    · exact ⟨h1.passes.trans hp, id, rfl, rfl, id, rfl, id⟩
    · rfl

theorem goes_inSynSent (ho : opens) (i : Inp) (hp : s.log.passes = []) :
    FlowGoes opens s (inSynSent i s) := by
  refine inSynSent_elim (Goes.ok () (still_inRespond i s).acts) (goes_drop s _ _)
    (Goes.ok () (Acts.refl s)) (fun _ => ?_) fun _ _ => ?_
  · have hf : Fresh s (inSynSeen i s) := ⟨hp, fun _ => .inl rfl, rfl, rfl, id, rfl, id⟩
    refine FlowGoes.after (Act.fresh ho hf).acts hf.passes ?_
    have hc : Free (inSynSeen i s)
        { inSynSeen i s with tp := { (inSynSeen i s).tp with tState := .synReceived } } :=
      .same rfl rfl
    exact hc.flow (goes_inTrimSyn _ _)
  · have hf : Fresh s (inSynSeen i (pullNxt (setUna s i.tiAck))) :=
      ⟨hp, fun _ => .inl rfl, rfl, rfl, id, rfl, id⟩
    refine FlowGoes.after (Act.fresh ho hf).acts hf.passes ?_
    generalize inSynSeen i (pullNxt (setUna s i.tiAck)) = s1 at hf
    have hc : Free s1 (inConnected s1) := by
      have he := @free_established (soisconnected s1.so) s1 rfl
      have hr := he.trans (free_tcpReass none ((he.passes.trans hf.passes).trans hp))
      unfold inConnected
      simp only
      split
      · exact hr.trans (.same rfl rfl)
      · exact hr
    exact hc.flow (goes_inTrimSyn _ _)

theorem goes_inSwitch (ho : opens) (seg : Segment) (i : Inp) (hp : s.log.passes = [])
    (hst : ¬(s.tp.tState ≠ .listen ∧ s.tp.tState ≠ .synSent)) :
    FlowGoes opens s (inSwitch seg i s) := by
  unfold inSwitch
  split
  · exact goes_inListen ho 0 seg i hp
  · exact goes_inSynSent ho i hp
  · next hl hs => exact absurd ⟨hl, hs⟩ hst

/-- **A segment past the peer's SYN**: `snd_una` moves only to the acknowledgement number. -/
theorem does_tcpInput (seg : Segment) (hp : s.log.passes = [])
    (hst : s.tp.tState ≠ .listen ∧ s.tp.tState ≠ .synSent) :
    Does opens seg.tiAck s (tcpInput s seg) := by
  unfold tcpInput
  split
  · exact .ok () (Doing.refl s)
  · split
    · exact .stop (Doing.refl s) (by simp)
    · next i1 s1 hh =>
      have h1 := still_inHeader hh
      obtain ⟨hc1, hi1⟩ := inHeader_calm hh
      have hflow : FlowDoes opens seg.tiAck s
          ((inPredict i1 s1).bind fun i s => inSwitch seg i (inRcvWnd s)) := by
        refine FlowDoes.after (h1.doing hc1) h1.passes ?_
        refine (does_inPredict hi1 (h1.passes.trans hp)).bind fun i2 s2 hi2 he2 => ?_
        have h2 := (h1.trans (inPredict_next he2).2.still).trans (still_inRcvWnd s2)
        refine FlowDoes.after ((still_inRcvWnd s2).doing (calm_inRcvWnd s2)) rfl ?_
        rw [inSwitch_late seg i2 ((view_st h2.view) ▸ hst)]
        have hcheck : FlowDoes opens seg.tiAck (inRcvWnd s2) (inCheck i2 (inRcvWnd s2)) :=
          does_inCheck hi2
        refine hcheck.bind fun i3 s3 hi3 he3 => does_inAck hi3 ?_ ?_
        · rw [he3] at hcheck
          exact (hcheck.1.2.trans h2.passes).trans hp
        · have h3 := h2.trans (inCheck_next he3).noted.still
          rw [show s3.tp.tState = s.tp.tState from congrArg View.st h3.view]
          exact hst.2
      split
      · next o heq =>
        rw [heq] at hflow
        exact hflow
      · next i3 s3 heq =>
        rw [heq] at hflow
        exact (does_inStep6 hflow.2 (hflow.1.2.trans hp)).after hflow.1.1

/-- **A segment.** On a connection in LISTEN or SYN_SENT it may be the peer's SYN. -/
theorem goes_tcpInput (seg : Segment) (hp : s.log.passes = [])
    (ho : s.tp.tState = .listen ∨ s.tp.tState = .synSent → opens) :
    Goes opens s (tcpInput s seg) := by
  by_cases hst : s.tp.tState ≠ .listen ∧ s.tp.tState ≠ .synSent
  · exact (does_tcpInput seg hp hst).goes
  have ho : opens := ho (by tauto)
  unfold tcpInput
  split
  · exact .ok () (Acts.refl s)
  · split
    · exact .stop (Acts.refl s) (by simp)
    · next i1 s1 hh =>
      have h1 := still_inHeader hh
      have hst1 := view_st h1.view
      rw [inPredict_early fun he => hst (by simp [hst1.symm.trans he])]
      have h2 := h1.trans (still_inRcvWnd s1)
      have hflow : FlowGoes opens s (inSwitch seg i1 (inRcvWnd s1)) :=
        h2.free.flow (goes_inSwitch ho seg i1 (h2.passes.trans hp) fun hs => hst (hst1 ▸ hs))
      rw [Flow.bind]
      split
      · next o heq =>
        rw [heq] at hflow
        exact hflow
      · next i3 s3 heq =>
        rw [heq] at hflow
        exact (does_inStep6 rfl (hflow.2.trans hp)).goes.after hflow.1

/-! ## Operations that bring no segment -/

/-- `Doing`, and past the sequence numbers. -/
structure Playing (opens : Prop) (ack : Seq) (s s' : Sys) : Prop where
  doing : Doing opens ack s s'
  aside : Aside s s'

theorem Playing.refl (s : Sys) : Playing opens ack s s := ⟨.refl s, .refl s⟩

theorem Playing.timed (ht : OneTimer s.tp → OneTimer s'.tp)
    (h : (view s', stepView s') = (view s, stepView s)) : Playing opens ack s s' := by
  obtain ⟨hv, he⟩ := Prod.mk.inj h
  exact ⟨.timed ht (.inl (congrArg View.st hv)) he, .of_view hv⟩

theorem Playing.same (h : (s'.tp.rexmt, s'.tp.persist, view s', stepView s') =
    (s.tp.rexmt, s.tp.persist, view s, stepView s)) : Playing opens ack s s' := by
  simp only [Prod.mk.injEq] at h
  exact .timed (.same h.1 h.2.1) (Prod.ext h.2.2.1 h.2.2.2)

/-- `Does`, and past the sequence numbers if the connection is still there afterwards. -/
structure Plays (opens : Prop) (ack : Seq) {α : Type} (s : Sys) (o : Outcome α) : Prop where
  does : Does opens ack s o
  leads : Leads Aside s o

theorem Plays.ok (a : α) (h : Playing opens ack s s') : Plays opens ack s (.ok a s') :=
  ⟨.ok a h.doing, .ok a h.aside⟩

theorem Plays.stop (s : Sys) (hw : why ≠ .panic .tcpSetpersist) :
    Plays opens ack s (.stop why s : Outcome α) :=
  ⟨.stop (.refl s) hw, .stop why s⟩

theorem Plays.after (h : Playing opens ack s s') (ho : Plays opens ack s' o) :
    Plays opens ack s o :=
  ⟨ho.does.after h.doing, Leads.after h.aside ho.leads⟩

theorem Plays.bind {f : α → Sys → Outcome β} (h : Plays opens ack s o)
    (hf : ∀ a s', Plays opens ack s' (f a s')) : Plays opens ack s (o.bind f) :=
  ⟨h.does.bind fun a s' => (hf a s').does, h.leads.bind fun a s' => (hf a s').leads⟩

theorem plays_callOutput (s : Sys) : Plays opens ack s (callOutput s) :=
  ⟨does_callOutput s, leads_of_view (view_callOutput s)⟩

theorem plays_forceOutput (s : Sys) : Plays opens ack s (forceOutput s) :=
  ⟨does_forceOutput s, aside_forceOutput s⟩

theorem plays_tcpClose (why : Why) (s : Sys) : Plays opens ack s (tcpClose why s : Outcome α) :=
  ⟨does_tcpClose why s, leads_tcpClose why s⟩

theorem plays_tcpDrop (s : Sys) (why : Why) (errno : Option Errno) :
    Plays opens ack s (tcpDrop s why errno id : Outcome α) :=
  ⟨does_tcpDrop s why errno .refl, leads_tcpDrop s why errno id⟩

/-! ### Timeouts -/

/-- The retransmission timer went off. It was running, so the persist timer was not. -/
theorem plays_timerRexmt (v : Int) (hrun : s.tp.rexmt ≠ 0) :
    Plays opens ack s (timerRexmt { s with tp := { s.tp with rexmt := v } }) := by
  have ht : ∀ {tp : Tcpcb}, tp.persist = s.tp.persist → OneTimer s.tp → OneTimer tp :=
    fun hp h => .inr (hp.trans (h.resolve_left hrun))
  unfold timerRexmt
  simp only
  split
  · refine Plays.after ?_ (plays_tcpDrop _ _ _)
    exact .timed (ht rfl) rfl
  · split
    · refine Plays.after ?_ (.stop _ (by simp))
      exact .timed (ht rfl) rfl
    · -- the one place where duplicates are forgotten
      refine Plays.after ⟨?_, ?_⟩ (plays_callOutput _)
      · exact .timed (ht rfl) (Or.inl rfl) rfl
      · exact ⟨rfl, .inl (.same _), .inr rfl, id, id⟩

/-- The persist timer went off. It was running, so the retransmission timer was not. -/
theorem plays_timerPersist (v : Int) (hrun : s.tp.persist ≠ 0) :
    Plays opens ack s (timerPersist { s with tp := { s.tp with persist := v } }) := by
  unfold timerPersist tcpSetpersist
  simp only
  by_cases hr : s.tp.rexmt = 0
  · rw [if_neg (not_not.mpr hr)]
    refine Plays.after ?_ (plays_forceOutput _)
    exact .timed (fun _ => Or.inl hr) rfl
  · rw [if_pos hr]
    have hboth : ¬OneTimer s.tp := fun h => h.elim hr hrun
    have h : Doing opens ack s { s with tp := { s.tp with persist := v } } :=
      .timed (fun h => absurd h hboth) (Or.inl rfl) rfl
    exact ⟨⟨⟨h.acts, fun s' _ => ⟨s, Acts.refl s, hboth⟩⟩, h.move⟩, .stop _ _⟩

theorem plays_timerKeep (s : Sys) : Plays opens ack s (timerKeep s) := by
  unfold timerKeep
  split
  · exact plays_tcpDrop s _ _
  · split
    · split
      · exact plays_tcpDrop s _ _
      · simp only
        refine .ok () ?_
        split <;> exact .same rfl
    · refine .ok () ?_
      exact .same rfl

theorem plays_timerMsl2 (s : Sys) : Plays opens ack s (timerMsl2 s) := by
  unfold timerMsl2
  split
  · refine .ok () ?_
    exact .same rfl
  · exact plays_tcpClose _ s

theorem plays_tickTimer (s : Sys) (t : TimerId) : Plays opens ack s (tickTimer s t) := by
  unfold tickTimer
  split
  · exact .ok () (.refl s)
  · next hrun =>
    simp only
    generalize int16 (getTimer s.tp t - 1) = v
    have htick : Playing opens ack s { s with tp := setTimer s.tp v t } := by
      cases t with
      | rexmt => exact .timed (fun h => .inr (h.resolve_left hrun)) rfl
      | persist => exact .timed (fun h => .inl (h.resolve_right hrun)) rfl
      | keep | msl2 => exact .same rfl
    split
    · cases t with
      | rexmt => exact plays_timerRexmt v hrun
      | persist => exact plays_timerPersist v hrun
      | keep => exact (plays_timerKeep _).after htick
      | msl2 => exact (plays_timerMsl2 _).after htick
    · exact .ok () htick

theorem plays_tcpSlowtimo (s : Sys) : Plays opens ack s (tcpSlowtimo s) := by
  refine (plays_tickTimer s .rexmt).bind fun _ s => (plays_tickTimer s .persist).bind fun _ s =>
    (plays_tickTimer s .keep).bind fun _ s => (plays_tickTimer s .msl2).bind fun _ s => ?_
  refine .ok () ?_
  exact .same rfl

theorem plays_tcpFasttimo (s : Sys) : Plays opens ack s (tcpFasttimo s) := by
  unfold tcpFasttimo
  split
  · refine Plays.after ?_ (plays_callOutput _)
    exact .same rfl
  · exact .ok () (.refl s)

/-! ### Requests of the user -/

theorem Playing.so {so : Socket} (hso : so.soSnd = s.so.soSnd)
    (hcant : s.so.ssCantrcvmore = true → so.ssCantrcvmore = true)
    (hacc : so.soAcceptconn = s.so.soAcceptconn) : Playing opens ack s { s with so := so } := by
  have hb : sndBuf { s with so := so } = sndBuf s :=
    congrArg (fun sb : Sockbuf => (sb.sbCc, sb.sbMb)) hso
  have hf : Free s { s with so := so } := .same rfl hb
  refine ⟨hf.doing ⟨rfl, rfl, .inl ⟨rfl, rfl⟩, .inl rfl⟩, ?_⟩
  exact ⟨rfl, .inl (.same _), .inl rfl, hcant, fun h => hacc.trans h⟩

theorem plays_tcpUsrclosed (s : Sys) : Plays opens ack s (tcpUsrclosed s) := by
  have hnext : ∀ st, Closes s.tp.tState st → st = s.tp.tState ∨ Synced st →
      Plays opens ack s (.ok () { s with
        tp := { s.tp with tState := st }
        so := if TcpState.finWait2.toNat ≤ st.toNat then soisdisconnected s.so else s.so }) := by
    intro st hst hsync
    refine .ok () ?_
    split
    · exact ⟨.timed id hsync rfl, rfl, .inl hst, .inl rfl, fun _ => rfl, id⟩
    · exact ⟨.timed id hsync rfl, rfl, .inl hst, .inl rfl, id, id⟩
  unfold tcpUsrclosed
  simp only
  split
  · exact plays_tcpClose _ s
  · exact plays_tcpClose _ s
  · exact plays_tcpClose _ s
  · next h => exact hnext _ (.fin (Or.inl h)) (.inr (by simp [Synced]))
  · next h => exact hnext _ (.fin (Or.inr h)) (.inr (by simp [Synced]))
  · next h => exact hnext _ (h ▸ .last) (.inr (by simp [Synced]))
  · exact hnext _ (.same _) (Or.inl rfl)

theorem plays_tcpDisconnect (s : Sys) : Plays opens ack s (tcpDisconnect s) := by
  unfold tcpDisconnect
  split
  · exact plays_tcpClose _ s
  · split
    · exact plays_tcpDrop s _ _
    · simp only
      split
      · exact .stop s (by simp)
      · refine Plays.bind (Plays.after ?_ (plays_tcpUsrclosed _)) fun _ s => plays_callOutput s
        exact .so rfl (fun _ => rfl) rfl

theorem plays_soshutdown (s : Sys) (rd wr : Bool) : Plays opens ack s (soshutdown s rd wr) := by
  have hrd : Playing opens ack s (if rd then { s with so := sorflush s.so } else s) := by
    split
    · exact .so rfl (fun _ => rfl) rfl
    · exact .refl s
  unfold soshutdown
  simp only
  generalize (if rd then ({ s with so := sorflush s.so } : Sys) else s) = s1 at hrd
  refine Plays.after hrd ?_
  split
  · refine Plays.bind (Plays.after ?_ (plays_tcpUsrclosed _)) fun _ s => plays_callOutput s
    exact .so rfl id rfl
  · exact .ok () (.refl s1)

theorem playing_sosetopt (s : Sys) (o : SockOpt) : Playing opens ack s (sosetopt s o) := by
  cases o with
  | maxseg i =>
    unfold sosetopt
    simp only
    split
    · exact .same rfl
    · exact .refl s
  | sndbuf n =>
    have hf : Free s (sosetopt s (.sndbuf n)) := by
      refine .same rfl ?_
      unfold sosetopt sbreserve
      simp only
      split <;> rfl
    exact ⟨hf.doing (calm_sosetopt s _).move, .of_view rfl⟩
  | _ => exact .same rfl

theorem scaleLoop_le (hiwat n : Nat) {scale : Nat} (h : scale ≤ 14) :
    scaleLoop hiwat n scale ≤ 14 := by
  induction n generalizing scale with
  | zero => exact h
  | succ n ih =>
    rw [scaleLoop]
    split
    · next hlt => exact ih hlt.1
    · exact h

theorem goes_tcpConnect (ho : opens) (s : Sys) (hp : s.log.passes = []) :
    Goes opens s (tcpConnect s) := by
  unfold tcpConnect
  split
  · exact .ok () (Acts.refl s)
  · have hout : ∀ s', Does opens 0 s' (callOutput s') := does_callOutput
    refine Goes.after (Act.fresh ho ?_).acts (hout _).goes
    exact ⟨hp, id, hp.symm, rfl, scaleLoop_le _ _, rfl, id⟩

theorem plays_userStep (op : Op) (hc : op ≠ .connect) (hw : ∀ m oob, op ≠ .send m oob) :
    Plays opens ack s (userStep s op) := by
  cases op with
  | connect => exact absurd rfl hc
  | listen =>
    refine .ok () ⟨?_, ?_⟩
    · exact .enter (by simp [Synced]) rfl
    · exact ⟨rfl, .inr rfl, .inl rfl, id, fun _ => rfl⟩
  | send m oob => exact absurd rfl (hw m oob)
  | rcvd n =>
    rw [userStep, tcpRcvd]
    split
    · exact .ok () (.refl s)
    · split
      · exact .stop s (by simp)
      · refine Plays.after ?_ (plays_callOutput _)
        exact .so rfl id rfl
  | rcvoob peek =>
    rw [userStep, tcpRcvoob]
    split
    · exact .ok () (.refl s)
    · refine .ok () ?_
      exact .same rfl
  | shutdown rd wr => exact plays_soshutdown s rd wr
  | disconnect =>
    rw [userStep]
    split
    · exact plays_tcpDisconnect s
    · exact .ok () (.refl s)
  | detach =>
    rw [userStep, tcpDetach]
    refine Plays.bind ?_ fun _ s1 => .ok () ?_
    · split
      · exact plays_tcpDisconnect s
      · exact plays_tcpClose _ s
    · exact .so rfl id rfl
  | sockopt o => exact .ok () (playing_sosetopt s o)
  | _ => exact .ok () (.refl s)

theorem goes_userStep (op : Op) (hp : s.log.passes = []) (ho : op = .connect → opens) :
    Goes opens s (userStep s op) := by
  by_cases hc : op = .connect
  · rw [hc, userStep]
    split
    · exact goes_tcpConnect (ho hc) s hp
    · exact .ok () (Acts.refl s)
  by_cases hw : ∃ m oob, op = .send m oob
  · obtain ⟨m, oob, rfl⟩ := hw
    have happ : Free s (appendSnd s m) :=
      ⟨id, rfl, rfl, .inl rfl, .inl rfl, rfl, rfl, sbappend_wf [m]⟩
    rw [userStep]
    split
    · split
      · unfold tcpSendoob
        split
        · exact .ok () (Acts.refl s)
        · have hout : ∀ s', Does opens 0 s' (forceOutput s') := does_forceOutput
          refine Goes.after (happ.trans ?_).acts (hout _).goes
          exact .same rfl rfl
      · have hout : Does opens 0 _ (callOutput (appendSnd s m)) := does_callOutput _
        exact hout.goes.after happ.acts
    · exact .ok () (Acts.refl s)
  · have h : Plays opens 0 s (userStep s op) := plays_userStep op hc fun m oob he => hw ⟨m, oob, he⟩
    exact h.does.goes

/-! ## Operations -/

/-- The operations that may open a connection: a request to connect, and a segment that arrives
in LISTEN or SYN_SENT. -/
def MayOpen (s : Sys) : Op → Prop
  | .connect => True
  | .input _ => s.tp.tState = .listen ∨ s.tp.tState = .synSent
  | _ => False

theorem plays_stepOp (op : Op) (hi : ∀ seg, op ≠ .input seg) (hc : op ≠ .connect)
    (hw : ∀ m oob, op ≠ .send m oob) : Plays opens ack s (stepOp s op) := by
  have huser : Plays opens ack s (if s.so.ssNofdref = true then .ok () s else userStep s op) := by
    split
    · exact .ok () (.refl s)
    · exact plays_userStep op hc hw
  cases op with
  | input seg => exact absurd rfl (hi seg)
  | fasttimo => exact plays_tcpFasttimo s
  | slowtimo => exact plays_tcpSlowtimo s
  | notify e =>
    refine .ok () ?_
    unfold tcpNotify
    split
    · exact .refl s
    · split
      · exact .so rfl id rfl
      · exact .same rfl
  | quench =>
    refine .ok () ?_
    exact .same rfl
  | abort =>
    rw [stepOp]
    split
    · exact .ok () (.refl s)
    · exact plays_tcpDrop s _ _
  | accept =>
    rw [stepOp]
    split
    · refine .ok () ?_
      exact .so rfl id rfl
    · exact .ok () (.refl s)
  | _ => exact huser

/-- **No operation but a segment and a request to connect touches the sequence numbers.** -/
theorem aside_stepOp (s : Sys) (op : Op) (hin : ∀ seg, op ≠ .input seg) (hop : op ≠ .connect) :
    Leads Aside s (stepOp s op) := by
  by_cases hw : ∃ m oob, op = .send m oob
  · obtain ⟨m, oob, rfl⟩ := hw
    show Leads Aside s (if s.so.ssNofdref = true then .ok () s else userStep s (.send m oob))
    split
    · exact .ok () (.refl s)
    · exact aside_send s m oob
  · have h : Plays False 0 s (stepOp s op) := plays_stepOp op hin hop fun m oob he => hw ⟨m, oob, he⟩
    exact h.leads

/-- **Every operation is a sequence of acts.** -/
theorem goes_stepOp (op : Op) (hp : s.log.passes = []) (ho : MayOpen s op → opens) :
    Goes opens s (stepOp s op) := by
  have huser : Goes opens s (if s.so.ssNofdref = true then .ok () s else userStep s op) := by
    split
    · exact .ok () (Acts.refl s)
    · exact goes_userStep op hp fun h => ho (by rw [h]; trivial)
  by_cases hc : op = .connect ∨ ∃ m oob, op = .send m oob
  · rcases hc with rfl | ⟨m, oob, rfl⟩ <;> exact huser
  by_cases hi : ∃ seg, op = .input seg
  · obtain ⟨seg, rfl⟩ := hi
    exact goes_tcpInput seg hp ho
  · have h : Plays opens 0 s (stepOp s op) := plays_stepOp op (fun seg he => hi ⟨seg, he⟩)
      (fun he => hc (Or.inl he)) fun m oob he => hc (.inr ⟨m, oob, he⟩)
    exact h.does.goes

/-! ## The send buffer -/

theorem sndWf_act (ha : Act True s s') (h : SbWf s.so.soSnd) : SbWf s'.so.soSnd := by
  cases ha with
  | free hf => exact hf.snd h
  | fresh _ hf => exact hf.snd h
  | pass idle env outs =>
    have hout := (outOnly_outPass (notePass s idle env outs) idle env).snd
    exact SbWf.congr (Prod.ext hout.1 hout.2) h

theorem sndWf_init {o : Outcome Unit} (h : Init o) : SbWf o.st.so.soSnd := by
  have hres : ∀ (so : Socket) (a b : Nat), SbWf so.soSnd → SbWf ((soreserve so a b).getD so).soSnd := by
    intro so a b hwf
    cases hr : soreserve so a b with
    | none => exact hwf
    | some so' =>
      unfold soreserve at hr
      obtain ⟨snd, hsnd, hrest⟩ := Option.bind_eq_some_iff.mp hr
      obtain ⟨rcv, -, rfl⟩ := Option.map_eq_some_iff.mp hrest
      unfold sbreserve at hsnd
      split at hsnd
      · cases hsnd
      · cases hsnd
        -- the low-water marks do not count
        generalize (if a < u32 so.soSnd.sbLowat then (a : Int) else so.soSnd.sbLowat) = low
        show SbWf (if _ then _ else _)
        split <;> split <;> exact hwf
  cases h with
  | active rfc1323 => exact hres {} 8192 8192 rfl
  | passive head rfc1323 =>
    have h1 := hres { head with
      soSnd := {}, soRcv := {}, soAcceptconn := false, ssNofdref := true, soQueue := .q0,
      soError := none, soOobmark := 0 } head.soSnd.sbHiwat head.soRcv.sbHiwat rfl
    unfold sonewconn
    simp only [Outcome.st]
    split
    · exact hres _ _ _ h1
    · exact h1

/-- **In every run `sb_cc` of the send buffer is the number of bytes in it.** -/
theorem Reachable.sndWf {C : Cond} {o : Outcome Unit} (h : Reachable C o) : SbWf o.st.so.soSnd := by
  refine Reachable.invariant (I := fun o => SbWf o.st.so.soSnd) ?_ ?_ h
  · exact fun o ho => sndWf_init ho
  · intro s op w hI _
    have hgo : Goes True (enter s w) (step s op w) := goes_stepOp op rfl fun _ => trivial
    exact hgo.acts.invariant (I := fun s => SbWf s.so.soSnd) (fun _ _ ha h => sndWf_act ha h) hI

end Anp
