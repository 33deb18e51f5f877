import Anp.Tcp.Still

/-!
# Aside — the operations that bring no segment

Timeouts, ICMP errors and the requests of the user, all but `connect`, go past the sequence
numbers: of what `tcp_output` leaves alone they change the state, when the user closes or listens,
and the count of duplicate ACKs, when the retransmit timer goes off. So an invariant about what
has been received or acknowledged is only about segments.
-/

namespace Anp

open Cyclic Machine

/-! ## What an operation leaves, if it leaves a connection -/

/-- When the operation from `s` on comes to its end, `R` holds of `s` and the state then. -/
def Leads (R : Sys → Sys → Prop) {α : Type} (s : Sys) (o : Outcome α) : Prop :=
  ∀ a s', o = .ok a s' → R s s'

variable {R : Sys → Sys → Prop} {α β : Type} {s s1 : Sys}

theorem Leads.ok (a : α) (h : R s s1) : Leads R s (.ok a s1) := by
  rintro _ _ ⟨⟩
  exact h

theorem Leads.stop (why : Stop) (s1 : Sys) : Leads R s (.stop why s1 : Outcome α) := by
  rintro _ _ ⟨⟩

variable {o : Outcome α}

theorem Leads.after [IsTrans Sys R] (h : R s s1) (ho : Leads R s1 o) :
    Leads R s o := fun a s' he => IsTrans.trans _ _ _ h (ho a s' he)

theorem Leads.bind [IsTrans Sys R] {f : α → Sys → Outcome β} (h : Leads R s o)
    (hf : ∀ a s1, Leads R s1 (f a s1)) : Leads R s (o.bind f) := by
  cases o with
  | ok a s1 => exact (hf a s1).after (h a s1 rfl)
  | stop why s1 => exact .stop why s1

theorem leads_tcpClose (why : Why) (s1 : Sys) : Leads R s (tcpClose why s1 : Outcome α) := .stop _ _

theorem leads_tcpDrop (s1 : Sys) (why : Why) (errno : Option Errno) (after : Sys → Sys) :
    Leads R s (tcpDrop s1 why errno after : Outcome α) := by
  intro a s' h
  unfold tcpDrop at h
  split at h
  · generalize tcpOutput _ = o at h
    cases o <;> cases h
  · cases h

/-! ## Past the sequence numbers -/

/-- What closing makes of a state. -/
inductive Closes : TcpState → TcpState → Prop where
  | same (st : TcpState) : Closes st st
  | fin {st : TcpState} (h : st = .synReceived ∨ st = .established) : Closes st .finWait1
  | last : Closes .closeWait .lastAck

theorem Closes.trans {a b c : TcpState} (h : Closes a b) (h' : Closes b c) : Closes a c := by
  cases h with
  | same => exact h'
  | fin ha =>
    cases h' with
    | same => exact .fin ha
    | fin hb => simp at hb
  | last =>
    cases h' with
    | same => exact .last
    | fin hb => simp at hb

theorem Closes.early {a b : TcpState} (h : Closes a b) (hb : b.toNat < 4) : a.toNat < 4 := by
  cases h with
  | same => exact hb
  | fin | last => exact absurd hb (by decide)

/-- What an operation that brings no segment may change. -/
structure Aside (s s' : Sys) : Prop where
  view : view s' = { view s with
    st := s'.tp.tState
    dup := s'.tp.tDupacks
    cant := s'.so.ssCantrcvmore
    accept := s'.so.soAcceptconn }
  st : Closes s.tp.tState s'.tp.tState ∨ s'.so.soAcceptconn = true
  dup : s'.tp.tDupacks = s.tp.tDupacks ∨ s'.tp.tDupacks = 0
  cant : s.so.ssCantrcvmore = true → s'.so.ssCantrcvmore = true
  accept : s.so.soAcceptconn = true → s'.so.soAcceptconn = true

namespace Aside

variable {s s' s'' : Sys}

theorem of_view (h : Anp.view s' = Anp.view s) : Aside s s' := by
  have hst := view_st h
  have hdup := view_dup h
  have hcant : s'.so.ssCantrcvmore = s.so.ssCantrcvmore := congrArg View.cant h
  have hacc : s'.so.soAcceptconn = s.so.soAcceptconn := congrArg View.accept h
  refine ⟨?_, .inl ?_, .inl hdup, ?_, ?_⟩
  · rw [h, hst, hdup, hcant, hacc]
    rfl
  · rw [hst]
    exact .same _
  · rw [hcant]
    exact id
  · rw [hacc]
    exact id

theorem refl (s : Sys) : Aside s s := of_view rfl

theorem trans (h : Aside s s') (h' : Aside s' s'') : Aside s s'' := by
  refine ⟨?_, ?_, ?_, h'.cant ∘ h.cant, h'.accept ∘ h.accept⟩
  · rw [h'.view, h.view]
  · rcases h'.st with h2 | h2
    · rcases h.st with h1 | h1
      · exact .inl (h1.trans h2)
      · exact .inr (h'.accept h1)
    · exact .inr h2
  · rcases h'.dup with h2 | h2
    · rw [h2]
      exact h.dup
    · exact .inr h2

end Aside

instance : IsTrans Sys Aside := ⟨fun _ _ _ h h' => h.trans h'⟩

theorem leads_of_view (h : view o.st = view s) : Leads Aside s o := by
  rintro a s' rfl
  exact .of_view h

/-! ## Output -/

theorem aside_forceOutput (s : Sys) : Leads Aside s (forceOutput s) := by
  have hout : Leads Aside s (tcpOutput { s with tp := { s.tp with tForce := true } }) :=
    leads_of_view (view_tcpOutput _)
  exact hout.bind fun _ s1 => .ok () (.of_view rfl)

theorem aside_send (s : Sys) (m : Mbuf) (oob : Bool) : Leads Aside s (userStep s (.send m oob)) := by
  rw [userStep]
  split
  · split
    · unfold tcpSendoob
      split
      · exact .ok () (.refl s)
      · refine Leads.after ?_ (aside_forceOutput _)
        exact .of_view rfl
    · refine Leads.after ?_ (leads_of_view (view_callOutput _))
      exact .of_view rfl
  · exact .ok () (.refl s)

/-! ## Connecting -/

/-- `connect` starts a new connection. -/
def connects (s : Sys) (w : World) : Bool :=
  !s.so.ssNofdref && soconnectOk s.so && w.pcbconnect && (s.tp.tTemplate || w.template)

theorem step_connect_refused {s : Sys} {w : World} (h : connects s w = false) :
    step s .connect w = .ok () (enter s w) := by
  have hno : s.so.ssNofdref = true ∨ soconnectOk s.so = false ∨
      (!w.pcbconnect || !(s.tp.tTemplate || w.template)) = true := by
    unfold connects at h
    cases h1 : s.so.ssNofdref <;> cases h2 : soconnectOk s.so <;> cases h3 : w.pcbconnect <;>
      simp_all
  show (if s.so.ssNofdref = true then _ else userStep (enter s w) .connect) = _
  split
  · rfl
  · next hfd =>
    show (if soconnectOk s.so = true then tcpConnect (enter s w) else _) = _
    split
    · next hok =>
      rcases hno with h1 | h1 | h1
      · exact absurd h1 hfd
      · rw [h1] at hok
        cases hok
      · exact if_pos h1
    · rfl

/-- A new connection: the send sequence is chosen, the rest is as the last one left it. -/
theorem step_connect_view {s s' : Sys} {w : World} (hc : connects s w = true)
    (h : step s .connect w = .ok () s') :
    view s' = { view (enter s w) with
      st := .synSent, una := w.tcpIss, reqScale := s'.tp.requestRScale, got := [], fins := [] } := by
  unfold connects at hc
  simp only [Bool.and_eq_true] at hc
  obtain ⟨⟨⟨h1, h2⟩, h3⟩, h4⟩ := hc
  change (if s.so.ssNofdref = true then _ else userStep (enter s w) .connect) = _ at h
  rw [if_neg (by simpa using h1)] at h
  change (if soconnectOk s.so = true then tcpConnect (enter s w) else _) = _ at h
  rw [if_pos h2] at h
  change (if (!w.pcbconnect || !(s.tp.tTemplate || w.template)) = true then _ else _) = _ at h
  rw [if_neg (by simp [h3, h4])] at h
  have hv := view_callOutput _ ▸ congrArg (fun o : Outcome Unit => view o.st) h
  have hscale : s'.tp.requestRScale = (view s').reqScale := rfl
  rw [hscale, ← show _ = view s' from hv]
  rfl

end Anp
