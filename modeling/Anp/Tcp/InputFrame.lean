import Anp.Tcp.SendRun

/-!
# InputFrame — what one segment can move

Whatever a segment does, `snd_una` stays or becomes its acknowledgement number, and it only moves
once the connection has left SYN_SENT and SYN_RECEIVED. `AckMove` says so; unlike the send
invariant it holds of every call of `tcp_input`, from any state but LISTEN and SYN_SENT (`Acts`).
-/

namespace Anp

open Cyclic Machine

variable {s s' : Sys}

/-- Our SYN is not the matter any more. -/
def Synced (st : TcpState) : Prop := st ≠ .synSent ∧ st ≠ .synReceived

structure AckMove (ack : Seq) (s s' : Sys) : Prop where
  wrote : s'.log.wrote = s.log.wrote
  iss : s'.tp.iss = s.tp.iss
  una : (s'.log.acked = s.log.acked ∧ s'.tp.sndUna = s.tp.sndUna) ∨
    (s'.tp.sndUna = ack ∧ Synced s'.tp.tState)
  st : s'.tp.tState = s.tp.tState ∨ Synced s'.tp.tState

variable {ack : Seq}

theorem AckMove.refl (s : Sys) : AckMove ack s s := ⟨rfl, rfl, .inl ⟨rfl, rfl⟩, .inl rfl⟩

theorem AckMove.synced (h : AckMove ack s s') (hs : Synced s.tp.tState) :
    Synced s'.tp.tState := by
  rcases h.st with h1 | h1
  · rw [h1]
    exact hs
  · exact h1

theorem AckMove.trans {s'' : Sys} (h : AckMove ack s s') (h' : AckMove ack s' s'') :
    AckMove ack s s'' where
  wrote := h'.wrote.trans h.wrote
  iss := h'.iss.trans h.iss
  una := by
    rcases h'.una with ⟨h1, h2⟩ | h1
    · rcases h.una with ⟨h3, h4⟩ | ⟨h3, h4⟩
      · exact .inl ⟨h1.trans h3, h2.trans h4⟩
      · exact .inr ⟨h2.trans h3, h'.synced h4⟩
    · exact .inr h1
  st := by
    rcases h'.st with h1 | h1
    · rcases h.st with h2 | h2
      · exact .inl (h1.trans h2)
      · exact .inr (h'.synced h2)
    · exact .inr h1

theorem Calm.move (h : Calm s s') : AckMove ack s s' where
  wrote := congrArg Snd.wrote h.view
  iss := congrArg Snd.iss h.view
  una := .inl ⟨congrArg Snd.acked h.view, congrArg Snd.una h.view⟩
  st := .inl (congrArg Snd.st h.view)

theorem OutOnly.move (h : OutOnly s s') : AckMove ack s s' :=
  ⟨h.wrote, h.iss, .inl ⟨h.acked, h.sndUna⟩, .inl h.tState⟩

theorem synced_of_inAckSynRcvd {i i' : Inp} (h : inAckSynRcvd i s = .next i' s') :
    s'.tp.tState = .established := by
  rcases inAckSynRcvd_cases (m := ⟨True, True, True, True⟩) i s with
    he | ⟨-, s2, s1, he, hc, -, hv, -⟩
  · rw [he] at h
    cases h
  · rw [he] at h
    cases h
    exact congrArg Snd.st (hc.view.trans hv)

end Anp
