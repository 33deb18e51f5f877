import Anp.Tcp.SendRun

/-!
# Stream — what goes out is what was written

Two properties of a whole run, both from the send invariant: the bytes of every segment are those
written there, and the send variables stay in order. Neither holds of every run. `StreamCond` and
`OrderCond` leave out the steps that go wrong.
-/

namespace Anp

open Cyclic Machine

/-! ## Runs by hand -/

/-- A world in which nothing fails, with answers for `n` passes of `tcp_output`. -/
def calmWorld (n : Nat) : World := { tcpIss := 100, outs := List.replicate n {} }

def bareSeg (seq ack : Seq) (flags : Flags) (win : Nat) (opts : List Byte) : Segment :=
  { tiSeq := seq, tiAck := ack, tiFlags := flags, tiWin := win, opts := opts }

/-- A connection is opened and twenty bytes are written. -/
def sentTwenty : List (Op × World) := [(.connect, calmWorld 3),
    (.input (bareSeg 500 101 { syn := true, ack := true } 5000 []), calmWorld 3),
    (.send { mData := List.replicate 20 0 } false, calmWorld 3)]

/-- A timestamp option, padded as the source pads its own. -/
def tstampOpt : List Byte := [1, 1, 8, 10, 0, 0, 0, 1, 0, 0, 0, 1]

/-! ## The stream -/

/-- Operations that lead away from the stream: an ACK that is taken for one of our SYN, a write
beyond what a sequence number can tell apart, a connection that starts with `TF_SENTFIN` set. -/
def StreamFair (s : Sys) : Op → Prop
  | .input seg => (ackStage s seg).isSome = true → s.tp.tState = .synReceived →
      ¬SynAckBad s.tp seg.tiAck
  | .send mb oob => sosendOk s.so mb.mLen oob = true → s.so.soSnd.sbCc + mb.mLen < 2147483645
  | .connect => soconnectOk s.so = true → s.tp.tfSentfin = false
  | _ => True

/-- Besides, no pass of `tcp_output` sends a FIN after its data was cut short. -/
def StreamCond : Cond := fun s op w =>
  StreamFair (enter s w) op ∧ ∀ p ∈ passesOf s op w, finCut p = false

instance StreamFair.instDecidable (s : Sys) (op : Op) : Decidable (StreamFair s op) := by
  cases op <;> unfold StreamFair <;> infer_instance

instance StreamCond.instDecidable (s : Sys) (op : Op) (w : World) :
    Decidable (StreamCond s op w) :=
  inferInstanceAs (Decidable (_ ∧ _))

/-- The mode in which every segment sent is right. -/
def Mode.stream (one : Prop) : Mode := ⟨True, one, False, False⟩

theorem StreamCond.sendCond {one : Prop} {s : Sys} {op : Op} {w : World} (h : StreamCond s op w)
    (heor : one → ∀ mb oob, op = .send mb oob → sosendOk s.so mb.mLen oob = true →
      (s.so.soSnd.sbMb.getLast?.getD []).any (·.mEor) = false) :
    SendCond (.stream one) s op w := by
  obtain ⟨hop, hp⟩ := h
  refine ⟨?_, fun p hmem => ⟨fun _ => hp p hmem, fun hf => hf.elim⟩, fun hf => hf.elim⟩
  cases op with
  | input seg => exact ⟨hop, fun _ hf => hf.elim⟩
  | send mb oob => exact fun hok => ⟨hop hok, fun h1 => heor h1 mb oob rfl hok⟩
  | connect => exact fun _ => hop
  | _ => trivial

variable {m : Mode}

theorem Holds.sent (hm : m.fin) {o : Outcome Unit} (h : Holds m 0 o) :
    ∀ g ∈ o.st.log.sent, SentOk o.st.log.wrote g := by
  cases o with
  | ok u s =>
    obtain ⟨⟨n, mx, -, hat⟩, -⟩ := h
    exact (hat.pos.exact_ hm).sent
  | stop why s =>
    have hstop : StopOk m why s := h
    exact hstop.sent hm

/-- **Stream integrity.** -/
theorem sent_stream {o : Outcome Unit} (h : Reachable StreamCond o) :
    ∀ g ∈ o.st.log.sent, SentOk o.st.log.wrote g := by
  have hr : Reachable (SendCond (.stream False)) o := h.mono fun _ _ _ hc => hc.sendCond False.elim
  have hholds : Holds (.stream False) 0 o := hr.holds False.elim
  exact hholds.sent trivial

/-- Ten bytes and a FIN are written while the window is closed. -/
def cutFinOps : List (Op × World) := [(.connect, calmWorld 3),
    (.input (bareSeg 500 101 { syn := true, ack := true } 0 tstampOpt), calmWorld 3),
    (.sockopt (.maxseg 20), calmWorld 3),
    (.send { mData := [0, 1, 2, 3, 4, 5, 6, 7, 8, 9] } false, calmWorld 3),
    (.shutdown false true, calmWorld 3),
    (.input (bareSeg 501 101 { ack := true } 1000 tstampOpt), calmWorld 3)]

/-- The timestamp takes twelve bytes of the first segment, and with it goes a FIN that was meant
for the end of all ten. -/
theorem cut_fin_sent : Reachable (fun _ _ _ => True) (runOps (.ok () (socreate true)) cutFinOps) ∧
    ¬∀ g ∈ (runOps (.ok () (socreate true)) cutFinOps).st.log.sent,
      SentOk (runOps (.ok () (socreate true)) cutFinOps).st.log.wrote g := by
  refine ⟨reachable_runOps (.active true) cutFinOps, fun h => ?_⟩
  have hlen : (runOps (.ok () (socreate true)) cutFinOps).st.log.wrote.length = 10 := by
    decide +kernel
  -- the third segment: eight bytes from 101 on, and the FIN
  obtain ⟨g, hg, ha, hs, hi, hd, hf⟩ :
      ∃ g ∈ (runOps (.ok () (socreate true)) cutFinOps).st.log.sent, 1 ≤ g.acked ∧
        g.seg.tiSeq = 101 ∧ g.iss = 100 ∧ g.seg.data.length = 8 ∧ g.seg.tiFlags.fin = true := by
    decide +kernel
  obtain ⟨p, -, -, hp, -, -, hend⟩ := h g hg ha (Or.inr hf)
  have hp2 : p = 2 := by
    have := hend hf
    omega
  rw [hp2, hs, hi] at hp
  exact absurd hp (by decide)

def plainOps : List (Op × World) := [(.connect, calmWorld 3),
    (.input (bareSeg 500 101 { syn := true, ack := true } 1000 []), calmWorld 3),
    (.send { mData := [0, 1, 2] } false, calmWorld 3),
    (.shutdown false true, calmWorld 3),
    (.input (bareSeg 501 105 { ack := true } 1000 []), calmWorld 3)]

theorem sent_stream_plain : Reachable StreamCond (runOps (.ok () (socreate true)) plainOps) ∧
    ∀ g ∈ (runOps (.ok () (socreate true)) plainOps).st.log.sent,
      SentOk (runOps (.ok () (socreate true)) plainOps).st.log.wrote g := by
  have hr : Reachable StreamCond (runOps (.ok () (socreate true)) plainOps) :=
    Reachable.runOps (Runs.Reach.start (.active true)) plainOps (by decide +kernel)
  exact ⟨hr, sent_stream hr⟩

/-! ## The order of the send sequence numbers -/

/-- Besides what the stream needs, `so_snd` stays one record. -/
def OrderCond : Cond := fun s op w =>
  StreamCond s op w ∧
    match op with
    | .send mb oob => sosendOk s.so mb.mLen oob = true →
        (s.so.soSnd.sbMb.getLast?.getD []).any (·.mEor) = false
    | _ => True

instance OrderCond.instDecidable (s : Sys) (op : Op) (w : World) :
    Decidable (OrderCond s op w) := by
  cases op <;> unfold OrderCond <;> infer_instance

/-- `snd_una <= snd_nxt <= snd_max <= snd_una + sb_cc + 1`. -/
def SndOrder (s : Sys) : Prop :=
  seqLEQ s.tp.sndUna s.tp.sndNxt = true ∧ seqLEQ s.tp.sndNxt s.tp.sndMax = true ∧
    seqLEQ s.tp.sndMax (adv s.tp.sndUna (s.so.soSnd.sbCc + 1)) = true

theorem seqLEQ_adv {iss : Seq} {a b : Int} (h : a ≤ b) (hlt : b - a ≤ 2147483648) :
    seqLEQ (adv iss a) (adv iss b) = true := by
  unfold seqLEQ
  rw [gap_adv (by omega) (by omega), decide_eq_true_eq]
  omega

theorem SendPos.max_le_fin {v : Snd} {n mx : Int} (h : SendPos m v n mx)
    (hak : 1 ≤ v.acked) : mx ≤ v.acked + v.cc + 1 := by
  have hm := h.max_le
  rcases h.acct with ⟨h1, -⟩ | ⟨-, h2⟩ | ⟨h1, h2⟩ <;> omega

theorem SendAt.order (hm : m.fin) {s : Sys} {n mx : Int} (h : SendAt m s n mx)
    (hak : 1 ≤ s.log.acked) : SndOrder s := by
  have hle : mx ≤ s.log.acked + s.so.soSnd.sbCc + 1 := h.pos.max_le_fin hak
  have hcc : s.so.soSnd.sbCc < 2147483645 := h.pos.cc_lt
  have hun : (s.log.acked : Int) ≤ n := (h.pos.exact_ hm).una_nxt
  have hnm := h.pos.nxt_max
  have hu : s.tp.sndUna = adv s.tp.iss (s.log.acked : Int) := h.pos.una_eq
  have hn : s.tp.sndNxt = adv s.tp.iss n := h.pos.nxt_eq
  have hx : s.tp.sndMax = adv s.tp.iss mx := h.pos.max_eq
  unfold SndOrder
  rw [hu, hn, hx, adv_adv]
  exact ⟨seqLEQ_adv hun (by omega), seqLEQ_adv hnm (by omega), seqLEQ_adv (by omega) (by omega)⟩

/-- The numbers are in order once our SYN is acknowledged, and no operation ends in one of the
panics of `sbdrop`, `m_copydata` and `m_copym` on `so_snd`. -/
def OrderOk : Outcome Unit → Prop
  | .ok _ s => 1 ≤ s.log.acked → SndOrder s
  | .stop why _ => why ≠ .panic .sbdropSnd ∧ why ≠ .panic .mCopydata ∧ why ≠ .panic .mCopym

instance OrderOk.instDecidable (o : Outcome Unit) : Decidable (OrderOk o) :=
  match o with
  | .ok _ _ => by dsimp only [OrderOk, SndOrder]; infer_instance
  | .stop _ _ => inferInstanceAs (Decidable (_ ∧ _ ∧ _))

/-- **The send sequence invariant.** -/
theorem snd_order {o : Outcome Unit} (h : Reachable OrderCond o) : OrderOk o := by
  have hr : Reachable (SendCond (.stream True)) o := by
    refine h.mono fun s op w hc => hc.1.sendCond fun _ mb oob hop => ?_
    subst hop
    exact hc.2
  have hholds : Holds (.stream True) 0 o := hr.holds False.elim
  cases o with
  | ok u s =>
    obtain ⟨⟨n, mx, -, hat⟩, -⟩ := hholds
    exact hat.order trivial
  | stop why s =>
    have hstop : StopOk (.stream True) why s := hholds
    exact hstop.panic trivial trivial

/-- Two writes, the first with `MSG_EOR`, while the window is closed; then it opens. -/
def eorOps : List (Op × World) := [(.connect, calmWorld 3),
    (.input (bareSeg 500 101 { syn := true, ack := true } 0 []), calmWorld 3),
    (.send { mData := [0], mEor := true } false, calmWorld 3),
    (.send { mData := [1] } false, calmWorld 3),
    (.input (bareSeg 501 101 { ack := true } 1000 []), calmWorld 3)]

/-- `m_copydata` is asked for two bytes and finds a record of one. -/
theorem eor_panics : Reachable (fun _ _ _ => True) (runOps (.ok () (socreate true)) eorOps) ∧
    ¬OrderOk (runOps (.ok () (socreate true)) eorOps) := by
  exact ⟨reachable_runOps (.active true) eorOps, by decide +kernel⟩

theorem snd_order_plain : Reachable OrderCond (runOps (.ok () (socreate true)) plainOps) ∧
    OrderOk (runOps (.ok () (socreate true)) plainOps) := by
  have hr : Reachable OrderCond (runOps (.ok () (socreate true)) plainOps) :=
    Reachable.runOps (Runs.Reach.start (.active true)) plainOps (by decide +kernel)
  exact ⟨hr, snd_order hr⟩

end Anp
