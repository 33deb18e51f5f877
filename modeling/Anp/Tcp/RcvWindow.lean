import Anp.Tcp.Stream

/-!
# RcvWindow — the receive window `tcp_input` computes

`tcp_input` takes the larger of the space in the receive buffer and the window it has announced,
with an unsigned `max`. The announced window `rcv_adv - rcv_nxt` is negative once bytes beyond it
have been taken: silly-window avoidance keeps `rcv_adv` where it is while there is space for a
probe, and header prediction looks at the space only.
-/

namespace Anp

open Cyclic Machine

/-- The receive window as intended: the space or the announced window; and a segment at `rcv_nxt`
for which there is space is neither rejected nor cut on its right. -/
structure WindowOk (s : Sys) : Prop where
  value : ((inRcvWnd s).tp.rcvWnd : Int) =
    max 0 (max (sbspace s.so.soRcv) (gap s.tp.rcvAdv s.tp.rcvNxt))
  takes : ∀ i : Inp, i.tiSeq = s.tp.rcvNxt → (i.tiLen : Int) ≤ sbspace s.so.soRcv →
    trimRight (inRcvWnd s).tp i = .keep i false

theorem sbspace_lt (sb : Sockbuf) : sbspace sb < 2147483648 := by
  unfold sbspace int32
  have h := @Int.bmod_lt ((sb.sbHiwat : Int) - sb.sbCc) 4294967296 (by decide)
  omega

theorem inRcvWnd_value (s : Sys) : (inRcvWnd s).tp.rcvWnd =
    max (max 0 (sbspace s.so.soRcv)).toNat (u32 (gap s.tp.rcvAdv s.tp.rcvNxt)) := by
  have hlt := sbspace_lt s.so.soRcv
  show max (u32 (if sbspace s.so.soRcv < 0 then 0 else sbspace s.so.soRcv)) _ = _
  congr 1
  split
  · next h => rw [max_eq_left (by omega)]; rfl
  · next h => rw [max_eq_right (by omega), u32_of_range (by omega) (by omega)]

variable {s : Sys}

/-- The announced window is not negative: `max` compares what it should. -/
theorem rcvWnd_of_announced (h : 0 ≤ gap s.tp.rcvAdv s.tp.rcvNxt) :
    ((inRcvWnd s).tp.rcvWnd : Int) =
      max 0 (max (sbspace s.so.soRcv) (gap s.tp.rcvAdv s.tp.rcvNxt)) := by
  obtain ⟨-, hhi⟩ := gap_range s.tp.rcvAdv s.tp.rcvNxt
  rw [inRcvWnd_value, u32_of_range h (by omega)]
  omega

theorem trimRight_fits (h : 0 ≤ gap s.tp.rcvAdv s.tp.rcvNxt) {i : Inp}
    (hseq : i.tiSeq = s.tp.rcvNxt) (hlen : i.tiLen ≤ (inRcvWnd s).tp.rcvWnd) :
    trimRight (inRcvWnd s).tp i = .keep i false := by
  have hv := rcvWnd_of_announced h
  have hlt := sbspace_lt s.so.soRcv
  obtain ⟨-, hhi⟩ := gap_range s.tp.rcvAdv s.tp.rcvNxt
  -- the right edge of the segment is `ti_len` past `rcv_nxt`, that of the window `rcv_wnd`
  have hedge : gap (adv i.tiSeq i.tiLen) (adv (inRcvWnd s).tp.rcvNxt (inRcvWnd s).tp.rcvWnd) =
      (i.tiLen : Int) - (inRcvWnd s).tp.rcvWnd := by
    rw [hseq]
    exact gap_adv_adv _ (by omega) (by omega)
  unfold trimRight
  simp only [hedge]
  exact if_neg (by omega)

/-- The announced window is negative: as an unsigned number it is the larger one. -/
theorem rcvWnd_of_passed (h : gap s.tp.rcvAdv s.tp.rcvNxt < 0) :
    2147483648 ≤ (inRcvWnd s).tp.rcvWnd := by
  obtain ⟨hlo, -⟩ := gap_range s.tp.rcvAdv s.tp.rcvNxt
  rw [inRcvWnd_value]
  unfold u32
  omega

/-- **The window is computed as intended exactly when `rcv_nxt` has not passed `rcv_adv`.** -/
theorem rcv_window_iff (s : Sys) : WindowOk s ↔ ¬seqLT s.tp.rcvAdv s.tp.rcvNxt := by
  have hlt := sbspace_lt s.so.soRcv
  have hseq : seqLT s.tp.rcvAdv s.tp.rcvNxt = true ↔ gap s.tp.rcvAdv s.tp.rcvNxt < 0 :=
    decide_eq_true_iff
  rw [hseq]
  constructor
  · intro h hneg
    have hv := h.value
    have hbig := rcvWnd_of_passed hneg
    omega
  · intro hneg
    have hv := rcvWnd_of_announced (not_lt.mp hneg)
    refine ⟨hv, ?_⟩
    intro i hseq hlen
    exact trimRight_fits (not_lt.mp hneg) hseq (by omega)

/-- A peer that probes. The receive buffer of 400 bytes fills up, the reader takes fifty: enough for
the probe only. -/
def probeOps : List (Op × World) := [(.sockopt (.rcvbuf 400), calmWorld 3), (.connect, calmWorld 3),
    (.input (bareSeg 500 101 { syn := true, ack := true } 1000 []), calmWorld 3),
    (.input { tiSeq := 501, tiAck := 101, tiFlags := { ack := true }, tiWin := 1000,
              m := List.replicate 4 { mData := List.replicate 100 7 },
              len_lt := by decide +kernel }, calmWorld 3),
    (.fasttimo, calmWorld 3),
    (.rcvd 50, calmWorld 3),
    (.input { tiSeq := 901, tiAck := 101, tiFlags := { ack := true }, tiWin := 1000,
              m := [{ mData := [7] }] }, calmWorld 3),
    (.fasttimo, calmWorld 3)]

/-- The next probe, from a peer whose own window has changed. -/
def nextProbe : Segment :=
  { tiSeq := 902, tiAck := 101, tiFlags := { ack := true }, tiWin := 999, m := [{ mData := [7] }] }

/-- The probe was taken, `rcv_nxt` is past `rcv_adv`, and the next probe, for which there is space,
is answered and dropped. -/
theorem probe_rejected :
    Reachable (fun _ _ _ => True) (runOps (.ok () (socreate false)) probeOps) ∧
      seqLT (runOps (.ok () (socreate false)) probeOps).st.tp.rcvAdv
        (runOps (.ok () (socreate false)) probeOps).st.tp.rcvNxt = true ∧
      ¬WindowOk (runOps (.ok () (socreate false)) probeOps).st ∧
      sbspace (runOps (.ok () (socreate false)) probeOps).st.so.soRcv = 49 ∧
      ackStage (runOps (.ok () (socreate false)) probeOps).st nextProbe = none ∧
      (step (runOps (.ok () (socreate false)) probeOps).st (.input nextProbe)
        (calmWorld 3)).st.tp.rcvNxt = 902 := by
  have hpassed : seqLT (runOps (.ok () (socreate false)) probeOps).st.tp.rcvAdv
      (runOps (.ok () (socreate false)) probeOps).st.tp.rcvNxt = true := by
    decide +kernel
  refine ⟨reachable_runOps (.active false) probeOps, hpassed, fun h => ?_, by decide +kernel,
    by decide +kernel, by decide +kernel⟩
  have hv := h.value
  have hbig := rcvWnd_of_passed (decide_eq_true_iff.mp hpassed)
  have hsp := sbspace_lt (runOps (.ok () (socreate false)) probeOps).st.so.soRcv
  have hneg := decide_eq_true_iff.mp hpassed
  omega

end Anp
