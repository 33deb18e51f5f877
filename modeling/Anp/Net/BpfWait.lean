import Anp.Net.BpfBuffer

/-!
# BpfWait — readers that sleep

`bpfread` sleeps until there is a hold buffer or, in immediate mode, a packet. `catchpacket` then
calls `bpf_wakeup`, but all of that function is under `#ifdef LATER`.
-/

namespace Anp

open Runs

/-- `asleep` readers are in `BPF_SLEEP`, with no wakeup pending. One that is woken up comes to the
test of the loop again, which is another `read`. -/
structure BpfWait where
  sys : BpfSys
  asleep : Nat := 0

/-- What a reader waits for. -/
def BpfD.ready (d : BpfD) : Prop := d.hbuf ≠ none ∨ (d.immediate = true ∧ d.slen ≠ 0)
deriving Decidable

/-- `bpf_wakeup(d)`: the readers that still sleep. -/
def bpfWakeup (asleep : Nat) : Nat := asleep

def BpfWait.sleepers (s : BpfWait) : BpfdOp → Nat
  | .tap .. | .mtap .. => bpfWakeup s.asleep
  | .read resid =>
    if s.sys.busy ∨ resid ≠ s.sys.d.bufsize ∨ s.sys.d.ready then s.asleep else s.asleep + 1
  | .timeout => if s.sys.busy then s.asleep else s.asleep - 1
  | .uiomove | .flush | .setImmediate _ => s.asleep

/-- The descriptor with the readers that sleep. -/
def bpfwStep (s : BpfWait) (op : BpfdOp) : BpfWait :=
  { sys := bpfdStep s.sys op, asleep := s.sleepers op }

/-- A reader sleeps although there is what it waits for. -/
def Missed (s : BpfWait) : Prop := 0 < s.asleep ∧ s.sys.d.ready

/-- A record of `len` octets is dropped, or it is stored and no reader is to be woken up for it. -/
def BpfD.Quiet (d : BpfD) (len : Nat) : Prop :=
  if d.full len then d.fbuf = none else d.immediate = false
deriving Decidable

/-- A step brings nothing for a reader that waits: no packet to wake it up for, no immediate mode
with a packet in the store buffer, no hold buffer made by another one's timeout. -/
def BpfD.Waits (d : BpfD) : BpfdOp → Prop
  | .tap pkt slen _ => slen = 0 ∨ d.Quiet (pkt.take (d.caplen pkt.length slen)).length
  | .mtap m slen _ => slen = 0 ∨
      ∀ data ∈ bpfMcopy m (d.caplen (chainBytes m).length slen), d.Quiet data.length
  | .timeout => d.slen = 0
  | .setImmediate v => v = true → d.slen = 0
  | .read _ | .uiomove | .flush => True

instance BpfD.decWaits (d : BpfD) (op : BpfdOp) : Decidable (d.Waits op) := by
  cases op <;> unfold BpfD.Waits <;> infer_instance

theorem catchpacket_quiet {d : BpfD} (hd : ¬d.ready) {data : List Byte} (hq : d.Quiet data.length)
    (pktlen : Nat) (ts : Nat × Nat) : ¬(catchpacket d pktlen ts data).ready := by
  rw [BpfD.ready, not_or, not_not] at hd
  rw [BpfD.Quiet] at hq
  rw [catchpacket]
  split
  next hfull =>
    rw [if_pos hfull] at hq
    rw [if_pos hq]
    exact fun h => h.elim (absurd hd.1) hd.2
  next hfull =>
    rw [if_neg hfull] at hq
    rw [BpfD.store]
    split
    · exact fun h => h.elim (absurd hd.1) hd.2
    · rintro (h | ⟨h, -⟩)
      · exact h hd.1
      · exact Bool.noConfusion (hq.symm.trans h)

theorem deliver_quiet {s : BpfSys} (hd : ¬s.d.ready) {pkt : List Byte} {slen : Nat}
    (ts : Nat × Nat) {copy : Nat → Option (List Byte)}
    (hq : slen = 0 ∨ ∀ data ∈ copy (s.d.caplen pkt.length slen), s.d.Quiet data.length) :
    ¬(s.deliver pkt slen ts copy).d.ready := by
  have hd' : ¬({ s.d with rcount := (s.d.rcount + 1) % 4294967296 } : BpfD).ready := hd
  rw [BpfSys.deliver]
  dsimp only
  split
  · exact hd'
  next hslen =>
    split
    · exact hd'
    next data hcopy =>
      have hquiet := catchpacket_quiet hd' (hq.resolve_left hslen data hcopy) pkt.length ts
      rw [BpfSys.note]
      split <;> exact hquiet

theorem bpfdStep_waits {s : BpfSys} {op : BpfdOp} (hd : ¬s.d.ready) (hw : s.d.Waits op) :
    ¬(bpfdStep s op).d.ready := by
  obtain ⟨hhbuf, himm⟩ := not_or.mp hd
  cases op with
  | tap pkt slen ts =>
    refine deliver_quiet hd ts (hw.imp_right fun hq data hdata => ?_)
    cases hdata
    exact hq
  | mtap m slen ts => exact deliver_quiet hd ts hw
  | read resid =>
    rw [bpfdStep, if_neg hhbuf, if_neg himm, ite_self]
    exact hd
  | timeout =>
    rw [bpfdStep, if_neg hhbuf, if_pos (show s.d.slen = 0 from hw), ite_self]
    exact hd
  | uiomove =>
    rw [bpfdStep, not_not.mp hhbuf]
    cases s.busy <;> exact hd
  | flush =>
    rw [bpfdStep]
    split
    · exact hd
    · exact fun hr => hr.elim (absurd rfl) fun hs => hs.2 rfl
  | setImmediate v => exact fun hr => hr.elim hhbuf fun hs => hs.2 (hw hs.1)

theorem bpfwStep_keeps {s : BpfWait} {op : BpfdOp} (h : ¬Missed s)
    (hc : s.sleepers op = 0 ∨ s.sys.d.Waits op) : ¬Missed (bpfwStep s op) := by
  rintro ⟨hpos, hready⟩
  -- who sleeps after the step slept before it, or has found nothing
  have hnot : ¬s.sys.d.ready := by
    intro hr
    have hzero : s.asleep = 0 := Nat.eq_zero_of_not_pos fun hp => h ⟨hp, hr⟩
    cases op <;> simp [bpfwStep, BpfWait.sleepers, bpfWakeup, hzero, hr] at hpos
  exact bpfdStep_waits hnot (hc.resolve_left (Nat.ne_of_gt hpos)) hready

/-- **Readers are woken up**, in the runs in which they need not be: no reader sleeps although
there is what it waits for. -/
theorem bpf_readers_woken {s : BpfWait} (h : Reach (fun s => s.asleep = 0)
      (By bpfwStep fun s op => s.sleepers op = 0 ∨ s.sys.d.Waits op) s) : ¬Missed s := by
  refine h.ops (I := fun s => ¬Missed s) (fun s hs hm => ?_) fun _ _ => bpfwStep_keeps
  exact Nat.ne_of_gt hm.1 hs

/-- A packet of ten octets comes while a reader sleeps, in a buffer that has room for it. -/
theorem bpf_readers_woken_later :
    ([BpfdOp.read 64, .tap (List.replicate 10 7) 8 (0, 0)].foldl bpfwStep ⟨bpfSmall, 0⟩).asleep = 1 ∧
      ¬Missed ([BpfdOp.read 64, .tap (List.replicate 10 7) 8 (0, 0)].foldl bpfwStep
        ⟨bpfSmall, 0⟩) := by
  refine ⟨by decide, bpf_readers_woken (Reach.foldl (Reach.start rfl) ?_)⟩
  decide

/-- In immediate mode the same packet is there, and the reader sleeps on. -/
theorem bpf_reader_sleeps_on :
    Missed ([BpfdOp.setImmediate true, .read 64, .tap (List.replicate 10 7) 8 (0, 0)].foldl bpfwStep
      ⟨bpfSmall, 0⟩) := by
  unfold Missed
  decide

end Anp
