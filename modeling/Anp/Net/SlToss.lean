import Anp.Net.Slcompress

/-!
# SlToss — the decompressor after a damaged frame

A frame without a connection index belongs to the connection of the frame before it, so after a
frame that was lost it must be tossed. `sl_uncompress_tcp` keeps the flag `SLF_TOSS` for this and
sets it where it fails itself; a frame that `slinput` discards for `SC_ERROR` never gets there.
-/

namespace Anp

open Octets Runs

variable {s : SlRx SlCompress} {e : LineIn}

/-! ## What is in the buffer when a frame ends -/

/-- The character is a `FRAME_END` that is acted on. -/
def slEnds (s : SlRx SlCompress) (e : LineIn) : Bool :=
  s.attached && !(e.err || (!s.carrOn && !s.clocal)) &&
    (abtStep s.debug s.abt e.char e.now).isSome && e.char == frameEnd

def SlRx.changes (s : SlRx SlCompress) : Byte := s.mem s.cl s.scBuf

/-- `c` as it is given to `sl_uncompress_tcp`. -/
def SlRx.type (s : SlRx SlCompress) : Byte :=
  let c := s.changes &&& 0xf0
  if c &&& 0x80 ≠ 0 then typeCompressedTcp else c

/-- The frame is long enough, whole, and not an IP packet. -/
def SlRx.isTcp (s : SlRx SlCompress) : Bool :=
  !s.scError && decide (3 ≤ s.scMp - s.scBuf) && s.changes &&& 0xf0 != typeIp

/-- A compressed packet with an implicit connection id. -/
def SlRx.implicit (s : SlRx SlCompress) : Bool :=
  s.isTcp && s.type == typeCompressedTcp && s.changes &&& newC == 0

def slAnswer (s : SlRx SlCompress) : SlCompress × Mem × Nat × Int :=
  slUncompressTcp s.comp s.type ((slUntag s s.type).mem s.cl) s.scBuf (s.scMp - s.scBuf)

/-- The receiver, and whether a frame has been discarded since the last accepted one that named its
connection. -/
structure SlWatch where
  rx : SlRx SlCompress
  damaged : Bool := false

def slWatch (w : SlWatch) (e : LineIn) : SlWatch where
  rx := slinput slUncompressTcp w.rx e
  damaged :=
    if slEnds w.rx e then
      if w.rx.scError then true
      else if w.rx.isTcp then
        if (slAnswer w.rx).2.2.2 ≤ 0 then true else w.damaged && w.rx.implicit
      else w.damaged
    else w.damaged

/-! ## What a call does to the decompressor -/

theorem slDeliver_comp (s : SlRx SlCompress) (len : Nat) (e : LineIn) :
    (slDeliver s len e).comp = s.comp ∧ (slDeliver s len e).scCompress = s.scCompress := by
  unfold slDeliver slBtom
  cases e.mget <;> cases e.mclget <;> cases e.qfull <;> by_cases h : mhlen ≤ len <;>
    simp [h, slNewpack]

theorem slUntag_same (s : SlRx SlCompress) (c : Byte) :
    ∃ mem, slUntag s c = { s with mem } := by
  unfold slUntag
  split
  · exact ⟨_, rfl⟩
  · exact ⟨s.mem, rfl⟩

theorem slFrameEnd_tcp (hc : s.scCompress = true) (ht : s.isTcp = true) :
    (slFrameEnd slUncompressTcp s e).comp = (slAnswer s).1 ∧
      (slFrameEnd slUncompressTcp s e).scCompress = true ∧
      ((slAnswer s).2.2.2 ≤ 0 → (slFrameEnd slUncompressTcp s e).ipintrq = s.ipintrq) := by
  simp only [SlRx.isTcp, Bool.and_eq_true, Bool.not_eq_true', decide_eq_true_eq, bne_iff_ne] at ht
  obtain ⟨⟨herr, hlen⟩, hip⟩ := ht
  obtain ⟨mem, hmem⟩ := slUntag_same s s.type
  have hrest : slFrameEnd slUncompressTcp s e =
      slUncompressed slUncompressTcp (slUntag s s.type) s.type (s.scMp - s.scBuf) e := by
    rw [slFrameEnd, if_neg (by simp [herr])]
    rw [if_neg (by omega), if_neg (show ¬s.mem s.cl s.scBuf &&& 0xf0 = typeIp from hip)]
    have hc' : (slUntag s s.type).scCompress = true := by rw [hmem]; exact hc
    exact if_pos (Or.inl hc')
  have hans : slUncompressTcp (slUntag s s.type).comp s.type ((slUntag s s.type).mem
      (slUntag s s.type).cl) (slUntag s s.type).scBuf (s.scMp - s.scBuf) = slAnswer s := by
    rw [slAnswer, hmem]
  rw [hrest, slUncompressed, hans, hmem]
  split
  · next hle => exact ⟨rfl, hc, fun _ => rfl⟩
  · next hpos =>
    obtain ⟨h1, h2⟩ := slDeliver_comp
      { s with
        comp := (slAnswer s).1
        mem := Function.update mem s.cl (slAnswer s).2.1
        scBuf := (slAnswer s).2.2.1
        scCompress := true } (slAnswer s).2.2.2.toNat e
    exact ⟨h1, h2, fun hle => absurd hle hpos⟩

theorem slFrameEnd_plain (ht : s.isTcp = false) :
    (slFrameEnd slUncompressTcp s e).comp = s.comp ∧
      (slFrameEnd slUncompressTcp s e).scCompress = s.scCompress := by
  rw [slFrameEnd]
  split
  · exact ⟨rfl, rfl⟩
  next herr =>
  dsimp only
  split
  · exact ⟨rfl, rfl⟩
  next hlen =>
  split
  · exact slDeliver_comp s _ e
  · next hip =>
    simp only [SlRx.isTcp, herr, Bool.not_false, Bool.true_and, Bool.and_eq_false_iff,
      decide_eq_false_iff_not, bne_eq_false_iff_eq] at ht
    rcases ht with h | h
    · omega
    · exact absurd h hip

theorem slAnswer_abt (s : SlRx SlCompress) (abt : Abt) : slAnswer { s with abt } = slAnswer s := by
  have hmem : ∀ t : SlRx SlCompress, (slUntag t t.type).mem = if t.type = typeUncompressedTcp then
      (t.poke t.scBuf (t.mem t.cl t.scBuf &&& 0x4f)).mem else t.mem := by
    intro t
    unfold slUntag
    split <;> rfl
  rw [slAnswer, slAnswer, hmem, hmem]
  rfl

theorem slinput_within (h : slEnds s e = false) :
    (slinput slUncompressTcp s e).comp = s.comp ∧
      (slinput slUncompressTcp s e).scCompress = s.scCompress := by
  unfold slinput
  split
  · exact ⟨rfl, rfl⟩
  next ha =>
  split
  · exact ⟨rfl, rfl⟩
  next herr =>
  split
  · exact ⟨rfl, rfl⟩
  next abt hab =>
  dsimp only
  split
  · exact ⟨rfl, rfl⟩
  split
  · next hend =>
    simp only [slEnds, hend] at h
    simp_all
  · split <;> exact ⟨rfl, rfl⟩

theorem slinput_end (h : slEnds s e = true) :
    ∃ abt, slinput slUncompressTcp s e = slFrameEnd slUncompressTcp { s with abt } e := by
  simp only [slEnds, Bool.and_eq_true, Bool.not_eq_true', beq_iff_eq] at h
  obtain ⟨⟨⟨ha, herr⟩, hab⟩, hend⟩ := h
  obtain ⟨abt, habt⟩ := Option.isSome_iff_exists.mp hab
  refine ⟨abt, ?_⟩
  unfold slinput
  rw [if_neg (by simp [ha]), if_neg (by simp [herr]), habt]
  dsimp only
  rw [if_neg (by rw [hend]; decide), if_pos hend]

/-! ## Errors of the decompressor -/

/-- The connection has no header yet and the frame no data: nothing is left of it, though the
decompressor finds no error. -/
def slVoid (comp : SlCompress) (changes : Byte) (mem : Mem) (bufp cp len : Nat) : Prop :=
  let cs := comp.rstate comp.lastRecv.toNat
  cs.csHlen = 0 ∧ (slFields cs.csHdr cs.csHlen (4 * ipHl cs.csHdr) changes mem cp).2 = bufp + len
deriving Decidable

theorem slRebuild_error {comp : SlCompress} {changes : Byte} {mem : Mem} {bufp cp len : Nat}
    (hlen : 3 ≤ len) (hv : ¬slVoid comp changes mem bufp cp len)
    (h : (slRebuild comp changes mem bufp cp len).2.2.2 ≤ 0) :
    (slRebuild comp changes mem bufp cp len).1.slfToss = true := by
  unfold slRebuild slPrepend at h ⊢
  dsimp only at h ⊢
  split
  · rfl
  · next hge =>
    rw [if_neg hge] at h
    dsimp only at h
    exact absurd ⟨by omega, by omega⟩ hv

/-- A compressed frame of this kind, with the state it would be decompressed with. -/
def SlRx.Void (s : SlRx SlCompress) : Prop := s.type = typeCompressedTcp ∧
    if s.changes &&& newC ≠ 0 then
      slVoid { s.comp with slfToss := false, lastRecv := s.mem s.cl (s.scBuf + 1) } s.changes
        (s.mem s.cl) s.scBuf (s.scBuf + 2) (s.scMp - s.scBuf)
    else slVoid s.comp s.changes (s.mem s.cl) s.scBuf (s.scBuf + 1) (s.scMp - s.scBuf)
deriving Decidable

/-- **The decompressor sets `SLF_TOSS` when it fails.** -/
theorem toss_of_error (ht : s.isTcp = true) (hv : ¬s.Void) (h : (slAnswer s).2.2.2 ≤ 0) :
    (slAnswer s).1.slfToss = true := by
  have hlen : 3 ≤ s.scMp - s.scBuf := by
    simp only [SlRx.isTcp, Bool.and_eq_true, decide_eq_true_eq] at ht
    exact ht.1.2
  unfold slAnswer slUncompressTcp at h ⊢
  split
  · next hu =>
    rw [if_pos hu] at h
    unfold slSync at h ⊢
    dsimp only at h ⊢
    split
    · rfl
    · next hid =>
      rw [if_neg hid] at h
      dsimp only at h
      omega
  next hu =>
  rw [if_neg hu] at h
  split
  · next hcomp =>
    rw [if_pos hcomp] at h
    have hmem : (slUntag s s.type).mem = s.mem := by rw [slUntag, if_neg hu]
    rw [hmem] at h ⊢
    rw [SlRx.Void, hcomp] at hv
    dsimp only at h ⊢
    split
    · next hnew =>
      rw [if_pos hnew] at h
      split
      · rfl
      · next hid =>
        rw [if_neg hid] at h
        refine slRebuild_error hlen (fun hvoid => hv ⟨rfl, ?_⟩) h
        rw [if_pos (show s.changes &&& newC ≠ 0 from hnew)]
        exact hvoid
    · next hnew =>
      rw [if_neg hnew] at h
      split
      · next htoss => exact htoss
      · next htoss =>
        rw [if_neg htoss] at h
        refine slRebuild_error hlen (fun hvoid => hv ⟨rfl, ?_⟩) h
        rw [if_neg (show ¬s.changes &&& newC ≠ 0 from hnew)]
        exact hvoid
  · rfl

theorem implicit_tossed (hi : s.implicit = true) (htoss : s.comp.slfToss = true) :
    (slAnswer s).2.2.2 = 0 := by
  simp only [SlRx.implicit, Bool.and_eq_true, beq_iff_eq] at hi
  obtain ⟨⟨-, hty⟩, hnew⟩ := hi
  have hmem : (slUntag s s.type).mem s.cl s.scBuf = s.changes := by
    rw [slUntag, hty, if_neg (by decide), SlRx.changes]
  unfold slAnswer slUncompressTcp
  rw [if_neg (by rw [hty]; decide), if_pos hty]
  rw [hmem, if_neg (not_not.mpr hnew), if_pos htoss]

/-! ## Runs -/

/-- A frame that ends with `SC_ERROR` set finds `SLF_TOSS` set already, no frame vanishes in the
decompressor without an error, and none brings a header of more than `MAX_HDR` octets: that would be
written over the state of the next connection, `cs_hlen` included. -/
def TossCond (w : SlWatch) (e : LineIn) : Prop := slEnds w.rx e = true →
    (w.rx.scError = true → w.rx.comp.slfToss = true) ∧
    (w.rx.isTcp = true → ¬w.rx.Void ∧ (slAnswer w.rx).1.overrun = false)
deriving Decidable

structure SlWatch.Inv (w : SlWatch) : Prop where
  compress : w.rx.scCompress = true
  toss : w.damaged = true → w.rx.comp.slfToss = true

theorem SlWatch.Inv.step {w : SlWatch} (h : w.Inv) (hc : TossCond w e) : (slWatch w e).Inv := by
  cases hends : slEnds w.rx e with
  | false =>
    obtain ⟨hcomp, hcompress⟩ := slinput_within hends
    refine ⟨hcompress.trans h.compress, fun hd => ?_⟩
    simp only [slWatch, hends, Bool.false_eq_true, if_false] at hd
    show (slinput slUncompressTcp w.rx e).comp.slfToss = true
    rw [hcomp]
    exact h.toss hd
  | true =>
    obtain ⟨herr, hframe⟩ := hc hends
    obtain ⟨abt, habt⟩ := slinput_end hends
    suffices hs : (slFrameEnd slUncompressTcp { w.rx with abt } e).scCompress = true ∧
        ((slWatch w e).damaged = true →
          (slFrameEnd slUncompressTcp { w.rx with abt } e).comp.slfToss = true) by
      rw [← habt] at hs
      exact ⟨hs.1, hs.2⟩
    simp only [slWatch, hends, if_true]
    cases ht : w.rx.isTcp with
    | false =>
      obtain ⟨hcomp, hcompress⟩ := @slFrameEnd_plain { w.rx with abt } e ht
      refine ⟨hcompress.trans h.compress, fun hd => ?_⟩
      rw [hcomp]
      split at hd
      · next he => exact herr he
      · exact h.toss hd
    | true =>
      obtain ⟨hcomp, hcompress, -⟩ := @slFrameEnd_tcp { w.rx with abt } e h.compress ht
      refine ⟨hcompress, fun hd => ?_⟩
      rw [hcomp, slAnswer_abt]
      have hno : w.rx.scError = false := by
        simp only [SlRx.isTcp, Bool.and_eq_true, Bool.not_eq_true'] at ht
        exact ht.1.1
      simp only [hno, Bool.false_eq_true, if_false, if_true] at hd
      split at hd
      · next hle => exact toss_of_error ht (hframe ht).1 hle
      · next hgt =>
        -- an implicit frame that is accepted: the flag was not set
        rw [Bool.and_eq_true] at hd
        have := implicit_tossed hd.2 (h.toss hd.1)
        omega

/-- **After a damaged frame** nothing without a connection id is passed to IP, in every run that
meets the condition. -/
theorem vj_toss {w : SlWatch} {e : LineIn}
    (h : Reach (fun w => w.rx.scCompress = true ∧ w.damaged = false) (By slWatch TossCond) w)
    (hd : w.damaged = true) (he : slEnds w.rx e = true) (hi : w.rx.implicit = true) :
    (slinput slUncompressTcp w.rx e).ipintrq = w.rx.ipintrq := by
  have hinv : w.Inv := h.ops (fun w hw => ⟨hw.1, fun hd => by simp [hw.2] at hd⟩)
    fun w e hw hc => hw.step hc
  have ht : w.rx.isTcp = true := by
    simp only [SlRx.implicit, Bool.and_eq_true] at hi
    exact hi.1.1
  obtain ⟨abt, habt⟩ := slinput_end he
  rw [habt]
  refine (@slFrameEnd_tcp { w.rx with abt } e hinv.compress ht).2.2 ?_
  rw [slAnswer_abt, implicit_tossed hi (hinv.toss hd)]

/-- A line with compression enabled, as `slopen` attaches it. -/
def vjLine : SlWatch := { rx := slOpened slCompressInit false true true fun _ _ => 0 }

/-- `FRAME_END` on a line where memory and `ipintrq` have room. -/
def endChar : LineIn := { c := lineChar frameEnd }

def inChars (l : List Byte) : List LineIn := l.map fun c => { c := lineChar c }

/-- A frame with an index that does not exist, and one without an index. -/
def badIndex : List LineIn := inChars [0xc0, 0xff, 0, 0] ++ endChar :: inChars [0x80, 0, 0]

/-- The frame without an index is tossed. -/
theorem vj_toss_index :
    (badIndex.foldl slWatch vjLine).damaged = true ∧
      (slinput slUncompressTcp (badIndex.foldl slWatch vjLine).rx endChar).ipintrq = [] := by
  have hstart : Reach (fun w : SlWatch => w.rx.scCompress = true ∧ w.damaged = false)
      (By slWatch TossCond) vjLine := .start ⟨rfl, rfl⟩
  have hrun := hstart.foldl (l := badIndex) (by decide +kernel)
  have hd : (badIndex.foldl slWatch vjLine).damaged = true := by decide +kernel
  refine ⟨hd, (vj_toss hrun hd (by decide +kernel) (by decide +kernel)).trans ?_⟩
  decide +kernel

/-- A TCP packet for connection 0, a frame in which a character is damaged, and a frame without
an index. -/
def lostFrame : List LineIn :=
  inChars (0x75 :: List.replicate 31 0 ++ 0x50 :: List.replicate 7 0) ++ endChar ::
    { c := 0x01000041#32 } :: endChar :: inChars [0x80, 0, 0]

/-- The frame behind the damaged one is passed to IP, with the header of connection 0. -/
theorem vj_toss_lost :
    let w := lostFrame.foldl slWatch vjLine
    w.damaged = true ∧ slEnds w.rx endChar = true ∧ w.rx.implicit = true ∧
      (slinput slUncompressTcp w.rx endChar).ipintrq ≠ w.rx.ipintrq := by
  decide +kernel

end Anp
