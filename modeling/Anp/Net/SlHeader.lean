import Anp.Net.Slcompress
import Mathlib.Algebra.Order.BigOperators.Group.List
import Mathlib.Algebra.Order.Group.Nat

/-!
# SlHeader — what the receiver makes of a compressed header

The sender describes a header `ip` by its differences from the last header of the connection,
`cs`; the receiver applies them to its own copy `h` of the last header. Each field it writes is
read off as a copy of that field of the packet (`Octets.copy`), whether it was sent or not.
-/

namespace Anp

open Octets OnesSum List

variable {u : Bool} {c r : Byte × List Byte} {mem q : Mem} {cp : Nat}

/-! ## Numbers on the line -/

theorem byte1_byte0 (n : BitVec 32) :
    (byte1 n).toBitVec ++ (byte0 n).toBitVec = n.setWidth 16 := by
  have h : n.extractLsb' 8 8 ++ n.extractLsb' 0 8 = n.extractLsb' 0 (8 + 8) :=
    BitVec.extractLsb'_append_extractLsb'_eq_extractLsb' rfl
  refine h.trans (BitVec.eq_of_toNat_eq ?_)
  rw [BitVec.extractLsb'_toNat, BitVec.toNat_setWidth, Nat.shiftRight_zero]

variable {n : BitVec 32}

theorem byte0_of_lt (h : (n.setWidth 16).toNat < 256) :
    (byte0 n).toBitVec.setWidth 16 = n.setWidth 16 := by
  apply BitVec.eq_of_toNat_eq
  simp only [byte0, BitVec.toNat_setWidth, BitVec.extractLsb'_toNat] at h ⊢
  omega

theorem byte0_ne_zero (h : (n.setWidth 16).toNat < 256) (h0 : n.setWidth 16 ≠ 0) : byte0 n ≠ 0 := by
  intro hz
  apply h0
  rw [← byte0_of_lt h, hz]
  rfl

/-- The number that stands at `cp`, and the place behind it. -/
def decode (mem : Mem) (cp : Nat) : BitVec 16 × Nat :=
  if mem cp = 0 then (rd16 mem (cp + 1), cp + 3) else ((mem cp).toBitVec.setWidth 16, cp + 1)

theorem decode_long (h : Holds mem cp [0, byte1 n, byte0 n]) :
    decode mem cp = (n.setWidth 16, cp + 3) := by
  obtain ⟨h0, h1, h2, -⟩ := h
  rw [decode, if_pos h0, rd16, h1, h2, byte1_byte0]

theorem decode_short (hlt : (n.setWidth 16).toNat < 256) (hne : n.setWidth 16 ≠ 0)
    (h : Holds mem cp [byte0 n]) :
    decode mem cp = (n.setWidth 16, cp + 1) := by
  obtain ⟨h0, -⟩ := h
  rw [decode, if_neg (h0 ▸ byte0_ne_zero hlt hne), h0, byte0_of_lt hlt]

theorem decode_encodez (h : Holds mem cp (encodez n)) :
    decode mem cp = (n.setWidth 16, cp + (encodez n).length) := by
  rw [encodez] at h ⊢
  split
  · next hl =>
    rw [if_pos hl] at h
    exact decode_long h
  · next hs =>
    rw [if_neg hs] at h
    refine decode_short (by omega) (fun h0 => hs (.inr ?_)) h
    rw [h0]
    rfl

theorem decode_encode (h0 : n.setWidth 16 ≠ 0) (h : Holds mem cp (encode n)) :
    decode mem cp = (n.setWidth 16, cp + (encode n).length) := by
  rw [encode] at h ⊢
  split
  · next hl =>
    rw [if_pos hl] at h
    exact decode_long h
  · next hs =>
    rw [if_neg hs] at h
    exact decode_short (Nat.lt_of_not_le hs) h0 h

theorem decodel_eq (h : Mem) (o : Nat) (mem : Mem) (cp : Nat) :
    decodel h o mem cp =
      (wr32 h o (rd32 h o + (decode mem cp).1.setWidth 32), (decode mem cp).2) := by
  rw [decodel, decode]
  split
  · rfl
  · have hw : ((mem cp).toBitVec.setWidth 16).setWidth 32 = (mem cp).toBitVec.setWidth 32 :=
      BitVec.setWidth_setWidth (by decide)
    rw [hw]

theorem decodes_eq (h : Mem) (o : Nat) (mem : Mem) (cp : Nat) :
    decodes h o mem cp = (wr16 h o (rd16 h o + (decode mem cp).1), (decode mem cp).2) := by
  rw [decodes, decode]
  split <;> rfl

theorem decodeu_eq (h : Mem) (o : Nat) (mem : Mem) (cp : Nat) :
    decodeu h o mem cp = (wr16 h o (decode mem cp).1, (decode mem cp).2) := by
  rw [decodeu, decode]
  split <;> rfl

/-! ## One field

`q` is the header that is to come out, `cs` the last header of the connection, and `h` the
receiver's header as far as it has come. A field that is not sent is the same in both. -/

section

variable {q cs : Mem} {th o : Nat}

def bit (b : Bool) (v : Byte) : Byte := if b then v else 0

theorem setWidth_of_le {d : BitVec 32} (h : ¬0xffff#32 < d) : (d.setWidth 16).setWidth 32 = d := by
  apply BitVec.eq_of_toNat_eq
  rw [BitVec.lt_def, BitVec.toNat_ofNat] at h
  simp only [BitVec.toNat_setWidth]
  omega

/-- A field sent as a difference, as it is encoded and as it is decoded. -/
theorem delta_takes {v : Byte} (hc : slDelta v (rd32 q o - rd32 cs o) = some c) :
    ∃ b, c.1 = bit b v ∧ (b = true ↔ rd32 q o - rd32 cs o ≠ 0) ∧
      ∀ h mem cp, rd32 h o = rd32 cs o → Holds mem cp c.2 →
        (if b then decodel h o mem cp else (h, cp)) = (copy h o q o 4, cp + c.2.length) := by
  rw [slDelta] at hc
  by_cases h0 : rd32 q o - rd32 cs o = 0
  · rw [if_neg (not_not.mpr h0)] at hc
    cases hc
    refine ⟨false, rfl, iff_of_false Bool.false_ne_true (not_not.mpr h0), fun h mem cp hh _ => ?_⟩
    have hsame : rd32 h o = rd32 q o := by
      rw [hh]
      exact (sub_eq_zero.mp h0).symm
    rw [copy_of_same (same_of_rd32 hsame)]
    rfl
  · rw [if_pos h0] at hc
    split at hc
    · cases hc
    · next hle =>
      cases hc
      refine ⟨true, rfl, iff_of_true rfl h0, fun h mem cp hh hm => ?_⟩
      have hne : (rd32 q o - rd32 cs o).setWidth 16 ≠ 0 := by
        intro hz
        have := setWidth_of_le hle
        rw [hz] at this
        exact h0 this.symm
      rw [if_pos rfl, decodel_eq, decode_encode hne hm, setWidth_of_le hle, hh,
        add_sub_cancel, wr32_rd32]

/-- The window likewise. -/
theorem window_takes (q cs : Mem) (th : Nat) :
    ∃ b, (slWindow q cs th).1 = bit b newW ∧ (b = true ↔ rd16 q (th + 14) ≠ rd16 cs (th + 14)) ∧
      ∀ h mem cp, rd16 h (th + 14) = rd16 cs (th + 14) → Holds mem cp (slWindow q cs th).2 →
        (if b then decodes h (th + 14) mem cp else (h, cp)) =
          (copy h (th + 14) q (th + 14) 2, cp + (slWindow q cs th).2.length) := by
  rw [slWindow]
  by_cases h0 : rd16 q (th + 14) - rd16 cs (th + 14) = 0
  · have heq := sub_eq_zero.mp h0
    rw [if_neg (not_not.mpr h0)]
    refine ⟨false, rfl, iff_of_false Bool.false_ne_true (not_not.mpr heq), fun h mem cp hh _ => ?_⟩
    rw [copy_of_same (same_of_rd16 (hh.trans heq.symm))]
    rfl
  · rw [if_pos h0]
    refine ⟨true, rfl, iff_of_true rfl fun heq => h0 (sub_eq_zero.mpr heq), fun h mem cp hh hm => ?_⟩
    have hw (d : BitVec 16) : (d.setWidth 32).setWidth 16 = d := by
      rw [BitVec.setWidth_setWidth_of_le _ (by decide), BitVec.setWidth_eq]
    rw [if_pos rfl, decodes_eq, decode_encode (by rw [hw]; exact h0) hm, hw, hh,
      add_sub_cancel, wr16_rd16]

/-- The urgent pointer likewise. -/
theorem urgent_takes (hc : slUrgent q cs th = some c) :
    ∃ b, c.1 = bit b newU ∧ (b = true ↔ q (th + 13) &&& thUrg ≠ 0) ∧
      (b = false → rd16 q (th + 18) = rd16 cs (th + 18)) ∧
      ∀ h mem cp, rd16 h (th + 18) = rd16 cs (th + 18) → Holds mem cp c.2 →
        (if b then decodeu h (th + 18) mem cp else (h, cp)) =
          (copy h (th + 18) q (th + 18) 2, cp + c.2.length) := by
  rw [slUrgent] at hc
  by_cases hu : q (th + 13) &&& thUrg = 0
  · rw [if_neg (not_not.mpr hu)] at hc
    split at hc
    · cases hc
    · next heq =>
      rw [not_not] at heq
      cases hc
      refine ⟨false, rfl, iff_of_false Bool.false_ne_true (not_not.mpr hu), fun _ => heq, fun h mem cp hh _ => ?_⟩
      rw [copy_of_same (same_of_rd16 (hh.trans heq.symm))]
      rfl
  · rw [if_pos hu] at hc
    cases hc
    refine ⟨true, rfl, iff_of_true rfl hu, nofun, fun h mem cp _ hm => ?_⟩
    have hw : ((rd16 q (th + 18)).setWidth 32).setWidth 16 = rd16 q (th + 18) := by
      rw [BitVec.setWidth_setWidth_of_le _ (by decide), BitVec.setWidth_eq]
    rw [if_pos rfl, decodeu_eq, decode_encodez hm, hw, wr16_rd16]

theorem setWidth_sub_setWidth (a b : BitVec 16) :
    (a.setWidth 32 - b.setWidth 32).setWidth 16 = a - b := by
  apply BitVec.eq_of_toNat_eq
  simp only [BitVec.toNat_setWidth, BitVec.toNat_sub]
  omega

/-- The identification and the `TH_PUSH` bit likewise. -/
theorem idPush_takes (ip cs : Mem) (th : Nat) (c : Byte × List Byte) :
    ∃ b p e, slIdPush ip cs th c = (c.1 ||| bit b newI ||| bit p tcpPushBit, c.2 ++ e) ∧
      (p = true ↔ ip (th + 13) &&& thPush ≠ 0) ∧
      ∀ h q mem cp, rd16 h 4 = rd16 cs 4 → rd16 q 4 = rd16 ip 4 → Holds mem cp e →
        (if b then decodes h 4 mem cp else (wr16 h 4 (rd16 h 4 + 1), cp)) =
          (copy h 4 q 4 2, cp + e.length) := by
  have hpush : ∃ p, (p = true ↔ ip (th + 13) &&& thPush ≠ 0) ∧ ∀ d : Byte × List Byte,
      (if ip (th + 13) &&& thPush ≠ 0 then (d.1 ||| tcpPushBit, d.2) else d) =
        (d.1 ||| bit p tcpPushBit, d.2) := by
    by_cases hp : ip (th + 13) &&& thPush ≠ 0
    · exact ⟨true, iff_of_true rfl hp, fun d => if_pos hp⟩
    · refine ⟨false, iff_of_false Bool.false_ne_true hp, fun d => ?_⟩
      rw [if_neg hp, bit, if_neg Bool.false_ne_true, UInt8.or_zero]
  obtain ⟨p, hp, heq⟩ := hpush
  rw [slIdPush, heq]
  by_cases h1 : (rd16 ip 4).setWidth 32 - (rd16 cs 4).setWidth 32 = 1
  · rw [if_neg (not_not.mpr h1)]
    refine ⟨false, p, [], by simp [bit], hp, fun h q mem cp hh hq _ => ?_⟩
    have hone := setWidth_sub_setWidth (rd16 ip 4) (rd16 cs 4)
    rw [h1] at hone
    have hid : rd16 h 4 + 1 = rd16 q 4 := by
      rw [hh, hq]
      exact eq_add_of_sub_eq' hone.symm ▸ rfl
    rw [if_neg Bool.false_ne_true, hid, wr16_rd16]
    rfl
  · rw [if_pos h1]
    refine ⟨true, p, _, rfl, hp, fun h q mem cp hh hq hm => ?_⟩
    rw [if_pos rfl, decodes_eq, decode_encodez hm, setWidth_sub_setWidth, hh, add_sub_cancel,
      ← hq, wr16_rd16]

end

/-! ## The bits of a compressed packet -/

/-- The first octet of a compressed packet, as it is on the line. -/
def frameOctet (u w a s i p c : Bool) : Byte :=
  bit u newU ||| bit w newW ||| bit a newA ||| bit s newS ||| bit i newI ||| bit p tcpPushBit |||
    bit c newC ||| typeCompressedTcp

theorem frameOctet_bits (u w a s i p c : Bool) :
    (frameOctet u w a s i p c &&& newU ≠ 0 ↔ u = true) ∧
      (frameOctet u w a s i p c &&& newW ≠ 0 ↔ w = true) ∧
      (frameOctet u w a s i p c &&& newA ≠ 0 ↔ a = true) ∧
      (frameOctet u w a s i p c &&& newS ≠ 0 ↔ s = true) ∧
      (frameOctet u w a s i p c &&& newI ≠ 0 ↔ i = true) ∧
      (frameOctet u w a s i p c &&& tcpPushBit ≠ 0 ↔ p = true) ∧
      (frameOctet u w a s i p c &&& newC ≠ 0 ↔ c = true) := by
  revert u w a s i p c
  decide +kernel

theorem frameOctet_mask (u w a s i p c : Bool) :
    frameOctet u w a s i p c &&& specialsMask =
      bit u newU ||| bit w newW ||| bit a newA ||| bit s newS := by
  revert u w a s i p c
  decide +kernel

/-- Of the flags that may be set, `ACK` is, and `SYN`, `FIN`, `RST` are not. -/
structure AckFlags (f : Byte) : Prop where
  six : f.toNat < 64
  ack : f &&& (thSyn ||| thFin ||| thRst ||| thAck) = thAck

theorem AckFlags.cases {f : Byte} (h : AckFlags f) :
    f = 0x10 ∨ f = 0x18 ∨ f = 0x30 ∨ f = 0x38 := by
  obtain ⟨n, rfl⟩ : ∃ n : Fin 64, UInt8.ofNat n.val = f := ⟨⟨f.toNat, h.six⟩, UInt8.ofNat_toNat⟩
  have hack := h.ack
  clear h
  revert n
  decide +kernel

/-- The flags of the last packet with `PSH` as in this one. -/
def pushed (old new : Byte) : Byte :=
  if new &&& thPush ≠ 0 then old ||| thPush else old &&& ~~~thPush

theorem AckFlags.rebuilt {old new : Byte} (ho : AckFlags old) (hn : AckFlags new) :
    (if new &&& thUrg ≠ 0 then pushed old new ||| thUrg else pushed old new &&& ~~~thUrg) = new := by
  rcases ho.cases with rfl | rfl | rfl | rfl <;> rcases hn.cases with rfl | rfl | rfl | rfl <;>
    decide

theorem AckFlags.pushed_eq_iff {old new : Byte} (ho : AckFlags old) (hn : AckFlags new)
    (hu : new &&& thUrg = 0) : pushed old new = new ↔ old &&& thUrg = 0 := by
  revert hu
  rcases ho.cases with rfl | rfl | rfl | rfl <;> rcases hn.cases with rfl | rfl | rfl | rfl <;>
    decide

/-! ## The header that comes out -/

/-- The fields that may change, taken over from `q` in the order the receiver writes them. -/
def takeOver (q : Mem) (th : Nat) (h : Mem) : Mem :=
  let h := copy h (th + 16) q (th + 16) 2
  let h := copy h (th + 13) q (th + 13) 1
  let h := copy h (th + 18) q (th + 18) 2
  let h := copy h (th + 14) q (th + 14) 2
  let h := copy h (th + 8) q (th + 8) 4
  let h := copy h (th + 4) q (th + 4) 4
  copy h 4 q 4 2

/-- The receiver's header `h` is that of the last packet, `cs`, in the fields it is read in. -/
structure Follows (h cs : Mem) (th : Nat) : Prop where
  len : rd16 h 2 = rd16 cs 2
  id : rd16 h 4 = rd16 cs 4
  tcp : Same h cs th (th + 20)

section

variable {h cs ip mem : Mem} {th hlen cp : Nat}

theorem Follows.rd16 (hf : Follows h cs th) (o : Nat) (ho : th ≤ o) (ho' : o + 2 ≤ th + 20) :
    rd16 h o = rd16 cs o := hf.tcp.rd16 ho ho'

theorem Follows.rd32 (hf : Follows h cs th) (o : Nat) (ho : th ≤ o) (ho' : o + 4 ≤ th + 20) :
    rd32 h o = rd32 cs o := hf.tcp.rd32 ho ho'

theorem setFlag_setFlag (h : Mem) (th : Nat) (f g : Byte) (a b : Bool) :
    setFlag (setFlag h th f a) th g b =
      wr8 h (th + 13) (if b then (if a then h (th + 13) ||| f else h (th + 13) &&& ~~~f) ||| g
        else (if a then h (th + 13) ||| f else h (th + 13) &&& ~~~f) &&& ~~~g) := by
  rw [setFlag, setFlag, wr8_wr8]
  simp only [wr8, if_pos]

theorem setFlag_rebuilt (hold : AckFlags (h (th + 13))) (hnew : AckFlags (ip (th + 13))) {p : Bool}
    (hp : p = true ↔ ip (th + 13) &&& thPush ≠ 0) (hu : u = true ↔ ip (th + 13) &&& thUrg ≠ 0) :
    setFlag (setFlag h th thPush p) th thUrg u = copy h (th + 13) ip (th + 13) 1 := by
  have hr := hold.rebuilt hnew
  rw [pushed] at hr
  simp only [← hp, ← hu] at hr
  rw [setFlag_setFlag, hr, wr8_self]

theorem slFields_plain (hth : 20 ≤ th) (hf : Follows h cs th) (hold : AckFlags (cs (th + 13)))
    (hnew : AckFlags (ip (th + 13))) {u a s : Byte × List Byte} (hu : slUrgent ip cs th = some u)
    (ha : slDelta newA (rd32 ip (th + 8) - rd32 cs (th + 8)) = some a)
    (hs : slDelta newS (rd32 ip (th + 4) - rd32 cs (th + 4)) = some s)
    (hI : u.1 ||| (slWindow ip cs th).1 ||| a.1 ||| s.1 ≠ specialI)
    (hD : u.1 ||| (slWindow ip cs th).1 ||| a.1 ||| s.1 ≠ specialD) (c : Bool)
    (hr : r = slIdPush ip cs th (u.1 ||| (slWindow ip cs th).1 ||| a.1 ||| s.1,
      u.2 ++ (slWindow ip cs th).2 ++ a.2 ++ s.2))
    (hm : Holds mem cp ([ip (th + 16), ip (th + 17)] ++ r.2)) :
    slFields h hlen th (r.1 ||| bit c newC ||| typeCompressedTcp) mem cp =
      (takeOver ip th h, cp + 2 + r.2.length) := by
  obtain ⟨bu, hbu, hurg, -, hutake⟩ := urgent_takes hu
  obtain ⟨bw, hbw, -, hwtake⟩ := window_takes ip cs th
  obtain ⟨ba, hba, -, hatake⟩ := delta_takes ha
  obtain ⟨bs, hbs, -, hstake⟩ := delta_takes hs
  obtain ⟨bi, bp, e, heq, hpush, hitake⟩ := idPush_takes ip cs th
    (u.1 ||| (slWindow ip cs th).1 ||| a.1 ||| s.1, u.2 ++ (slWindow ip cs th).2 ++ a.2 ++ s.2)
  rw [heq] at hr
  subst hr
  -- the parts of the packet, one behind the other
  simp only [append_assoc, holds_append] at hm
  obtain ⟨⟨hsum0, hsum1, -⟩, hmu, hmw, hma, hms, hmi⟩ := hm
  change Holds mem (cp + 2) u.2 at hmu
  change Holds mem (cp + 2 + u.2.length) _ at hmw
  change Holds mem (cp + 2 + u.2.length + _) a.2 at hma
  change Holds mem (cp + 2 + u.2.length + _ + a.2.length) s.2 at hms
  change Holds mem (cp + 2 + u.2.length + _ + a.2.length + s.2.length) e at hmi
  rw [hbu, hbw, hba, hbs] at hI hD ⊢
  have hoct : bit bu newU ||| bit bw newW ||| bit ba newA ||| bit bs newS ||| bit bi newI |||
      bit bp tcpPushBit ||| bit c newC ||| typeCompressedTcp = frameOctet bu bw ba bs bi bp c := rfl
  have hsum : rd16 mem cp = rd16 ip (th + 16) := by rw [rd16, hsum0, hsum1, rd16]
  have hmask := frameOctet_mask bu bw ba bs bi bp c
  obtain ⟨hU, hW, hA, hS, hN, hP, -⟩ := frameOctet_bits bu bw ba bs bi bp c
  rw [hoct, slFields, hmask, if_neg hI, if_neg hD, slChanged, hsum, wr16_rd16]
  simp only [hU, hW, hA, hS, hN, hP, Bool.decide_eq_true]
  -- the flags are written twice
  have hflag (X : Mem) : (if bu = true then decodeu (setFlag X th thUrg true) (th + 18) mem (cp + 2)
      else (setFlag X th thUrg false, cp + 2)) =
        if bu = true then decodeu (setFlag X th thUrg bu) (th + 18) mem (cp + 2)
        else (setFlag X th thUrg bu, cp + 2) := by
    cases bu <;> rfl
  have hold' : AckFlags (copy h (th + 16) ip (th + 16) 2 (th + 13)) := by
    rw [copy_off _ _ _ _ _ (by omega), hf.tcp (th + 13) (by omega) (by omega)]
    exact hold
  rw [hflag, setFlag_rebuilt hold' hnew hpush hurg]
  rw [hutake _ _ _ ?_ hmu, hwtake _ _ _ ?_ hmw, hatake _ _ _ ?_ hma, hstake _ _ _ ?_ hms,
    hitake _ ip _ _ ?_ rfl hmi, takeOver]
  · simp only [length_append, Nat.add_assoc]
  · simp (disch := omega) only [rd16_copy_off, hf.id]
  · simp (disch := omega) only [rd32_copy_off, hf.rd32]
  · simp (disch := omega) only [rd32_copy_off, hf.rd32]
  · simp (disch := omega) only [rd16_copy_off, hf.rd16]
  · simp (disch := omega) only [rd16_copy_off, hf.rd16]

/-- The packet with its flags as the receiver makes them in the special encodings. -/
def stalePacket (ip cs : Mem) (th : Nat) : Mem :=
  wr8 ip (th + 13) (pushed (cs (th + 13)) (ip (th + 13)))

/-- `SPECIAL_I` or `SPECIAL_D` describes the change. -/
structure SpecialCase (ip cs : Mem) (th hlen : Nat) (v : Byte) : Prop where
  urp : rd16 ip (th + 18) = rd16 cs (th + 18)
  win : rd16 ip (th + 14) = rd16 cs (th + 14)
  seq : rd32 ip (th + 4) = rd32 cs (th + 4) + slPrevLen cs hlen
  ack : (v = specialI ∧ rd32 ip (th + 8) = rd32 cs (th + 8) + slPrevLen cs hlen) ∨
    (v = specialD ∧ rd32 ip (th + 8) = rd32 cs (th + 8))

theorem slFields_special (hth : 20 ≤ th) (hf : Follows h cs th) {v : Byte}
    (hv : SpecialCase ip cs th hlen v) (c : Bool) (hr : r = slIdPush ip cs th (v, []))
    (hm : Holds mem cp ([ip (th + 16), ip (th + 17)] ++ r.2)) :
    slFields h hlen th (r.1 ||| bit c newC ||| typeCompressedTcp) mem cp =
      (takeOver (stalePacket ip cs th) th h, cp + 2 + r.2.length) := by
  obtain ⟨bi, bp, e, heq, hpush, hitake⟩ := idPush_takes ip cs th (v, [])
  rw [heq] at hr
  subst hr
  rw [holds_append] at hm
  obtain ⟨⟨hsum0, hsum1, -⟩, hmi⟩ := hm
  change Holds mem (cp + 2) e at hmi
  -- `q` differs from the packet in the flags only
  have hq : ∀ lo hi, hi ≤ th + 13 ∨ th + 13 < lo → Same (stalePacket ip cs th) ip lo hi :=
    fun lo hi ho => same_wr8_off ip (th + 13) _ ho
  have hqf : stalePacket ip cs th (th + 13) = pushed (cs (th + 13)) (ip (th + 13)) := if_pos rfl
  generalize stalePacket ip cs th = q at hq hqf
  have hq2 (o : Nat) (ho : o + 2 ≤ th + 13 ∨ th + 13 < o) : rd16 ip o = rd16 q o :=
    ((hq o (o + 2) ho).rd16 le_rfl le_rfl).symm
  have hq4 (o : Nat) (ho : o + 4 ≤ th + 13 ∨ th + 13 < o) : rd32 ip o = rd32 q o :=
    ((hq o (o + 4) ho).rd32 le_rfl le_rfl).symm
  have hsum : rd16 mem cp = rd16 q (th + 16) := by
    rw [rd16, hsum0, hsum1, ← hq2 (th + 16) (by omega), rd16]
  have hflag (X : Mem) (hX : X (th + 13) = cs (th + 13)) :
      setFlag X th thPush bp = copy X (th + 13) q (th + 13) 1 := by
    rw [← wr8_self, hqf, setFlag, hX, pushed]
    simp only [← hpush]
  rw [takeOver]
  generalize hX : copy (copy h (th + 16) q (th + 16) 2) (th + 13) q (th + 13) 1 = X
  have hX2 (o : Nat) (ho : th ≤ o) (ho' : o + 2 ≤ th + 13 ∨ o = th + 14 ∨ o = th + 18) :
      rd16 X o = rd16 cs o := by
    simp (disch := omega) only [← hX, rd16_copy_off, hf.rd16]
  have hX4 (o : Nat) (ho : th ≤ o) (ho' : o + 4 ≤ th + 12) : rd32 X o = rd32 cs o := by
    simp (disch := omega) only [← hX, rd32_copy_off, hf.rd32]
  have hprev : slPrevLen X hlen = slPrevLen cs hlen := by
    simp (disch := omega) only [slPrevLen, ← hX, rd16_copy_off, hf.len]
  have hXid : rd16 X 4 = rd16 cs 4 := by simp (disch := omega) only [← hX, rd16_copy_off, hf.id]
  have hkeep18 : copy X (th + 18) q (th + 18) 2 = X := by
    refine copy_of_same (same_of_rd16 ?_)
    rw [hX2 _ (by omega) (by omega), ← hv.urp, hq2 _ (by omega)]
  have hkeep14 : copy X (th + 14) q (th + 14) 2 = X := by
    refine copy_of_same (same_of_rd16 ?_)
    rw [hX2 _ (by omega) (by omega), ← hv.win, hq2 _ (by omega)]
  have hseq : rd32 X (th + 4) + slPrevLen X hlen = rd32 q (th + 4) := by
    rw [hX4 _ (by omega) (by omega), hprev, ← hv.seq, hq4 _ (by omega)]
  have hdone : (if v = specialI then slSpecialI X hlen th else slSpecialD X hlen th) =
      copy (copy X (th + 8) q (th + 8) 4) (th + 4) q (th + 4) 4 := by
    rcases hv.ack with ⟨rfl, hack⟩ | ⟨rfl, hack⟩
    · have hack' : rd32 X (th + 8) + slPrevLen X hlen = rd32 q (th + 8) := by
        rw [hX4 _ (by omega) (by omega), hprev, ← hack, hq4 _ (by omega)]
      rw [if_pos rfl, slSpecialI, hack', wr32_rd32, rd32_copy_off _ _ _ _ _ (by omega), hseq,
        wr32_rd32]
    · have hkeep : copy X (th + 8) q (th + 8) 4 = X := by
        refine copy_of_same (same_of_rd32 ?_)
        rw [hX4 _ (by omega) (by omega), ← hack, hq4 _ (by omega)]
      rw [if_neg (by decide), slSpecialD, hseq, wr32_rd32, hkeep]
  rw [hkeep18, hkeep14, ← hdone]
  have hbits : ∃ ba, v = bit true newU ||| bit true newW ||| bit ba newA ||| bit true newS := by
    rcases hv.ack with ⟨rfl, -⟩ | ⟨rfl, -⟩
    · exact ⟨false, by decide⟩
    · exact ⟨true, by decide⟩
  obtain ⟨ba, hba⟩ := hbits
  have hoct : v ||| bit bi newI ||| bit bp tcpPushBit ||| bit c newC ||| typeCompressedTcp =
      frameOctet true true ba true bi bp c := by
    rw [hba]
    rfl
  have hmask := frameOctet_mask true true ba true bi bp c
  rw [← hba] at hmask
  obtain ⟨-, -, -, -, hN, hP, -⟩ := frameOctet_bits true true ba true bi bp c
  have hflags := hflag (copy h (th + 16) q (th + 16) 2) (by
    rw [copy_off _ _ _ _ _ (by omega), hf.tcp (th + 13) (by omega) (by omega)])
  rw [hoct, slFields, hmask, hsum, wr16_rd16]
  simp only [hN, hP, Bool.decide_eq_true]
  rw [hflags, hX]
  have hcase : (if v = specialI then (slSpecialI X hlen th, cp + 2)
      else if v = specialD then (slSpecialD X hlen th, cp + 2)
      else slChanged X th (frameOctet true true ba true bi bp c) mem (cp + 2)) =
        (if v = specialI then slSpecialI X hlen th else slSpecialD X hlen th, cp + 2) := by
    rcases hv.ack with ⟨rfl, -⟩ | ⟨rfl, -⟩
    · rw [if_pos rfl, if_pos rfl]
    · rw [if_neg (by decide), if_pos rfl, if_neg (by decide)]
  rw [hcase, hitake _ q _ _ ?_ (hq2 4 (by omega)).symm hmi]
  · simp
  · simp (disch := omega) only [hdone, rd16_copy_off, hXid]

theorem changes_eq_newS_newA {w a s : Bool}
    (h : bit u newU ||| bit w newW ||| bit a newA ||| bit s newS = newS ||| newA) :
    u = false ∧ w = false ∧ a = true ∧ s = true := by
  revert u w a s
  decide

theorem changes_eq_newS {w a s : Bool}
    (h : bit u newU ||| bit w newW ||| bit a newA ||| bit s newS = newS) :
    u = false ∧ w = false ∧ a = false ∧ s = true := by
  revert u w a s
  decide

theorem slDeltas_cases (hc : slDeltas ip cs th hlen = some c) :
    (∃ u a s, slUrgent ip cs th = some u ∧
        slDelta newA (rd32 ip (th + 8) - rd32 cs (th + 8)) = some a ∧
        slDelta newS (rd32 ip (th + 4) - rd32 cs (th + 4)) = some s ∧
        c = (u.1 ||| (slWindow ip cs th).1 ||| a.1 ||| s.1,
          u.2 ++ (slWindow ip cs th).2 ++ a.2 ++ s.2) ∧ c.1 ≠ specialI ∧ c.1 ≠ specialD) ∨
      SpecialCase ip cs th hlen c.1 ∧ c.2 = [] ∧ ip (th + 13) &&& thUrg = 0 ∧
        slPrevLen cs hlen ≠ 0 := by
  simp only [slDeltas, Option.bind_eq_bind, Option.bind_eq_some_iff] at hc
  obtain ⟨u, hu, a, ha, s, hs, hc⟩ := hc
  obtain ⟨bu, hbu, hurg, hurp, -⟩ := urgent_takes hu
  obtain ⟨bw, hbw, hwin, -⟩ := window_takes ip cs th
  obtain ⟨ba, hba, hack, -⟩ := delta_takes ha
  obtain ⟨bs, hbs, hseq, -⟩ := delta_takes hs
  have hnot {P : Prop} {b : Bool} (hb : b = true ↔ P) (h0 : b = false) : ¬P :=
    fun hP => absurd (hb.mpr hP) (by rw [h0]; exact Bool.false_ne_true)
  rw [slSpecial] at hc
  split_ifs at hc with h0 _ h1 h2 h3 h4 h5 <;> cases hc
  · exact .inl ⟨u, a, s, hu, ha, hs, rfl, h0.trans_ne (by decide), h0.trans_ne (by decide)⟩
  · -- `SPECIAL_I`
    rw [hbu, hbw, hba, hbs] at h2
    obtain ⟨hbu', hbw', hba', hbs'⟩ := changes_eq_newS_newA h2
    obtain ⟨hSA, hprev⟩ := h3
    refine .inr ⟨⟨hurp hbu', not_not.mp (hnot hwin hbw'), ?_, .inl ⟨rfl, ?_⟩⟩, rfl,
      not_not.mp (hnot hurg hbu'), ?_⟩
    · exact eq_add_of_sub_eq' hprev
    · exact eq_add_of_sub_eq' (hSA.symm.trans hprev)
    · exact fun hz => hseq.mp hbs' (hprev.trans hz)
  · exact .inl ⟨u, a, s, hu, ha, hs, rfl, not_or.mp h1⟩
  · rw [hbu, hbw, hba, hbs] at h4
    obtain ⟨hbu', hbw', hba', hbs'⟩ := changes_eq_newS h4
    refine .inr ⟨⟨hurp hbu', not_not.mp (hnot hwin hbw'), ?_, .inr ⟨rfl, ?_⟩⟩, rfl,
      not_not.mp (hnot hurg hbu'), ?_⟩
    · exact eq_add_of_sub_eq' h5
    · exact sub_eq_zero.mp (not_not.mp (hnot hack hba'))
    · exact fun hz => hseq.mp hbs' (h5.trans hz)
  · exact .inl ⟨u, a, s, hu, ha, hs, rfl, not_or.mp h1⟩
  · exact .inl ⟨u, a, s, hu, ha, hs, rfl, not_or.mp h1⟩

/-- `URG` was set in the last packet of the connection and is not in this one, which has the same
urgent pointer and window and carries on where that ended, with the same ack or one moved as far as
the sequence number. -/
@[mk_iff]
structure StaleUrg (ip cs : Mem) (th hlen : Nat) : Prop where
  old : cs (th + 13) &&& thUrg ≠ 0
  new : ip (th + 13) &&& thUrg = 0
  urp : rd16 ip (th + 18) = rd16 cs (th + 18)
  win : rd16 ip (th + 14) = rd16 cs (th + 14)
  data : slPrevLen cs hlen ≠ 0
  seq : rd32 ip (th + 4) = rd32 cs (th + 4) + slPrevLen cs hlen
  ack : rd32 ip (th + 8) = rd32 cs (th + 8) ∨
    rd32 ip (th + 8) = rd32 cs (th + 8) + slPrevLen cs hlen

theorem slPrevLen_le {cs : Mem} {hlen : Nat} (h : hlen ≤ (rd16 cs 2).toNat) :
    ¬0xffff#32 < slPrevLen cs hlen := by
  rw [slPrevLen, BitVec.lt_def, BitVec.toNat_sub, BitVec.toNat_setWidth, BitVec.toNat_ofNat,
    BitVec.toNat_ofNat]
  omega

theorem StaleUrg.special (h : StaleUrg ip cs th hlen) (hle : hlen ≤ (rd16 cs 2).toNat) :
    ∃ c, slDeltas ip cs th hlen = some c ∧ (c.1 = specialI ∨ c.1 = specialD) := by
  have hprev := slPrevLen_le hle
  have hu : slUrgent ip cs th = some (0, []) := by
    rw [slUrgent, if_neg (not_not.mpr h.new), if_neg (not_not.mpr h.urp)]
  have hw : slWindow ip cs th = (0, []) := by
    rw [slWindow, if_neg (not_not.mpr (sub_eq_zero.mpr h.win))]
  have hdS : rd32 ip (th + 4) - rd32 cs (th + 4) = slPrevLen cs hlen := by
    rw [h.seq, add_sub_cancel_left]
  have hd (v : Byte) : slDelta v (slPrevLen cs hlen) = some (v, encode (slPrevLen cs hlen)) := by
    rw [slDelta, if_pos h.data, if_neg hprev]
  rcases h.ack with hack | hack
  · have hdA : rd32 ip (th + 8) - rd32 cs (th + 8) = 0 := sub_eq_zero.mpr hack
    have ha : slDelta newA 0 = some (0, []) := rfl
    refine ⟨(specialD, []), ?_, .inr rfl⟩
    simp only [slDeltas, hu, hw, hdA, ha, hdS, hd, Option.bind_eq_bind, Option.bind_some]
    exact if_pos rfl
  · have hdA : rd32 ip (th + 8) - rd32 cs (th + 8) = slPrevLen cs hlen := by
      rw [hack, add_sub_cancel_left]
    refine ⟨(specialI, []), ?_, .inl rfl⟩
    simp only [slDeltas, hu, hw, hdA, hdS, hd, Option.bind_eq_bind, Option.bind_some]
    exact if_pos ⟨rfl, rfl⟩

/-- **The receiver's header.** It is that of the packet, with the flags `f`. -/
theorem slFields_spec (hth : 20 ≤ th) (hf : Follows h cs th) (hold : AckFlags (cs (th + 13)))
    (hnew : AckFlags (ip (th + 13))) (hle : hlen ≤ (rd16 cs 2).toNat)
    (hc : slDeltas ip cs th hlen = some c) (hr : r = slIdPush ip cs th c) (cid : Bool)
    (hm : Holds mem cp ([ip (th + 16), ip (th + 17)] ++ r.2)) :
    ∃ f, slFields h hlen th (r.1 ||| bit cid newC ||| typeCompressedTcp) mem cp =
        (takeOver (wr8 ip (th + 13) f) th h, cp + 2 + r.2.length) ∧
      (f = ip (th + 13) ↔ ¬StaleUrg ip cs th hlen) := by
  rcases slDeltas_cases hc with ⟨u, a, s, hu, ha, hs, rfl, hI, hD⟩ | ⟨hv, hnil, hurg, hprev⟩
  · refine ⟨ip (th + 13), ?_, iff_of_true rfl fun hstale => ?_⟩
    · have hself : wr8 ip (th + 13) (ip (th + 13)) = ip := by
        rw [wr8_self, copy_of_same fun _ _ _ => rfl]
      rw [hself]
      exact slFields_plain hth hf hold hnew hu ha hs hI hD cid hr hm
    · -- the special encodings were not used
      obtain ⟨c, hc', hv⟩ := hstale.special hle
      rw [hc] at hc'
      cases hc'
      rcases hv with hv | hv
      · exact hI hv
      · exact hD hv
  · obtain ⟨v, e⟩ := c
    subst hnil
    refine ⟨pushed (cs (th + 13)) (ip (th + 13)), slFields_special hth hf hv cid hr hm, ?_⟩
    rw [hold.pushed_eq_iff hnew hurg]
    constructor
    · exact fun h0 hstale => hstale.old h0
    · intro hnot
      by_contra hne
      refine hnot ⟨hne, hurg, hv.urp, hv.win, hprev, hv.seq, ?_⟩
      rcases hv.ack with ⟨-, hack⟩ | ⟨-, hack⟩
      · exact .inr hack
      · exact .inl hack

end

theorem takeOver_cases (q : Mem) (th : Nat) (h : Mem) (i : Nat) :
    takeOver q th h i = q i ∨ takeOver q th h i = h i ∧ (i < 4 ∨ 6 ≤ i) ∧ (i < th + 4 ∨ th + 12 ≤ i) ∧
      i ≠ th + 13 ∧ (i < th + 14 ∨ th + 20 ≤ i) := by
  simp only [takeOver, copy]
  split_ifs <;> first | exact .inr ⟨rfl, by omega⟩ | exact .inl (congrArg q (by omega))

theorem takeOver_same {h : Mem} {th hlen : Nat} (hth : 20 ≤ th) (hstart : Same h q 0 2)
    (hfrag : Same h q 6 10) (hconn : Same h q 12 (th + 4)) (hoff : Same h q (th + 12) (th + 13))
    (hopts : Same h q (th + 20) hlen) :
    Same (takeOver q th h) q 0 2 ∧ Same (takeOver q th h) q 4 10 ∧
      rd16 (takeOver q th h) 10 = rd16 h 10 ∧ Same (takeOver q th h) q 12 hlen := by
  refine ⟨fun i hlo hhi => ?_, fun i hlo hhi => ?_, ?_, fun i hlo hhi => ?_⟩
  · rcases takeOver_cases q th h i with hq | ⟨hh, -⟩
    · exact hq
    · exact hh.trans (hstart i hlo hhi)
  · rcases takeOver_cases q th h i with hq | ⟨hh, ho, -⟩
    · exact hq
    · exact hh.trans (hfrag i (by omega) hhi)
  · simp (disch := omega) only [takeOver, rd16_copy_off]
  · rcases takeOver_cases q th h i with hq | ⟨hh, -, ho⟩
    · exact hq
    · rw [hh]
      obtain hi | hi | hi : i < th + 4 ∨ i = th + 12 ∨ th + 20 ≤ i := by omega
      · exact hconn i hlo hi
      · exact hoff i hi.ge (by omega)
      · exact hopts i hi hhi

/-! ## The checksum of the IP header -/

def ipWords (ip : Mem) : List Nat := (List.range (2 * ipHl ip)).map fun i => (rd16 ip (2 * i)).toNat

/-- The checksum of RFC 791: the one's complement of the one's complement sum of the header, with
0 in the place of the checksum. -/
def ipCksum (ip : Mem) : BitVec 16 := ~~~BitVec.ofNat 16 (onesSum (ipWords (wr16 ip 10 0)))

theorem ipHl_lt (ip : Mem) : ipHl ip < 16 := Nat.mod_lt _ (by decide)

theorem ipWords_lt (ip : Mem) : ∀ w ∈ ipWords ip, w < 65536 := by
  intro w hw
  obtain ⟨i, -, rfl⟩ := mem_map.mp hw
  exact (rd16 ip (2 * i)).isLt

theorem ipWords_sum_lt (ip : Mem) : (ipWords ip).sum < 4294967296 := by
  have hle : (ipWords ip).sum ≤ (ipWords ip).length * 65536 :=
    sum_le_card_nsmul _ _ fun w hw => (ipWords_lt ip w hw).le
  have hlen : (ipWords ip).length = 2 * ipHl ip := by rw [ipWords, length_map, length_range]
  have hhl := ipHl_lt ip
  omega

/-- What the receiver computes over a header in which the checksum is 0. -/
theorem slIpSum_eq {ip : Mem} {o : Nat} (hsame : ∀ i < 4 * ipHl ip, mem (o + i) = wr16 ip 10 0 i) :
    ~~~BitVec.ofNat 16 (slIpSum mem o (2 * ipHl ip)) = ipCksum ip := by
  have hwords : (List.range (2 * ipHl ip)).map (fun i => (rd16 mem (o + 2 * i)).toNat) =
      ipWords (wr16 ip 10 0) := by
    refine map_congr_left fun i hi => ?_
    rw [mem_range] at hi
    rw [rd16, rd16, Nat.add_assoc, hsame (2 * i) (by omega), hsame (2 * i + 1) (by omega)]
  rw [slIpSum, hwords, fold_fold_eq (ipWords_lt _) (ipWords_sum_lt _), ipCksum]

theorem ipCksum_congr {ip ip' : Mem} (hhl : 3 ≤ ipHl ip) (h : Same ip' ip 0 (4 * ipHl ip)) :
    ipCksum ip' = ipCksum ip := by
  have hhl' : ipHl ip' = ipHl ip := by rw [ipHl, h 0 (le_refl 0) (by omega), ipHl]
  have hzero : ∀ i < 4 * ipHl ip, wr16 ip' 10 0 (0 + i) = wr16 ip 10 0 i := by
    intro i hi
    rw [Nat.zero_add]
    by_cases h10 : i < 10 ∨ 12 ≤ i
    · rw [wr16_off _ _ _ h10, wr16_off _ _ _ h10, h i (Nat.zero_le i) hi]
    · have hsame : rd16 (wr16 ip' 10 0) 10 = rd16 (wr16 ip 10 0) 10 := by
        rw [rd16_wr16, rd16_wr16]
      exact same_of_rd16 hsame i (by omega) (by omega)
  rw [← slIpSum_eq hzero, ← hhl', slIpSum_eq fun i _ => by rw [Nat.zero_add]]

/-! ## The packet that comes out -/

theorem holds_range_map {o n : Nat} (h : ∀ i < n, mem (o + i) = q i) :
    Holds mem o ((List.range n).map q) := by
  rw [holds_iff]
  intro i hi
  rw [length_map, length_range] at hi
  rw [h i hi, getElem_map, getElem_range]

/-- **The header is put before the data.** `H` is the new header of the state, `q` that of the
packet. -/
theorem slPrepend_spec (comp : SlCompress) (bufp : Nat) {cs : Cstate}
    (hcs : comp.rstate comp.lastRecv.toNat = cs) {H : Mem} {data : List Byte} (hbuf : bufp ≤ cp)
    (hroom : cs.csHlen + 3 ≤ cp) (hdata : Holds mem cp data) (hhl : 20 ≤ 4 * ipHl q)
    (hle : 4 * ipHl q ≤ cs.csHlen) (hlow : Same H q 0 2) (hmid : Same H q 4 10)
    (hzero : rd16 H 10 = 0) (hhigh : Same H q 12 cs.csHlen)
    (hlen : rd16 q 2 = BitVec.ofNat 16 (data.length + cs.csHlen)) (hsum : rd16 q 10 = ipCksum q) :
    ∃ mem' base, slPrepend comp H mem bufp cp (cp - bufp + data.length) =
        (comp.setRecv { cs with csHdr := copy H 2 q 2 2 }, mem', base,
          ((data.length + cs.csHlen : Nat) : Int)) ∧
      Holds mem' base ((List.range cs.csHlen).map q ++ data) := by
  have hcp : ¬cp - bufp + data.length < cp - bufp := by omega
  have hrest : cp - bufp + data.length - (cp - bufp) = data.length := by omega
  rw [slPrepend, hcs, if_neg hcp, hrest]
  dsimp only
  rw [← hlen, wr16_rd16]
  generalize hcp' : cp - cp % 4 = cp'
  -- the data in its new place
  have hmoved : Holds (if cp % 4 ≠ 0 then copy mem cp' mem cp data.length else mem) cp' data := by
    split
    · exact hdata.copy cp'
    · next h4 =>
      rw [not_not] at h4
      rwa [← hcp', h4, Nat.sub_zero]
  generalize (if cp % 4 ≠ 0 then copy mem cp' mem cp data.length else mem) = mem1 at hmoved
  have hle' : cs.csHlen ≤ cp' := by omega
  have hover : decide (cp' < cs.csHlen) = false := decide_eq_false (by omega)
  have hhl' : ipHl (copy H 2 q 2 2) = ipHl q := by
    have h0 : copy H 2 q 2 2 0 = q 0 := hlow 0 (le_refl 0) (by decide)
    rw [ipHl, h0, ipHl]
  generalize hH : copy H 2 q 2 2 = H' at hhl'
  have hlow' : ∀ i < 10, H' i = q i := by
    intro i hi
    have hall : Same H' q 0 10 :=
      hH ▸ ((hlow.copy 2 2).glue (same_copy H q 2 2)).glue (hmid.copy 2 2)
    exact hall i (Nat.zero_le i) hi
  generalize hmem2 : copy mem1 (cp' - cs.csHlen) H' 0 cs.csHlen = mem2
  have hhead : ∀ i < cs.csHlen, mem2 (cp' - cs.csHlen + i) = H' i := by
    intro i hi
    rw [← hmem2, copy, if_pos (by omega), Nat.add_sub_cancel_left, Nat.zero_add]
  have hsum2 : ~~~BitVec.ofNat 16 (slIpSum mem2 (cp' - cs.csHlen) (2 * ipHl q)) = rd16 q 10 := by
    rw [hsum]
    refine slIpSum_eq fun i hi => ?_
    rw [hhead i (by omega)]
    -- the octets before, in and behind the checksum
    rcases Nat.lt_or_ge i 10 with h10 | h10
    · rw [hlow' i h10, wr16_off _ _ _ (by omega)]
    · rw [← hH, copy_off _ _ _ _ _ (by omega)]
      rcases Nat.lt_or_ge i 12 with h12 | h12
      · have hz : rd16 H 10 = rd16 (wr16 q 10 0) 10 := by rw [hzero, rd16_wr16]
        exact same_of_rd16 hz i h10 h12
      · rw [hhigh i h12 (by omega), wr16_off _ _ _ (by omega)]
  rw [hhl', hsum2, hover, Bool.or_false]
  refine ⟨_, _, rfl, ?_⟩
  rw [holds_append]
  constructor
  · refine holds_range_map fun i hi => ?_
    rcases Nat.lt_or_ge i 10 with h10 | h10
    · rw [wr16_off _ _ _ (by omega), hhead i hi]
      exact hlow' i h10
    · rcases Nat.lt_or_ge i 12 with h12 | h12
      · obtain rfl | rfl : i = 10 ∨ i = 11 := by omega
        · rw [wr16_hi, hi8_rd16]
        · rw [show cp' - cs.csHlen + 11 = cp' - cs.csHlen + 10 + 1 by omega, wr16_lo, lo8_rd16]
      · rw [wr16_off _ _ _ (by omega), hhead i hi, ← hH, copy_off _ _ _ _ _ (by omega)]
        exact hhigh i h12 hi
  · rw [length_map, length_range, Nat.sub_add_cancel hle']
    refine hmoved.of_same fun i hlo _ => ?_
    rw [wr16_off _ _ _ (by omega), ← hmem2, copy_off _ _ _ _ _ (by omega)]

end Anp
