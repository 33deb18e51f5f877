import Anp.Lib.Octets
import Anp.Lib.OnesSum
import Anp.Net.Slip

/-!
# Slcompress — header compression on a serial line

`sl_compress_init`, `sl_compress_tcp` and `sl_uncompress_tcp` of `net/slcompress.c`. Headers are
octets in memory, as the source has them; the fields of `struct ip` and `struct tcphdr` are words
at their offsets (the machine keeps the most significant octet first, `machine/endian.h`).

A header longer than `MAX_HDR` is written past the end of `cs_hdr`: over the state of the next
connection, or over `sc_bpf` behind the last one. A packet could also grow past the start of the
buffer. Both are recorded in `overrun`, and with it set the model no longer follows the code. The
counters are left out.
-/

namespace Anp

open Octets OnesSum

/-! ## State -/

def maxStates : Nat := 16

/-- `MAX_HDR`, which is `MLEN`. -/
def maxHdr : Nat := mlen

/-- `struct cstate`; `cs_next` is an index in `tstate`. -/
structure Cstate where
  csNext : Nat := 0
  csHlen : Nat := 0
  csId : Byte := 0
  csHdr : Mem := fun _ => 0

/-- `struct slcompress`, with the states for sending and for receiving. -/
structure SlCompress where
  lastCs : Nat := 0
  lastRecv : Byte := 0
  lastXmit : Byte := 0
  slfToss : Bool := false
  tstate : Nat → Cstate := fun _ => {}
  rstate : Nat → Cstate := fun _ => {}
  overrun : Bool := false

def slCompressInit : SlCompress where
  tstate := fun i =>
    { csId := UInt8.ofNat i, csNext := if i = 0 then maxStates - 1 else i - 1 }
  lastCs := 0
  lastRecv := 255
  lastXmit := 255
  slfToss := true

/-! ## Fields -/

def ipHl (ip : Mem) : Nat := (ip 0).toNat % 16

/-- `th_off` of the header at `th`. -/
def thOff (m : Mem) (th : Nat) : Nat := (m (th + 12)).toNat / 16

/-- The flags of `netinet/tcp.h`, as octets. -/
def thFin : Byte := 0x01
def thSyn : Byte := 0x02
def thRst : Byte := 0x04
def thPush : Byte := 0x08
def thAck : Byte := 0x10
def thUrg : Byte := 0x20

/-- The bits of the first octet of a compressed packet. -/
def newC : Byte := 0x40
def newI : Byte := 0x20
def newS : Byte := 0x08
def newA : Byte := 0x04
def newW : Byte := 0x02
def newU : Byte := 0x01
def specialI : Byte := newS ||| newW ||| newU
def specialD : Byte := newS ||| newA ||| newW ||| newU
def specialsMask : Byte := newS ||| newA ||| newW ||| newU
def tcpPushBit : Byte := 0x10

/-- The low octets of a number, as `*cp = n` stores them. -/
def byte0 (n : BitVec 32) : Byte := ⟨n.extractLsb' 0 8⟩
def byte1 (n : BitVec 32) : Byte := ⟨n.extractLsb' 8 8⟩

def encode (n : BitVec 32) : List Byte :=
  if 256 ≤ (n.setWidth 16).toNat then [0, byte1 n, byte0 n] else [byte0 n]

def encodez (n : BitVec 32) : List Byte :=
  if 256 ≤ (n.setWidth 16).toNat ∨ (n.setWidth 16).toNat = 0 then [0, byte1 n, byte0 n]
  else [byte0 n]

/-- `BCMP(..) == 0`. -/
def bcmpEq (m m' : Mem) (o n : Nat) : Bool := (List.range' o n).all fun i => m i == m' i

/-! ## `sl_compress_tcp` -/

/-- The packet at `ip` is of the connection of a state; `th` is where its TCP header is. -/
def csMatch (ip : Mem) (th : Nat) (cs : Cstate) : Bool :=
  rd32 ip 12 == rd32 cs.csHdr 12 && rd32 ip 16 == rd32 cs.csHdr 16 &&
    rd32 ip th == rd32 cs.csHdr (4 * ipHl cs.csHdr)

/-- The loop `do ... while (cs != lastcs)`: whether a state was found, `lcs` and `cs`. -/
def slSearch (tstate : Nat → Cstate) (ip : Mem) (th lastcs : Nat) :
    Nat → Nat → Bool × Nat × Nat
  | 0, cs => (false, cs, cs)
  | fuel + 1, lcs =>
    let cs := (tstate lcs).csNext
    if csMatch ip th (tstate cs) then (true, lcs, cs)
    else if cs = lastcs then (false, lcs, cs)
    else slSearch tstate ip th lastcs fuel cs

/-- `tstate[i].cs_next = n`. -/
def setNext (tstate : Nat → Cstate) (i n : Nat) : Nat → Cstate :=
  Function.update tstate i { tstate i with csNext := n }

/-- The label `found`: the state `cs` behind `lcs` moves to the front of the list. -/
def slToFront (comp : SlCompress) (lcs cs : Nat) : SlCompress :=
  if cs = comp.lastCs then { comp with lastCs := lcs }
  else
    let t := setNext comp.tstate lcs (comp.tstate cs).csNext
    let t := setNext t cs (t comp.lastCs).csNext
    { comp with tstate := setNext t comp.lastCs cs }

/-- The state for the packet at `ip`: whether it is one of the packet's connection, and which. -/
def slLocate (comp : SlCompress) (ip : Mem) (th : Nat) : Bool × Nat × SlCompress :=
  let cs := (comp.tstate comp.lastCs).csNext
  if csMatch ip th (comp.tstate cs) then (true, cs, comp)
  else
    let r := slSearch comp.tstate ip th comp.lastCs maxStates cs
    if r.1 then (true, r.2.2, slToFront comp r.2.1 r.2.2)
    else (false, r.2.2, { comp with lastCs := r.2.1 })

/-- Only what is expected to change has changed since the header `cs`; `hl` is `ip_hl` of the
packet. -/
def slSame (ip cs : Mem) (hl : Nat) : Bool :=
  let th := 4 * hl
  rd16 ip 0 == rd16 cs 0 && rd16 ip 6 == rd16 cs 6 && rd16 ip 8 == rd16 cs 8 &&
    thOff ip th == thOff cs th &&
    (decide (hl ≤ 5) || bcmpEq ip cs 20 (4 * (hl - 5))) &&
    (decide (thOff ip th ≤ 5) || bcmpEq ip cs (th + 20) (4 * (thOff ip th - 5)))

/-- The urgent pointer; `none` is `goto uncompressed`. -/
def slUrgent (ip cs : Mem) (th : Nat) : Option (Byte × List Byte) :=
  if ip (th + 13) &&& thUrg ≠ 0 then some (newU, encodez ((rd16 ip (th + 18)).setWidth 32))
  else if rd16 ip (th + 18) ≠ rd16 cs (th + 18) then none
  else some (0, [])

def slWindow (ip cs : Mem) (th : Nat) : Byte × List Byte :=
  let delta := rd16 ip (th + 14) - rd16 cs (th + 14)
  if delta ≠ 0 then (newW, encode (delta.setWidth 32)) else (0, [])

/-- `th_ack` and `th_seq`. -/
def slDelta (bit : Byte) (delta : BitVec 32) : Option (Byte × List Byte) :=
  if delta ≠ 0 then if 0xffff#32 < delta then none else some (bit, encode delta)
  else some (0, [])

/-- The `switch`: the encodings that are used, or `goto uncompressed`. -/
def slSpecial (changes : Byte) (newSeq : List Byte) (deltaS deltaA : BitVec 32)
    (ipLen csLen : BitVec 16) (hlen : Nat) : Option (Byte × List Byte) :=
  let prev := csLen.setWidth 32 - BitVec.ofNat 32 hlen
  if changes = 0 then if ipLen ≠ csLen ∧ csLen.toNat = hlen then some (changes, newSeq) else none
  else if changes = specialI ∨ changes = specialD then none
  else if changes = newS ||| newA then
    if deltaS = deltaA ∧ deltaS = prev then some (specialI, []) else some (changes, newSeq)
  else if changes = newS then
    if deltaS = prev then some (specialD, []) else some (changes, newSeq)
  else some (changes, newSeq)

/-- Which fields changed, and their encoding. -/
def slDeltas (ip cs : Mem) (th hlen : Nat) : Option (Byte × List Byte) := do
  let u ← slUrgent ip cs th
  let w := slWindow ip cs th
  let deltaA := rd32 ip (th + 8) - rd32 cs (th + 8)
  let a ← slDelta newA deltaA
  let deltaS := rd32 ip (th + 4) - rd32 cs (th + 4)
  let s ← slDelta newS deltaS
  slSpecial (u.1 ||| w.1 ||| a.1 ||| s.1) (u.2 ++ w.2 ++ a.2 ++ s.2) deltaS deltaA
    (rd16 ip 2) (rd16 cs 2) hlen

/-- `ip_id` and the push bit. -/
def slIdPush (ip cs : Mem) (th : Nat) (c : Byte × List Byte) : Byte × List Byte :=
  let delta := (rd16 ip 4).setWidth 32 - (rd16 cs 4).setWidth 32
  let c := if delta ≠ 1 then (c.1 ||| newI, c.2 ++ encodez delta) else c
  if ip (th + 13) &&& thPush ≠ 0 then (c.1 ||| tcpPushBit, c.2) else c

/-- `BCOPY(ip, &cs->cs_ip, hlen)`. -/
def slStore (comp : SlCompress) (i : Nat) (ip : Mem) (hlen : Nat) : SlCompress :=
  let cs := comp.tstate i
  { comp with
    tstate := Function.update comp.tstate i { cs with csHdr := copy cs.csHdr 0 ip 0 hlen }
    overrun := comp.overrun || decide (maxHdr < hlen) }

/-- The first mbuf's data as memory. -/
def octetsOf (d : List Byte) : Mem := fun i => d.getD i 0

/-- A packet that may be sent compressed: not a fragment, `ACK` set and no other control bit. -/
def slCompressible (ip : Mem) (mLen : Nat) : Prop := ¬(rd16 ip 6 &&& 0x3fff#16 ≠ 0 ∨ mLen < 40) ∧
    ip (4 * ipHl ip + 13) &&& (thSyn ||| thFin ||| thRst ||| thAck) = thAck
deriving Decidable

/-- The label `uncompressed`. -/
def slUncompressedOut (comp : SlCompress) (i : Nat) (d : List Byte) (hlen : Nat) :
    SlCompress × Byte × List Byte :=
  let comp := slStore comp i (octetsOf d) hlen
  ({ comp with lastXmit := (comp.tstate i).csId }, typeUncompressedTcp,
    d.set 9 (comp.tstate i).csId)

/-- The compressed packet: `c` are the bits and the encoded changes. -/
def slCompressedOut (comp : SlCompress) (i : Nat) (d : List Byte) (th hlen : Nat)
    (compressCid : Bool) (c : Byte × List Byte) : SlCompress × Byte × List Byte :=
  let sum := [octetsOf d (th + 16), octetsOf d (th + 17)]
  let comp := slStore comp i (octetsOf d) hlen
  let id := (comp.tstate i).csId
  if compressCid = false ∨ comp.lastXmit ≠ id then
    ({ comp with lastXmit := id }, typeCompressedTcp,
      [c.1 ||| newC, id] ++ sum ++ c.2 ++ d.drop hlen)
  else (comp, typeCompressedTcp, [c.1] ++ sum ++ c.2 ++ d.drop hlen)

/-- `sl_compress_tcp`, on the data of the first mbuf: the packet type, and the data after it. -/
def slCompressTcp (comp : SlCompress) (d : List Byte) (compressCid : Bool) :
    SlCompress × Byte × List Byte :=
  let ip := octetsOf d
  if slCompressible ip d.length then
    let th := 4 * ipHl ip
    let hlen := 4 * (ipHl ip + thOff ip th)
    let r := slLocate comp ip th
    let cs := (r.2.2.tstate r.2.1).csHdr
    if r.1 ∧ slSame ip cs (ipHl ip) then
      match slDeltas ip cs th hlen with
      | some c => slCompressedOut r.2.2 r.2.1 d th hlen compressCid (slIdPush ip cs th c)
      | none => slUncompressedOut r.2.2 r.2.1 d hlen
    else slUncompressedOut r.2.2 r.2.1 d hlen
  else (comp, typeIp, d)

/-- `*mtod(m, u_char *) |= sl_compress_tcp(m, ip, &sc->sc_comp, compress_cid)`. -/
def slCmp (compressCid : Bool) (comp : SlCompress) : List Mbuf → SlCompress × List Mbuf
  | [] => (comp, [])
  | m :: ms =>
    let r := slCompressTcp comp m.mData compressCid
    (r.1, { m with
      mData := r.2.2.modifyHead (· ||| r.2.1)
      mOff := m.mOff + (m.mLen - r.2.2.length) } :: ms)

/-! ## `sl_uncompress_tcp`

The header of a state is `h`, the packet is in `mem`, and `cp` is the next octet of it. -/

/-- `DECODEL`, for the field of `h` at `o`. -/
def decodel (h : Mem) (o : Nat) (mem : Mem) (cp : Nat) : Mem × Nat :=
  if mem cp = 0 then (wr32 h o (rd32 h o + (rd16 mem (cp + 1)).setWidth 32), cp + 3)
  else (wr32 h o (rd32 h o + (mem cp).toBitVec.setWidth 32), cp + 1)

def decodes (h : Mem) (o : Nat) (mem : Mem) (cp : Nat) : Mem × Nat :=
  if mem cp = 0 then (wr16 h o (rd16 h o + rd16 mem (cp + 1)), cp + 3)
  else (wr16 h o (rd16 h o + (mem cp).toBitVec.setWidth 16), cp + 1)

def decodeu (h : Mem) (o : Nat) (mem : Mem) (cp : Nat) : Mem × Nat :=
  if mem cp = 0 then (wr16 h o (rd16 mem (cp + 1)), cp + 3)
  else (wr16 h o ((mem cp).toBitVec.setWidth 16), cp + 1)

/-- `th->th_flags |= flag` or `&=~ flag`. -/
def setFlag (h : Mem) (th : Nat) (flag : Byte) (on : Bool) : Mem :=
  wr8 h (th + 13) (if on then h (th + 13) ||| flag else h (th + 13) &&& ~~~flag)

/-- The length of the data of the last packet, `ntohs(cs->cs_ip.ip_len) - cs->cs_hlen`. -/
def slPrevLen (h : Mem) (csHlen : Nat) : BitVec 32 :=
  (rd16 h 2).setWidth 32 - BitVec.ofNat 32 csHlen

/-- `case SPECIAL_I` and `case SPECIAL_D`. -/
def slSpecialI (h : Mem) (csHlen th : Nat) : Mem :=
  let h' := wr32 h (th + 8) (rd32 h (th + 8) + slPrevLen h csHlen)
  wr32 h' (th + 4) (rd32 h' (th + 4) + slPrevLen h csHlen)

def slSpecialD (h : Mem) (csHlen th : Nat) : Mem :=
  wr32 h (th + 4) (rd32 h (th + 4) + slPrevLen h csHlen)

/-- The fields in the order urgent, window, ack, seq. -/
def slChanged (h : Mem) (th : Nat) (changes : Byte) (mem : Mem) (cp : Nat) : Mem × Nat :=
  let r := if changes &&& newU ≠ 0 then decodeu (setFlag h th thUrg true) (th + 18) mem cp
    else (setFlag h th thUrg false, cp)
  let r := if changes &&& newW ≠ 0 then decodes r.1 (th + 14) mem r.2 else r
  let r := if changes &&& newA ≠ 0 then decodel r.1 (th + 8) mem r.2 else r
  if changes &&& newS ≠ 0 then decodel r.1 (th + 4) mem r.2 else r

/-- The new header, but for `ip_len` and `ip_sum`, and where the data starts. -/
def slFields (h : Mem) (csHlen th : Nat) (changes : Byte) (mem : Mem) (cp : Nat) : Mem × Nat :=
  let h := setFlag (wr16 h (th + 16) (rd16 mem cp)) th thPush (changes &&& tcpPushBit ≠ 0)
  let cp := cp + 2
  let r :=
    if changes &&& specialsMask = specialI then (slSpecialI h csHlen th, cp)
    else if changes &&& specialsMask = specialD then (slSpecialD h csHlen th, cp)
    else slChanged h th changes mem cp
  if changes &&& newI ≠ 0 then decodes r.1 4 mem r.2 else (wr16 r.1 4 (rd16 r.1 4 + 1), r.2)

/-- The sum of `n` words, folded twice. -/
def slIpSum (mem : Mem) (o n : Nat) : Nat :=
  fold (fold ((List.range n).map fun i => (rd16 mem (o + 2 * i)).toNat).sum)

/-- The label `bad`. -/
def slBad (comp : SlCompress) (mem : Mem) (bufp : Nat) : SlCompress × Mem × Nat × Int :=
  ({ comp with slfToss := true }, mem, bufp, 0)

/-- The state of the last packet received. -/
def SlCompress.setRecv (comp : SlCompress) (cs : Cstate) : SlCompress :=
  { comp with rstate := Function.update comp.rstate comp.lastRecv.toNat cs }

/-- From `len -= (cp - *bufp)` on: `h` is the new header and the data is at `cp`. -/
def slPrepend (comp : SlCompress) (h : Mem) (mem : Mem) (bufp cp len : Nat) :
    SlCompress × Mem × Nat × Int :=
  let cs := comp.rstate comp.lastRecv.toNat
  if len < cp - bufp then slBad (comp.setRecv { cs with csHdr := h }) mem bufp
  else
    let len := len - (cp - bufp)
    -- the data is moved down to a 4-byte boundary
    let cp' := cp - cp % 4
    let mem := if cp % 4 ≠ 0 then copy mem cp' mem cp len else mem
    let bufp := cp' - cs.csHlen
    let len := len + cs.csHlen
    let h := wr16 h 2 (BitVec.ofNat 16 len)
    let mem := copy mem bufp h 0 cs.csHlen
    let sum := slIpSum mem bufp (2 * ipHl h)
    ({ comp.setRecv { cs with csHdr := h } with
        overrun := comp.overrun || decide (cp' < cs.csHlen) },
      wr16 mem (bufp + 10) (~~~BitVec.ofNat 16 sum), bufp, len)

/-- `case TYPE_COMPRESSED_TCP`, with the state chosen. -/
def slRebuild (comp : SlCompress) (changes : Byte) (mem : Mem) (bufp cp len : Nat) :
    SlCompress × Mem × Nat × Int :=
  let cs := comp.rstate comp.lastRecv.toNat
  let r := slFields cs.csHdr cs.csHlen (4 * ipHl cs.csHdr) changes mem cp
  slPrepend comp r.1 mem bufp r.2 len

/-- `case TYPE_UNCOMPRESSED_TCP`. -/
def slSync (comp : SlCompress) (mem : Mem) (bufp len : Nat) : SlCompress × Mem × Nat × Int :=
  let id := mem (bufp + 9)
  if maxStates ≤ id.toNat then slBad comp mem bufp
  else
    let mem := wr8 mem (bufp + 9) ipprotoTcp
    let ip : Mem := fun i => mem (bufp + i)
    let hlen := 4 * (ipHl ip + thOff ip (4 * ipHl ip))
    let comp := { comp with
      lastRecv := id, slfToss := false, overrun := comp.overrun || decide (maxHdr < hlen) }
    let cs := comp.rstate id.toNat
    (comp.setRecv { cs with
        csHdr := wr16 (copy cs.csHdr 0 mem bufp hlen) 10 0, csHlen := hlen },
      mem, bufp, len)

/-- `sl_uncompress_tcp`: the packet of type `type` in the `len` octets at `bufp`; where it is in
the end, and its length. -/
def slUncompressTcp (comp : SlCompress) (type : Byte) (mem : Mem) (bufp len : Nat) :
    SlCompress × Mem × Nat × Int :=
  if type = typeUncompressedTcp then slSync comp mem bufp len
  else if type = typeCompressedTcp then
    let changes := mem bufp
    if changes &&& newC ≠ 0 then
      let id := mem (bufp + 1)
      if maxStates ≤ id.toNat then slBad comp mem bufp
      else
        slRebuild { comp with slfToss := false, lastRecv := id } changes mem bufp (bufp + 2) len
    else if comp.slfToss then (comp, mem, bufp, 0)
    else slRebuild comp changes mem bufp (bufp + 1) len
  else slBad comp mem bufp

end Anp
