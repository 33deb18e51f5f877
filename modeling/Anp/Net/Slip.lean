import Anp.Lib.Framing
import Anp.Kern.Clist
import Mathlib.Logic.Function.Basic

/-!
# Slip — the serial line interface

`slstart`, `slinput` and `sl_btom` of `net/if_sl.c`. The sender puts packets on the output queue
of the line (`Kern/Clist.lean`), the receiver takes characters one by one into a cluster of its
own and gives whole packets to `ipintrq`.

No code of the repository opens a packet filter, so `sc_bpf` is 0, unless `sl_uncompress_tcp` writes
past the end of `struct slcompress` into it. The counters of `struct ifnet` are left out.
-/

namespace Anp

open Framing List

variable {q : Clist}

/-! ## Constants -/

def frameEnd : Byte := 0xc0
def frameEscape : Byte := 0xdb
def transFrameEnd : Byte := 0xdc
def transFrameEscape : Byte := 0xdd

def slipMarks : Marks Byte where
  fend := frameEnd
  fesc := frameEscape
  tend := transFrameEnd
  tesc := transFrameEscape
  fend_ne_fesc := by decide
  tend_ne_fend := by decide
  tend_ne_fesc := by decide
  tend_ne_tesc := by decide
  tesc_ne_fend := by decide
  tesc_ne_fesc := by decide

def slipHdrlen : Nat := 16

/-- `BUFOFFSET`: room for a decompressed header before the packet (`NBPFILTER` is 1). -/
def bufoffset : Nat := 128 + 4 + slipHdrlen

/-- `SLMAX`, the longest packet that can be received. -/
def slmax : Nat := mclbytes - bufoffset

def slbufsize : Nat := slmax + bufoffset

/-- `SLIP_HIWAT`, which is `roundup(50, CBSIZE)`. -/
def slipHiwat : Nat := 52

def ipprotoTcp : Byte := 6

/-- The packet types of `net/slcompress.h`; `TYPE_IP` is `IPVERSION << 4`. -/
def typeIp : Byte := 0x40
def typeUncompressedTcp : Byte := 0x70
def typeCompressedTcp : Byte := 0x80

/-! ## `slstart` -/

/-- The sending side: `sc_fastq` and `if_snd`, the queue of the tty, the characters gone out, and
the packets in the order they were taken (`true` from `sc_fastq`). -/
structure SlTx (σ : Type) where
  scFastq : List (List Mbuf) := []
  ifSnd : List (List Mbuf) := []
  tOutq : Clist := {}
  scCompress : Bool := false
  comp : σ
  line : List Byte := []
  sent : List (Bool × List Mbuf) := []

/-- The characters of one mbuf: `bp` holds those since the last special one, which go out with
one `b_to_q`. -/
def slMbuf (bp : List Byte) : List Byte → Clist → Clist
  | [], q => if bp = [] then q else bToQ bp q
  | c :: cs, q =>
    if c = frameEscape ∨ c = frameEnd then
      let q := if bp = [] then q else bToQ bp q
      slMbuf [] cs (putc (if c = frameEscape then transFrameEscape else transFrameEnd)
        (putc frameEscape q))
    else slMbuf (bp ++ [c]) cs q

/-- One packet: an extra `FRAME_END` when the line may have been idle, the mbufs, `FRAME_END`. -/
def slPacket (m : List Mbuf) (q : Clist) : Clist :=
  let q := if q.cCc = 0 then putc frameEnd q else q
  putc frameEnd (m.foldl (fun q m => slMbuf [] m.mData q) q)

/-- `mtod(m, struct ip *)->ip_p`. -/
def mbufIpP (m : List Mbuf) : Option Byte := (m.head?).bind (·.mData[9]?)

section

variable {σ : Type} (cmp : σ → List Mbuf → σ × List Mbuf)

/-- `IF_DEQUEUE`, from `sc_fastq` first. -/
def slDequeue (s : SlTx σ) : Option (Bool × List Mbuf × SlTx σ) :=
  match s.scFastq with
  | m :: f => some (true, m, { s with scFastq := f })
  | [] =>
    match s.ifSnd with
    | m :: f => some (false, m, { s with ifSnd := f })
    | [] => none

/-- The body of the loop behind `IF_DEQUEUE`; `cmp` compresses the header and tags the packet. -/
def slSend (s : SlTx σ) (fast : Bool) (m : List Mbuf) : SlTx σ :=
  let r := if mbufIpP m = some ipprotoTcp ∧ s.scCompress then cmp s.comp m else (s.comp, m)
  { s with comp := r.1, tOutq := slPacket r.2 s.tOutq, sent := s.sent ++ [(fast, m)] }

/-- `(*tp->t_oproc)(tp)`, which is `ser_oproc`. -/
def slOproc (ws : List Nat) (s : SlTx σ) : SlTx σ :=
  let r := serOproc ws s.tOutq
  { s with tOutq := r.1, line := s.line ++ r.2 }

/-- The loop of `slstart`; `ws` are the results of `write` in each round. -/
def slstartLoop : Nat → List (List Nat) → SlTx σ → SlTx σ
  | 0, _, s => s
  | fuel + 1, ws, s =>
    let s' := if s.tOutq.cCc ≠ 0 then slOproc (ws.headD []) s else s
    if s.tOutq.cCc ≠ 0 ∧ slipHiwat < s'.tOutq.cCc then s'
    else
      match slDequeue s' with
      | none => s'
      | some (fast, m, s'') => slstartLoop fuel ws.tail (slSend cmp s'' fast m)

def slstart (ws : List (List Nat)) (s : SlTx σ) : SlTx σ :=
  slstartLoop cmp (s.scFastq.length + s.ifSnd.length + 1) ws s

/-- A packet is queued, or `slstart` is called. -/
inductive TxOp where
  -- `sloutput` puts a packet on a queue
  | enqueue (fast : Bool) (m : List Mbuf)
  -- `slstart` is called
  | start (ws : List (List Nat))

def txStep (s : SlTx σ) : TxOp → SlTx σ
  | .enqueue true m => { s with scFastq := s.scFastq ++ [m] }
  | .enqueue false m => { s with ifSnd := s.ifSnd ++ [m] }
  | .start ws => slstart cmp ws s

def SlTx.stream (s : SlTx σ) : List Byte := s.line ++ s.tOutq.bytes

end

/-! ## `slinput` -/

/-- A packet on `ipintrq`: in the mbuf itself, or `len` bytes of a cluster. -/
inductive Queued where
  | small (data : List Byte)
  | cluster (cl off len : Nat)
  deriving DecidableEq, Repr

/-- Characters `off … off + len - 1` of a cluster. -/
def bytesAt (mem : Nat → Byte) (off len : Nat) : List Byte := (List.range' off len).map mem

def Queued.bytes (mem : Nat → Nat → Byte) : Queued → List Byte
  | .small data => data
  | .cluster cl off len => bytesAt (mem cl) off len

/-- `sc_abortcount`, `sc_starttime`, `sc_lasttime`. -/
structure Abt where
  count : Int := 0
  start : Int := 0
  last : Int := 0
  deriving DecidableEq, Repr

/-- `ABT_ESC`, `ABT_IDLE`, `ABT_COUNT`, `ABT_WINDOW`. -/
def abtEsc : Byte := 0x1b
def abtIdle : Int := 1
def abtCount : Int := 3
def abtWindow : Int := abtCount * 2 + 2

/-- The abort escape: `none` when the line is to be closed. -/
def abtStep (debug : Bool) (a : Abt) (c : Byte) (now : Int) : Option Abt :=
  if debug then
    if c = abtEsc then
      let a := if a.count ≠ 0 ∧ a.start + abtWindow ≤ now then { a with count := 0 } else a
      if a.last + abtIdle ≤ now then
        let a := { a with count := a.count + 1 }
        let a := if a.count = 1 then { a with start := now } else a
        if abtCount ≤ a.count then none else some { a with last := now }
      else some { a with last := now }
    else some { a with count := 0, last := now }
  else some a

/-- The receiving side. `cl` is the cluster `sc_buf` points into, the other pointers are offsets in
it; `fresh` is the next cluster to be handed out. -/
structure SlRx (σ : Type) where
  attached : Bool := true
  carrOn : Bool := true
  clocal : Bool := false
  debug : Bool := false
  scCompress : Bool := false
  scAutocomp : Bool := true
  scError : Bool := false
  scEscape : Bool := false
  cl : Nat := 0
  scEp : Nat := slbufsize
  scBuf : Nat := slbufsize - slmax
  scMp : Nat := slbufsize - slmax
  abt : Abt := {}
  comp : σ
  mem : Nat → Nat → Byte := fun _ _ => 0
  fresh : Nat := 1
  ipintrq : List Queued := []

/-- One call of `slinput`: the character, the second it comes in, and what the allocator and
`ipintrq` answer if they are asked. -/
structure LineIn where
  c : BitVec 32
  now : Int := 0
  mget : Bool := true
  mclget : Bool := true
  qfull : Bool := false
  deriving DecidableEq, Repr

/-- `c & TTY_ERRORMASK`. -/
def LineIn.err (e : LineIn) : Bool := e.c &&& 0xff000000#32 != 0

/-- `c & TTY_CHARMASK`. -/
def LineIn.char (e : LineIn) : Byte := UInt8.ofBitVec (e.c.setWidth 8)

section

variable {σ : Type} (unc : σ → Byte → (Nat → Byte) → Nat → Nat → σ × (Nat → Byte) × Nat × Int)

def slclose (s : SlRx σ) : SlRx σ := { s with attached := false, scEp := 0, scMp := 0, scBuf := 0 }

/-- `*p = c`, in the cluster of the input buffer. -/
def SlRx.poke (s : SlRx σ) (off : Nat) (c : Byte) : SlRx σ :=
  { s with mem := Function.update s.mem s.cl (Function.update (s.mem s.cl) off c) }

/-- The label `newpack`. -/
def slNewpack (s : SlRx σ) : SlRx σ :=
  { s with scBuf := s.scEp - slmax, scMp := s.scEp - slmax, scEscape := false }

/-- `sl_btom`: a packet of `MHLEN` bytes or more leaves in the cluster it is in, and a new cluster
becomes the input buffer. -/
def slBtom (s : SlRx σ) (len : Nat) (e : LineIn) : Option (SlRx σ × Queued) :=
  if e.mget then
    if mhlen ≤ len then
      if e.mclget then
        some ({ s with cl := s.fresh, fresh := s.fresh + 1, scEp := slbufsize },
          .cluster s.cl s.scBuf len)
      else none
    else some (s, .small (bytesAt (s.mem s.cl) s.scBuf len))
  else none

/-- From `m = sl_btom(sc, len)` to `newpack`. -/
def slDeliver (s : SlRx σ) (len : Nat) (e : LineIn) : SlRx σ :=
  match slBtom s len e with
  | none => slNewpack s
  | some (s, m) => slNewpack (if e.qfull then s else { s with ipintrq := s.ipintrq ++ [m] })

/-- The call of `sl_uncompress_tcp` and what follows; `SC_COMPRESS` is set on the way, if it is
not set already. -/
def slUncompressed (s : SlRx σ) (c : Byte) (len : Nat) (e : LineIn) : SlRx σ :=
  let r := unc s.comp c (s.mem s.cl) s.scBuf len
  let s := { s with comp := r.1, mem := Function.update s.mem s.cl r.2.1, scBuf := r.2.2.1 }
  if r.2.2.2 ≤ 0 then slNewpack s
  else slDeliver { s with scCompress := true } r.2.2.2.toNat e

/-- The version of an uncompressed packet is put back. -/
def slUntag (s : SlRx σ) (c : Byte) : SlRx σ :=
  if c = typeUncompressedTcp then s.poke s.scBuf (s.mem s.cl s.scBuf &&& 0x4f) else s

/-- A frame that is not an IP packet; `c` is the upper half of its first character. -/
def slNotIp (s : SlRx σ) (c : Byte) (len : Nat) (e : LineIn) : SlRx σ :=
  let c := if c &&& 0x80 ≠ 0 then typeCompressedTcp else c
  let s := slUntag s c
  if s.scCompress ∨ (s.scAutocomp ∧ c = typeUncompressedTcp ∧ 40 ≤ len) then
    slUncompressed unc s c len e
  else slNewpack s

/-- `case FRAME_END`. -/
def slFrameEnd (s : SlRx σ) (e : LineIn) : SlRx σ :=
  if s.scError then slNewpack { s with scError := false }
  else
    let len := s.scMp - s.scBuf
    if len < 3 then slNewpack s
    else
      let c := s.mem s.cl s.scBuf &&& 0xf0
      if c = typeIp then slDeliver s len e else slNotIp unc s c len e

/-- `slinput`. The parameter `unc` is `sl_uncompress_tcp` as far as it keeps to `struct slcompress`
and the buffer. -/
def slinput (s : SlRx σ) (e : LineIn) : SlRx σ :=
  if !s.attached then s
  else if e.err || (!s.carrOn && !s.clocal) then { s with scError := true }
  else
    match abtStep s.debug s.abt e.char e.now with
    | none => slclose s
    | some abt =>
      let s := { s with abt }
      if e.char = frameEscape then { s with scEscape := true }
      else if e.char = frameEnd then slFrameEnd unc s e
      else
        let c :=
          if s.scEscape then
            if e.char = transFrameEscape then frameEscape
            else if e.char = transFrameEnd then frameEnd
            else e.char
          else e.char
        if s.scMp < s.scEp then
          { s.poke s.scMp c with scMp := s.scMp + 1, scEscape := false }
        else slNewpack { s with scError := true }

end

/-! ## The sender puts frames on the line -/

section

variable {σ : Type} {s : SlTx σ}

theorem slMbuf_spec (bp cs : List Byte) (h : q.Wf)
    (hbp : ∀ c ∈ bp, c ≠ frameEscape ∧ c ≠ frameEnd) :
    (slMbuf bp cs q).Wf ∧ (slMbuf bp cs q).bytes = q.bytes ++ slipMarks.stuff (bp ++ cs) := by
  have hflush (q : Clist) (bp : List Byte) (h : q.Wf) :
      (if bp = [] then q else bToQ bp q).Wf ∧
        (if bp = [] then q else bToQ bp q).bytes = q.bytes ++ bp := by
    split
    · next hb => rw [hb, append_nil]; exact ⟨h, rfl⟩
    · exact bToQ_spec bp h
  induction cs generalizing bp q with
  | nil =>
    rw [append_nil, stuff_plain slipMarks hbp]
    exact hflush q bp h
  | cons c cs ih =>
    by_cases hc : c = frameEscape ∨ c = frameEnd
    · -- a special character: the run before it, then the escaped pair
      rw [slMbuf, if_pos hc]
      obtain ⟨hw, hb⟩ := hflush q bp h
      obtain ⟨hw1, hb1⟩ := putc_spec frameEscape hw
      obtain ⟨hw2, hb2⟩ :=
        putc_spec (if c = frameEscape then transFrameEscape else transFrameEnd) hw1
      obtain ⟨hw3, hb3⟩ := ih [] hw2 (forall_mem_nil _)
      refine ⟨hw3, ?_⟩
      have hchar : slipMarks.stuffChar c =
          [frameEscape, if c = frameEscape then transFrameEscape else transFrameEnd] := by
        rcases hc with rfl | rfl <;> decide
      have hstuff : slipMarks.stuff (bp ++ c :: cs) =
          bp ++ (slipMarks.stuffChar c ++ slipMarks.stuff cs) := by
        rw [stuff_append, stuff_plain slipMarks hbp]
        rfl
      rw [hb3, hb2, hb1, hb, hstuff, hchar, nil_append]
      simp only [append_assoc, cons_append, nil_append]
    · rw [slMbuf, if_neg hc]
      have hbp' : ∀ d ∈ bp ++ [c], d ≠ frameEscape ∧ d ≠ frameEnd := by
        intro d hd
        rcases mem_append.mp hd with hd | hd
        · exact hbp d hd
        · rw [mem_singleton.mp hd]
          exact not_or.mp hc
      have hstep := ih (bp ++ [c]) h hbp'
      rwa [append_assoc, singleton_append] at hstep

theorem slMbufs_spec (m : List Mbuf) (h : q.Wf) :
    (m.foldl (fun q m => slMbuf [] m.mData q) q).Wf ∧
      (m.foldl (fun q m => slMbuf [] m.mData q) q).bytes =
        q.bytes ++ slipMarks.stuff (chainBytes m) := by
  induction m generalizing q with
  | nil => exact ⟨h, (append_nil _).symm⟩
  | cons m ms ih =>
    obtain ⟨hw, hb⟩ := slMbuf_spec [] m.mData h (forall_mem_nil _)
    obtain ⟨hw', hb'⟩ := ih hw
    refine ⟨hw', ?_⟩
    rw [foldl_cons, hb', hb, chainBytes_cons, nil_append, stuff_append, append_assoc]

/-- A packet goes out as one frame, however it is cut into mbufs. -/
theorem slPacket_spec (m : List Mbuf) (h : q.Wf) :
    (slPacket m q).Wf ∧ (slPacket m q).bytes =
      q.bytes ++ (if q.cCc = 0 then [frameEnd] else []) ++ slipMarks.stuff (chainBytes m) ++
        [frameEnd] := by
  obtain ⟨hw, hb⟩ : (if q.cCc = 0 then putc frameEnd q else q).Wf ∧
      (if q.cCc = 0 then putc frameEnd q else q).bytes =
        q.bytes ++ (if q.cCc = 0 then [frameEnd] else []) := by
    split
    · exact putc_spec frameEnd h
    · exact ⟨h, (append_nil _).symm⟩
  obtain ⟨hw1, hb1⟩ := slMbufs_spec m hw
  obtain ⟨hw2, hb2⟩ := putc_spec frameEnd hw1
  exact ⟨hw2, by rw [slPacket, hb2, hb1, hb]⟩

/-- What has been written so far is the packets taken so far, each in a frame. -/
structure TxInv (s : SlTx σ) : Prop where
  wf : s.tOutq.Wf
  off : s.scCompress = false
  framed : ∃ l : List (Bool × List Byte),
    l.map (·.2) = s.sent.map (fun x => chainBytes x.2) ∧ s.stream = slipMarks.wire l

/-- The packets taken from one queue, and those that still wait in it. -/
def SlTx.queue (s : SlTx σ) (fast : Bool) : List (List Mbuf) :=
  if fast then s.scFastq else s.ifSnd

def SlTx.all (s : SlTx σ) (fast : Bool) : List (List Mbuf) :=
  (s.sent.filter fun x => x.1 == fast).map (·.2) ++ s.queue fast

theorem slOproc_spec (ws : List Nat) (h : TxInv s) :
    TxInv (slOproc ws s) ∧ (slOproc ws s).tOutq.cCc = 0 := by
  have hq := serOproc_spec ws h.wf
  have heq : slOproc ws s = { s with tOutq := {}, line := s.line ++ s.tOutq.bytes } := by
    rw [slOproc, hq]
  rw [heq]
  obtain ⟨l, hl, hstream⟩ := h.framed
  refine ⟨⟨.empty, h.off, l, hl, ?_⟩, rfl⟩
  rw [← hstream]
  exact append_nil _

theorem TxInv.send (cmp : σ → List Mbuf → σ × List Mbuf) (fast : Bool)
    (m : List Mbuf) (h : TxInv s) : TxInv (slSend cmp s fast m) := by
  have heq : slSend cmp s fast m =
      { s with tOutq := slPacket m s.tOutq, sent := s.sent ++ [(fast, m)] } := by
    rw [slSend, if_neg (by simp [h.off])]
  obtain ⟨hw, hb⟩ := slPacket_spec m h.wf
  obtain ⟨l, hl, hstream⟩ := h.framed
  rw [heq]
  refine ⟨hw, h.off, l ++ [(decide (s.tOutq.cCc = 0), chainBytes m)], ?_, ?_⟩
  · rw [map_append, hl]
    simp
  · rw [wire_concat, ← hstream, SlTx.stream, SlTx.stream]
    rw [hb]
    simp [slipMarks]

theorem slDequeue_spec {s s' : SlTx σ} {fast : Bool} {m : List Mbuf}
    (h : slDequeue s = some (fast, m, s')) :
    s' = { s with scFastq := s'.scFastq, ifSnd := s'.ifSnd } ∧
      (∀ b, s.queue b = if fast = b then m :: s'.queue b else s'.queue b) ∧
      s.scFastq.length + s.ifSnd.length = s'.scFastq.length + s'.ifSnd.length + 1 := by
  rw [slDequeue] at h
  cases hf : s.scFastq with
  | cons m' f =>
    rw [hf] at h
    cases h
    refine ⟨rfl, ?_, ?_⟩
    · rintro (_ | _) <;> simp [SlTx.queue, hf]
    · rw [length_cons]
      dsimp only
      omega
  | nil =>
    rw [hf] at h
    cases hs : s.ifSnd with
    | nil => rw [hs] at h; cases h
    | cons m' f =>
      rw [hs] at h
      cases h
      refine ⟨?_, ?_, ?_⟩
      · rw [← hf]
      · rintro (_ | _) <;> simp [SlTx.queue, hf, hs]
      · rw [length_cons]
        rfl

theorem slDequeue_none (h : slDequeue s = none) : s.scFastq = [] ∧ s.ifSnd = [] := by
  rw [slDequeue] at h
  split at h
  · cases h
  · next hf =>
    split at h
    · cases h
    · next hs => exact ⟨hf, hs⟩

/-- One call of `slstart` sends all that waits: `ser_oproc` empties the queue of the tty, so the
high-water mark never stops it. -/
theorem slstartLoop_spec (cmp : σ → List Mbuf → σ × List Mbuf) {fuel : Nat}
    (ws : List (List Nat)) (h : TxInv s)
    (hfuel : s.scFastq.length + s.ifSnd.length < fuel) :
    TxInv (slstartLoop cmp fuel ws s) ∧ (∀ b, (slstartLoop cmp fuel ws s).all b = s.all b) ∧
      ∀ b, (slstartLoop cmp fuel ws s).queue b = [] := by
  induction fuel generalizing s ws with
  | zero => exact absurd hfuel (Nat.not_lt_zero _)
  | succ fuel ih =>
    -- the call of `t_oproc` leaves an empty queue and moves no packet
    rw [slstartLoop]
    generalize hs1 : (if s.tOutq.cCc ≠ 0 then slOproc (ws.headD []) s else s) = s1
    obtain ⟨hinv, hzero, hall, hlen⟩ : TxInv s1 ∧ s1.tOutq.cCc = 0 ∧ (∀ b, s1.all b = s.all b) ∧
        s1.scFastq.length + s1.ifSnd.length < fuel + 1 := by
      subst hs1
      split
      · exact ⟨(slOproc_spec _ h).1, (slOproc_spec _ h).2, fun _ => rfl, hfuel⟩
      · next h0 => exact ⟨h, not_not.mp h0, fun _ => rfl, hfuel⟩
    rw [if_neg (by rw [hzero]; exact fun hlt => Nat.not_lt_zero _ hlt.2)]
    cases hd : slDequeue s1 with
    | none =>
      obtain ⟨hf, hs⟩ := slDequeue_none hd
      refine ⟨hinv, hall, ?_⟩
      rintro (_ | _)
      · exact hs
      · exact hf
    | some x =>
      obtain ⟨fast, m, s2⟩ := x
      obtain ⟨heq, hqueue, hcount⟩ := slDequeue_spec hd
      have hinv2 : TxInv s2 := by
        rw [heq]
        exact { hinv with }
      obtain ⟨hinv3, hall3, hempty⟩ := ih ws.tail (hinv2.send cmp fast m)
        (show s2.scFastq.length + s2.ifSnd.length < fuel by omega)
      refine ⟨hinv3, fun b => ?_, hempty⟩
      rw [hall3, ← hall]
      have hsent : s2.sent = s1.sent := by rw [heq]
      show ((s2.sent ++ [(fast, m)]).filter fun x => x.1 == b).map (·.2) ++ s2.queue b =
        (s1.sent.filter fun x => x.1 == b).map (·.2) ++ s1.queue b
      rw [hqueue b, hsent, filter_append, map_append, append_assoc]
      by_cases hb : fast = b
      · simp [hb]
      · simp [hb]

/-- The packets a run puts on one queue. -/
def TxOp.packets (fast : Bool) (ops : List TxOp) : List (List Mbuf) := ops.filterMap fun
    | .enqueue f m => if f = fast then some m else none
    | .start _ => none

theorem txRun_spec (cmp : σ → List Mbuf → σ × List Mbuf) (ops : List TxOp)
    (h : TxInv s) : TxInv (ops.foldl (txStep cmp) s) ∧
      ∀ b, (ops.foldl (txStep cmp) s).all b = s.all b ++ TxOp.packets b ops := by
  induction ops generalizing s with
  | nil => exact ⟨h, fun b => (append_nil _).symm⟩
  | cons op ops ih =>
    obtain ⟨hstep, hall⟩ : TxInv (txStep cmp s op) ∧
        ∀ b, (txStep cmp s op).all b = s.all b ++ TxOp.packets b [op] := by
      match op with
      | .enqueue fast m =>
        refine ⟨by cases fast <;> exact { h with }, ?_⟩
        cases fast <;> rintro (_ | _) <;> simp [txStep, SlTx.all, SlTx.queue, TxOp.packets]
      | .start ws =>
        obtain ⟨hinv, hall, -⟩ := slstartLoop_spec cmp ws h (Nat.lt_succ_self _)
        exact ⟨hinv, fun b => (hall b).trans (append_nil _).symm⟩
    obtain ⟨hrun, hrest⟩ := ih hstep
    refine ⟨hrun, fun b => ?_⟩
    rw [foldl_cons, hrest, hall, append_assoc, TxOp.packets, TxOp.packets, ← filterMap_append]
    rfl

end

/-! ## The receiver refines the deframer -/

section

variable {σ : Type} (unc : σ → Byte → (Nat → Byte) → Nat → Nat → σ × (Nat → Byte) × Nat × Int)
  {s : SlRx σ} {a : Abt} {e : LineIn} {es : List LineIn}

/-- The line is attached, and no packet on `ipintrq` is in the cluster of the input buffer. -/
structure SlRx.Held (s : SlRx σ) : Prop where
  attached : s.attached = true
  carrOn : s.carrOn = true
  ep : s.scEp = slbufsize
  cl_lt : s.cl < s.fresh
  apart : ∀ cl off len, Queued.cluster cl off len ∈ s.ipintrq → cl ≠ s.cl ∧ cl < s.fresh

/-- Between two characters `sc_buf` is at its place and `sc_mp` in the buffer. -/
structure SlRx.Wf (s : SlRx σ) : Prop extends s.Held where
  buf : s.scBuf = slbufsize - slmax
  mp_ge : s.scBuf ≤ s.scMp
  mp_le : s.scMp ≤ s.scEp

def SlRx.deframer (s : SlRx σ) : Deframer Byte :=
  ⟨bytesAt (s.mem s.cl) s.scBuf (s.scMp - s.scBuf), s.scEscape, s.scError⟩

def SlRx.queued (s : SlRx σ) : List (List Byte) := s.ipintrq.map (Queued.bytes s.mem)

def SlRx.abort (s : SlRx σ) : Bool × Abt := (s.debug, s.abt)

/-- The receiver is at the start of a frame, and the abort escape is where it was. -/
structure SlRx.Restarted (s s' : SlRx σ) : Prop where
  wf : s'.Wf
  deframer : s'.deframer = ⟨[], false, s.scError⟩
  abort : s'.abort = s.abort

@[simp] theorem length_bytesAt (mem : Nat → Byte) (off len : Nat) :
    (bytesAt mem off len).length = len := by
  simp [bytesAt]

theorem bytesAt_congr {mem mem' : Nat → Byte} {off len : Nat}
    (h : ∀ i, off ≤ i → i < off + len → mem i = mem' i) :
    bytesAt mem off len = bytesAt mem' off len := by
  refine map_congr_left fun i hi => ?_
  obtain ⟨h1, h2⟩ := mem_range'_1.mp hi
  exact h i h1 h2

theorem bytesAt_push (mem : Nat → Byte) (off len : Nat) (c : Byte) :
    bytesAt (Function.update mem (off + len) c) off (len + 1) = bytesAt mem off len ++ [c] := by
  have hinit : bytesAt (Function.update mem (off + len) c) off len = bytesAt mem off len :=
    bytesAt_congr fun i _ hi => Function.update_of_ne (by omega) _ _
  rw [← hinit, bytesAt, bytesAt, range'_concat, map_append]
  simp

/-- Writing to the input buffer leaves the packets on `ipintrq` as they are. -/
theorem SlRx.Held.queued_update (h : s.Held) (f : Nat → Byte) :
    s.ipintrq.map (Queued.bytes (Function.update s.mem s.cl f)) = s.queued := by
  refine map_congr_left fun q hq => ?_
  cases q with
  | small data => rfl
  | cluster cl off len =>
    show bytesAt (Function.update s.mem s.cl f cl) off len = _
    rw [Function.update_of_ne (h.apart cl off len hq).1]
    rfl

theorem SlRx.Held.newpack (h : s.Held) :
    s.Restarted (slNewpack s) ∧ (slNewpack s).queued = s.queued := by
  have hep := h.ep
  refine ⟨⟨⟨⟨h.attached, h.carrOn, hep, h.cl_lt, h.apart⟩, ?_, Nat.le_refl _, Nat.sub_le _ _⟩,
    ?_, rfl⟩, rfl⟩
  · show s.scEp - slmax = _
    rw [hep]
  · show (⟨bytesAt _ (s.scEp - slmax) (s.scEp - slmax - (s.scEp - slmax)), false, s.scError⟩ :
      Deframer Byte) = _
    rw [Nat.sub_self]
    rfl

def LineIn.Room (e : LineIn) : Prop := e.mget = true ∧ e.mclget = true ∧ e.qfull = false
deriving Decidable

theorem SlRx.Held.btom {s' : SlRx σ} {m : Queued} {len : Nat} (h : s.Held)
    (hm : slBtom s len e = some (s', m)) :
    ({ s' with ipintrq := s'.ipintrq ++ [m] } : SlRx σ).Held ∧
      (s'.scError, s'.abort) = (s.scError, s.abort) ∧
      s'.queued ++ [m.bytes s'.mem] = s.queued ++ [bytesAt (s.mem s.cl) s.scBuf len] := by
  rw [slBtom] at hm
  split_ifs at hm
  · -- the packet keeps the cluster, the receiver gets a new one
    cases hm
    refine ⟨⟨h.attached, h.carrOn, rfl, Nat.lt_succ_self _, fun cl off len' hmem => ?_⟩, rfl, rfl⟩
    have hlt : cl < s.fresh := by
      rcases mem_append.mp hmem with hmem | hmem
      · exact (h.apart cl off len' hmem).2
      · cases mem_singleton.mp hmem
        exact h.cl_lt
    exact ⟨Nat.ne_of_lt hlt, Nat.lt_succ_of_lt hlt⟩
  · cases hm
    refine ⟨{ h with apart := fun cl off len' hmem => ?_ }, rfl, rfl⟩
    rcases mem_append.mp hmem with hmem | hmem
    · exact h.apart cl off len' hmem
    · cases mem_singleton.mp hmem

/-- A packet that is handed on leaves the receiver at the start of the next one; with an mbuf, a
cluster and room it is on `ipintrq`. -/
theorem SlRx.Held.deliver (h : s.Held) (len : Nat) (e : LineIn) :
    s.Restarted (slDeliver s len e) ∧
      (e.Room → (slDeliver s len e).queued = s.queued ++ [bytesAt (s.mem s.cl) s.scBuf len]) := by
  rw [slDeliver]
  cases hm : slBtom s len e with
  | none =>
    refine ⟨h.newpack.1, fun hroom => ?_⟩
    rw [slBtom, if_pos hroom.1, if_pos hroom.2.1] at hm
    split at hm <;> cases hm
  | some x =>
    obtain ⟨s', m⟩ := x
    obtain ⟨hadd, hsame, hq⟩ := h.btom hm
    obtain ⟨herr, habt⟩ := Prod.mk.inj hsame
    dsimp only
    split
    · next hfull =>
      have h' : s'.Held :=
        { hadd with apart := fun _ _ _ hm => hadd.apart _ _ _ (mem_append_left _ hm) }
      obtain ⟨hr, -⟩ := h'.newpack
      refine ⟨⟨hr.wf, by rw [hr.deframer, herr], hr.abort.trans habt⟩, fun hroom => ?_⟩
      exact nomatch hroom.2.2.symm.trans hfull
    · obtain ⟨hr, hqueue⟩ := hadd.newpack
      refine ⟨⟨hr.wf, by rw [hr.deframer, ← herr], hr.abort.trans habt⟩, fun _ => ?_⟩
      rw [hqueue, ← hq]
      exact map_append

def IsIpv4 (p : List Byte) : Prop := p.head?.map (· &&& 0xf0) = some typeIp
deriving Decidable

/-- What goes up of the frames that are read: those of three characters or more. -/
def upFrames (l : List (List Byte)) : List (List Byte) := l.filter fun f => 3 ≤ f.length

theorem SlRx.Held.uncompressed (h : s.Held) (c : Byte) (len : Nat) (e : LineIn) :
    s.Restarted (slUncompressed unc s c len e) := by
  have hs (b : Bool) (comp : σ) (mem : Nat → Nat → Byte) (buf : Nat) :
      ({ s with scCompress := b, comp := comp, mem := mem, scBuf := buf } : SlRx σ).Held :=
    { h with }
  rw [slUncompressed]
  split
  · obtain ⟨hw, hd, ha⟩ := (hs s.scCompress _ _ _).newpack.1
    exact ⟨hw, hd, ha⟩
  · obtain ⟨hw, hd, ha⟩ := ((hs true _ _ _).deliver _ e).1
    exact ⟨hw, hd, ha⟩

theorem SlRx.Held.untag (h : s.Held) (c : Byte) :
    (slUntag s c).Held ∧ (slUntag s c).scError = s.scError ∧ (slUntag s c).abort = s.abort := by
  rw [slUntag]
  split
  · exact ⟨{ h with }, rfl, rfl⟩
  · exact ⟨h, rfl, rfl⟩

theorem SlRx.Held.notIp (h : s.Held) (c : Byte) (len : Nat) (e : LineIn) :
    s.Restarted (slNotIp unc s c len e) := by
  rw [slNotIp]
  generalize (if c &&& 0x80 ≠ 0 then typeCompressedTcp else c) = c'
  obtain ⟨hheld, herr, habt⟩ := h.untag c'
  have hgo : (slUntag s c').Restarted (if (slUntag s c').scCompress ∨ ((slUntag s c').scAutocomp ∧
      c' = typeUncompressedTcp ∧ 40 ≤ len) then slUncompressed unc (slUntag s c') c' len e
      else slNewpack (slUntag s c')) := by
    split
    · exact hheld.uncompressed unc _ _ e
    · exact hheld.newpack.1
  exact ⟨hgo.wf, by rw [hgo.deframer, herr], hgo.abort.trans habt⟩

/-- **`case FRAME_END`.** Whatever is in the buffer, the receiver is at the start of a frame
again; an IP packet is on `ipintrq`. -/
theorem SlRx.Wf.frameEnd (h : s.Wf) (e : LineIn) :
    (slFrameEnd unc s e).Wf ∧ (slFrameEnd unc s e).deframer = .fresh ∧
      (slFrameEnd unc s e).abort = s.abort ∧
      (e.Room → (s.scError = true ∨ s.deframer.acc.length < 3 ∨ IsIpv4 s.deframer.acc) →
        (slFrameEnd unc s e).queued =
          s.queued ++ upFrames (if s.scError then [] else [s.deframer.acc])) := by
  have hlen : s.deframer.acc.length = s.scMp - s.scBuf := length_bytesAt _ _ _
  by_cases herr : s.scError = true
  · have hs : ({ s with scError := false } : SlRx σ).Held := { h with }
    obtain ⟨hr, hq⟩ := hs.newpack
    rw [slFrameEnd, if_pos herr]
    exact ⟨hr.wf, hr.deframer, hr.abort, fun _ _ => by rw [if_pos herr, hq]; exact (append_nil _).symm⟩
  · have hfresh : (⟨[], false, s.scError⟩ : Deframer Byte) = .fresh := by
      rw [Bool.eq_false_iff.mpr herr]
      rfl
    rw [slFrameEnd, if_neg herr]
    by_cases hshort : s.scMp - s.scBuf < 3
    · obtain ⟨hr, hq⟩ := h.toHeld.newpack
      rw [if_pos hshort]
      refine ⟨hr.wf, hr.deframer.trans hfresh, hr.abort, fun _ _ => ?_⟩
      have hdrop : upFrames [s.deframer.acc] = [] := by simp [upFrames, hlen, hshort]
      rw [if_neg herr, hdrop, hq, append_nil]
    · dsimp only
      rw [if_neg hshort]
      -- the first character of the frame says what it is
      have hhead : s.deframer.acc.head? = some (s.mem s.cl s.scBuf) := by
        obtain ⟨n, hn⟩ : ∃ n, s.scMp - s.scBuf = n + 1 := ⟨s.scMp - s.scBuf - 1, by omega⟩
        rw [SlRx.deframer, hn, bytesAt, range'_succ]
        rfl
      by_cases hip : s.mem s.cl s.scBuf &&& 0xf0 = typeIp
      · obtain ⟨hr, hq⟩ := h.toHeld.deliver (s.scMp - s.scBuf) e
        rw [if_pos hip]
        refine ⟨hr.wf, hr.deframer.trans hfresh, hr.abort, fun hroom _ => ?_⟩
        have hkeep : upFrames [s.deframer.acc] = [s.deframer.acc] := by
          simp [upFrames, hlen, Nat.le_of_not_lt hshort]
        rw [hq hroom, if_neg herr, hkeep]
        rfl
      · rw [if_neg hip]
        have hnot : ¬ (s.scError = true ∨ s.deframer.acc.length < 3 ∨ IsIpv4 s.deframer.acc) := by
          rw [hlen, IsIpv4, hhead]
          simp [herr, hshort, hip]
        have hr := h.toHeld.notIp unc (s.mem s.cl s.scBuf &&& 0xf0) (s.scMp - s.scBuf) e
        exact ⟨hr.wf, hr.deframer.trans hfresh, hr.abort, fun _ hno => absurd hno hnot⟩

theorem slinput_err (h : s.Wf) (he : e.err = true) :
    (slinput unc s e).Wf ∧ (slinput unc s e).abort = s.abort := by
  have heq : slinput unc s e = { s with scError := true } := by
    rw [slinput, h.attached, he]
    rfl
  rw [heq]
  exact ⟨{ h with }, rfl⟩

/-- **One character.** Unless it completes an abort escape, the receiver takes it as the deframer
does, and `ipintrq` gets what that reads. -/
theorem slinput_step (h : s.Wf) (he : e.err = false)
    (ha : abtStep s.debug s.abt e.char e.now = some a) :
    (slinput unc s e).Wf ∧ (slinput unc s e).deframer = (s.deframer.step slipMarks slmax e.char).1 ∧
      (slinput unc s e).abort = (s.debug, a) ∧
      (e.Room → (∀ f ∈ (s.deframer.step slipMarks slmax e.char).2, f.length < 3 ∨ IsIpv4 f) →
        (slinput unc s e).queued =
          s.queued ++ upFrames (s.deframer.step slipMarks slmax e.char).2) := by
  have hs : ({ s with abt := a } : SlRx σ).Wf := { h with }
  have hgo : slinput unc s e = (if e.char = frameEscape then { s with abt := a, scEscape := true }
      else if e.char = frameEnd then slFrameEnd unc { s with abt := a } e
      else if s.scMp < s.scEp then
        { ({ s with abt := a } : SlRx σ).poke s.scMp (slipMarks.unstuff s.scEscape e.char) with
          scMp := s.scMp + 1, scEscape := false }
      else slNewpack { s with abt := a, scError := true }) := by
    rw [slinput, h.attached, he, h.carrOn, ha]
    rfl
  rw [hgo, Deframer.step]
  split
  · next hesc =>
    rw [if_pos (show e.char = slipMarks.fesc from hesc)]
    exact ⟨{ h with }, rfl, rfl, fun _ _ => (append_nil _).symm⟩
  · next hesc =>
    rw [if_neg (show ¬ e.char = slipMarks.fesc from hesc)]
    split
    · next hend =>
      rw [if_pos (show e.char = slipMarks.fend from hend)]
      obtain ⟨hw, hd, habt, hq⟩ := hs.frameEnd unc e
      refine ⟨hw, hd, habt, fun hroom hf => ?_⟩
      refine hq hroom ?_
      by_cases herr : s.scError = true
      · exact .inl herr
      · refine .inr (hf s.deframer.acc ?_)
        rw [show s.deframer.bad = s.scError from rfl, if_neg herr]
        exact mem_singleton_self _
    · next hend =>
      rw [if_neg (show ¬ e.char = slipMarks.fend from hend)]
      have hlen : s.deframer.acc.length = s.scMp - s.scBuf := length_bytesAt _ _ _
      have hcap : s.deframer.acc.length < slmax ↔ s.scMp < s.scEp := by
        have h1 := h.mp_ge
        rw [hlen, h.ep]
        rw [h.buf] at h1 ⊢
        have h2 : slmax ≤ slbufsize := Nat.le_add_right _ _
        omega
      split
      · next hroom =>
        rw [if_pos (hcap.mpr hroom)]
        obtain ⟨n, hn⟩ : ∃ n, s.scMp = s.scBuf + n := ⟨s.scMp - s.scBuf, by
          have := h.mp_ge
          omega⟩
        refine ⟨{ h with mp_ge := Nat.le_succ_of_le h.mp_ge, mp_le := hroom }, ?_, rfl,
          fun _ _ => ?_⟩
        · show (⟨bytesAt (Function.update s.mem s.cl (Function.update (s.mem s.cl) s.scMp
            (slipMarks.unstuff s.scEscape e.char)) s.cl) s.scBuf (s.scMp + 1 - s.scBuf), false,
            s.scError⟩ : Deframer Byte) = ⟨bytesAt (s.mem s.cl) s.scBuf (s.scMp - s.scBuf) ++
              [slipMarks.unstuff s.scEscape e.char], false, s.scError⟩
          rw [Function.update_self, hn, Nat.add_assoc, Nat.add_sub_cancel_left,
            Nat.add_sub_cancel_left, bytesAt_push]
        · exact (h.queued_update _).trans (append_nil _).symm
      · next hroom =>
        rw [if_neg (fun hlt => hroom (hcap.mp hlt))]
        have hheld : ({ s with abt := a, scError := true } : SlRx σ).Held := { h with }
        obtain ⟨hr, hq⟩ := hheld.newpack
        exact ⟨hr.wf, hr.deframer, rfl, fun _ _ => hq.trans (append_nil _).symm⟩

/-! ## Runs of the receiver -/

/-- The abort escape over a run: `none` when it is completed. Characters with an error do not
reach it. -/
def abtRun (debug : Bool) : Abt → List LineIn → Option Abt
  | a, [] => some a
  | a, e :: es =>
    if e.err then abtRun debug a es
    else
      match abtStep debug a e.char e.now with
      | none => none
      | some a => abtRun debug a es

theorem abtRun_step {debug : Bool} (he : e.err = false) (h : abtRun debug a (e :: es) ≠ none) :
    ∃ a', abtStep debug a e.char e.now = some a' ∧
      abtRun debug a (e :: es) = abtRun debug a' es := by
  rw [abtRun, he, if_neg Bool.false_ne_true] at h ⊢
  cases hs : abtStep debug a e.char e.now with
  | none => rw [hs] at h; exact absurd rfl h
  | some a' => exact ⟨a', rfl, rfl⟩

theorem abtRun_append {debug : Bool} {es es' : List LineIn}
    (h : abtRun debug a (es ++ es') ≠ none) :
    ∃ a', abtRun debug a es = some a' ∧ abtRun debug a' es' ≠ none := by
  induction es generalizing a with
  | nil => exact ⟨a, rfl, h⟩
  | cons e es ih =>
    rw [cons_append] at h
    by_cases he : e.err = true
    · rw [abtRun, if_pos he] at h ⊢
      exact ih h
    · obtain ⟨a', hs, hrun⟩ := abtRun_step (Bool.eq_false_iff.mpr he) h
      rw [abtRun, if_neg he, hs]
      exact ih (hrun ▸ h)

/-- **Any input.** The receiver stays in order whatever it reads. -/
theorem slinput_run (h : s.Wf) (ha : abtRun s.debug s.abt es = some a) :
    (es.foldl (slinput unc) s).Wf ∧ (es.foldl (slinput unc) s).abort = (s.debug, a) := by
  induction es generalizing s with
  | nil =>
    cases ha
    exact ⟨h, rfl⟩
  | cons e es ih =>
    obtain ⟨a1, hw, habt, hrest⟩ : ∃ a1, (slinput unc s e).Wf ∧
        (slinput unc s e).abort = (s.debug, a1) ∧ abtRun s.debug a1 es = some a := by
      by_cases he : e.err = true
      · rw [abtRun, if_pos he] at ha
        obtain ⟨hw, habt⟩ := slinput_err unc h he
        exact ⟨s.abt, hw, habt, ha⟩
      · have he := Bool.eq_false_iff.mpr he
        obtain ⟨a', hs, hrun⟩ := abtRun_step he (ha ▸ Option.some_ne_none a)
        obtain ⟨hw, -, habt, -⟩ := slinput_step unc h he hs
        exact ⟨a', hw, habt, hrun.symm.trans ha⟩
    obtain ⟨h1, h2⟩ := Prod.mk.inj habt
    obtain ⟨hw', habt'⟩ := ih hw (by rw [h1, h2]; exact hrest)
    exact ⟨hw', by rw [foldl_cons, habt', h1]⟩

/-- **A clean line.** The packets on `ipintrq` are the frames the deframer reads. -/
theorem slinput_clean (h : s.Wf) (he : ∀ e ∈ es, e.err = false)
    (hroom : ∀ e ∈ es, e.Room) (ha : abtRun s.debug s.abt es ≠ none)
    (hf : ∀ f ∈ (s.deframer.run slipMarks slmax (es.map (·.char))).2, f.length < 3 ∨ IsIpv4 f) :
    (es.foldl (slinput unc) s).queued =
      s.queued ++ upFrames (s.deframer.run slipMarks slmax (es.map (·.char))).2 := by
  induction es generalizing s with
  | nil => exact (append_nil _).symm
  | cons e es ih =>
    have herr := he e mem_cons_self
    obtain ⟨a, hs, hrun⟩ := abtRun_step herr ha
    rw [map_cons, Deframer.run] at hf ⊢
    obtain ⟨hw, hd, habt, hq⟩ := slinput_step unc h herr hs
    obtain ⟨h1, h2⟩ := Prod.mk.inj habt
    have hq' := hq (hroom e mem_cons_self) fun f hmem => hf f (mem_append_left _ hmem)
    rw [← hd] at hf ⊢
    have hrest := ih hw (fun e' he' => he e' (mem_cons_of_mem _ he'))
      (fun e' he' => hroom e' (mem_cons_of_mem _ he')) (by rw [h1, h2]; exact hrun ▸ ha)
      fun f hmem => hf f (mem_append_right _ hmem)
    rw [foldl_cons, hrest, hq', append_assoc]
    congr 1
    exact filter_append _ _ |>.symm

end

/-! ## Round trip -/

section

variable {σ τ : Type} (cmp : τ → List Mbuf → τ × List Mbuf)
  (unc : σ → Byte → (Nat → Byte) → Nat → Nat → σ × (Nat → Byte) × Nat × Int)

/-- A character as `slinput` gets it from a line without errors. -/
def lineChar (c : Byte) : BitVec 32 := c.toBitVec.setWidth 32

/-- The calls of `slinput` for the characters of a stream, with room for every packet. -/
def Feeds (l : List Byte) (es : List LineIn) : Prop :=
  es.map (·.c) = l.map lineChar ∧ ∀ e ∈ es, e.Room
deriving Decidable

theorem Feeds.char {l : List Byte} {es : List LineIn} (h : Feeds l es) :
    es.map (·.char) = l ∧ ∀ e ∈ es, e.err = false := by
  have hchar (c : Byte) : UInt8.ofBitVec ((lineChar c).setWidth 8) = c := by
    rw [lineChar, BitVec.setWidth_setWidth_of_le _ (by decide), BitVec.setWidth_eq]
  have herr (c : Byte) : (lineChar c &&& 0xff000000#32 != 0) = false := by
    rw [lineChar]
    generalize c.toBitVec = b
    revert b
    decide +kernel
  refine ⟨?_, fun e he => ?_⟩
  · calc es.map (·.char) = (es.map (·.c)).map fun c => UInt8.ofBitVec (c.setWidth 8) := by
          rw [List.map_map]; rfl
      _ = (l.map lineChar).map fun c => UInt8.ofBitVec (c.setWidth 8) := by rw [h.1]
      _ = l := by
        rw [List.map_map]
        exact map_id'' (fun c => hchar c) l
  · have hmem : e.c ∈ l.map lineChar := h.1 ▸ mem_map_of_mem he
    obtain ⟨c, -, hc⟩ := mem_map.mp hmem
    rw [LineIn.err, ← hc]
    exact herr c

/-- The packets that are sent: IP packets of three to `SLMAX` bytes. -/
def SlPacketOk (m : List Mbuf) : Prop := IsIpv4 (chainBytes m) ∧ 3 ≤ chainLen m ∧ chainLen m ≤ slmax
deriving Decidable

variable {s : SlRx σ}

theorem receives (h : s.Wf) (hd : s.deframer = .fresh) {tx : SlTx τ} (ht : TxInv tx)
    (hpk : ∀ x ∈ tx.sent, SlPacketOk x.2) {es : List LineIn} (hes : Feeds tx.stream es)
    (ha : abtRun s.debug s.abt es ≠ none) :
    (es.foldl (slinput unc) s).queued = s.queued ++ tx.sent.map fun x => chainBytes x.2 := by
  obtain ⟨hchars, herr⟩ := hes.char
  obtain ⟨l, hl, hstream⟩ := ht.framed
  have hok : ∀ x ∈ l, IsIpv4 x.2 ∧ 3 ≤ x.2.length ∧ x.2.length ≤ slmax := by
    intro x hx
    have hmem : x.2 ∈ tx.sent.map fun x => chainBytes x.2 := hl ▸ mem_map_of_mem hx
    obtain ⟨y, hy, hyx⟩ := mem_map.mp hmem
    rw [← hyx]
    exact hpk y hy
  have hrun : s.deframer.run slipMarks slmax (es.map (·.char)) =
      (.fresh, l.flatMap fun x => (if x.1 then [[]] else []) ++ [x.2]) := by
    rw [hd, hchars, hstream]
    exact run_wire slipMarks l fun x hx => (hok x hx).2.2
  -- the extra `FRAME_END`s are read as frames that are too short to go up
  have hup : upFrames (l.flatMap fun x => (if x.1 then [[]] else []) ++ [x.2]) = l.map (·.2) := by
    clear hrun hstream hl
    induction l with
    | nil => rfl
    | cons x l ih =>
      have hx := hok x mem_cons_self
      have hrest := ih fun y hy => hok y (mem_cons_of_mem _ hy)
      rw [upFrames] at hrest
      rw [flatMap_cons, upFrames, filter_append, hrest, map_cons]
      cases hidle : x.1 <;> simp [hx.2.1]
  have hclean := slinput_clean unc h herr hes.2 ha (by
    rw [hrun]
    intro f hmem
    obtain ⟨x, hx, hfx⟩ := mem_flatMap.mp hmem
    rcases mem_append.mp hfx with hf | hf
    · left
      split at hf
      · rw [mem_singleton.mp hf]
        decide
      · cases hf
    · right
      rw [mem_singleton.mp hf]
      exact (hok x hx).1)
  rw [hclean, hrun, hup, hl]

/-- Where the receiver is in the frame it reads. -/
def SlRx.framing (s : SlRx σ) : Bool × Bool × Nat × Nat × Nat :=
  (s.scError, s.scEscape, s.scEp, s.scBuf, s.scMp)

theorem framing_fresh (h : s.Wf) (hd : s.deframer = .fresh) :
    s.framing = (false, false, slbufsize, slbufsize - slmax, slbufsize - slmax) := by
  have hacc : (bytesAt (s.mem s.cl) s.scBuf (s.scMp - s.scBuf)).length = 0 :=
    congrArg (fun d : Deframer Byte => d.acc.length) hd
  rw [length_bytesAt] at hacc
  have hmp : s.scMp = s.scBuf := Nat.le_antisymm (Nat.sub_eq_zero_iff_le.mp hacc) h.mp_ge
  have hesc : s.scEscape = false := congrArg Deframer.esc hd
  have herr : s.scError = false := congrArg Deframer.bad hd
  rw [SlRx.framing, hmp, hesc, herr, h.ep, h.buf]

theorem resync (h : s.Wf) (garbage : List LineIn) {e : LineIn} (he : e.err = false)
    (hend : e.char = frameEnd) {a : Abt} (ha : abtRun s.debug s.abt (garbage ++ [e]) = some a) :
    ((garbage ++ [e]).foldl (slinput unc) s).Wf ∧
      ((garbage ++ [e]).foldl (slinput unc) s).deframer = .fresh ∧
      ((garbage ++ [e]).foldl (slinput unc) s).abort = (s.debug, a) := by
  obtain ⟨hw, habt⟩ := slinput_run unc h ha
  refine ⟨hw, ?_, habt⟩
  obtain ⟨a1, hg, hlast⟩ := abtRun_append (by rw [ha]; exact Option.some_ne_none a)
  obtain ⟨hw1, habt1⟩ := slinput_run unc h hg
  obtain ⟨h1, h2⟩ := Prod.mk.inj habt1
  obtain ⟨a2, hs, -⟩ := abtRun_step he hlast
  obtain ⟨-, hd, -⟩ := slinput_step unc hw1 he (by rw [h1, h2]; exact hs)
  rw [foldl_append]
  show (slinput unc _ e).deframer = _
  rw [hd, hend]
  exact step_fend slipMarks slmax _

/-- A line as `slopen` attaches it; the interface flags and what the memory holds are open. -/
def slOpened (comp : σ) (debug compress autocomp : Bool) (mem : Nat → Nat → Byte) : SlRx σ :=
  { comp, debug, scCompress := compress, scAutocomp := autocomp, mem }

theorem slOpened_wf (comp : σ) (debug compress autocomp : Bool) (mem : Nat → Nat → Byte) :
    (slOpened comp debug compress autocomp mem).Wf ∧
      (slOpened comp debug compress autocomp mem).deframer = .fresh := by
  refine ⟨⟨⟨rfl, rfl, rfl, Nat.zero_lt_one, ?_⟩, rfl, Nat.le_refl _, Nat.sub_le _ _⟩, ?_⟩
  · intro cl off len hmem
    cases hmem
  · show (⟨bytesAt _ _ (slbufsize - slmax - (slbufsize - slmax)), false, false⟩ : Deframer Byte) = _
    rfl

/-- **SLIP framing.** With header compression off on the sending side, and while no abort escape is
completed on the receiving side:

* feeding what was written to the tty queue to `slinput` puts the packets taken on `ipintrq`, in
  order and byte for byte;
* each queue is taken from in order, and a call of `slstart` leaves nothing in it;
* after any input a `FRAME_END` leaves a receiver that does not decompress as when the line was
  opened, and what is fed to it from there on is received. (`sl_uncompress_tcp` can write past
  `struct slcompress`, into `sc_bpf`, when it is given garbage.) -/
theorem slip_round_trip (txc : τ) (rxc : σ) (debug compress autocomp : Bool)
    (mem : Nat → Nat → Byte) (ops : List TxOp)
    (hpk : ∀ b, ∀ m ∈ TxOp.packets b ops, SlPacketOk m) :
    let tx := ops.foldl (txStep cmp) { comp := txc }
    let rx := slOpened rxc debug compress autocomp mem
    (∀ es, Feeds tx.stream es → abtRun debug {} es ≠ none →
      (es.foldl (slinput unc) rx).queued = tx.sent.map fun x => chainBytes x.2) ∧
    (∀ b, (tx.sent.filter fun x => x.1 == b).map (·.2) ++ tx.queue b = TxOp.packets b ops) ∧
    (∀ ws b, (slstart cmp ws tx).queue b = []) ∧
    ∀ (garbage : List LineIn) (e : LineIn), compress = false → autocomp = false →
      e.err = false → e.char = frameEnd → abtRun debug {} (garbage ++ [e]) ≠ none →
      let rx' := (garbage ++ [e]).foldl (slinput unc) rx
      rx'.framing = rx.framing ∧
      ∀ es, Feeds tx.stream es → abtRun debug {} ((garbage ++ [e]) ++ es) ≠ none →
        (es.foldl (slinput unc) rx').queued =
          rx'.queued ++ tx.sent.map fun x => chainBytes x.2 := by
  intro tx rx
  obtain ⟨hwf, hfresh⟩ := slOpened_wf rxc debug compress autocomp mem
  have hstart : TxInv ({ comp := txc } : SlTx τ) := ⟨.empty, rfl, [], rfl, rfl⟩
  obtain ⟨hinv, hall⟩ := txRun_spec cmp ops hstart
  have hall' (b : Bool) : tx.all b = TxOp.packets b ops := by
    rw [hall b]
    cases b <;> rfl
  have hok : ∀ x ∈ tx.sent, SlPacketOk x.2 := by
    intro x hx
    refine hpk x.1 x.2 ?_
    rw [← hall' x.1]
    exact mem_append_left _ (mem_map_of_mem (mem_filter.mpr ⟨hx, beq_self_eq_true x.1⟩))
  refine ⟨fun es hes ha => ?_, hall', fun ws b => ?_, fun garbage e _ _ he hend ha => ⟨?_, ?_⟩⟩
  · exact receives unc hwf hfresh hinv hok hes ha
  · exact (slstartLoop_spec cmp ws hinv (Nat.lt_succ_self _)).2.2 b
  · obtain ⟨a, ha'⟩ := Option.ne_none_iff_exists'.mp ha
    obtain ⟨hw, hd, -⟩ := resync unc hwf garbage he hend ha'
    rw [framing_fresh hw hd, framing_fresh hwf hfresh]
  · intro es hes hrest
    obtain ⟨a, ha', hes'⟩ := abtRun_append hrest
    obtain ⟨hw, hd, habt⟩ := resync unc hwf garbage he hend ha'
    obtain ⟨h₁, h₂⟩ := Prod.mk.inj habt
    exact receives unc hw hd hinv hok hes (by rw [h₁, h₂]; exact hes')

end

/-- Two packets, one of them with special characters and cut in the middle of a pair of them. -/
def slipTwo : List TxOp :=
  [.enqueue false [{ mData := [0x45, 0xc0] }, { mData := [] }, { mData := [0xdb, 0xdc] }],
    .start [], .enqueue true [{ mData := [0x46, 1, 2, 3] }], .start [[1]]]

theorem slip_round_trip_two :
    (∀ b, ∀ m ∈ TxOp.packets b slipTwo, SlPacketOk m) ∧
      (((slipTwo.foldl (txStep fun s m => (s, m)) { comp := () }).stream.map
        fun c => { c := lineChar c }).foldl (slinput fun s _ mem buf _ => (s, mem, buf, 0))
          (slOpened () true false true fun _ _ => 0)).queued =
        [[0x45, 0xc0, 0xdb, 0xdc], [0x46, 1, 2, 3]] := by
  have hpk : ∀ b, ∀ m ∈ TxOp.packets b slipTwo, SlPacketOk m := by decide +kernel
  refine ⟨hpk, ?_⟩
  rw [(slip_round_trip (fun s m => (s, m)) (fun s _ mem buf _ => (s, mem, buf, 0)) () () true
    false true (fun _ _ => 0) slipTwo hpk).1 _ (by decide +kernel) (by decide +kernel)]
  decide +kernel

/-- Three escape characters in a packet, a second apart, on a line with `IFF_DEBUG` set. -/
def slipAbort : List LineIn :=
  [⟨0xc0, 1, true, true, false⟩, ⟨0x45, 2, true, true, false⟩, ⟨0x1b, 3, true, true, false⟩,
    ⟨0x1b, 4, true, true, false⟩, ⟨0x1b, 5, true, true, false⟩, ⟨0xc0, 6, true, true, false⟩]

/-- The abort escape closes the line, and the packet is lost. -/
theorem slip_abort_loses :
    let tx := [TxOp.enqueue false [{ mData := [0x45, 0x1b, 0x1b, 0x1b] }], .start []].foldl
      (txStep fun s m => (s, m)) { comp := () }
    (∀ x ∈ tx.sent, SlPacketOk x.2) ∧ Feeds tx.stream slipAbort ∧
      (slipAbort.foldl (slinput fun s _ mem buf _ => (s, mem, buf, 0))
        (slOpened () true false true fun _ _ => 0)).queued ≠
          tx.sent.map fun x => chainBytes x.2 := by
  decide +kernel

end Anp
