import Anp.Ip.Header
import Anp.Lib.Runs

/-!
# BpfBuffer — the capture buffers of a descriptor

`net/bpf.c`: `catchpacket`, `bpfread` and `reset_d`, for a descriptor that is attached to an
interface. Two buffers take turns as store buffer, hold buffer and free buffer.

`bpfread` gives up the processor in `BPF_SLEEP` only; while it copies the hold buffer out, packets
may still come in.
-/

namespace Anp

open Runs List

/-! ## The descriptor -/

def bpfWordalign (x : Nat) : Nat := (x + 3) / 4 * 4

/-- `struct bpf_d`: `none` is a null pointer, `mem` holds the buffers. `bd_bufsize` is limited by
`BIOCSBLEN`, and `bif_hdrlen` is `BPF_WORDALIGN(hdrlen + SIZEOF_BPF_HDR) - hdrlen`. -/
structure BpfD where
  bufsize : Nat
  hdrlen : Nat
  bufsize_ge : 32 ≤ bufsize
  bufsize_le : bufsize ≤ 32768
  hdrlen_ge : 18 ≤ hdrlen
  hdrlen_le : hdrlen ≤ 21
  sbuf : Option Nat
  hbuf : Option Nat := none
  fbuf : Option Nat
  slen : Nat := 0
  hlen : Nat := 0
  immediate : Bool := false
  /-- Counters of 32 bits. -/
  rcount : Nat := 0
  dcount : Nat := 0
  mem : Nat → List Byte

/-- `ROTATE_BUFFERS(d)`. -/
def BpfD.rotate (d : BpfD) : BpfD :=
  { d with hbuf := d.sbuf, hlen := d.slen, sbuf := d.fbuf, slen := 0, fbuf := none }

/-- `struct bpf_hdr`, without padding. -/
def bpfHdr (sec usec caplen datalen hdrlen : Nat) : List Byte :=
  wrLong sec ++ wrLong usec ++ wrLong caplen ++ wrLong datalen ++ wrShort hdrlen

/-- The record for `data` at `cur`: the header, what stood in its padding, and the data. -/
def bpfPut (old : List Byte) (cur hdrlen : Nat) (hdr data : List Byte) : List Byte :=
  old.take cur ++ hdr ++ (old.drop (cur + 18)).take (hdrlen - 18) ++ data ++
    old.drop (cur + hdrlen + data.length)

/-- The number of octets of a packet that are kept. No packet comes near `2^31` octets, so that
`totlen` is as it is computed here. -/
def BpfD.caplen (d : BpfD) (pktlen snaplen : Nat) : Nat :=
  min (d.hdrlen + min snaplen pktlen) d.bufsize - d.hdrlen

def BpfD.store (d : BpfD) (cur pktlen : Nat) (ts : Nat × Nat) (data : List Byte) : BpfD :=
  match d.sbuf with
  | none => d
  | some a =>
    { d with
      mem := fun j =>
        if j = a then
          bpfPut (d.mem a) cur d.hdrlen (bpfHdr ts.1 ts.2 data.length pktlen d.hdrlen) data
        else d.mem j
      slen := cur + d.hdrlen + data.length }

/-- The packet does not fit behind what is in the store buffer. -/
def BpfD.full (d : BpfD) (caplen : Nat) : Bool :=
  decide (d.bufsize < bpfWordalign d.slen + (d.hdrlen + caplen))

/-- `catchpacket(d, pkt, pktlen, snaplen, cpfn)`, `data` being what `cpfn` copies. -/
def catchpacket (d : BpfD) (pktlen : Nat) (ts : Nat × Nat) (data : List Byte) : BpfD :=
  if d.full data.length then
    if d.fbuf = none then { d with dcount := (d.dcount + 1) % 4294967296 }
    else d.rotate.store 0 pktlen ts data
  else d.store (bpfWordalign d.slen) pktlen ts data

/-- `bpf_mcopy`; `none` is its panic. -/
def bpfMcopy : List Mbuf → Nat → Option (List Byte)
  | _, 0 => some []
  | [], _ + 1 => none
  | m :: ms, len => (bpfMcopy ms (len - min m.mLen len)).map (m.mData.take (min m.mLen len) ++ ·)

/-- `reset_d(d)`. -/
def BpfD.reset (d : BpfD) : BpfD :=
  { d with
    fbuf := d.hbuf.or d.fbuf
    hbuf := none
    slen := 0
    hlen := 0
    rcount := 0
    dcount := 0 }

/-! ## What a program reads -/

/-- A packet as it is captured: `bh_datalen` and the octets. -/
structure BpfRec where
  datalen : Nat
  data : List Byte
  deriving DecidableEq, Repr

def bpfRecAt (buf : List Byte) (off : Nat) : BpfRec :=
  { datalen := rdLong buf (off + 12)
    data := (buf.drop (off + rdShort buf (off + 16))).take (rdLong buf (off + 8)) }

/-- The records from `off` on, each `BPF_WORDALIGN(bh_hdrlen + bh_caplen)` behind the last. -/
def bpfWalk (buf : List Byte) : Nat → Nat → List BpfRec
  | 0, _ => []
  | n + 1, off =>
    if off < buf.length then
      bpfRecAt buf off ::
        bpfWalk buf n (off + bpfWordalign (rdShort buf (off + 16) + rdLong buf (off + 8)))
    else []

def bpfRecords (buf : List Byte) : List BpfRec := bpfWalk buf buf.length 0

/-! ## The system -/

/-- The descriptor and its readers: `busy` says that one copies the hold buffer, `out` are the
records returned. The rest records the run: the packets accepted, cut and in order; those neither
dropped nor flushed; the numbers dropped, flushed, and dropped since the last flush. -/
structure BpfSys where
  d : BpfD
  busy : Bool := false
  panicked : Bool := false
  out : List BpfRec := []
  accepted : List BpfRec := []
  kept : List BpfRec := []
  dropped : Nat := 0
  flushed : Nat := 0
  drops : Nat := 0

inductive BpfdOp where
  /-- `bpf_tap`; `slen` is the value of `bpf_filter`. -/
  | tap (pkt : List Byte) (slen : Nat) (ts : Nat × Nat)
  /-- `bpf_mtap`. -/
  | mtap (m : List Mbuf) (slen : Nat) (ts : Nat × Nat)
  /-- A reader comes to the test of the loop, at the call or after a wakeup. -/
  | read (resid : Nat)
  /-- The sleep of a reader ends with `EWOULDBLOCK`. -/
  | timeout
  /-- The reader that has left the loop copies, and frees the hold buffer. -/
  | uiomove
  | flush
  | setImmediate (v : Bool)

/-- A packet cut to what the filter asks for and a buffer can hold. -/
def BpfD.cut (d : BpfD) (pkt : List Byte) (slen : Nat) : BpfRec where
  datalen := pkt.length % 4294967296
  data := pkt.take (min slen (d.bufsize - d.hdrlen))

/-- The record of the run for an accepted packet: it is dropped if `bd_dcount` has changed. -/
def BpfSys.note (s : BpfSys) (r : BpfRec) (d : BpfD) : BpfSys :=
  let s' := { s with d := d, accepted := s.accepted ++ [r] }
  if d.dcount = s.d.dcount then { s' with kept := s.kept ++ [r] }
  else { s' with dropped := s.dropped + 1, drops := s.drops + 1 }

/-- `bpf_tap` and `bpf_mtap` for one descriptor: `pkt` are the octets of the packet, `copy` is
`cpfn`. -/
def BpfSys.deliver (s : BpfSys) (pkt : List Byte) (slen : Nat) (ts : Nat × Nat)
    (copy : Nat → Option (List Byte)) : BpfSys :=
  let s := { s with d := { s.d with rcount := (s.d.rcount + 1) % 4294967296 } }
  if slen = 0 then s
  else
    match copy (s.d.caplen pkt.length slen) with
    | none => { s with panicked := true }
    | some data => s.note (s.d.cut pkt slen) (catchpacket s.d pkt.length ts data)

/-- A packet comes in, a reader goes on, or the descriptor is reset. -/
def bpfdStep (s : BpfSys) : BpfdOp → BpfSys
  | .tap pkt slen ts => s.deliver pkt slen ts fun n => some (pkt.take n)
  | .mtap m slen ts => s.deliver (chainBytes m) slen ts (bpfMcopy m)
  | .read resid =>
    if s.busy ∨ resid ≠ s.d.bufsize then s
    else if s.d.hbuf ≠ none then { s with busy := true }
    else if s.d.immediate ∧ s.d.slen ≠ 0 then { s with d := s.d.rotate, busy := true }
    else s
  | .timeout =>
    if s.busy then s
    else if s.d.hbuf ≠ none then { s with busy := true }
    else if s.d.slen = 0 then s
    else { s with d := s.d.rotate, busy := true }
  | .uiomove =>
    match s.busy, s.d.hbuf with
    | true, some b =>
      { s with
        d := { s.d with fbuf := some b, hbuf := none, hlen := 0 }
        busy := false
        out := s.out ++ bpfRecords ((s.d.mem b).take s.d.hlen) }
    | _, _ => s
  | .flush =>
    if s.busy then s
    else
      { s with
        d := s.d.reset
        kept := s.out
        flushed := s.flushed + (s.kept.length - s.out.length)
        drops := 0 }
  | .setImmediate v => { s with d := { s.d with immediate := v } }

/-! ## Records in a buffer -/

/-- The octets `u` hold the records `rs`: each starts at the next word behind the one before it. -/
inductive BufHolds (hl : Nat) : List Byte → List BpfRec → Prop
  | nil : BufHolds hl [] []
  | snoc {u gap pad data : List Byte} {rs : List BpfRec} (h : BufHolds hl u rs)
      (hgap : u.length + gap.length = bpfWordalign u.length) (hpad : 18 + pad.length = hl)
      (hdata : data.length < 4294967296) (ts : Nat × Nat) (pktlen : Nat) :
      BufHolds hl (u ++ (gap ++ (bpfHdr ts.1 ts.2 data.length pktlen hl ++ (pad ++ data))))
        (rs ++ [⟨pktlen % 4294967296, data⟩])

theorem length_bpfHdr (sec usec caplen datalen hdrlen : Nat) :
    (bpfHdr sec usec caplen datalen hdrlen).length = 18 := rfl

theorem bpfWordalign_add {k : Nat} (hk : k % 4 = 0) (x : Nat) :
    bpfWordalign (k + x) = k + bpfWordalign x := by
  rw [bpfWordalign, bpfWordalign]
  omega

theorem le_bpfWordalign (x : Nat) : x ≤ bpfWordalign x := by
  rw [bpfWordalign]
  omega

theorem read_bpfHdr {caplen hdrlen : Nat} (hc : caplen < 4294967296) (hh : hdrlen < 65536)
    (sec usec datalen : Nat) (r : List Byte) :
    rdLong (bpfHdr sec usec caplen datalen hdrlen ++ r) 8 = caplen ∧
      rdLong (bpfHdr sec usec caplen datalen hdrlen ++ r) 12 = datalen % 4294967296 ∧
      rdShort (bpfHdr sec usec caplen datalen hdrlen ++ r) 16 = hdrlen := by
  have hbyte (n : Nat) : (UInt8.ofNat n).toNat = n % 256 := UInt8.toNat_ofNat'
  have hlong (n : Nat) : 65536 * (256 * (n / 65536 / 256 % 256) + n / 65536 % 256)
      + (256 * (n / 256 % 256) + n % 256) = n % 4294967296 := by omega
  refine ⟨?_, ?_, ?_⟩
  · show 65536 * (256 * (UInt8.ofNat (caplen / 65536 / 256)).toNat
        + (UInt8.ofNat (caplen / 65536)).toNat)
      + (256 * (UInt8.ofNat (caplen / 256)).toNat + (UInt8.ofNat caplen).toNat) = caplen
    simp only [hbyte, hlong]
    exact Nat.mod_eq_of_lt hc
  · show 65536 * (256 * (UInt8.ofNat (datalen / 65536 / 256)).toNat
        + (UInt8.ofNat (datalen / 65536)).toNat)
      + (256 * (UInt8.ofNat (datalen / 256)).toNat + (UInt8.ofNat datalen).toNat) = _
    simp only [hbyte, hlong]
  · show 256 * (UInt8.ofNat (hdrlen / 256)).toNat + (UInt8.ofNat hdrlen).toNat = hdrlen
    rw [hbyte, hbyte]
    omega

namespace BufHolds

variable {hl : Nat} {u : List Byte} {rs : List BpfRec}

theorem length_le (h : BufHolds hl u rs) : rs.length ≤ u.length := by
  induction h with
  | nil => exact Nat.le_refl 0
  | snoc h hgap hpad hdata ts pktlen ih =>
    simp only [length_append, length_singleton, length_bpfHdr]
    omega

theorem eq_nil (h : BufHolds hl [] rs) : rs = [] :=
  eq_nil_of_length_eq_zero (Nat.le_zero.mp h.length_le)

theorem walk_cons {v pad data w : List Byte} (hv : v.length % 4 = 0) (hpad : 18 + pad.length = hl)
    (hdata : data.length < 4294967296) (hhl : hl < 65536) (ts : Nat × Nat) (pktlen n : Nat) :
    let buf := v ++ (bpfHdr ts.1 ts.2 data.length pktlen hl ++ (pad ++ (data ++ w)))
    bpfWalk buf (n + 1) v.length = ⟨pktlen % 4294967296, data⟩ ::
      bpfWalk buf n (bpfWordalign (v.length + (hl + data.length))) := by
  intro buf
  have hdrop : buf.drop v.length = bpfHdr ts.1 ts.2 data.length pktlen hl ++ (pad ++ (data ++ w)) :=
    drop_left
  obtain ⟨hcap, hdl, hhdr⟩ := read_bpfHdr hdata hhl ts.1 ts.2 pktlen (pad ++ (data ++ w))
  rw [← hdrop, rdLong_drop] at hcap hdl
  rw [← hdrop, rdShort_drop] at hhdr
  have hlt : v.length < buf.length := by
    simp only [buf, length_append, length_bpfHdr]
    omega
  have hbody : (buf.drop (v.length + hl)).take data.length = data := by
    rw [← drop_drop, hdrop, ← append_assoc, drop_left' , take_left]
    rw [length_append, length_bpfHdr, hpad]
  rw [bpfWalk, if_pos hlt, bpfRecAt, hcap, hdl, hhdr, hbody, bpfWordalign_add hv]

theorem walk_append (h : BufHolds hl u rs) (hhl : hl < 65536) (w : List Byte) (n : Nat) :
    bpfWalk (u ++ w) (rs.length + n) 0 = rs ++ bpfWalk (u ++ w) n (bpfWordalign u.length) := by
  induction h generalizing w n with
  | nil => simp [bpfWordalign]
  | @snoc u gap pad data rs h hgap hpad hdata ts pktlen ih =>
    have hv : (u ++ gap).length % 4 = 0 := by
      rw [length_append, hgap, bpfWordalign]
      omega
    have hone := walk_cons (w := w) hv hpad hdata hhl ts pktlen n
    have hall := ih (gap ++ (bpfHdr ts.1 ts.2 data.length pktlen hl ++ (pad ++ (data ++ w)))) (n + 1)
    have hlen : (u ++ (gap ++ (bpfHdr ts.1 ts.2 data.length pktlen hl ++ (pad ++ data)))).length =
        (u ++ gap).length + (hl + data.length) := by
      simp only [length_append, length_bpfHdr]
      omega
    rw [hlen]
    simp only [length_append, length_singleton, append_assoc, hgap] at hone hall ⊢
    rw [Nat.add_assoc, Nat.add_comm 1 n, hall, hone]
    rfl

/-- **A reader of a buffer finds the records that lie in it.** -/
theorem records (h : BufHolds hl u rs) (hhl : hl < 65536) : bpfRecords u = rs := by
  obtain ⟨n, hn⟩ := Nat.exists_eq_add_of_le h.length_le
  have hwalk := h.walk_append hhl [] n
  rw [append_nil, ← hn] at hwalk
  have hend : bpfWalk u n (bpfWordalign u.length) = [] := by
    cases n with
    | zero => rfl
    | succ n => rw [bpfWalk, if_neg (Nat.not_lt.mpr (le_bpfWordalign _))]
  rw [bpfRecords, hwalk, hend, append_nil]

end BufHolds

/-! ## Storing a packet -/

theorem bpfMcopy_eq {m : List Mbuf} {n : Nat} (h : n ≤ (chainBytes m).length) :
    bpfMcopy m n = some ((chainBytes m).take n) := by
  induction m generalizing n with
  | nil =>
    obtain rfl : n = 0 := Nat.le_zero.mp h
    rfl
  | cons m ms ih =>
    cases n with
    | zero => rfl
    | succ n =>
      rw [chainBytes_cons, length_append] at h
      rw [bpfMcopy, ih (by rw [Mbuf.mLen]; omega), chainBytes_cons, take_append, Option.map_some]
      · congr 2
        · rw [Mbuf.mLen, take_eq_take_iff]
          omega
        · rw [Mbuf.mLen]
          congr 1
          omega
      · exact Nat.succ_ne_zero n

section

variable {old data hdr : List Byte} {cur hl : Nat}

theorem length_bpfPut (hh : hdr.length = 18) (hhl : 18 ≤ hl)
    (hin : cur + hl + data.length ≤ old.length) :
    (bpfPut old cur hl hdr data).length = old.length := by
  simp only [bpfPut, length_append, length_take, length_drop, hh]
  omega

theorem take_bpfPut {n : Nat} (hn : n ≤ cur) (hh : hdr.length = 18) (hhl : 18 ≤ hl)
    (hin : cur + hl + data.length ≤ old.length) :
    (bpfPut old cur hl hdr data).take (cur + hl + data.length) =
      old.take n ++ ((old.drop n).take (cur - n) ++
        (hdr ++ ((old.drop (cur + 18)).take (hl - 18) ++ data))) := by
  have hlen : (old.take cur ++ hdr ++ (old.drop (cur + 18)).take (hl - 18) ++ data).length =
      cur + hl + data.length := by
    simp only [length_append, length_take, length_drop, hh]
    omega
  have hcur : old.take cur = old.take n ++ (old.drop n).take (cur - n) := by
    rw [← take_add, Nat.add_sub_cancel' hn]
  rw [bpfPut, ← hlen, take_left, hcur]
  simp only [append_assoc]

end

/-- The buffers of a descriptor: `a` stores the records `S`; the other one, `b`, is held with the
records `H`, or it is free. -/
structure BpfD.Holds (d : BpfD) (a b : Nat) (H S : List BpfRec) : Prop where
  ne : a ≠ b
  sbuf : d.sbuf = some a
  turn : (d.hbuf = some b ∧ d.fbuf = none) ∨ (d.hbuf = none ∧ d.fbuf = some b ∧ d.hlen = 0)
  size_a : (d.mem a).length = d.bufsize
  size_b : (d.mem b).length = d.bufsize
  slen_le : d.slen ≤ d.bufsize
  hlen_le : d.hlen ≤ d.bufsize
  store : BufHolds d.hdrlen ((d.mem a).take d.slen) S
  hold : BufHolds d.hdrlen ((d.mem b).take d.hlen) H

namespace BpfD.Holds

variable {d : BpfD} {a b : Nat} {H S : List BpfRec}

section

variable (h : d.Holds a b H S)
include h

theorem put {data : List Byte}
    (hfit : bpfWordalign d.slen + d.hdrlen + data.length ≤ d.bufsize) (pktlen : Nat)
    (ts : Nat × Nat) :
    (d.store (bpfWordalign d.slen) pktlen ts data).Holds a b H
      (S ++ [⟨pktlen % 4294967296, data⟩]) := by
  have hge := d.hdrlen_ge
  have hle := d.bufsize_le
  have hh := length_bpfHdr ts.1 ts.2 data.length pktlen d.hdrlen
  have hin := h.size_a ▸ hfit
  have hslen := le_bpfWordalign d.slen
  have hst : d.store (bpfWordalign d.slen) pktlen ts data =
      { d with
        mem := fun j =>
          if j = a then
            bpfPut (d.mem a) (bpfWordalign d.slen) d.hdrlen
              (bpfHdr ts.1 ts.2 data.length pktlen d.hdrlen) data
          else d.mem j
        slen := bpfWordalign d.slen + d.hdrlen + data.length } := by
    simp only [BpfD.store, h.sbuf]
  rw [hst]
  refine ⟨h.ne, h.sbuf, h.turn, ?_, ?_, hfit, h.hlen_le, ?_, ?_⟩ <;> dsimp only
  · rw [if_pos rfl, length_bpfPut hh hge hin, h.size_a]
  · rw [if_neg h.ne.symm, h.size_b]
  · rw [if_pos rfl, take_bpfPut hslen hh hge hin]
    refine .snoc h.store ?_ ?_ (by omega) ts pktlen
    · rw [length_take, length_take, length_drop, h.size_a, Nat.min_eq_left h.slen_le]
      omega
    · rw [length_take, length_drop, h.size_a]
      omega
  · rw [if_neg h.ne.symm]
    exact h.hold

theorem rotate (hfree : d.hbuf = none) : H = [] ∧ d.rotate.Holds b a S [] := by
  rcases h.turn with ⟨hb, -⟩ | ⟨-, hf, hlen⟩
  · rw [hb] at hfree
    cases hfree
  · have hH := h.hold
    rw [hlen, take_zero] at hH
    exact ⟨hH.eq_nil, h.ne.symm, hf, .inl ⟨h.sbuf, rfl⟩, h.size_b, h.size_a, Nat.zero_le _,
      h.slen_le, .nil, h.store⟩

/-- **`catchpacket` stores the packet behind the others, or counts it.** -/
theorem catchpacket {data : List Byte}
    (hfit : d.hdrlen + data.length ≤ d.bufsize) (pktlen : Nat) (ts : Nat × Nat) :
    (Anp.catchpacket d pktlen ts data = { d with dcount := (d.dcount + 1) % 4294967296 }) ∨
      ((Anp.catchpacket d pktlen ts data).dcount = d.dcount ∧
        ((Anp.catchpacket d pktlen ts data).hbuf = none → d.hbuf = none) ∧
        ∃ a' b' H' S', (Anp.catchpacket d pktlen ts data).Holds a' b' H' S' ∧
          H' ++ S' = H ++ S ++ [⟨pktlen % 4294967296, data⟩]) := by
  have hst (d : BpfD) (cur : Nat) : (d.store cur pktlen ts data).dcount = d.dcount ∧
      (d.store cur pktlen ts data).hbuf = d.hbuf := by
    rw [BpfD.store]
    split <;> exact ⟨rfl, rfl⟩
  rw [Anp.catchpacket]
  split_ifs with hfull hf
  · exact .inl rfl
  · have hnone : d.hbuf = none := by
      rcases h.turn with ⟨-, hnf⟩ | ⟨hb, -⟩
      · exact absurd hnf hf
      · exact hb
    obtain ⟨rfl, hr⟩ := h.rotate hnone
    have hzero : bpfWordalign d.rotate.slen = 0 := by simp [BpfD.rotate, bpfWordalign]
    have hempty : bpfWordalign d.rotate.slen + d.rotate.hdrlen + data.length ≤ d.rotate.bufsize := by
      rw [hzero, Nat.zero_add]
      exact hfit
    have hput := hr.put hempty pktlen ts
    rw [hzero] at hput
    exact .inr ⟨(hst _ _).1, fun _ => hnone, b, a, S, _, hput, rfl⟩
  · refine .inr ⟨(hst _ _).1, fun hb => (hst _ _).2 ▸ hb, a, b, H, _, h.put ?_ pktlen ts, ?_⟩
    · simp only [BpfD.full, decide_eq_true_eq] at hfull
      omega
    · rw [append_assoc]

theorem counts (r c : Nat) (i : Bool) :
    { d with rcount := r, dcount := c, immediate := i : BpfD }.Holds a b H S :=
  { h with }

theorem free :
    { d with fbuf := some b, hbuf := none, hlen := 0 : BpfD }.Holds a b [] S :=
  ⟨h.ne, h.sbuf, .inr ⟨rfl, rfl, rfl⟩, h.size_a, h.size_b, h.slen_le, Nat.zero_le _, h.store, .nil⟩

theorem reset : d.reset.Holds a b [] [] := by
  refine ⟨h.ne, h.sbuf, .inr ⟨rfl, ?_, rfl⟩, h.size_a, h.size_b, Nat.zero_le _, Nat.zero_le _, .nil,
    .nil⟩
  rcases h.turn with ⟨hb, hf⟩ | ⟨hb, hf, -⟩ <;> simp [BpfD.reset, hb, hf]

end

end BpfD.Holds

/-! ## Runs -/

/-- What holds in every state: the reads and the buffers have the packets kept, and the others are
counted. -/
structure BpfInv (s : BpfSys) : Prop where
  bufs : ∃ a b H S, s.d.Holds a b H S ∧ s.out ++ (H ++ S) = s.kept
  busy : s.busy = true → s.d.hbuf ≠ none
  panicked : s.panicked = false
  sub : s.kept.Sublist s.accepted
  count : s.accepted.length = s.kept.length + s.dropped + s.flushed
  dcount : s.d.dcount = s.drops % 4294967296

namespace BpfInv

variable {s : BpfSys}

section

variable (h : BpfInv s)
include h

theorem counts (r : Nat) (i : Bool) :
    BpfInv { s with d := { s.d with rcount := r, immediate := i } } := by
  obtain ⟨a, b, H, S, hb, hk⟩ := h.bufs
  exact ⟨⟨a, b, H, S, hb.counts r s.d.dcount i, hk⟩, h.busy, h.panicked, h.sub, h.count, h.dcount⟩

theorem note {data : List Byte} (hfit : s.d.hdrlen + data.length ≤ s.d.bufsize)
    (pktlen : Nat) (ts : Nat × Nat) :
    BpfInv (s.note ⟨pktlen % 4294967296, data⟩ (catchpacket s.d pktlen ts data)) := by
  obtain ⟨a, b, H, S, hb, hk⟩ := h.bufs
  rw [BpfSys.note]
  rcases hb.catchpacket hfit pktlen ts with hc | ⟨hc, hbusy, a', b', H', S', hb', hk'⟩
  · have hne : (catchpacket s.d pktlen ts data).dcount ≠ s.d.dcount := by
      rw [hc, h.dcount]
      dsimp only
      omega
    rw [if_neg hne, hc]
    refine ⟨⟨a, b, H, S, hb.counts s.d.rcount _ s.d.immediate, hk⟩, h.busy, h.panicked,
      h.sub.trans (sublist_append_left _ _), ?_, ?_⟩
    · have hcount := h.count
      simp only [length_append, length_singleton]
      omega
    · have hd := h.dcount
      dsimp only
      omega
  · rw [if_pos hc]
    refine ⟨⟨a', b', H', S', hb', ?_⟩, fun hx hn => h.busy hx (hbusy hn), h.panicked,
      h.sub.append (.refl _), ?_, hc.trans h.dcount⟩
    · show s.out ++ (H' ++ S') = s.kept ++ [_]
      rw [hk', ← hk, ← append_assoc]
    · have hcount := h.count
      simp only [length_append, length_singleton]
      omega

theorem deliver {pkt : List Byte} {copy : Nat → Option (List Byte)}
    (hcopy : ∀ n ≤ pkt.length, copy n = some (pkt.take n)) (slen : Nat) (ts : Nat × Nat) :
    BpfInv (s.deliver pkt slen ts copy) := by
  have h1 := h.counts ((s.d.rcount + 1) % 4294967296) s.d.immediate
  rw [BpfSys.deliver]
  split_ifs
  · exact h1
  · have hle := s.d.bufsize_ge
    have hge := s.d.hdrlen_le
    have hcap : s.d.caplen pkt.length slen = min (min slen pkt.length) (s.d.bufsize - s.d.hdrlen) := by
      rw [BpfD.caplen]
      omega
    have hcut : s.d.cut pkt slen = ⟨pkt.length % 4294967296, pkt.take (s.d.caplen pkt.length slen)⟩ := by
      rw [BpfD.cut, hcap]
      congr 1
      rw [take_eq_take_iff]
      omega
    have hc := hcopy (s.d.caplen pkt.length slen) (by omega)
    have hfit : s.d.hdrlen + (pkt.take (s.d.caplen pkt.length slen)).length ≤ s.d.bufsize := by
      rw [length_take]
      omega
    have hn := h1.note hfit pkt.length ts
    rw [← hcut] at hn
    simp only [BpfD.caplen] at hc hn ⊢
    rw [hc]
    exact hn

theorem rotate (hfree : s.d.hbuf = none) :
    BpfInv { s with d := s.d.rotate, busy := true } := by
  obtain ⟨a, b, H, S, hb, hk⟩ := h.bufs
  obtain ⟨rfl, hr⟩ := hb.rotate hfree
  refine ⟨⟨b, a, S, [], hr, by rw [← hk]; simp⟩, fun _ => ?_, h.panicked, h.sub, h.count, h.dcount⟩
  simp [BpfD.rotate, hb.sbuf]

theorem begin (hheld : s.d.hbuf ≠ none) : BpfInv { s with busy := true } :=
  ⟨h.bufs, fun _ => hheld, h.panicked, h.sub, h.count, h.dcount⟩

theorem uiomove {b : Nat} (hb : s.d.hbuf = some b) :
    BpfInv { s with
      d := { s.d with fbuf := some b, hbuf := none, hlen := 0 }
      busy := false
      out := s.out ++ bpfRecords ((s.d.mem b).take s.d.hlen) } := by
  obtain ⟨a, b', H, S, hold, hk⟩ := h.bufs
  have hle := s.d.hdrlen_le
  obtain rfl : b' = b := by
    rcases hold.turn with ⟨hb', -⟩ | ⟨hb', -⟩ <;> rw [hb] at hb' <;> cases hb'
    rfl
  refine ⟨⟨a, b', [], S, hold.free, ?_⟩, nofun, h.panicked, h.sub, h.count, h.dcount⟩
  rw [hold.hold.records (by omega), ← hk, nil_append, append_assoc]

theorem flush (hidle : s.busy = false) :
    BpfInv { s with
      d := s.d.reset
      kept := s.out
      flushed := s.flushed + (s.kept.length - s.out.length)
      drops := 0 } := by
  obtain ⟨a, b, H, S, hb, hk⟩ := h.bufs
  have hsub : s.out.Sublist s.kept := hk ▸ sublist_append_left _ _
  refine ⟨⟨a, b, [], [], hb.reset, by simp⟩, fun hx => ?_, h.panicked, hsub.trans h.sub, ?_, rfl⟩
  · rw [hidle] at hx
    cases hx
  · have hcount := h.count
    have hle := hsub.length_le
    dsimp only
    omega

theorem step (op : BpfdOp) : BpfInv (bpfdStep s op) := by
  cases op with
  | tap pkt slen ts => exact h.deliver (fun _ _ => rfl) slen ts
  | mtap m slen ts => exact h.deliver (fun _ hn => bpfMcopy_eq hn) slen ts
  | read resid =>
    simp only [bpfdStep]
    split_ifs with h1 h2 h3
    · exact h
    · exact h.begin h2
    · exact h.rotate (not_ne_iff.mp h2)
    · exact h
  | timeout =>
    simp only [bpfdStep]
    split_ifs with h1 h2 h3
    · exact h
    · exact h.begin h2
    · exact h
    · exact h.rotate (not_ne_iff.mp h2)
  | uiomove =>
    simp only [bpfdStep]
    split
    · exact h.uiomove ‹_›
    · exact h
  | flush =>
    simp only [bpfdStep]
    split_ifs with hbusy
    · exact h
    · exact h.flush (Bool.eq_false_iff.mpr hbusy)
  | setImmediate v => exact h.counts s.d.rcount v

end

end BpfInv

/-- A descriptor that has just been attached: two buffers, one of them free, and nothing in
them. -/
structure BpfSys.Fresh (s : BpfSys) : Prop where
  bufs : ∃ a b, a ≠ b ∧ s.d.sbuf = some a ∧ s.d.fbuf = some b ∧
    (s.d.mem a).length = s.d.bufsize ∧ (s.d.mem b).length = s.d.bufsize
  empty : s = { d := { s.d with hbuf := none, slen := 0, hlen := 0, dcount := 0 } }

theorem BpfInv.init {s : BpfSys} (h : s.Fresh) : BpfInv s := by
  obtain ⟨⟨a, b, hne, hs, hf, ha, hb⟩, hempty⟩ := h
  rw [hempty]
  exact ⟨⟨a, b, [], [], ⟨hne, hs, .inr ⟨rfl, hf, rfl⟩, ha, hb, Nat.zero_le _, Nat.zero_le _, .nil,
    .nil⟩, rfl⟩, nofun, rfl, .refl _, rfl, rfl⟩

def BpfD.recordsIn (d : BpfD) (buf : Option Nat) (len : Nat) : List BpfRec :=
  match buf with
  | none => []
  | some a => bpfRecords ((d.mem a).take len)

def BpfReaches : BpfSys → Prop := Reach BpfSys.Fresh (By bpfdStep fun _ _ => True)

/-- **No packet is lost uncounted.** In every run the store buffer and one of the other two are
there and distinct, no length exceeds the buffer, and the records returned, followed by those in the
hold and the store buffer, are the packets accepted but for those counted as dropped or flushed. -/
theorem bpf_lossless {s : BpfSys} (h : BpfReaches s) :
    (∃ a b, a ≠ b ∧ s.d.sbuf = some a ∧
        ((s.d.hbuf = some b ∧ s.d.fbuf = none) ∨ (s.d.hbuf = none ∧ s.d.fbuf = some b))) ∧
      s.d.slen ≤ s.d.bufsize ∧ s.d.hlen ≤ s.d.bufsize ∧ s.panicked = false ∧
      s.out ++ (s.d.recordsIn s.d.hbuf s.d.hlen ++ s.d.recordsIn s.d.sbuf s.d.slen) = s.kept ∧
      s.kept.Sublist s.accepted ∧
      s.accepted.length = s.kept.length + s.dropped + s.flushed ∧
      s.d.dcount = s.drops % 4294967296 := by
  have hinv : BpfInv s := h.ops (fun _ => BpfInv.init) fun _ op hs _ => hs.step op
  obtain ⟨a, b, H, S, hb, hk⟩ := hinv.bufs
  have hle := s.d.hdrlen_le
  have hS : s.d.recordsIn s.d.sbuf s.d.slen = S := by
    rw [hb.sbuf]
    exact hb.store.records (by omega)
  have hH : s.d.recordsIn s.d.hbuf s.d.hlen = H := by
    rcases hb.turn with ⟨hh, -⟩ | ⟨hh, -⟩
    · rw [hh]
      exact hb.hold.records (by omega)
    · rw [hh, (hb.rotate hh).1]
      rfl
  refine ⟨⟨a, b, hb.ne, hb.sbuf, ?_⟩, hb.slen_le, hb.hlen_le, hinv.panicked, ?_, hinv.sub,
    hinv.count, hinv.dcount⟩
  · exact hb.turn.imp id fun ⟨hh, hf, _⟩ => ⟨hh, hf⟩
  · rw [hS, hH, hk]

/-- A new descriptor with two buffers of 64 octets, on an interface without a link header. -/
def bpfSmall : BpfSys where
  d :=
    { bufsize := 64, hdrlen := 20
      bufsize_ge := by decide, bufsize_le := by decide, hdrlen_ge := by decide
      hdrlen_le := by decide
      sbuf := some 0, fbuf := some 1, mem := fun _ => List.replicate 64 0 }

/-- Five packets of ten octets: two fill a buffer, the fifth is dropped, the first two are read. -/
def bpfFive : List BpfdOp :=
  List.replicate 5 (.tap (List.replicate 10 7) 8 (0, 0)) ++ [.read 64, .uiomove]

theorem bpf_lossless_five :
    (bpfFive.foldl bpfdStep bpfSmall).out = List.replicate 2 ⟨10, List.replicate 8 7⟩ ∧
      (bpfFive.foldl bpfdStep bpfSmall).d.dcount = 1 ∧
      (bpfFive.foldl bpfdStep bpfSmall).kept.length = 4 := by
  have hstart : BpfReaches bpfSmall := .start ⟨⟨0, 1, by decide, rfl, rfl, rfl, rfl⟩, rfl⟩
  have h := bpf_lossless (hstart.foldl (l := bpfFive) (MeetsAll.trivial _ _))
  have hcount : (bpfFive.foldl bpfdStep bpfSmall).accepted.length = 5 := by decide +kernel
  refine ⟨by decide +kernel, by decide +kernel, ?_⟩
  have hd : (bpfFive.foldl bpfdStep bpfSmall).dropped = 1 ∧
      (bpfFive.foldl bpfdStep bpfSmall).flushed = 0 := by decide +kernel
  have hk := h.2.2.2.2.2.2.1
  omega

end Anp
