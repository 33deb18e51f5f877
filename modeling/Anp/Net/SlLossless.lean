import Anp.Lib.Links
import Anp.Net.SlHeader
import Mathlib.Data.List.GetD

/-!
# SlLossless — packets over a line with header compression

Both ends keep the last header of every connection. `VjSync` says that they keep the same ones, and a
packet then comes out as it went in.
-/

namespace Anp

open Links Octets OnesSum Runs List

variable {c : Byte × List Byte} {r t : Cstate} {frame l out : List Byte} {m : Mem} {bufp i o : Nat}
  {comp : SlCompress} {rx : SlRx SlCompress}

/-! ## The packets of the line -/

def hdrLen (ip : Mem) : Nat := 4 * (ipHl ip + thOff ip (4 * ipHl ip))

/-- The header of a TCP/IP packet, without bits that have no meaning. -/
@[mk_iff]
structure TcpIpHeader (ip : Mem) : Prop where
  version : (ip 0).toNat / 16 = 4
  hl : 5 ≤ ipHl ip
  off : 5 ≤ thOff ip (4 * ipHl ip)
  proto : ip 9 = ipprotoTcp
  x2 : (ip (4 * ipHl ip + 12)).toNat % 16 = 0
  flags : (ip (4 * ipHl ip + 13)).toNat < 64

/-- A packet, and whether its connection may be left out (`compress_cid`). -/
structure VjPacket where
  compressCid : Bool
  m : List Mbuf

variable {p : VjPacket}

/-- The data of the first mbuf, the memory `ip` points to, and the whole packet. -/
def VjPacket.first (p : VjPacket) : List Byte := (p.m.head?.map (·.mData)).getD []
def VjPacket.ip (p : VjPacket) : Mem := octetsOf p.first
def VjPacket.bytes (p : VjPacket) : List Byte := chainBytes p.m

/-- The headers are in the first mbuf, `ip_len` is the length of the packet, and `ip_sum` is the
checksum. -/
@[mk_iff]
structure VjPacket.Wf (p : VjPacket) : Prop where
  header : TcpIpHeader p.ip
  contiguous : hdrLen p.ip ≤ p.first.length
  len : (rd16 p.ip 2).toNat = p.bytes.length
  sum : rd16 p.ip 10 = ipCksum p.ip

/-- The two ends of a line. -/
structure VjLink where
  tx : SlCompress
  rx : SlRx SlCompress

variable {s : VjLink}

/-- Both ends after `sl_compress_init`, compression on; `mem` is what is in the clusters. -/
def vjStart (mem : Nat → Nat → Byte) : VjLink where
  tx := slCompressInit
  rx := slOpened slCompressInit false true true mem

/-- A frame stands in the input buffer when `FRAME_END` comes in. -/
def slFrameIn (rx : SlRx SlCompress) (frame : List Byte) : SlRx SlCompress :=
  slFrameEnd slUncompressTcp
    { rx with
      mem := Function.update rx.mem rx.cl
        (copy (rx.mem rx.cl) rx.scMp (octetsOf frame) 0 frame.length)
      scMp := rx.scMp + frame.length }
    { c := lineChar frameEnd }

/-- A packet goes over the line: the sender compresses and tags it as `slstart` does, the receiver
finds the frame in its input buffer when `FRAME_END` comes in. -/
def vjStep (s : VjLink) (p : VjPacket) : VjLink :=
  let r := slCmp p.compressCid s.tx p.m
  ⟨r.1, slFrameIn s.rx (chainBytes r.2)⟩

/-- What comes out for it; nothing, if a header ran over the storage it has. -/
def vjOut (s : VjLink) (p : VjPacket) : Option (List Byte) :=
  let s' := vjStep s p
  if s'.tx.overrun ∨ s'.rx.comp.overrun then none
  else
    match s'.rx.ipintrq.drop s.rx.ipintrq.length with
    | [q] => some (q.bytes s'.rx.mem)
    | _ => none

def vjRun : VjLink → List VjPacket → List (Option (List Byte))
  | _, [] => []
  | s, p :: ps => vjOut s p :: vjRun (vjStep s p) ps

/-! ## The receiver -/

structure RxReady (rx : SlRx SlCompress) : Prop where
  error : rx.scError = false
  compress : rx.scCompress = true
  ep : rx.scEp = slbufsize
  buf : rx.scBuf = slbufsize - slmax
  mp : rx.scMp = rx.scBuf

structure Received (rx rx' : SlRx SlCompress) (comp : SlCompress) (out : List Byte) : Prop where
  queue : ∃ q, rx'.ipintrq = rx.ipintrq ++ [q] ∧ q.bytes rx'.mem = out
  comp : rx'.comp = comp
  ready : RxReady rx'

theorem slDeliver_received (rx : SlRx SlCompress) (herr : rx.scError = false)
    (hcomp : rx.scCompress = true) (hep : rx.scEp = slbufsize) (len : Nat) :
    Received rx (slDeliver rx len { c := lineChar frameEnd }) rx.comp
      (bytesAt (rx.mem rx.cl) rx.scBuf len) := by
  rw [slDeliver, slBtom, if_pos rfl]
  by_cases hlen : mhlen ≤ len
  · rw [if_pos hlen, if_pos rfl]
    exact ⟨⟨_, rfl, rfl⟩, rfl, herr, hcomp, rfl, rfl, rfl⟩
  · rw [if_neg hlen]
    refine ⟨⟨_, rfl, rfl⟩, rfl, herr, hcomp, hep, ?_, rfl⟩
    show rx.scEp - slmax = _
    rw [hep]

theorem bytesAt_of_holds {mem : Mem} (h : Holds mem o l) :
    bytesAt mem o l.length = l :=
  holds_map_range' h

theorem slUncompressed_received (rx : SlRx SlCompress) (herr : rx.scError = false)
    (hep : rx.scEp = slbufsize) {c : Byte} {len : Nat} {mem : Mem}
    (hunc : slUncompressTcp rx.comp c (rx.mem rx.cl) rx.scBuf len = (comp, mem, o, (out.length : Int)))
    (hout : Holds mem o out) (hpos : out ≠ []) :
    Received rx (slUncompressed slUncompressTcp rx c len { c := lineChar frameEnd }) comp out := by
  have hlen : 0 < out.length := length_pos_iff.mpr hpos
  rw [slUncompressed, hunc]
  dsimp only
  rw [if_neg (by omega), Int.toNat_natCast]
  have hrec := slDeliver_received { rx with
    comp := comp, mem := Function.update rx.mem rx.cl mem, scBuf := o, scCompress := true }
    herr rfl hep out.length
  dsimp only at hrec
  rw [Function.update_self, bytesAt_of_holds hout] at hrec
  exact { hrec with }

theorem holds_frame (mem : Mem) (o : Nat) (frame : List Byte) :
    Holds (copy mem o (octetsOf frame) 0 frame.length) o frame := by
  have h : Holds (octetsOf frame) 0 frame := by
    rw [holds_iff]
    intro i hi
    rw [Nat.zero_add, octetsOf, getD_eq_getElem _ _ hi]
  exact h.copy o

def slLoaded (rx : SlRx SlCompress) (frame : List Byte) : SlRx SlCompress :=
  { rx with
    mem := Function.update rx.mem rx.cl
      (copy (rx.mem rx.cl) rx.scBuf (octetsOf frame) 0 frame.length)
    scMp := rx.scBuf + frame.length }

theorem slLoaded_holds (rx : SlRx SlCompress) (frame : List Byte) :
    Holds ((slLoaded rx frame).mem rx.cl) rx.scBuf frame := by
  show Holds (Function.update rx.mem rx.cl _ rx.cl) rx.scBuf frame
  rw [Function.update_self]
  exact holds_frame (rx.mem rx.cl) rx.scBuf frame

theorem slFrameIn_eq (hr : RxReady rx) (hlen : 3 ≤ frame.length) :
    slFrameIn rx frame =
      if octetsOf frame 0 &&& 0xf0 = typeIp then
        slDeliver (slLoaded rx frame) frame.length { c := lineChar frameEnd }
      else
        slNotIp slUncompressTcp (slLoaded rx frame) (octetsOf frame 0 &&& 0xf0) frame.length
          { c := lineChar frameEnd } := by
  have h0 : (slLoaded rx frame).mem (slLoaded rx frame).cl (slLoaded rx frame).scBuf =
      octetsOf frame 0 := by
    have hfirst := holds_iff.mp (slLoaded_holds rx frame) 0 (by omega)
    rw [octetsOf, getD_eq_getElem _ _ (by omega)]
    exact hfirst
  have hsub : (slLoaded rx frame).scMp - (slLoaded rx frame).scBuf = frame.length :=
    Nat.add_sub_cancel_left ..
  have herr : (slLoaded rx frame).scError = false := hr.error
  rw [slFrameIn, hr.mp]
  show slFrameEnd slUncompressTcp (slLoaded rx frame) _ = _
  rw [slFrameEnd, herr, if_neg Bool.false_ne_true, hsub, if_neg (by omega), h0]

theorem slFrameIn_ip (hr : RxReady rx) (hlen : 3 ≤ frame.length)
    (htype : octetsOf frame 0 &&& 0xf0 = typeIp) :
    Received rx (slFrameIn rx frame) rx.comp frame := by
  have hrec := slDeliver_received (slLoaded rx frame) hr.error hr.compress hr.ep frame.length
  have hbytes : bytesAt ((slLoaded rx frame).mem rx.cl) rx.scBuf frame.length = frame :=
    bytesAt_of_holds (slLoaded_holds rx frame)
  rw [slFrameIn_eq hr hlen, if_pos htype]
  obtain ⟨q, hq, hout⟩ := hrec.queue
  exact ⟨⟨q, hq, hout.trans hbytes⟩, hrec.comp, hrec.ready⟩

theorem slUntag_holds (rx : SlRx SlCompress) (hne : frame ≠ [])
    (h : Holds (rx.mem rx.cl) rx.scBuf frame) (c : Byte) :
    ∃ mem, slUntag rx c = { rx with mem } ∧ Holds (mem rx.cl) rx.scBuf
      (if c = typeUncompressedTcp then frame.modifyHead (· &&& 0x4f) else frame) := by
  rw [slUntag]
  split
  · refine ⟨_, rfl, ?_⟩
    rw [Function.update_self]
    cases frame with
    | nil => exact absurd rfl hne
    | cons b l =>
      refine ⟨?_, ?_⟩
      · rw [Function.update_self, h.1]
      · refine Holds.of_same h.2 fun i hlo _ => ?_
        rw [Function.update_of_ne (by omega)]
  · exact ⟨rx.mem, rfl, h⟩

theorem slFrameIn_tcp (hr : RxReady rx) (hlen : 3 ≤ frame.length) {c : Byte}
    (hip : octetsOf frame 0 &&& 0xf0 ≠ typeIp)
    (htype : (if octetsOf frame 0 &&& 0xf0 &&& 0x80 ≠ 0 then typeCompressedTcp
      else octetsOf frame 0 &&& 0xf0) = c) :
    ∃ m, Holds m rx.scBuf (if c = typeUncompressedTcp then
        frame.modifyHead (· &&& 0x4f) else frame) ∧
      ∀ comp mem o out, slUncompressTcp rx.comp c m rx.scBuf frame.length =
          (comp, mem, o, ((out : List Byte).length : Int)) →
        Holds mem o out → out ≠ [] → Received rx (slFrameIn rx frame) comp out := by
  have hne : frame ≠ [] := length_pos_iff.mp (by omega)
  obtain ⟨mem, huntag, hheld⟩ := slUntag_holds (slLoaded rx frame) hne (slLoaded_holds rx frame) c
  refine ⟨_, hheld, fun comp mem' o out heq hout hpos => ?_⟩
  have hrec := slUncompressed_received { slLoaded rx frame with mem } hr.error hr.ep heq hout hpos
  rw [slFrameIn_eq hr hlen, if_neg hip, slNotIp, htype, huntag, if_pos (.inl hr.compress)]
  exact { hrec with }

/-! ## The sender -/

theorem setNext_apply (t : Nat → Cstate) (i n j : Nat) :
    setNext t i n j = { t j with csNext := if j = i then n else (t j).csNext } := by
  rw [setNext]
  by_cases h : j = i
  · rw [h, Function.update_self, if_pos rfl]
  · rw [Function.update_of_ne h, if_neg h]

/-- The links go round, from `last_cs` through every other slot once and back. -/
def LinksOk (comp : SlCompress) : Prop :=
  ∃ l, LinkRing (fun i => (comp.tstate i).csNext) comp.lastCs l ∧
    (comp.lastCs :: l).Perm (List.range maxStates)

/-- The walk from `lcs` to `lastcs`: two slots of it, one behind the other. -/
theorem slSearch_spec {t : Nat → Cstate} (ip : Mem) (th : Nat) {lastcs fuel lcs : Nat}
    {u : List Nat} (h : (lcs :: (u ++ [lastcs])).IsChain fun i j => (t i).csNext = j)
    (hu : lastcs ∉ u) (hf : u.length < fuel) :
    ((slSearch t ip th lastcs fuel lcs).1 = true →
        csMatch ip th (t (slSearch t ip th lastcs fuel lcs).2.2) = true) ∧
      ((slSearch t ip th lastcs fuel lcs).1 = false →
        (slSearch t ip th lastcs fuel lcs).2.2 = lastcs) ∧
      ∃ a b, lcs :: (u ++ [lastcs]) = a ++ (slSearch t ip th lastcs fuel lcs).2.1 ::
        (slSearch t ip th lastcs fuel lcs).2.2 :: b := by
  obtain ⟨fuel, rfl⟩ : ∃ k, fuel = k + 1 := ⟨fuel - 1, by omega⟩
  induction u generalizing lcs fuel with
  | nil =>
    obtain ⟨hnext, -⟩ := isChain_cons_cons.mp h
    rw [slSearch, hnext, if_pos (show lastcs = lastcs from rfl)]
    split_ifs with hmatch
    · exact ⟨fun _ => hmatch, nofun, [], [], rfl⟩
    · exact ⟨nofun, fun _ => rfl, [], [], rfl⟩
  | cons w u ih =>
    obtain ⟨hnext, hrest⟩ := isChain_cons_cons.mp h
    obtain ⟨hne, hu⟩ := not_or.mp (mt mem_cons.mpr hu)
    rw [slSearch, hnext, if_neg (show ¬w = lastcs from fun h => hne h.symm)]
    split_ifs with hmatch
    · exact ⟨fun _ => hmatch, nofun, [], u ++ [lastcs], rfl⟩
    · rw [length_cons] at hf
      obtain ⟨k, rfl⟩ : ∃ k, fuel = k + 1 := ⟨fuel - 1, by omega⟩
      obtain ⟨h1, h2, a, b, hab⟩ := ih hrest hu k (by omega)
      exact ⟨h1, h2, lcs :: a, b, congrArg (lcs :: ·) hab⟩

/-- What `slLocate` leaves: only links have changed. -/
structure Relinked (comp comp' : SlCompress) : Prop where
  links : LinksOk comp'
  states : ∀ i, comp'.tstate i = { comp.tstate i with csNext := (comp'.tstate i).csNext }
  lastXmit : comp'.lastXmit = comp.lastXmit
  overrun : comp'.overrun = comp.overrun

theorem LinksOk.congr {comp' : SlCompress} (h : LinksOk comp)
    (hnext : ∀ i, (comp'.tstate i).csNext = (comp.tstate i).csNext)
    (hlast : comp'.lastCs = comp.lastCs) : LinksOk comp' := by
  obtain ⟨l, hring, hperm⟩ := h
  exact ⟨l, by rw [hlast]; exact hring.congr hnext, by rw [hlast]; exact hperm⟩

/-- The slot before the last one becomes the last one: nothing has to be linked. -/
theorem LinksOk.turn {lcs : Nat} {a : List Nat}
    (hring : LinkRing (fun i => (comp.tstate i).csNext) comp.lastCs (a ++ [lcs]))
    (hperm : (comp.lastCs :: (a ++ [lcs])).Perm (List.range maxStates)) :
    Relinked comp { comp with lastCs := lcs } := by
  refine ⟨⟨_, hring.turn, ?_⟩, fun _ => rfl, rfl, rfl⟩
  exact (perm_append_singleton lcs (comp.lastCs :: a)).symm.trans hperm

/-- A slot is taken out behind `lcs` and put behind the last one. -/
theorem LinksOk.toFront {lcs cs : Nat} {a b : List Nat}
    (hring : LinkRing (fun i => (comp.tstate i).csNext) comp.lastCs (a ++ lcs :: cs :: b))
    (hperm : (comp.lastCs :: (a ++ lcs :: cs :: b)).Perm (List.range maxStates)) :
    Relinked comp (slToFront comp lcs cs) := by
  have hnd := (nodup_range (n := maxStates)).perm hperm.symm
  have hne : comp.lastCs ≠ lcs ∧ comp.lastCs ≠ cs ∧ lcs ≠ cs ∧
      ∀ w ∈ a ++ b, w ≠ comp.lastCs ∧ w ≠ lcs ∧ w ≠ cs := by
    simp only [List.nodup_cons, nodup_append, mem_append, mem_cons] at hnd ⊢
    grind
  obtain ⟨hlcs, hcs, hlc, hother⟩ := hne
  rw [slToFront, if_neg hcs.symm]
  refine ⟨⟨cs :: (a ++ lcs :: b), hring.toFront ?_ ?_ ?_ fun w hw => ?_, ?_⟩, fun i => ?_, rfl, rfl⟩
  · simp [setNext_apply, hlcs.symm, hlc]
  · simp [setNext_apply, hcs.symm, hlcs]
  · simp [setNext_apply]
  · obtain ⟨h1, h2, h3⟩ := hother w hw
    simp [setNext_apply, h1, h2, h3]
  · refine Perm.trans ?_ hperm
    rw [perm_iff_count]
    intro x
    simp only [count_cons, count_append]
    omega
  · simp only [setNext_apply]

/-- **The slot for a packet**, found or the last one; the links stay a ring. -/
theorem LinksOk.locate (h : LinksOk comp) (ip : Mem) (th : Nat) :
    (slLocate comp ip th).2.1 < maxStates ∧ ((slLocate comp ip th).1 = true →
        csMatch ip th (comp.tstate (slLocate comp ip th).2.1) = true) ∧
      Relinked comp (slLocate comp ip th).2.2 := by
  obtain ⟨l, hring, hperm⟩ := h
  have hlt : ∀ i ∈ comp.lastCs :: l, i < maxStates := fun i hi =>
    mem_range.mp (hperm.subset hi)
  obtain ⟨first, u, rfl⟩ : ∃ first u, l = first :: u := by
    cases l with
    | nil => exact absurd hperm.length_eq (show 1 ≠ 16 by decide)
    | cons first u => exact ⟨first, u, rfl⟩
  obtain ⟨hfirst, hwalk⟩ := isChain_cons_cons.mp hring
  have hnd := (nodup_range (n := maxStates)).perm hperm.symm
  have hlen := hperm.length_eq
  rw [length_range, length_cons, length_cons] at hlen
  rw [slLocate]
  dsimp only at hfirst ⊢
  rw [hfirst]
  split
  · next hmatch =>
    exact ⟨hlt first (by simp), fun _ => hmatch, ⟨_, hring, hperm⟩, fun _ => rfl, rfl, rfl⟩
  obtain ⟨hfound, hmiss, a, b, hab⟩ := slSearch_spec ip th hwalk
    (fun hu => (List.nodup_cons.mp hnd).1 (mem_cons_of_mem _ hu)) (show _ < maxStates by omega)
  generalize slSearch comp.tstate ip th comp.lastCs maxStates first = r at hfound hmiss hab
  obtain ⟨found, lcs, cs⟩ := r
  dsimp only at hfound hmiss hab ⊢
  rw [← cons_append] at hab
  rcases eq_nil_or_concat b with rfl | ⟨b, w, rfl⟩
  · -- the slot is the last one
    obtain ⟨hl, hcs⟩ : first :: u = a ++ [lcs] ∧ comp.lastCs = cs := by
      rw [append_cons a lcs [cs]] at hab
      simpa using append_inj' hab rfl
    subst hcs
    rw [hl] at hring hperm
    have hturn := LinksOk.turn hring hperm
    cases found with
    | true =>
      rw [if_pos rfl]
      refine ⟨hlt _ mem_cons_self, fun _ => hfound rfl, ?_⟩
      rw [slToFront, if_pos rfl]
      exact hturn
    | false => exact ⟨hlt _ mem_cons_self, nofun, hturn⟩
  · obtain ⟨hl, rfl⟩ : first :: u = a ++ lcs :: cs :: b ∧ comp.lastCs = w := by
      have hab' : first :: u ++ [comp.lastCs] = (a ++ lcs :: cs :: b) ++ [w] := by simpa using hab
      simpa using append_inj' hab' rfl
    have hin : cs ∈ first :: u := by simp [hl]
    rw [hl] at hring hperm
    cases found with
    | true =>
      exact ⟨hlt cs (mem_cons_of_mem _ hin), fun _ => hfound rfl, LinksOk.toFront hring hperm⟩
    | false =>
      -- not found only at the end
      rw [hmiss rfl] at hin
      exact absurd hin (List.nodup_cons.mp hnd).1

/-! ## Headers that agree -/

variable {ip : Mem}

theorem hdrLen_ge (h : TcpIpHeader ip) : 4 * ipHl ip + 20 ≤ hdrLen ip := by
  have hoff := h.off
  rw [hdrLen]
  omega

theorem hdrLen_lt (ip : Mem) : hdrLen ip ≤ 120 := by
  have hhl := ipHl_lt ip
  have hoff : thOff ip (4 * ipHl ip) < 16 := Nat.div_lt_of_lt_mul (UInt8.toNat_lt _)
  rw [hdrLen]
  omega

theorem TcpIpHeader.of_same {ip ip' : Mem} (h : TcpIpHeader ip) (hs : Same ip' ip 0 (hdrLen ip)) :
    ipHl ip' = ipHl ip ∧ hdrLen ip' = hdrLen ip ∧ TcpIpHeader ip' := by
  have hge := hdrLen_ge h
  have h0 := hs 0 (le_refl 0) (by omega)
  have h9 := hs 9 (by omega) (by omega)
  have h12 := hs (4 * ipHl ip + 12) (by omega) (by omega)
  have h13 := hs (4 * ipHl ip + 13) (by omega) (by omega)
  have hhl' : ipHl ip' = ipHl ip := by rw [ipHl, h0, ipHl]
  have hoff : thOff ip' (4 * ipHl ip') = thOff ip (4 * ipHl ip) := by rw [hhl', thOff, h12, thOff]
  refine ⟨hhl', by rw [hdrLen, hhl', ← hhl', hoff, hhl', hdrLen], ?_, ?_, ?_, ?_, ?_, ?_⟩
  · rw [h0]; exact h.version
  · rw [hhl']; exact h.hl
  · rw [hoff]; exact h.off
  · rw [h9]; exact h.proto
  · rw [hhl', h12]; exact h.x2
  · rw [hhl', h13]; exact h.flags

theorem bcmpEq_same {m' : Mem} {n : Nat} (h : bcmpEq m m' o n = true) :
    Same m m' o (o + n) := by
  intro i hlo hhi
  have hall := all_eq_true.mp h i (mem_range'_1.mpr ⟨hlo, hhi⟩)
  exact eq_of_beq hall

/-- What the comparison before the encoding establishes: `cs` is the last header of the connection,
and the fields that are not sent are the same. -/
structure Unchanged (ip cs : Mem) : Prop where
  hl : ipHl cs = ipHl ip
  hlen : hdrLen cs = hdrLen ip
  start : Same cs ip 0 2
  frag : Same cs ip 6 10
  conn : Same cs ip 12 (4 * ipHl ip + 4)
  off : Same cs ip (4 * ipHl ip + 12) (4 * ipHl ip + 13)
  opts : Same cs ip (4 * ipHl ip + 20) (hdrLen ip)

theorem unchanged_of_match {cs : Cstate} (hip : TcpIpHeader ip)
    (hcs : TcpIpHeader cs.csHdr) (hm : csMatch ip (4 * ipHl ip) cs = true)
    (hs : slSame ip cs.csHdr (ipHl ip) = true) : Unchanged ip cs.csHdr := by
  simp only [csMatch, slSame, Bool.and_eq_true, Bool.or_eq_true, beq_iff_eq,
    decide_eq_true_eq] at hm hs
  obtain ⟨⟨hsrc, hdst⟩, hports⟩ := hm
  obtain ⟨⟨⟨⟨⟨h0, h6⟩, h8⟩, hoff⟩, hopt⟩, htopt⟩ := hs
  have hstart := (same_of_rd16 h0).symm
  have hhl : ipHl cs.csHdr = ipHl ip := by rw [ipHl, hstart 0 (le_refl 0) (by decide), ipHl]
  have hge := hip.hl
  rw [hhl] at hports
  have hx2 := hcs.x2
  rw [hhl] at hx2
  have hoctet : cs.csHdr (4 * ipHl ip + 12) = ip (4 * ipHl ip + 12) := by
    have hx2' := hip.x2
    rw [thOff, thOff] at hoff
    apply UInt8.toNat_inj.mp
    omega
  have hlen : hdrLen cs.csHdr = hdrLen ip := by rw [hdrLen, hhl, ← hoff, hdrLen]
  refine ⟨hhl, hlen, hstart, ?_, ?_, ?_, ?_⟩
  · exact (same_of_rd16 h6).symm.glue (same_of_rd16 h8).symm
  · -- source, destination, options, ports
    have hopts : Same cs.csHdr ip 20 (4 * ipHl ip) := by
      rcases hopt with h5 | hopt
      · intro i hlo hhi
        omega
      · have hend : 20 + 4 * (ipHl ip - 5) = 4 * ipHl ip := by omega
        exact hend ▸ (bcmpEq_same hopt).symm
    exact (((same_of_rd32 hsrc).symm.glue (same_of_rd32 hdst).symm).glue hopts).glue
      (same_of_rd32 hports).symm
  · intro i hlo hhi
    obtain rfl : i = 4 * ipHl ip + 12 := by omega
    exact hoctet
  · have hoff5 := hip.off
    rcases htopt with h5 | htopt
    · intro i hlo hhi
      rw [hdrLen] at hhi
      omega
    · have hend : 4 * ipHl ip + 20 + 4 * (thOff ip (4 * ipHl ip) - 5) = hdrLen ip := by
        rw [hdrLen]
        omega
      exact hend ▸ (bcmpEq_same htopt).symm

/-! ## The states of the two ends -/

/-- A slot that is in use: both ends have the last header sent for it, the receiver with 0 for the
checksum. -/
structure Slot (t r : Cstate) : Prop where
  header : TcpIpHeader t.csHdr
  flags : AckFlags (t.csHdr (4 * ipHl t.csHdr + 13))
  len : hdrLen t.csHdr ≤ (rd16 t.csHdr 2).toNat
  hlen : r.csHlen = hdrLen t.csHdr
  low : Same r.csHdr t.csHdr 0 10
  sum : rd16 r.csHdr 10 = 0
  high : Same r.csHdr t.csHdr 12 (hdrLen t.csHdr)

def SlotOk (t r : Cstate) : Prop := t.csHdr 0 = 0 ∨ Slot t r

/-- **Synchronisation.** -/
structure VjSync (s : VjLink) : Prop where
  ids : ∀ i < maxStates, (s.tx.tstate i).csId = UInt8.ofNat i
  links : LinksOk s.tx
  slots : ∀ i < maxStates, SlotOk (s.tx.tstate i) (s.rx.comp.rstate i)
  xmit : s.tx.lastXmit = s.rx.comp.lastRecv
  toss : s.rx.comp.slfToss = true → s.tx.lastXmit = 255
  txFits : s.tx.overrun = false
  rxFits : s.rx.comp.overrun = false
  ready : RxReady s.rx

/-- The header that the receiver keeps: `n` octets of `ip`, with 0 for the checksum. -/
def HeldAs (h ip : Mem) (n : Nat) : Prop := Same h ip 0 10 ∧ rd16 h 10 = 0 ∧ Same h ip 12 n

/-! ## A compressed packet -/

theorem Slot.follows (h : Slot t r) :
    ipHl r.csHdr = ipHl t.csHdr ∧ Follows r.csHdr t.csHdr (4 * ipHl t.csHdr) := by
  have hge := hdrLen_ge h.header
  have hhl := h.header.hl
  refine ⟨by rw [ipHl, h.low 0 (le_refl 0) (by decide), ipHl], ?_, ?_, ?_⟩
  · exact h.low.rd16 (by decide) (by decide)
  · exact h.low.rd16 (by decide) (by decide)
  · exact h.high.mono (by omega) hge

/-- **A compressed packet.** What comes out is the packet with the flags `f`, and the receiver
keeps its header. -/
theorem slRebuild_spec (comp : SlCompress) (hslot : Slot t (comp.rstate comp.lastRecv.toNat))
    (hip : TcpIpHeader ip) (hflags : AckFlags (ip (4 * ipHl ip + 13)))
    (hun : Unchanged ip t.csHdr) {r : Byte × List Byte}
    (hc : slDeltas ip t.csHdr (4 * ipHl ip) (hdrLen ip) = some c)
    (hr : r = slIdPush ip t.csHdr (4 * ipHl ip) c) (cid : Bool) {data : List Byte}
    (hlen : rd16 ip 2 = BitVec.ofNat 16 (data.length + hdrLen ip)) (hsum : rd16 ip 10 = ipCksum ip)
    {cp : Nat} (hbuf : bufp ≤ cp) (hroom : hdrLen ip < cp)
    (hm : Holds m cp ([ip (4 * ipHl ip + 16), ip (4 * ipHl ip + 17)] ++ r.2 ++ data)) :
    ∃ f h' mem o, slRebuild comp (r.1 ||| bit cid newC ||| typeCompressedTcp) m bufp cp
          (cp - bufp + (2 + r.2.length + data.length)) =
        (comp.setRecv { comp.rstate comp.lastRecv.toNat with csHdr := h' }, mem, o,
          ((data.length + hdrLen ip : Nat) : Int)) ∧
      Holds mem o ((List.range (hdrLen ip)).map (wr8 ip (4 * ipHl ip + 13) f) ++ data) ∧
      (f = ip (4 * ipHl ip + 13) ↔ ¬StaleUrg ip t.csHdr (4 * ipHl ip) (hdrLen ip)) ∧
      HeldAs h' (wr8 ip (4 * ipHl ip + 13) f) (hdrLen ip) := by
  obtain ⟨hhl, hfollow⟩ := hslot.follows
  rw [hun.hl] at hhl hfollow
  have hge := hdrLen_ge hip
  have hhl5 := hip.hl
  have hold := hslot.flags
  rw [hun.hl] at hold
  have hle := hslot.len
  rw [hun.hlen] at hle
  rw [holds_append] at hm
  obtain ⟨hm, hdata⟩ := hm
  have hfields := slFields_spec (by omega) hfollow hold hflags hle hc hr cid hm
  obtain ⟨f, hfields, hf⟩ := hfields
  -- `q` is the packet as it comes out
  have hq : ∀ lo hi, hi ≤ 4 * ipHl ip + 13 ∨ 4 * ipHl ip + 13 < lo →
      Same (wr8 ip (4 * ipHl ip + 13) f) ip lo hi :=
    fun lo hi ho => same_wr8_off ip (4 * ipHl ip + 13) f ho
  refine ⟨f, ?_⟩
  generalize wr8 ip (4 * ipHl ip + 13) f = q at hfields hq
  have hqhl : ipHl q = ipHl ip := by rw [ipHl, hq 0 1 (by omega) 0 (le_refl 0) (by decide), ipHl]
  have hcs : (comp.rstate comp.lastRecv.toNat).csHlen = hdrLen ip := hslot.hlen.trans hun.hlen
  have hhigh := hslot.high
  rw [hun.hlen] at hhigh
  have hstart := ((hslot.low.mono (by decide) (by decide)).trans hun.start).trans
    (hq 0 2 (by omega)).symm
  have hfrag := ((hslot.low.mono (by decide) (by decide)).trans hun.frag).trans
    (hq 6 10 (by omega)).symm
  have hconn := ((hhigh.mono (by omega) (by omega)).trans hun.conn).trans
    (hq 12 (4 * ipHl ip + 4) (by omega)).symm
  have hoff := ((hhigh.mono (by omega) (by omega)).trans hun.off).trans
    (hq (4 * ipHl ip + 12) (4 * ipHl ip + 13) (by omega)).symm
  have hopts := ((hhigh.mono (by omega) (by omega)).trans hun.opts).trans
    (hq (4 * ipHl ip + 20) (hdrLen ip) (by omega)).symm
  obtain ⟨hlow, hmid, hzero, htcp⟩ := takeOver_same (by omega) hstart hfrag hconn hoff hopts
  rw [hslot.sum] at hzero
  have hqlen : rd16 q 2 = rd16 ip 2 := (hq 2 4 (by omega)).rd16 le_rfl le_rfl
  have hqsum : rd16 q 10 = ipCksum q := by
    rw [(hq 10 12 (by omega)).rd16 le_rfl le_rfl, hsum,
      ipCksum_congr (by omega) (hq 0 (4 * ipHl ip) (by omega))]
  rw [length_append] at hdata
  obtain ⟨mem, o, hpre, hout⟩ := slPrepend_spec comp bufp rfl
    (by omega) (by rw [hcs]; simp only [length_cons, length_nil]; omega) hdata
    (by rw [hqhl]; omega) (by rw [hqhl, hcs]; omega) hlow hmid hzero (by rw [hcs]; exact htcp)
    (by rw [hqlen, hlen, hcs]) hqsum
  rw [hcs] at hout
  refine ⟨copy (takeOver q (4 * ipHl ip) (comp.rstate comp.lastRecv.toNat).csHdr) 2 q 2 2, mem, o,
    ?_, hout, hf, ?_, ?_, ?_⟩
  · rw [slRebuild, hhl, hcs, hfields]
    have hcp : cp + 2 + r.2.length = cp + ([ip (4 * ipHl ip + 16), ip (4 * ipHl ip + 17)].length +
        r.2.length) := by
      rw [length_cons, length_singleton, Nat.add_assoc]
    have htotal : cp - bufp + (2 + r.2.length + data.length) =
        cp + 2 + r.2.length - bufp + data.length := by omega
    rw [← hcp] at hpre
    rw [htotal, ← hcs]
    exact hpre
  · exact ((hlow.copy 2 2).glue (same_copy _ q 2 2)).glue (hmid.copy 2 2)
  · rw [rd16_copy_off _ _ _ _ _ (by omega), hzero]
  · exact htcp.copy 2 2

/-! ## An uncompressed packet -/

theorem octetsOf_getElem (h : i < l.length) : octetsOf l i = l[i] := by
  rw [octetsOf, getD_eq_getElem _ _ h]

theorem toNat_ofNat_of_lt (hi : i < maxStates) : (UInt8.ofNat i).toNat = i := by
  rw [maxStates] at hi
  rw [UInt8.toNat_ofNat']
  omega

/-- **An uncompressed packet.** `out` is the packet, the slot `i` is in the place of `ip_p`; the
receiver keeps the header. -/
theorem slSync_spec (comp : SlCompress) (hip : TcpIpHeader ip)
    (hout : ∀ j < hdrLen ip, octetsOf out j = ip j) (hlen : hdrLen ip ≤ out.length)
    (hi : i < maxStates) (hm : Holds m bufp (out.set 9 (UInt8.ofNat i))) :
    ∃ mem h', slSync comp m bufp out.length =
        ({ comp with
            lastRecv := UInt8.ofNat i, slfToss := false
            overrun := comp.overrun || decide (maxHdr < hdrLen ip)
            rstate := Function.update comp.rstate i
              { comp.rstate i with csHdr := h', csHlen := hdrLen ip } },
          mem, bufp, (out.length : Int)) ∧
      Holds mem bufp out ∧ HeldAs h' ip (hdrLen ip) := by
  have hge := hdrLen_ge hip
  rw [holds_iff] at hm
  have hid : m (bufp + 9) = UInt8.ofNat i := by
    rw [hm 9 (by rw [length_set]; omega), getElem_set_self]
  have hback : Holds (wr8 m (bufp + 9) ipprotoTcp) bufp out := by
    rw [holds_iff]
    intro j hj
    rw [wr8]
    split
    · next h9 =>
      obtain rfl : j = 9 := by omega
      rw [← octetsOf_getElem hj, hout 9 (by omega), hip.proto]
    · next h9 => rw [hm j (by rw [length_set]; exact hj), getElem_set_ne (by omega)]
  have hmem : ∀ j < hdrLen ip, wr8 m (bufp + 9) ipprotoTcp (bufp + j) = ip j := by
    intro j hj
    rw [holds_iff.mp hback j (by omega), ← octetsOf_getElem, hout j hj]
  generalize hmem' : wr8 m (bufp + 9) ipprotoTcp = mem at hback hmem
  have hsame : Same (fun j => mem (bufp + j)) ip 0 (hdrLen ip) := fun j _ hj => hmem j hj
  obtain ⟨-, hhlen, -⟩ := hip.of_same hsame
  have hkept : ∀ j < hdrLen ip, copy (comp.rstate i).csHdr 0 mem bufp (hdrLen ip) j = ip j := by
    intro j hj
    rw [copy, if_pos (by omega), Nat.sub_zero, hmem j hj]
  refine ⟨mem, wr16 (copy (comp.rstate i).csHdr 0 mem bufp (hdrLen ip)) 10 0, ?_, hback, ?_, ?_, ?_⟩
  · have hcopy := hhlen
    rw [hdrLen] at hcopy
    rw [slSync, hid, toNat_ofNat_of_lt hi, if_neg (by omega)]
    dsimp only
    rw [hmem', hcopy, SlCompress.setRecv]
    rw [toNat_ofNat_of_lt hi]
  · intro j _ hj
    rw [wr16_off _ _ _ (by omega), hkept j (by omega)]
  · exact rd16_wr16 _ _ _
  · intro j hlo hj
    rw [wr16_off _ _ _ (by omega), hkept j hj]

/-! ## One packet -/

theorem version_octet {b : Byte} (h : b.toNat / 16 = 4) :
    b ||| typeIp = b ∧ b &&& 0xf0 = typeIp ∧ (b ||| typeUncompressedTcp) &&& 0xf0 ≠ typeIp ∧
      (b ||| typeUncompressedTcp) &&& 0xf0 &&& 0x80 = 0 ∧
      (b ||| typeUncompressedTcp) &&& 0xf0 = typeUncompressedTcp ∧
      (b ||| typeUncompressedTcp) &&& 0x4f = b ∧ b ≠ 0 := by
  obtain ⟨n, rfl⟩ : ∃ n : Fin 16, b = UInt8.ofNat (64 + n.val) := by
    refine ⟨⟨b.toNat % 16, Nat.mod_lt _ (by decide)⟩, UInt8.toNat_inj.mp ?_⟩
    show b.toNat = (64 + b.toNat % 16) % 256
    omega
  revert n
  decide

instance (ip cs : Mem) (th hlen : Nat) : Decidable (StaleUrg ip cs th hlen) :=
  decidable_of_iff' _ (staleUrg_iff ip cs th hlen)

/-- The connection's last header is in the state that was found, and the packet carries on
from a packet with `URG` set. -/
def MeetsStaleUrg (comp : SlCompress) (ip : Mem) : Prop :=
  let r := slLocate comp ip (4 * ipHl ip)
  let cs := (comp.tstate r.2.1).csHdr
  r.1 = true ∧ slSame ip cs (ipHl ip) = true ∧ StaleUrg ip cs (4 * ipHl ip) (hdrLen ip)
deriving Decidable

/-- The header of a packet that may be compressed fits its storage, and it does not meet a stale
`URG` bit. -/
def VjCond (s : VjLink) (p : VjPacket) : Prop :=
  slCompressible p.ip p.first.length → hdrLen p.ip ≤ maxHdr ∧ ¬MeetsStaleUrg s.tx p.ip
deriving Decidable

theorem vjOut_of_received (h : Received s.rx (vjStep s p).rx comp out) :
    vjOut s p = if (vjStep s p).tx.overrun = true ∨ comp.overrun = true then none else some out := by
  obtain ⟨q, hq, hout⟩ := h.queue
  rw [vjOut, h.comp, hq, drop_left]
  show (if _ then none else some _) = _
  rw [hout]

theorem Slot.make (hip : TcpIpHeader ip) (hflags : AckFlags (ip (4 * ipHl ip + 13)))
    (hlen : hdrLen ip ≤ (rd16 ip 2).toNat) (ht : Same t.csHdr ip 0 (hdrLen ip))
    (hr : r.csHlen = hdrLen ip) (hheld : HeldAs r.csHdr ip (hdrLen ip)) : Slot t r := by
  obtain ⟨hlow, hsum, hhigh⟩ := hheld
  have hge := hdrLen_ge hip
  obtain ⟨hhl, hhlen, hheader⟩ := hip.of_same ht
  refine ⟨hheader, ?_, ?_, by rw [hhlen, hr], ?_, hsum, ?_⟩
  · rw [hhl, ht _ (by omega) (by omega)]
    exact hflags
  · rw [hhlen, ht.rd16 (by omega) (by omega)]
    exact hlen
  · exact hlow.trans (ht.mono (by omega) (by omega)).symm
  · rw [hhlen]
    exact hhigh.trans (ht.mono (by omega) le_rfl).symm

theorem modifyHead_append (h : l ≠ []) (l' : List Byte) (f : Byte → Byte) :
    l.modifyHead f ++ l' = (l ++ l').modifyHead f := by
  cases l with
  | nil => exact absurd rfl h
  | cons b l => rfl

/-- The frame of a packet is what the compression makes of its first mbuf, tagged, and the rest. -/
theorem VjPacket.Wf.sent (h : p.Wf) : ∃ rest, p.bytes = p.first ++ rest ∧
    ∀ (s : VjLink) {comp ty out}, slCompressTcp s.tx p.first p.compressCid = (comp, ty, out) →
      out ≠ [] → vjStep s p = ⟨comp, slFrameIn s.rx ((out ++ rest).modifyHead (· ||| ty))⟩ := by
  have hge := hdrLen_ge h.header
  have hlen := h.contiguous
  obtain ⟨cid, ms⟩ := p
  cases ms with
  | nil =>
    change hdrLen _ ≤ 0 at hlen
    omega
  | cons m ms =>
    refine ⟨chainBytes ms, chainBytes_cons m ms, fun s comp ty out hcmp hne => ?_⟩
    change slCompressTcp s.tx m.mData cid = _ at hcmp
    rw [vjStep, slCmp, hcmp, chainBytes_cons, ← modifyHead_append hne]

theorem VjPacket.Wf.bytes_eq (h : p.Wf) :
    (∀ j < hdrLen p.ip, octetsOf p.bytes j = p.ip j) ∧ hdrLen p.ip ≤ p.bytes.length ∧
      p.bytes = (List.range (hdrLen p.ip)).map p.ip ++ p.bytes.drop (hdrLen p.ip) := by
  obtain ⟨rest, hbytes, -⟩ := h.sent
  have hlen := h.contiguous
  have hle : hdrLen p.ip ≤ p.bytes.length := by
    rw [hbytes, length_append]
    omega
  have hoct : ∀ j < hdrLen p.ip, octetsOf p.bytes j = p.ip j := by
    intro j hj
    rw [VjPacket.ip, octetsOf_getElem (by omega), octetsOf_getElem (by omega)]
    simp only [hbytes]
    rw [getElem_append_left]
  refine ⟨hoct, hle, ?_⟩
  have htake : p.bytes.take (hdrLen p.ip) = (List.range (hdrLen p.ip)).map p.ip := by
    apply ext_getElem
    · rw [length_take, length_map, length_range]
      omega
    · intro j hj _
      rw [length_take] at hj
      rw [getElem_take, getElem_map, getElem_range, ← hoct j (by omega),
        octetsOf_getElem (by omega)]
  rw [← htake, take_append_drop]

theorem modifyHead_of_first {f : Byte → Byte} (h : f (octetsOf l 0) = octetsOf l 0) :
    l.modifyHead f = l := by
  cases l with
  | nil => rfl
  | cons b l => exact congrArg (· :: l) h

theorem octetsOf_modifyHead (h : l ≠ []) (f : Byte → Byte) :
    octetsOf (l.modifyHead f) 0 = f (octetsOf l 0) := by
  cases l with
  | nil => exact absurd rfl h
  | cons b l => rfl

theorem vjStep_ip (hs : VjSync s) (hp : p.Wf) (hn : ¬slCompressible p.ip p.first.length) :
    Received s.rx (vjStep s p).rx s.rx.comp p.bytes ∧ (vjStep s p).tx = s.tx := by
  obtain ⟨rest, hbytes, hsent⟩ := hp.sent
  have hge := hdrLen_ge hp.header
  have hlen := hp.contiguous
  obtain ⟨hoct, hle, -⟩ := hp.bytes_eq
  obtain ⟨htag, htype, -⟩ := version_octet hp.header.version
  rw [← hoct 0 (by omega)] at htag htype
  have hstep := hsent s (if_neg hn) (length_pos_iff.mp (by omega))
  rw [← hbytes, modifyHead_of_first htag] at hstep
  rw [hstep]
  exact ⟨slFrameIn_ip hs.ready (by omega) htype, rfl⟩

theorem VjSync.stored {s' : VjLink} (hs : VjSync s) (hrel : Relinked s.tx comp)
    (hfits : hdrLen ip ≤ maxHdr)
    (htx : s'.tx = { slStore comp i ip (hdrLen ip) with lastXmit := UInt8.ofNat i })
    (hrx : s'.rx.comp = { s.rx.comp with
      lastRecv := UInt8.ofNat i, slfToss := false
      rstate := Function.update s.rx.comp.rstate i r }) (hready : RxReady s'.rx)
    (hslot : ∀ t : Cstate, Same t.csHdr ip 0 (hdrLen ip) → Slot t r) :
    VjSync s' := by
  have htstate : ∀ j, s'.tx.tstate j =
      { comp.tstate j with
        csHdr := if j = i then copy (s.tx.tstate i).csHdr 0 ip 0 (hdrLen ip)
          else (s.tx.tstate j).csHdr } := by
    intro j
    rw [htx]
    show Function.update comp.tstate i _ j = _
    by_cases hj : j = i
    · rw [hj, Function.update_self, if_pos rfl, hrel.states i]
    · rw [Function.update_of_ne hj, if_neg hj, hrel.states j]
  refine ⟨fun j hj => ?_, hrel.links.congr (fun j => ?_) ?_, fun j hj => ?_, ?_, ?_, ?_, ?_, hready⟩
  · rw [htstate, hrel.states]
    exact hs.ids j hj
  · rw [htstate]
  · rw [htx]
    rfl
  · rw [htstate, hrx]
    dsimp only
    by_cases hji : j = i
    · rw [if_pos hji, hji, Function.update_self]
      exact .inr (hslot _ (same_copy _ ip 0 (hdrLen ip) |>.mono le_rfl (by omega)))
    · rw [if_neg hji, Function.update_of_ne hji]
      rcases hs.slots j hj with h0 | hok
      · exact .inl h0
      · exact .inr { hok with }
  · rw [htx, hrx]
  · rw [hrx]
    exact nofun
  · rw [htx]
    show (comp.overrun || decide (maxHdr < hdrLen ip)) = false
    rw [hrel.overrun, hs.txFits, Bool.false_or]
    exact decide_eq_false (by omega)
  · rw [hrx]
    exact hs.rxFits

theorem slStore_csId (comp : SlCompress) (i : Nat) (ip : Mem) (hlen : Nat) :
    ((slStore comp i ip hlen).tstate i).csId = (comp.tstate i).csId := by
  show (Function.update comp.tstate i _ i).csId = _
  rw [Function.update_self]

theorem vjStep_uncompressed (hs : VjSync s) (hp : p.Wf) (hrel : Relinked s.tx comp)
    (hi : i < maxStates) (hcmp : slCompressTcp s.tx p.first p.compressCid =
      slUncompressedOut comp i p.first (hdrLen p.ip)) :
    ∃ h', Received s.rx (vjStep s p).rx { s.rx.comp with
          lastRecv := UInt8.ofNat i, slfToss := false
          overrun := s.rx.comp.overrun || decide (maxHdr < hdrLen p.ip)
          rstate := Function.update s.rx.comp.rstate i
            { s.rx.comp.rstate i with csHdr := h', csHlen := hdrLen p.ip } } p.bytes ∧
      (vjStep s p).tx = { slStore comp i p.ip (hdrLen p.ip) with lastXmit := UInt8.ofNat i } ∧
      HeldAs h' p.ip (hdrLen p.ip) := by
  obtain ⟨rest, hbytes, hsent⟩ := hp.sent
  have hge := hdrLen_ge hp.header
  have hlen := hp.contiguous
  obtain ⟨hoct, hle, -⟩ := hp.bytes_eq
  obtain ⟨-, -, htype, htype', htype'', huntag, -⟩ := version_octet hp.header.version
  have hid : (comp.tstate i).csId = UInt8.ofNat i := by
    rw [hrel.states]
    exact hs.ids i hi
  rw [slUncompressedOut, slStore_csId, hid] at hcmp
  have hstep := hsent s hcmp (by rw [← length_pos_iff, length_set]; omega)
  rw [← set_append_left _ _ (by omega), ← hbytes] at hstep
  -- the frame, and the frame with the version put back
  have hset0 : octetsOf (p.bytes.set 9 (UInt8.ofNat i)) 0 = p.ip 0 := by
    rw [← hoct 0 (by omega), octetsOf_getElem (by rw [length_set]; omega),
      octetsOf_getElem (by omega), getElem_set_ne (by decide)]
  have hlen' : (p.bytes.set 9 (UInt8.ofNat i)).length = p.bytes.length := length_set
  have hne' : p.bytes.set 9 (UInt8.ofNat i) ≠ [] := length_pos_iff.mp (by rw [hlen']; omega)
  have hfirst0 := octetsOf_modifyHead hne' (· ||| typeUncompressedTcp)
  rw [hset0] at hfirst0
  have hflen := (length_modifyHead (f := (· ||| typeUncompressedTcp))).trans hlen'
  obtain ⟨mem, hheld, hrec⟩ := slFrameIn_tcp hs.ready (by rw [hflen]; omega)
    (by rw [hfirst0]; exact htype) (c := typeUncompressedTcp)
    (by rw [hfirst0, htype', if_neg (by decide), htype''])
  rw [if_pos rfl, modifyHead_modifyHead, modifyHead_of_first (by rw [hset0]; exact huntag)] at hheld
  obtain ⟨mem', h', hsync, hout, hkept⟩ := slSync_spec s.rx.comp hp.header hoct hle hi hheld
  rw [hstep]
  refine ⟨h', hrec _ _ _ _ ?_ hout (length_pos_iff.mp (by omega)), rfl, hkept⟩
  rw [hflen, slUncompressTcp, if_pos rfl, hsync]

theorem compressed_octet (x : Byte) :
    (x ||| typeCompressedTcp) &&& 0xf0 ≠ typeIp ∧
      (x ||| typeCompressedTcp) &&& 0xf0 &&& 0x80 ≠ 0 := by
  obtain ⟨n, rfl⟩ : ∃ n : Fin 256, UInt8.ofNat n.val = x :=
    ⟨⟨x.toNat, UInt8.toNat_lt x⟩, UInt8.ofNat_toNat⟩
  revert n
  decide +kernel

theorem idPush_octet {ip cs : Mem} {th hlen : Nat} (hc : slDeltas ip cs th hlen = some c) :
    ∃ u w a s i p, ∀ b, (slIdPush ip cs th c).1 ||| bit b newC ||| typeCompressedTcp =
      frameOctet u w a s i p b := by
  have hbits : ∃ u w a s, c.1 = bit u newU ||| bit w newW ||| bit a newA ||| bit s newS := by
    rcases slDeltas_cases hc with ⟨u, a, s, hu, ha, hs, rfl, -⟩ | ⟨hv, -⟩
    · obtain ⟨bu, hbu, -⟩ := urgent_takes hu
      obtain ⟨bw, hbw, -⟩ := window_takes ip cs th
      obtain ⟨ba, hba, -⟩ := delta_takes ha
      obtain ⟨bs, hbs, -⟩ := delta_takes hs
      exact ⟨bu, bw, ba, bs, by rw [hbu, hbw, hba, hbs]⟩
    · rcases hv.ack with ⟨hI, -⟩ | ⟨hD, -⟩
      · exact ⟨true, true, false, true, hI.trans (by decide)⟩
      · exact ⟨true, true, true, true, hD.trans (by decide)⟩
  obtain ⟨u, w, a, s, hbits⟩ := hbits
  obtain ⟨i, p, e, heq, -⟩ := idPush_takes ip cs th c
  refine ⟨u, w, a, s, i, p, fun b => ?_⟩
  rw [heq, hbits]
  rfl

/-- The frame of a compressed packet; `b` says whether the connection is named in it. -/
theorem slCompressedOut_eq (comp : SlCompress) (i : Nat) (d : List Byte) (th hlen : Nat)
    (cid : Bool) (c : Byte × List Byte) :
    ∃ b : Bool, slCompressedOut comp i d th hlen cid c =
        ({ slStore comp i (octetsOf d) hlen with lastXmit := (comp.tstate i).csId },
          typeCompressedTcp, (c.1 ||| bit b newC) :: ((if b then [(comp.tstate i).csId] else []) ++
            ([octetsOf d (th + 16), octetsOf d (th + 17)] ++ c.2 ++ d.drop hlen))) ∧
      (b = false → comp.lastXmit = (comp.tstate i).csId) := by
  rw [slCompressedOut, slStore_csId]
  split
  · exact ⟨true, rfl, nofun⟩
  · next h =>
    have hlast : comp.lastXmit = (comp.tstate i).csId := by
      by_contra hne
      exact h (.inr hne)
    refine ⟨false, ?_, fun _ => hlast⟩
    rw [← hlast, show bit false newC = 0 from rfl, UInt8.or_zero]
    rfl

theorem slUncompressTcp_compressed (hi : i < maxStates) {b : Bool}
    (hlast : b = false → comp.lastRecv = UInt8.ofNat i ∧ comp.slfToss = false) {x : Byte}
    (hx : x &&& newC ≠ 0 ↔ b = true) {rest : List Byte}
    (hm : Holds m bufp (x :: ((if b then [UInt8.ofNat i] else []) ++ rest))) (len : Nat) :
    ∃ cp, bufp < cp ∧ cp - bufp + rest.length =
        (x :: ((if b then [UInt8.ofNat i] else []) ++ rest)).length ∧ Holds m cp rest ∧
      slUncompressTcp comp typeCompressedTcp m bufp len =
        slRebuild { comp with slfToss := false, lastRecv := UInt8.ofNat i } x m bufp cp len := by
  obtain ⟨hfirst, hrest⟩ := hm
  have htype : typeCompressedTcp ≠ typeUncompressedTcp := by decide
  have heq : slUncompressTcp comp typeCompressedTcp m bufp len =
      if x &&& newC ≠ 0 then
        if maxStates ≤ (m (bufp + 1)).toNat then slBad comp m bufp
        else slRebuild { comp with slfToss := false, lastRecv := m (bufp + 1) } x m bufp
          (bufp + 2) len
      else if comp.slfToss then (comp, m, bufp, 0)
      else slRebuild comp x m bufp (bufp + 1) len := by
    rw [slUncompressTcp, if_neg htype, if_pos rfl, hfirst]
  rw [heq]
  cases b with
  | true =>
    obtain ⟨hid, hrest⟩ := hrest
    refine ⟨bufp + 2, by omega, ?_, hrest, ?_⟩
    · show bufp + 2 - bufp + rest.length = rest.length + 1 + 1
      omega
    · rw [if_pos (hx.mpr rfl), hid, toNat_ofNat_of_lt hi, if_neg (by omega)]
  | false =>
    obtain ⟨hrecv, htoss⟩ := hlast rfl
    refine ⟨bufp + 1, by omega, ?_, hrest, ?_⟩
    · show bufp + 1 - bufp + rest.length = rest.length + 1
      omega
    · rw [if_neg (fun h => Bool.false_ne_true (hx.mp h)), htoss, if_neg Bool.false_ne_true,
        ← hrecv, ← htoss]

/-- What becomes of one packet, whether the condition holds or not. -/
structure StepOk (s : VjLink) (p : VjPacket) : Prop where
  good : VjCond s p → vjOut s p = some p.bytes ∧ VjSync (vjStep s p)
  bad : ¬VjCond s p → vjOut s p ≠ some p.bytes

theorem tx_overrun (hs : VjSync s) (hrel : Relinked s.tx comp) {x : Byte}
    (htx : (vjStep s p).tx = { slStore comp i p.ip (hdrLen p.ip) with lastXmit := x }) :
    (vjStep s p).tx.overrun = decide (maxHdr < hdrLen p.ip) := by
  rw [htx]
  show (comp.overrun || decide (maxHdr < hdrLen p.ip)) = _
  rw [hrel.overrun, hs.txFits, Bool.false_or]

theorem StepOk.header (hs : VjSync s) (hp : p.Wf) (hn : ¬slCompressible p.ip p.first.length) :
    StepOk s p := by
  obtain ⟨hrec, htx⟩ := vjStep_ip hs hp hn
  refine ⟨fun _ => ⟨?_, ?_⟩, fun hc => absurd (fun h => absurd h hn) hc⟩
  · rw [vjOut_of_received hrec, htx, hs.txFits, hs.rxFits, if_neg (by decide)]
  · refine ⟨?_, ?_, ?_, ?_, ?_, ?_, ?_, hrec.ready⟩ <;> simp only [htx, hrec.comp]
    exacts [hs.ids, hs.links, hs.slots, hs.xmit, hs.toss, hs.txFits, hs.rxFits]

theorem StepOk.uncompressed (hs : VjSync s) (hp : p.Wf) (hcan : slCompressible p.ip p.first.length)
    (hflags : AckFlags (p.ip (4 * ipHl p.ip + 13))) (hrel : Relinked s.tx comp) (hi : i < maxStates)
    (hstale : ¬MeetsStaleUrg s.tx p.ip) (hcmp : slCompressTcp s.tx p.first p.compressCid =
      slUncompressedOut comp i p.first (hdrLen p.ip)) : StepOk s p := by
  obtain ⟨h', hrec, htx, hheld⟩ := vjStep_uncompressed hs hp hrel hi hcmp
  have hover := tx_overrun hs hrel htx
  obtain ⟨-, hle, -⟩ := hp.bytes_eq
  have hout := vjOut_of_received hrec
  rw [hover, hs.rxFits, Bool.false_or] at hout
  simp only [or_self, decide_eq_true_eq] at hout
  constructor
  · intro hc
    have hfits := (hc hcan).1
    have hdec : decide (maxHdr < hdrLen p.ip) = false := decide_eq_false (by omega)
    refine ⟨by rw [hout, if_neg (by omega)], ?_⟩
    have hcomp := hrec.comp
    rw [hdec, Bool.or_false] at hcomp
    exact hs.stored hrel hfits htx hcomp hrec.ready fun t ht =>
      Slot.make hp.header hflags (by rw [hp.len]; exact hle) ht rfl hheld
  · intro hc
    have hlong : maxHdr < hdrLen p.ip := by
      by_contra hshort
      exact hc fun _ => ⟨by omega, hstale⟩
    rw [hout, if_pos hlong]
    exact nofun

section

variable (hs : VjSync s) (hp : p.Wf) (hflags : AckFlags (p.ip (4 * ipHl p.ip + 13)))
  (hrel : Relinked s.tx comp) (hi : i < maxStates)
  (hslot : Slot (s.tx.tstate i) (s.rx.comp.rstate i)) (hun : Unchanged p.ip (s.tx.tstate i).csHdr)
  (hc : slDeltas p.ip (s.tx.tstate i).csHdr (4 * ipHl p.ip) (hdrLen p.ip) = some c)
  (hcmp : slCompressTcp s.tx p.first p.compressCid =
    slCompressedOut comp i p.first (4 * ipHl p.ip) (hdrLen p.ip) p.compressCid
      (slIdPush p.ip (s.tx.tstate i).csHdr (4 * ipHl p.ip) c))
include hs hp hflags hrel hi hslot hun hc hcmp

theorem vjStep_compressed :
    ∃ f h', Received s.rx (vjStep s p).rx { s.rx.comp with
          lastRecv := UInt8.ofNat i, slfToss := false
          rstate := Function.update s.rx.comp.rstate i
            { s.rx.comp.rstate i with csHdr := h' } }
        ((List.range (hdrLen p.ip)).map (wr8 p.ip (4 * ipHl p.ip + 13) f) ++
          p.bytes.drop (hdrLen p.ip)) ∧
      (vjStep s p).tx = { slStore comp i p.ip (hdrLen p.ip) with lastXmit := UInt8.ofNat i } ∧
      (f = p.ip (4 * ipHl p.ip + 13) ↔
        ¬StaleUrg p.ip (s.tx.tstate i).csHdr (4 * ipHl p.ip) (hdrLen p.ip)) ∧
      HeldAs h' (wr8 p.ip (4 * ipHl p.ip + 13) f) (hdrLen p.ip) := by
  obtain ⟨rest, hbytes, hsent⟩ := hp.sent
  have hge := hdrLen_ge hp.header
  have hlen := hp.contiguous
  obtain ⟨-, hle, -⟩ := hp.bytes_eq
  have hid : (comp.tstate i).csId = UInt8.ofNat i := by
    rw [hrel.states]
    exact hs.ids i hi
  obtain ⟨b, hout, hb⟩ := slCompressedOut_eq comp i p.first (4 * ipHl p.ip) (hdrLen p.ip)
    p.compressCid (slIdPush p.ip (s.tx.tstate i).csHdr (4 * ipHl p.ip) c)
  rw [hout, hid] at hcmp
  rw [hid, hrel.lastXmit] at hb
  obtain ⟨u, w, a, t, n, q, hbits⟩ := idPush_octet hc
  generalize hr : slIdPush p.ip (s.tx.tstate i).csHdr (4 * ipHl p.ip) c = r at hcmp hbits
  have hdata : p.first.drop (hdrLen p.ip) ++ rest = p.bytes.drop (hdrLen p.ip) := by
    rw [hbytes, drop_append_of_le_length hlen]
  obtain ⟨frame, hframe⟩ : ∃ frame, frame = (r.1 ||| bit b newC ||| typeCompressedTcp) ::
      ((if b then [UInt8.ofNat i] else []) ++ ([p.ip (4 * ipHl p.ip + 16),
        p.ip (4 * ipHl p.ip + 17)] ++ r.2 ++ p.bytes.drop (hdrLen p.ip))) := ⟨_, rfl⟩
  have hstep := hsent s hcmp (cons_ne_nil _ _)
  rw [cons_append, modifyHead_cons, append_assoc, append_assoc _ _ rest, hdata] at hstep
  change vjStep s p = ⟨_, slFrameIn s.rx (_ :: (_ ++ ([p.ip (4 * ipHl p.ip + 16),
    p.ip (4 * ipHl p.ip + 17)] ++ _ ++ _)))⟩ at hstep
  rw [← hframe] at hstep
  -- a connection that is left out is the last one on both sides
  have hlast : b = false → s.rx.comp.lastRecv = UInt8.ofNat i ∧ s.rx.comp.slfToss = false := by
    intro h
    have hx := hb h
    refine ⟨hs.xmit ▸ hx, Bool.eq_false_iff.mpr fun ht => ?_⟩
    have h255 := congrArg UInt8.toNat ((hs.toss ht).symm.trans hx)
    rw [toNat_ofNat_of_lt hi] at h255
    rw [maxStates] at hi
    have : (255 : UInt8).toNat = 255 := rfl
    omega
  have hnewC : (r.1 ||| bit b newC ||| typeCompressedTcp) &&& newC ≠ 0 ↔ b = true := by
    rw [hbits]
    exact (frameOctet_bits u w a t n q b).2.2.2.2.2.2
  obtain ⟨htype, htype'⟩ := compressed_octet (r.1 ||| bit b newC)
  have hfirst0 : octetsOf frame 0 = r.1 ||| bit b newC ||| typeCompressedTcp := by
    rw [hframe]
    rfl
  have hflen : 3 ≤ frame.length := by
    rw [hframe]
    simp only [length_cons, length_append]
    omega
  obtain ⟨mem, hheld, hrec⟩ := slFrameIn_tcp hs.ready hflen (by rw [hfirst0]; exact htype)
    (c := typeCompressedTcp) (by rw [hfirst0, if_pos htype'])
  rw [if_neg (by decide), hframe] at hheld
  obtain ⟨cp, hcp, hcplen, hrest, hunc⟩ := slUncompressTcp_compressed hi hlast hnewC hheld
    frame.length
  have hbuf : s.rx.scBuf = 148 := hs.ready.buf
  have h120 := hdrLen_lt p.ip
  have hlenW : rd16 p.ip 2 = BitVec.ofNat 16 ((p.bytes.drop (hdrLen p.ip)).length + hdrLen p.ip) := by
    apply BitVec.eq_of_toNat_eq
    have hlt := (rd16 p.ip 2).isLt
    have hpl := hp.len
    rw [BitVec.toNat_ofNat, length_drop, Nat.sub_add_cancel hle, ← hpl, Nat.mod_eq_of_lt hlt]
  have hslot' : Slot (s.tx.tstate i) (s.rx.comp.rstate (UInt8.ofNat i).toNat) := by
    rw [toNat_ofNat_of_lt hi]
    exact hslot
  obtain ⟨f, h', mem', o, hreb, hheld', hf, hkept⟩ := slRebuild_spec
    { s.rx.comp with slfToss := false, lastRecv := UInt8.ofNat i } hslot' hp.header
    hflags hun hc hr.symm b hlenW hp.sum hcp.le (by omega) hrest
  rw [hstep]
  refine ⟨f, h', ?_, rfl, hf, hkept⟩
  have hrestlen : ([p.ip (4 * ipHl p.ip + 16), p.ip (4 * ipHl p.ip + 17)] ++ r.2 ++
      p.bytes.drop (hdrLen p.ip)).length =
        2 + r.2.length + (p.bytes.drop (hdrLen p.ip)).length := by
    rw [length_append, length_append]
    rfl
  have houtlen : ((List.range (hdrLen p.ip)).map (wr8 p.ip (4 * ipHl p.ip + 13) f) ++
      p.bytes.drop (hdrLen p.ip)).length = (p.bytes.drop (hdrLen p.ip)).length + hdrLen p.ip := by
    rw [length_append, length_map, length_range, Nat.add_comm]
  refine hrec _ mem' o _ ?_ hheld' (length_pos_iff.mp (by rw [houtlen]; omega))
  rw [hunc, hframe, ← hcplen, hrestlen, hreb, houtlen, SlCompress.setRecv]
  rw [toNat_ofNat_of_lt hi]

theorem StepOk.compressed (hcan : slCompressible p.ip p.first.length)
    (hstale : MeetsStaleUrg s.tx p.ip ↔
      StaleUrg p.ip (s.tx.tstate i).csHdr (4 * ipHl p.ip) (hdrLen p.ip)) : StepOk s p := by
  obtain ⟨f, h', hrec, htx, hf, hheld⟩ := vjStep_compressed hs hp hflags hrel hi hslot hun hc hcmp
  have hover := tx_overrun hs hrel htx
  have hge := hdrLen_ge hp.header
  obtain ⟨-, hle, hbytes⟩ := hp.bytes_eq
  have hout := vjOut_of_received hrec
  rw [hover, hs.rxFits] at hout
  constructor
  · intro hcond
    obtain ⟨hfits, hno⟩ := hcond hcan
    have hdec : decide (maxHdr < hdrLen p.ip) = false := decide_eq_false (by omega)
    have hself : wr8 p.ip (4 * ipHl p.ip + 13) f = p.ip := by
      rw [hf.mpr (hstale.not.mp hno), wr8_self, copy_of_same fun _ _ _ => rfl]
    rw [hself] at hout hheld
    refine ⟨by rw [hout, hdec, if_neg (by decide), ← hbytes], ?_⟩
    exact hs.stored hrel hfits htx hrec.comp hrec.ready fun t ht =>
      Slot.make hp.header hflags (by rw [hp.len]; exact hle) ht (hslot.hlen.trans hun.hlen) hheld
  · intro hcond
    by_cases hlong : maxHdr < hdrLen p.ip
    · rw [hout, decide_eq_true hlong, if_pos (.inl rfl)]
      exact nofun
    · rw [hout, decide_eq_false hlong, if_neg (by decide)]
      intro heq
      -- the flags would be those of the packet
      have hsame := (Option.some.inj heq).trans hbytes
      rw [append_cancel_right_eq, map_inj_left] at hsame
      have h13 := hsame (4 * ipHl p.ip + 13) (mem_range.mpr (by omega))
      rw [wr8, if_pos rfl] at h13
      exact hcond fun _ => ⟨by omega, fun hm => hf.mp h13 (hstale.mp hm)⟩

end

/-- What is sent for a packet whose state `slLocate` has looked for. -/
def slSent (ip : Mem) (d : List Byte) (cid : Bool) (r : Bool × Nat × SlCompress) :
    SlCompress × Byte × List Byte :=
  let cs := (r.2.2.tstate r.2.1).csHdr
  if r.1 ∧ slSame ip cs (ipHl ip) then
    match slDeltas ip cs (4 * ipHl ip) (hdrLen ip) with
    | some c => slCompressedOut r.2.2 r.2.1 d (4 * ipHl ip) (hdrLen ip) cid
      (slIdPush ip cs (4 * ipHl ip) c)
    | none => slUncompressedOut r.2.2 r.2.1 d (hdrLen ip)
  else slUncompressedOut r.2.2 r.2.1 d (hdrLen ip)

/-- **One packet.** -/
theorem VjSync.step (hs : VjSync s) (hp : p.Wf) : StepOk s p := by
  by_cases hcan : slCompressible p.ip p.first.length
  · have hflags : AckFlags (p.ip (4 * ipHl p.ip + 13)) := ⟨hp.header.flags, hcan.2⟩
    obtain ⟨hi, hfound, hrel⟩ := hs.links.locate p.ip (4 * ipHl p.ip)
    have hcmp : slCompressTcp s.tx p.first p.compressCid = _ := if_pos hcan
    change slCompressTcp s.tx p.first p.compressCid =
      slSent p.ip p.first p.compressCid (slLocate s.tx p.ip (4 * ipHl p.ip)) at hcmp
    have hmeets : MeetsStaleUrg s.tx p.ip ↔
        let r := slLocate s.tx p.ip (4 * ipHl p.ip)
        let cs := (s.tx.tstate r.2.1).csHdr
        r.1 = true ∧ slSame p.ip cs (ipHl p.ip) = true ∧
          StaleUrg p.ip cs (4 * ipHl p.ip) (hdrLen p.ip) := Iff.rfl
    generalize slLocate s.tx p.ip (4 * ipHl p.ip) = r at hi hfound hrel hcmp hmeets
    obtain ⟨found, i, comp⟩ := r
    dsimp only [slSent] at hi hfound hrel hcmp hmeets
    have hhdr : (comp.tstate i).csHdr = (s.tx.tstate i).csHdr := by rw [hrel.states]
    rw [hhdr] at hcmp
    by_cases hsame : found = true ∧ slSame p.ip (s.tx.tstate i).csHdr (ipHl p.ip) = true
    · rw [if_pos hsame] at hcmp
      -- the slot has been used, since its first octet is that of the packet
      have hslot : Slot (s.tx.tstate i) (s.rx.comp.rstate i) := by
        rcases hs.slots i hi with h0 | hslot
        · have hne := (version_octet hp.header.version).2.2.2.2.2.2
          have hfirst : p.ip 0 = (s.tx.tstate i).csHdr 0 := by
            have hs0 := hsame.2
            simp only [slSame, Bool.and_eq_true, beq_iff_eq] at hs0
            exact same_of_rd16 hs0.1.1.1.1.1 0 (le_refl 0) (by decide)
          exact absurd (hfirst.trans h0) hne
        · exact hslot
      have hun := unchanged_of_match hp.header hslot.header (hfound hsame.1) hsame.2
      have hstale : MeetsStaleUrg s.tx p.ip ↔
          StaleUrg p.ip (s.tx.tstate i).csHdr (4 * ipHl p.ip) (hdrLen p.ip) :=
        hmeets.trans ⟨fun h => h.2.2, fun h => ⟨hsame.1, hsame.2, h⟩⟩
      split at hcmp
      · next c hc => exact StepOk.compressed hs hp hflags hrel hi hslot hun hc hcmp hcan hstale
      · next hnone =>
        refine StepOk.uncompressed hs hp hcan hflags hrel hi (fun hm => ?_) hcmp
        have hle := hslot.len
        rw [hun.hlen] at hle
        obtain ⟨c, hc, -⟩ := (hstale.mp hm).special hle
        rw [hnone] at hc
        cases hc
    · rw [if_neg hsame] at hcmp
      refine StepOk.uncompressed hs hp hcan hflags hrel hi ?_ hcmp
      exact fun hm => hsame ⟨(hmeets.mp hm).1, (hmeets.mp hm).2.1⟩
  · exact StepOk.header hs hp hcan

/-! ## Sequences of packets -/

theorem vjStart_sync (mem : Nat → Nat → Byte) : VjSync (vjStart mem) := by
  have hlinks : LinksOk slCompressInit := by
    refine ⟨[15, 14, 13, 12, 11, 10, 9, 8, 7, 6, 5, 4, 3, 2, 1], ?_, by decide⟩
    unfold LinkRing
    decide
  exact ⟨fun _ _ => rfl, hlinks, fun _ _ => .inl rfl, rfl, fun _ => rfl, rfl, rfl, rfl, rfl, rfl, rfl,
    rfl⟩

theorem vjRun_iff (hs : VjSync s) {ps : List VjPacket} (hwf : ∀ p ∈ ps, p.Wf) :
    vjRun s ps = ps.map (fun p => some p.bytes) ↔ MeetsAll vjStep VjCond s ps := by
  induction ps generalizing s with
  | nil => exact iff_of_true rfl trivial
  | cons p ps ih =>
    obtain ⟨hp, hps⟩ := forall_mem_cons.mp hwf
    have hstep := hs.step hp
    rw [vjRun, map_cons, List.cons.injEq, MeetsAll]
    constructor
    · rintro ⟨hout, hrest⟩
      have hc : VjCond s p := by
        by_contra hc
        exact hstep.bad hc hout
      exact ⟨hc, (ih (hstep.good hc).2 hps).mp hrest⟩
    · rintro ⟨hc, hrest⟩
      obtain ⟨hout, hsync⟩ := hstep.good hc
      exact ⟨hout, (ih hsync hps).mpr hrest⟩

/-- **Header compression is lossless** exactly when no packet has a header that is compressible and
longer than `MAX_HDR`, and none goes out in a special encoding after a packet of its connection with
`URG` set. -/
theorem vj_lossless (mem : Nat → Nat → Byte) (ps : List VjPacket) (hwf : ∀ p ∈ ps, p.Wf) :
    vjRun (vjStart mem) ps = ps.map (fun p => some p.bytes) ↔
      MeetsAll vjStep VjCond (vjStart mem) ps :=
  vjRun_iff (vjStart_sync mem) hwf

instance (ip : Mem) : Decidable (TcpIpHeader ip) := decidable_of_iff' _ (tcpIpHeader_iff ip)

instance (p : VjPacket) : Decidable p.Wf := decidable_of_iff' _ (VjPacket.wf_iff p)

/-- A packet of 41 bytes: identification, checksum, sequence number, flags, urgent pointer and
one byte of data. -/
def vjSegment (id sumHi sumLo seq flags urp data : Byte) : VjPacket where
  compressCid := true
  m := [{ mData := [69, 0, 0, 41, 0, id, 0, 0, 64, 6, sumHi, sumLo, 10, 0, 0, 1, 10, 0, 0, 2, 4, 210,
    0, 80, 0, 0, 0, seq, 0, 0, 0, 1, 80, flags, 16, 0, 0, 0, 0, urp, data] }]

/-- Two packets of one connection, the second in a special encoding. -/
theorem vj_lossless_two :
    (∀ p ∈ [vjSegment 1 102 204 1 0x18 0 97, vjSegment 2 102 203 2 0x10 0 98], p.Wf) ∧
      vjRun (vjStart fun _ _ => 0)
          [vjSegment 1 102 204 1 0x18 0 97, vjSegment 2 102 203 2 0x10 0 98] =
        [some (vjSegment 1 102 204 1 0x18 0 97).bytes,
          some (vjSegment 2 102 203 2 0x10 0 98).bytes] := by
  have hwf : ∀ p ∈ [vjSegment 1 102 204 1 0x18 0 97, vjSegment 2 102 203 2 0x10 0 98], p.Wf := by
    decide +kernel
  exact ⟨hwf, (vj_lossless (fun _ _ => 0) _ hwf).mpr (by decide +kernel)⟩

/-- A packet with `URG` set and one that carries on without it: the second comes out with `URG`
set. -/
theorem vj_stale_urg :
    (∀ p ∈ [vjSegment 1 102 204 1 0x30 1 97, vjSegment 2 102 203 2 0x10 1 98], p.Wf) ∧
      vjRun (vjStart fun _ _ => 0)
          [vjSegment 1 102 204 1 0x30 1 97, vjSegment 2 102 203 2 0x10 1 98] =
        [some (vjSegment 1 102 204 1 0x30 1 97).bytes,
          some (vjSegment 2 102 203 2 0x30 1 98).bytes] := by
  constructor <;> decide +kernel

/-- **The ends agree.** After packets that all came out as they were sent, both ends hold the same
header in every slot in use, and the sender's list goes through every slot once. -/
theorem vj_in_sync (mem : Nat → Nat → Byte) (ps : List VjPacket) (hwf : ∀ p ∈ ps, p.Wf)
    (h : vjRun (vjStart mem) ps = ps.map fun p => some p.bytes) :
    VjSync (ps.foldl vjStep (vjStart mem)) := by
  have hs := vjStart_sync mem
  generalize vjStart mem = s at hs h ⊢
  replace h := (vjRun_iff hs hwf).mp h
  induction ps generalizing s with
  | nil => exact hs
  | cons p ps ih =>
    obtain ⟨hp, hps⟩ := forall_mem_cons.mp hwf
    exact ih hps _ ((hs.step hp).good h.1).2 h.2

/-- The second packet goes out compressed, in a frame of 4 octets. -/
theorem vj_in_sync_two :
    (slCmp true (vjStep (vjStart fun _ _ => 0) (vjSegment 1 102 204 1 0x18 0 97)).tx
        (vjSegment 2 102 203 2 0x10 0 98).m).2.map (·.mLen) = [4] ∧
      VjSync ([vjSegment 1 102 204 1 0x18 0 97, vjSegment 2 102 203 2 0x10 0 98].foldl vjStep
        (vjStart fun _ _ => 0)) :=
  ⟨by decide +kernel, vj_in_sync _ _ (by decide +kernel) (by decide +kernel)⟩

end Anp
