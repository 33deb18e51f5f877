import Anp.Tcp.Arrival

/-!
# Reopen — a SYN that restarts a connection in TIME_WAIT

A SYN beyond the window of a connection in TIME_WAIT closes it, and `tcp_input` goes back to
`findpcb` with the same segment: the listening socket makes a new connection of it. But the
headers were dropped from the mbuf chain already, and are dropped once more; and the initial
sequence number is chosen from `rcv_nxt` of the old connection, which is the peer's.
-/

namespace Anp

open Cyclic Machine List Option

variable {syn : Bool} {i i' : Inp} {cp : List Byte} {n : Nat} {ts : Option Tstamp} {seg : Segment}
  {s s' : Sys} {r : Sys × Option Tstamp}

/-! ## Chains with lengths below zero -/

/-- `m_len`, and what lies at `m_data`. -/
structure RawMbuf where
  mLen : Int
  mData : List Byte
  deriving DecidableEq, Repr

variable {c : List RawMbuf}

def rawMap (m : List Mbuf) : List RawMbuf := m.map fun b => ⟨b.mLen, b.mData⟩

/-- The chain of a segment once its headers are dropped. The mbuf that held them is its first. -/
def rawChain : List Mbuf → List RawMbuf
  | [] => [⟨0, []⟩]
  | m => rawMap m

/-- `m->m_data += n; m->m_len -= n`. -/
def rawDrop (n : Nat) : List RawMbuf → List RawMbuf
  | [] => []
  | m :: ms => ⟨m.mLen - n, m.mData.drop n⟩ :: ms

def rawLen (m : List RawMbuf) : Int := (m.map (·.mLen)).sum

def rawBytes (m : List RawMbuf) : List Byte := m.flatMap fun b => b.mData.take b.mLen.toNat

/-- The last loops of `m_adj`: the mbuf with the last data is cut; when the chain runs out before, a
null pointer is followed. -/
def rawCut : List RawMbuf → Int → Option (List RawMbuf)
  | [], _ => none
  | m :: ms, count =>
    if count ≤ m.mLen then some ({ m with mLen := count } :: ms.map fun m => { m with mLen := 0 })
    else (rawCut ms (count - m.mLen)).map (m :: ·)

/-- `m_adj(m, -len)`. -/
def rawAdj (mp : List RawMbuf) (len : Int) : Option (List RawMbuf) :=
  match mp.getLast? with
  | none => some mp
  | some last =>
    if len ≤ last.mLen then some (mp.dropLast ++ [{ last with mLen := last.mLen - len }])
    else
      let count := rawLen mp - len
      rawCut mp (if count < 0 then 0 else count)

theorem rawLen_cons (m : RawMbuf) (ms : List RawMbuf) : rawLen (m :: ms) = m.mLen + rawLen ms := by
  simp [rawLen]

theorem rawLen_append (a b : List RawMbuf) : rawLen (a ++ b) = rawLen a + rawLen b := by
  simp [rawLen]

theorem rawLen_rawDrop (n : Nat) {m : List RawMbuf} (h : m ≠ []) :
    rawLen (rawDrop n m) = rawLen m - n := by
  cases m with
  | nil => exact absurd rfl h
  | cons b ms =>
    rw [rawDrop, rawLen_cons, rawLen_cons]
    dsimp only
    omega

theorem rawChain_ne_nil (m : List Mbuf) : rawChain m ≠ [] := by
  cases m <;> exact cons_ne_nil _ _

theorem rawLen_rawMap (m : List Mbuf) : rawLen (rawMap m) = chainLen m := by
  induction m with
  | nil => rfl
  | cons b ms ih =>
    rw [show rawMap (b :: ms) = ⟨b.mLen, b.mData⟩ :: rawMap ms from rfl, rawLen_cons, ih, chainLen_cons]
    exact (Int.natCast_add _ _).symm

theorem rawLen_rawChain (m : List Mbuf) : rawLen (rawChain m) = chainLen m := by
  cases m with
  | nil => rfl
  | cons b ms => exact rawLen_rawMap (b :: ms)

theorem rawLen_rawCut {mp mp' : List RawMbuf} {count : Int} (h : rawCut mp count = some mp') :
    rawLen mp' = count := by
  induction mp generalizing count mp' with
  | nil => cases h
  | cons m ms ih =>
    rw [rawCut] at h
    split at h
    · cases h
      have hzero : rawLen (ms.map fun m => { m with mLen := 0 }) = 0 := by
        clear ih
        induction ms with
        | nil => rfl
        | cons b ms ihz => rw [map_cons, rawLen_cons, ihz]; rfl
      rw [rawLen_cons, hzero]
      exact Int.add_zero count
    · obtain ⟨ms', hms, rfl⟩ := map_eq_some_iff.mp h
      rw [rawLen_cons, ih hms]
      omega

theorem rawLen_rawAdj {mp mp' : List RawMbuf} {len : Int} (hne : mp ≠ [])
    (h : rawAdj mp len = some mp') :
    rawLen mp' = rawLen mp - len ∨ (rawLen mp - len < 0 ∧ rawLen mp' = 0) := by
  unfold rawAdj at h
  split at h
  · next hlast => exact absurd (getLast?_eq_none_iff.mp hlast) hne
  · next last hlast =>
    split at h
    · cases h
      obtain ⟨ys, rfl⟩ := getLast?_eq_some_iff.mp hlast
      rw [dropLast_concat, rawLen_append, rawLen_append, rawLen_cons, rawLen_cons]
      dsimp only
      omega
    · have hl := rawLen_rawCut h
      split at hl
      · next hneg => exact .inr ⟨hneg, hl⟩
      · exact .inl hl

/-! ## From `findpcb` on -/

/-- What the pass makes of the segment: no connection, a fault, or one that goes on to `step6` with
the segment `i` and its chain `c`. -/
inductive Newconn where
  | gone (o : Outcome Unit)
  | fault
  | opened (i : Inp) (c : List RawMbuf) (s : Sys)
  deriving DecidableEq, Repr

/-- The pass on the new socket `s` of a listening one, with what was found before `findpcb`: `iss`,
the timestamp and the chain. `m_adj` is called with the length that `trimthenstep6` takes off
`ti_len`. -/
def newPass (iss : Seq) (ts : Option Tstamp) (c : List RawMbuf) (s : Sys) (seg : Segment) :
    Newconn :=
  match inHeader s seg with
  | none => .gone (.stop (.panic .divide) s)
  | some (i, s) =>
    match inListen iss seg { i with ts := ts } (inRcvWnd s) with
    | .done o => .gone o
    | .next i' s' =>
      match if i'.tiLen < i.tiLen then rawAdj c (i.tiLen - i'.tiLen) else some c with
      | some c => .opened i' c s'
      | none => .fault

/-- The segment arrives when the old connection is gone. -/
def arrives (head : Socket) (rfc1323 : Bool) (w : World) (seg : Segment) : Newconn :=
  newPass 0 (quickTstamp (seg.opts ++ seg.optTail) seg.opts.length seg.tiFlags.syn)
    (rawChain seg.m) (enter (sonewconn head rfc1323) w) seg

/-- The headers of a segment, with its options. -/
def headerLen (seg : Segment) : Nat := tcpiphdrLen + seg.opts.length

/-- The segment restarts the connection `s`: `iss` is chosen, the timestamp is left from the first
pass, and the headers are dropped once more. -/
def reopened (s : Sys) (head : Socket) (rfc1323 : Bool) (w : World) (seg : Segment) : Newconn :=
  match inHeader (enter s w) seg with
  | none => .gone (.stop (.panic .divide) s)
  | some (i, s) =>
    newPass (s.tp.rcvNxt + tcpIssincr) i.ts (rawDrop (headerLen seg) (rawChain seg.m))
      (enter (sonewconn head rfc1323) w) seg

/-- The connection with another initial sequence number. -/
def reseq (iss : Seq) (s : Sys) : Sys := { s with tp := tcpSendseqinit { s.tp with iss := iss } }

/-- The sequence number a connection is opened with. -/
def chooseIss (iss : Seq) (w : World) : Seq := if iss = 0 then w.tcpIss else iss

/-- Two connections that differ in their initial sequence numbers only. The text counts when it goes
on the queue, by its length. -/
structure SameConn (i i₀ : Inp) (c c₀ : List RawMbuf) (s s₀ : Sys) : Prop where
  seg : { i with m := [] } = { i₀ with m := [] }
  conn : s = reseq s.tp.iss s₀
  text : i.tiLen ≠ 0 ∨ i.tiflags.fin = true → rawLen c = rawLen c₀ ∧ rawBytes c = rawBytes c₀

/-- The segment restarts `s` as it should: as if `s` was gone, and beyond what `s` has sent. -/
def ReopenOk (s : Sys) (head : Socket) (rfc1323 : Bool) (w : World) (seg : Segment) : Prop :=
  ∃ i i₀ c c₀ s' s₀, reopened s head rfc1323 w seg = .opened i c s' ∧
    arrives head rfc1323 w seg = .opened i₀ c₀ s₀ ∧ SameConn i i₀ c c₀ s' s₀ ∧
    seqGT s'.tp.iss s.tp.sndMax = true

/-! ## Options read twice -/

/-- A timestamp found earlier is kept unless another one is found. -/
theorem dooption_ts (s : Sys) (ts : Option Tstamp) (cp : List Byte) (opt : Byte) (optlen : Nat)
    (syn : Bool) : dooption s ts cp opt optlen syn =
      (dooption s none cp opt optlen syn).map fun r => (r.1, r.2.or ts) := by
  unfold dooption
  split
  · rw [Option.map_map]
    rfl
  · split
    · rfl
    · split <;> rfl

theorem dooptionsLoop_ts (syn : Bool) (n : Nat) (s : Sys) (ts : Option Tstamp) (cp : List Byte)
    (cnt : Int) : dooptionsLoop syn n s ts cp cnt =
      (dooptionsLoop syn n s none cp cnt).map fun r => (r.1, r.2.or ts) := by
  induction n generalizing s ts cp cnt with
  | zero => rfl
  | succ n ih =>
    rw [dooptionsLoop, dooptionsLoop]
    split
    · rfl
    · rw [dooption_ts, bind_map, map_bind]
      refine bind_congr fun r _ => ?_
      -- both rounds go on from the same connection, each with the timestamp it has
      show dooptionsLoop syn n r.1 (r.2.or ts) _ _ = (dooptionsLoop syn n r.1 r.2 _ _).map _
      rw [ih r.1 (r.2.or ts), ih r.1 r.2, Option.map_map]
      refine map_congr fun r' _ => ?_
      show (r'.1, r'.2.or (r.2.or ts)) = (r'.1, (r'.2.or r.2).or ts)
      rw [Option.or_assoc]

theorem dooption_found {opt : Byte} {optlen : Nat} {r' : Sys × Option Tstamp}
    (h : dooption s ts cp opt optlen syn = some r) (h' : dooption s' ts cp opt optlen syn = some r') :
    r.2 = r'.2 := by
  unfold dooption at h h'
  split_ifs at h h'
  · obtain ⟨a, -, rfl⟩ := map_eq_some_iff.mp h
    obtain ⟨b, -, rfl⟩ := map_eq_some_iff.mp h'
    rfl
  all_goals
    cases h
    cases h'
    rfl

theorem dooptionsLoop_found {cnt : Int} {r' : Sys × Option Tstamp}
    (h : dooptionsLoop syn n s ts cp cnt = some r) (h' : dooptionsLoop syn n s' ts cp cnt = some r') :
    r.2 = r'.2 := by
  fun_induction dooptionsLoop syn n s ts cp cnt generalizing s' with
  | case1 =>
    cases h
    cases h'
    rfl
  | case2 n s ts cp cnt hc =>
    rw [dooptionsLoop, if_pos hc] at h'
    cases h
    cases h'
    rfl
  | case3 n s ts cp cnt hc ih =>
    rw [dooptionsLoop, if_neg hc] at h'
    obtain ⟨a, ha, hra⟩ := bind_eq_some_iff.mp h
    obtain ⟨b, hb, hrb⟩ := bind_eq_some_iff.mp h'
    exact ih a hra (dooption_found ha hb ▸ hrb)

theorem reads_rcvWnd : Reads fun s s' => s'.tp.rcvWnd = s.tp.rcvWnd ∧ s'.w = s.w where
  refl _ := ⟨rfl, rfl⟩
  trans h h' := ⟨h'.1.trans h.1, h'.2.trans h.2⟩
  mss h := by
    obtain ⟨tp, snd, rcv, rfl, -, -, ⟨a, b, c, d, e, f, g, rfl⟩, -⟩ := tcpMss_eq h
    exact ⟨rfl, rfl⟩
  note _ _ _ _ _ _ _ _ := ⟨rfl, rfl⟩

/-- Options that were read before give the same timestamp. -/
def TsRead (ts : Option Tstamp) (cp : List Byte) (cnt : Nat) (syn : Bool) : Prop :=
  ts = none ∨ ∃ s r, tcpDooptions s none cp cnt syn = some r ∧ ts = r.2

theorem dooptions_again {cnt : Nat} (ht : TsRead ts cp cnt syn) (s : Sys) :
    tcpDooptions s ts cp cnt syn = tcpDooptions s none cp cnt syn := by
  rcases ht with rfl | ⟨s1, r1, h1, rfl⟩
  · rfl
  · unfold tcpDooptions at h1 ⊢
    rw [dooptionsLoop_ts]
    cases h : dooptionsLoop syn cnt s none cp cnt with
    | none => rfl
    | some r =>
      have hr : r1.2 = r.2 := dooptionsLoop_found h1 h
      rw [Option.map_some, hr, Option.or_self]

/-! ## The two passes -/

theorem inListen_again (hi : i.ts = none)
    (ht : TsRead ts (seg.opts ++ seg.optTail) seg.opts.length i.tiFlags.syn) (iss : Seq) (s : Sys) :
    inListen iss seg { i with ts := ts } s = match inListen 0 seg i s with
      | .next i' s' => .next i' (reseq (chooseIss iss s.w) s')
      | .done o => .done o := by
  unfold inListen
  dsimp only
  rw [dooptions_again ht, hi]
  iterate 4
    split
    · rfl
  cases h : tcpDooptions { s with tp := { s.tp with tTemplate := true } } none
    (seg.opts ++ seg.optTail) seg.opts.length i.tiFlags.syn with
  | none => rfl
  | some r =>
    have hw : r.1.w = s.w := (reads_rcvWnd.dooptionsLoop _ h).2
    rw [← hw]
    rfl

theorem inTrimSyn_text (h : inTrimSyn i s = .next i' s') :
    i'.tiLen = min i.tiLen s.tp.rcvWnd ∧
      (i.tiLen ≤ s.tp.rcvWnd → i'.tiflags.fin = i.tiflags.fin) := by
  unfold inTrimSyn at h
  dsimp only at h
  split at h
  · next hlt =>
    cases h
    exact ⟨(min_eq_right (le_of_lt hlt)).symm, fun hle => absurd hlt (not_lt.mpr hle)⟩
  · next hle =>
    cases h
    exact ⟨(min_eq_left (not_lt.mp hle)).symm, fun _ => rfl⟩

/-- What is opened: the text that fits in the window, and the FIN if nothing is cut. -/
theorem inListen_opened {iss : Seq} (h : inListen iss seg i s = .next i' s') :
    i.tiflags.syn = true ∧ i'.tiLen = min i.tiLen s.tp.rcvWnd ∧
      (i.tiLen ≤ s.tp.rcvWnd → i'.tiflags.fin = i.tiflags.fin) := by
  unfold inListen at h
  dsimp only at h
  iterate 2
    split at h
    · cases h
  split at h
  · cases h
  · next hsyn =>
    iterate 2
      split at h
      · cases h
    next r ts hr =>
    obtain ⟨hwnd, -⟩ := reads_rcvWnd.dooptionsLoop _ hr
    obtain ⟨hlen, hfin⟩ := inTrimSyn_text h
    refine ⟨?_, hwnd ▸ hlen, fun hle => hfin (hwnd ▸ hle)⟩
    cases hf : i.tiflags.syn with
    | true => rfl
    | false => simp [hf] at hsyn

theorem inHeader_ts (hsyn : seg.tiFlags.syn = true) (h : inHeader s seg = some (i, s')) :
    TsRead i.ts (seg.opts ++ seg.optTail) seg.opts.length seg.tiFlags.syn := by
  unfold inHeader at h
  dsimp only at h
  split at h
  · cases h
    refine .inl ?_
    dsimp only [quickTstamp]
    rw [if_neg (by simp [hsyn])]
  · obtain ⟨r, hr, he⟩ := map_eq_some_iff.mp h
    cases he
    exact .inr ⟨_, r, hr, rfl⟩

theorem inHeader_listen (hl : s.tp.tState = .listen) (h : inHeader s seg = some (i, s')) :
    s'.so = s.so ∧ s'.w = s.w ∧
      i.ts = quickTstamp (seg.opts ++ seg.optTail) seg.opts.length seg.tiFlags.syn ∧
      i.tiLen = chainLen seg.m ∧ i.tiflags = seg.tiFlags ∧ i.tiFlags = seg.tiFlags := by
  unfold inHeader at h
  rw [if_pos (Or.inr hl)] at h
  cases h
  exact ⟨rfl, rfl, rfl, rfl, rfl, rfl⟩

/-- An empty buffer with the limits of `sbreserve`. -/
def Reserved (sb : Sockbuf) : Prop :=
  sb.sbCc = 0 ∧ sb.sbMbcnt = 0 ∧ sb.sbHiwat ≤ sbMax ∧ sb.sbMbmax = min (u32 (sb.sbHiwat * 2)) sbMax

theorem reserved_sbreserve {sb sb' : Sockbuf} (hr : Reserved sb) (h : sbreserve sb n = some sb') :
    Reserved sb' ∧ sb'.sbHiwat = n := by
  unfold sbreserve at h
  split at h
  · cases h
  · next hn =>
    cases h
    exact ⟨⟨hr.1, hr.2.1, le_trans (not_lt.mp hn) (by decide), rfl⟩, rfl⟩

theorem reserved_soreserve {so so' : Socket} {a b : Nat} (hr : Reserved so.soRcv)
    (h : soreserve so a b = some so') : Reserved so'.soRcv ∧ so'.soRcv.sbHiwat = b := by
  obtain ⟨snd, -, h⟩ := bind_eq_some_iff.mp h
  obtain ⟨rcv, hrcv, rfl⟩ := map_eq_some_iff.mp h
  have hres := reserved_sbreserve hr hrcv
  dsimp only
  split <;> exact hres

theorem reserved_sonewconn (head : Socket) (rfc1323 : Bool) :
    Reserved (sonewconn head rfc1323).so.soRcv ∧ 0 < (sonewconn head rfc1323).so.soRcv.sbHiwat := by
  unfold sonewconn
  extract_lets so so1 so2
  have hempty : Reserved {} := by
    unfold Reserved
    decide
  have hso : Reserved so.soRcv := hempty
  have h1 : Reserved so1.soRcv := by
    show Reserved ((soreserve so _ _).getD so).soRcv
    cases h : soreserve so head.soSnd.sbHiwat head.soRcv.sbHiwat with
    | none => exact hso
    | some so' => exact (reserved_soreserve hso h).1
  show Reserved (if so1.soSnd.sbHiwat = 0 ∨ so1.soRcv.sbHiwat = 0 then
      (soreserve so1 8192 8192).getD so1 else so1).soRcv ∧
    0 < (if so1.soSnd.sbHiwat = 0 ∨ so1.soRcv.sbHiwat = 0 then
      (soreserve so1 8192 8192).getD so1 else so1).soRcv.sbHiwat
  split
  · obtain ⟨so', h⟩ := isSome_iff_exists.mp (show (soreserve so1 8192 8192).isSome from rfl)
    obtain ⟨hres, hhi⟩ := reserved_soreserve h1 h
    rw [h, getD_some, hhi]
    exact ⟨hres, by decide⟩
  · next hne => exact ⟨h1, Nat.pos_of_ne_zero fun h => hne (Or.inr h)⟩

theorem rcvWnd_pos (hr : Reserved s.so.soRcv) (hpos : 0 < s.so.soRcv.sbHiwat) :
    0 < (inRcvWnd s).tp.rcvWnd := by
  obtain ⟨hcc, hmb, hhi, hmax⟩ := hr
  have hsb : sbMax = 262144 := rfl
  have hu : u32 ((s.so.soRcv.sbHiwat : Int) * 2) = s.so.soRcv.sbHiwat * 2 := by
    unfold u32
    omega
  have hspace : 0 < sbspace s.so.soRcv ∧ sbspace s.so.soRcv ≤ 262144 := by
    unfold sbspace
    rw [hcc, hmb, hmax, hu, int32_of_range (by omega) (by omega),
      int32_of_range (by omega) (by omega)]
    omega
  refine lt_of_lt_of_le ?_ (le_max_left _ _)
  unfold u32
  omega

theorem newPass_opened {iss : Seq} {c' : List RawMbuf}
    (h : newPass iss ts c s seg = .opened i' c' s') :
    ∃ i s1, inHeader s seg = some (i, s1) ∧
      inListen iss seg { i with ts := ts } (inRcvWnd s1) = .next i' s' ∧
      (if i'.tiLen < i.tiLen then rawAdj c (i.tiLen - i'.tiLen) else some c) = some c' := by
  unfold newPass at h
  split at h
  · cases h
  · next i s1 hh =>
    split at h
    · cases h
    · next i2 s2 hl =>
      split at h
      · next c2 ha =>
        cases h
        exact ⟨i, s1, hh, hl, ha⟩
      · cases h

section

variable {head : Socket} {rfc1323 : Bool} {w : World} {seg : Segment} {i₀ : Inp}
  {c₀ : List RawMbuf} {s₀ : Sys}

/-- A segment that arrives when the old connection is gone: what the window leaves of its text is
what the chain has. -/
theorem arrives_opened (h : arrives head rfc1323 w seg = .opened i₀ c₀ s₀) :
    seg.tiFlags.syn = true ∧ (0 < chainLen seg.m → 0 < i₀.tiLen) ∧ i₀.tiLen ≤ chainLen seg.m ∧
      (i₀.tiLen = chainLen seg.m → i₀.tiflags.fin = seg.tiFlags.fin) ∧
      rawLen c₀ = i₀.tiLen := by
  obtain ⟨i, s1, hh, hl, ha⟩ := newPass_opened h
  obtain ⟨hso, -, -, hlen, hflags, -⟩ := inHeader_listen rfl hh
  have hres := reserved_sonewconn head rfc1323
  have hwnd : 0 < (inRcvWnd s1).tp.rcvWnd :=
    rcvWnd_pos (by rw [hso]; exact hres.1) (by rw [hso]; exact hres.2)
  obtain ⟨hsyn, hmin, hfin⟩ := inListen_opened hl
  dsimp only at hsyn hmin hfin
  rw [hflags] at hsyn hfin
  refine ⟨hsyn, fun hpos => ?_, ?_, fun he => hfin ?_, ?_⟩
  · omega
  · omega
  · omega
  · have hraw := rawLen_rawChain seg.m
    split at ha
    · rcases rawLen_rawAdj (rawChain_ne_nil _) ha with hc | ⟨hneg, -⟩
      · omega
      · omega
    · cases ha
      omega

/-- The chain of the second pass, `len` bytes of the text being in the window. -/
def reopenChain (seg : Segment) (len : Nat) : Option (List RawMbuf) :=
  let c := rawDrop (headerLen seg) (rawChain seg.m)
  if len < chainLen seg.m then rawAdj c (chainLen seg.m - len) else some c

/-- The second pass makes the connection that the segment makes when the old one is gone, but for
the sequence number and the text. -/
theorem reopened_eq {s1 : Sys} (hre : step s (.input seg) w = .stop (.closed .reopened) s1)
    (hnew : arrives head rfc1323 w seg = .opened i₀ c₀ s₀) :
    reopened s head rfc1323 w seg =
      match reopenChain seg i₀.tiLen with
      | some c => .opened i₀ c (reseq (chooseIss (s.tp.rcvNxt + tcpIssincr) w) s₀)
      | none => .fault := by
  have hsyn := (arrives_opened hnew).1
  obtain ⟨i, s2, hh, hl, -⟩ := newPass_opened hnew
  obtain ⟨-, hw, hts, hlen, -, hflags⟩ := inHeader_listen rfl hh
  have hquick : quickTstamp (seg.opts ++ seg.optTail) seg.opts.length seg.tiFlags.syn = none := by
    unfold quickTstamp
    rw [if_neg (by simp [hsyn])]
  rw [← hts] at hl
  unfold reopened
  cases h1 : inHeader (enter s w) seg with
  | none =>
    have hp : step s (.input seg) w = .ok () (enter s w) ∨
        step s (.input seg) w = .stop (.panic .divide) (enter s w) := by
      show tcpInput (enter s w) seg = _ ∨ tcpInput (enter s w) seg = _
      unfold tcpInput
      rw [h1]
      split
      · exact .inl rfl
      · exact .inr rfl
    rcases hp with hp | hp <;> rw [hp] at hre <;> cases hre
  | some r =>
    obtain ⟨i1, s3⟩ := r
    have hnxt : s3.tp.rcvNxt = s.tp.rcvNxt := congrArg View.nxt (still_inHeader h1).view
    have ht := inHeader_ts hsyn h1
    rw [← hflags] at ht
    dsimp only
    unfold newPass
    rw [hh, hnxt]
    dsimp only
    rw [inListen_again (hts.trans hquick) ht, hl, hlen, show (inRcvWnd s2).w = w from hw,
      reopenChain]

theorem reopened_short (hpos : 0 < i₀.tiLen ∨ i₀.tiLen = chainLen seg.m)
    (h : reopenChain seg i₀.tiLen = some c) (hle : i₀.tiLen ≤ chainLen seg.m) :
    rawLen c ≠ i₀.tiLen := by
  have hne := rawChain_ne_nil seg.m
  have hhd : 0 < headerLen seg := Nat.add_pos_left (by decide) _
  have hdrop := rawLen_rawDrop (headerLen seg) hne
  have hdne : rawDrop (headerLen seg) (rawChain seg.m) ≠ [] := by
    cases hm : rawChain seg.m with
    | nil => exact absurd hm hne
    | cons b ms => exact cons_ne_nil _ _
  rw [rawLen_rawChain] at hdrop
  rw [reopenChain] at h
  split at h
  · rcases rawLen_rawAdj hdne h with hc | ⟨-, hc⟩
    · omega
    · omega
  · cases h
    omega

/-- **Restarting a connection in TIME_WAIT.** A SYN makes the connection it would make without the
old one, with a number beyond all that the old one has sent, exactly when it has no text and no FIN
and the number chosen from the old `rcv_nxt` is beyond the old `snd_max`. -/
theorem reopen_iff {s s1 : Sys} (hre : step s (.input seg) w = .stop (.closed .reopened) s1)
    (hnew : arrives head rfc1323 w seg = .opened i₀ c₀ s₀) :
    ReopenOk s head rfc1323 w seg ↔ chainLen seg.m = 0 ∧ seg.tiFlags.fin = false ∧
        seqGT (chooseIss (s.tp.rcvNxt + tcpIssincr) w) s.tp.sndMax = true := by
  obtain ⟨-, hpos, hle, hfin, hraw⟩ := arrives_opened hnew
  have heq := reopened_eq hre hnew
  generalize chooseIss (s.tp.rcvNxt + tcpIssincr) w = iss at heq ⊢
  constructor
  · rintro ⟨i, i₁, c, c₁, s', s₁, hro, harr, hsame, hiss⟩
    obtain ⟨rfl, rfl, rfl⟩ := Newconn.opened.inj (harr.symm.trans hnew)
    rw [heq] at hro
    cases hc : reopenChain seg i₁.tiLen with
    | none => rw [hc] at hro; cases hro
    | some c' =>
      rw [hc] at hro
      obtain ⟨rfl, rfl, rfl⟩ := Newconn.opened.inj hro
      -- text on the queue is a header short
      have hno : ¬(i₁.tiLen ≠ 0 ∨ i₁.tiflags.fin = true) := by
        intro hq
        have hlen := (hsame.text hq).1.trans hraw
        refine reopened_short ?_ hc hle hlen
        omega
      obtain ⟨hz, hf⟩ := not_or.mp hno
      have hz : i₁.tiLen = 0 := not_not.mp hz
      have hm : chainLen seg.m = 0 := by omega
      refine ⟨hm, ?_, hiss⟩
      rw [← hfin (hz.trans hm.symm)]
      exact Bool.eq_false_iff.mpr hf
  · rintro ⟨hm, hf, hiss⟩
    have hz : i₀.tiLen = 0 := Nat.eq_zero_of_le_zero (hm ▸ hle)
    rw [hz, reopenChain, hm, if_neg (lt_irrefl 0)] at heq
    refine ⟨_, _, _, _, _, _, heq, hnew, ⟨rfl, rfl, ?_⟩, hiss⟩
    rintro (hq | hq)
    · exact absurd hz hq
    · rw [hfin (hz.trans hm.symm), hf] at hq
      cases hq

end

/-! ### Runs -/

/-- A connection that was opened and closed from here, with `iss` and `w.tcpIss` the same. -/
def closedFirst (w : World) : List (Op × World) := [(.connect, w),
    (.input (bareSeg 500 (w.tcpIss + 1) { syn := true, ack := true } 5000 []), w),
    (.shutdown false true, w),
    (.input (bareSeg 501 (w.tcpIss + 2) { fin := true, ack := true } 5000 []), w)]

def waiting (w : World) : Sys := (runOps (.ok () (socreate false)) (closedFirst w)).st

def listener : Socket := { soAcceptconn := true }

def newSyn : Segment := bareSeg 20000 0 { syn := true } 5000 []

theorem reopen_iff_syn :
    ReopenOk (waiting (calmWorld 3)) listener false (calmWorld 3) newSyn := by
  have hre : step (waiting (calmWorld 3)) (.input newSyn) (calmWorld 3) = .stop (.closed .reopened)
        (step (waiting (calmWorld 3)) (.input newSyn) (calmWorld 3)).st := by decide +kernel
  have hnew : ∃ i c s, arrives listener false (calmWorld 3) newSyn = .opened i c s := by
    have h : (match arrives listener false (calmWorld 3) newSyn with
      | .opened .. => true
      | _ => false) = true := by decide +kernel
    split at h
    · next hn => exact ⟨_, _, _, hn⟩
    · cases h
  obtain ⟨i, c, s, hnew⟩ := hnew
  exact (reopen_iff hre hnew).mpr ⟨by decide, by decide, by decide +kernel⟩

def textSyn : Segment :=
  { newSyn with m := [{ mData := List.replicate 40 0 ++ [1, 2, 3] }], len_lt := by decide }

/-- The world of a connection whose own sequence numbers are ahead of those of the peer. -/
def aheadWorld : World := { calmWorld 3 with tcpIss := 1000000 }

/-- The chain and the sequence number a connection is opened with. -/
def Newconn.opening : Newconn → Option (Int × List Byte × Seq)
  | .opened _ c s => some (rawLen c, rawBytes c, s.tp.iss)
  | _ => none

/-- The text that is queued starts where the header would end if it came twice, and the sequence
number is one the old connection used. -/
theorem reopen_drops_text :
    Reachable (fun _ _ _ => True) (.ok () (waiting aheadWorld)) ∧
      step (waiting aheadWorld) (.input textSyn) aheadWorld =
        .stop (.closed .reopened) (step (waiting aheadWorld) (.input textSyn) aheadWorld).st ∧
      (arrives listener false aheadWorld textSyn).opening =
        some (43, List.replicate 40 0 ++ [1, 2, 3], 1000000) ∧
      (reopened (waiting aheadWorld) listener false aheadWorld textSyn).opening =
        some (3, [1, 2, 3], 128502) ∧
      seqGT 128502 (waiting aheadWorld).tp.sndMax = false ∧
      ¬ReopenOk (waiting aheadWorld) listener false aheadWorld textSyn := by
  have hnew : (arrives listener false aheadWorld textSyn).opening =
      some (43, List.replicate 40 0 ++ [1, 2, 3], 1000000) := by decide +kernel
  have hre : (reopened (waiting aheadWorld) listener false aheadWorld textSyn).opening =
      some (3, [1, 2, 3], 128502) := by decide +kernel
  have hiss : seqGT 128502 (waiting aheadWorld).tp.sndMax = false := by decide +kernel
  refine ⟨?_, by decide +kernel, hnew, hre, hiss, ?_⟩
  · rw [show Outcome.ok () (waiting aheadWorld) =
      runOps (.ok () (socreate false)) (closedFirst aheadWorld) by decide +kernel]
    exact reachable_runOps (.active false) _
  · rintro ⟨i, i₀, c, c₀, s', s₀, hro, -, -, hgt⟩
    rw [hro] at hre
    have he : s'.tp.iss = 128502 := (Prod.mk.inj (Prod.mk.inj (Option.some.inj hre)).2).2
    rw [he, hiss] at hgt
    cases hgt

end Anp
