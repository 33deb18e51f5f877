import Anp.Ip.Header
import Anp.Lib.Runs

/-!
# Reass — reassembly of IP fragments

`netinet/ip_input.c`, `netinet/ip_var.h`: the code of `ipintr` from the label `ours`, `ip_reass`,
`ip_freef`, `ip_slowtimo` and `ip_drain`. The list `ipq` of reassembly queues is a `List Ipq`;
a queue holds its fragments in the order of their offsets.

`ip_off` and `ip_len` are `short`. The functions take that arithmetic as an argument: `cShort` is
the code, `unbounded` the same code on integers without a bound.
-/

namespace Anp

open Machine Runs List

/-! ## Fragments and queues -/

/-- What the code does when it stores into a `short`, and `ip_off <<= 3`. -/
structure ShortArith where
  store : Int → Int
  shl3 : Nat → Int

/-- The `short` of the machine. -/
def cShort : ShortArith := ⟨int16, fun off => int16 (8 * (off : Int))⟩

/-- Offsets and lengths as the numbers they stand for: eight times the 13-bit offset. -/
def unbounded : ShortArith := ⟨id, fun off => 8 * ((off % 8192 : Nat) : Int)⟩

/-- A `struct ipasfrag` and its chain, the header having been stepped over (`m_data += hlen`).
`lead` are the octets of the first mbuf up to `m_data`, `mff` is the low bit of `ipf_mff`. Where
`m_len` would be negative the mbuf is empty and `lead` shorter than the header. -/
structure IpFrag where
  hl : Nat
  mff : Bool
  off : Int
  len : Int
  lead : List Byte
  m : List Mbuf
  deriving DecidableEq, Repr

variable {ip : IpFrag}

structure IpKey where
  id : Nat
  src : Nat
  dst : Nat
  p : Nat
  deriving DecidableEq, Repr

variable {k : IpKey}

structure Ipq where
  key : IpKey
  ttl : Nat
  frags : List IpFrag
  deriving DecidableEq, Repr

variable {l : List Ipq}

def ipfragttl : Nat := 60

/-- The queue the loop over `ipq` finds. -/
def ipqFind (l : List Ipq) (k : IpKey) : Option (List IpFrag) :=
  (l.find? fun q => q.key = k).map (·.frags)

/-- The queue of `k` with other fragments. -/
def ipqSet (k : IpKey) (fs : List IpFrag) : List Ipq → List Ipq
  | [] => []
  | q :: l => if q.key = k then { q with frags := fs } :: l else q :: ipqSet k fs l

/-- `ip_freef`, or `remque` of the queue of `k`. -/
def ipFreef (k : IpKey) (l : List Ipq) : List Ipq := l.eraseP fun q => q.key = k

/-! ## `ip_reass` -/

section

variable (A : ShortArith)

/-- `m_adj(dtom(q), i)`, `ip_off += i`, `ip_len -= i`. `m_adj` moves `m_data` of the first mbuf
unless it takes all of its bytes. -/
def IpFrag.trim (q : IpFrag) (i : Int) : IpFrag :=
  { q with
    off := A.store (q.off + i)
    len := A.store (q.len - i)
    lead := if i < headLen q.m then q.lead ++ (headBytes q.m).take i.toNat else q.lead
    m := mAdj q.m i }

/-- "If there is a preceding segment, it may provide some of our data already." `none` where it
provides all of it. -/
def fragPred (before : List IpFrag) (ip : IpFrag) : Option IpFrag :=
  match before.getLast? with
  | none => some ip
  | some q =>
    let i := q.off + q.len - ip.off
    if 0 < i then if ip.len ≤ i then none else some (ip.trim A i) else some ip

/-- "While we overlap succeeding segments trim them or, if they are completely covered, dequeue
them." -/
def fragSucc (ip : IpFrag) : List IpFrag → List IpFrag
  | [] => []
  | q :: qs =>
    if q.off < ip.off + ip.len then
      let i := ip.off + ip.len - q.off
      if i < q.len then q.trim A i :: qs else fragSucc ip qs
    else q :: qs

/-- The queue with the fragment in its place; `none` is `dropfrag`. -/
def fragInsert (qs : List IpFrag) (ip : IpFrag) : Option (List IpFrag) :=
  let before := qs.takeWhile fun q => decide (q.off ≤ ip.off)
  let after := qs.dropWhile fun q => decide (q.off ≤ ip.off)
  (fragPred A before ip).map fun ip => before ++ ip :: fragSucc A ip after

/-- The loop that checks for complete reassembly: `next` at its end, `none` at a hole. -/
def fragNext : Int → List IpFrag → Option Int
  | next, [] => some next
  | next, q :: qs => if q.off ≠ next then none else fragNext (next + q.len) qs

/-- The queue has no hole and its last fragment is the last one of the datagram. -/
def fragDone (qs : List IpFrag) : Option Int :=
  if (qs.getLast?.map (·.mff)).getD false then none else fragNext 0 qs

/-- The fragments concatenated by `m_cat`, with the header of the first one visible. -/
def fragJoin : List IpFrag → List Mbuf
  | [] => []
  | q :: qs =>
    match qs.foldl (fun c q => mCat c q.m) (mCat (q.m.take 1) (q.m.drop 1)) with
    | [] => []
    | m :: ms =>
      let m :=
        { m with
          mOff := m.mOff - 4 * q.hl
          mData := q.lead.drop (q.lead.length - 4 * q.hl) ++ m.mData }
      { m with mPkthdr := m.mPkthdr.map fun _ => chainLen (m :: ms) } :: ms

/-- What is handed to `pr_input`: the chain, `ip_len` and the argument `iphlen`. -/
structure IpInput where
  m : List Mbuf
  len : Int
  iphlen : Nat
  deriving DecidableEq, Repr

/-- `ip_hl` of the header at the front of a chain. -/
def frontHl (m : List Mbuf) : Nat := rd8 (chainBytes m) 0 % 16

/-- `ip_reass`: the fragment `ip` of the datagram `k`, whose queue was looked up in `l`; `mget` is
the `m_get` of a new queue. Returns the queues and a complete datagram, its chain and `ip_len`. -/
def ipReass (mget : Bool) (l : List Ipq) (k : IpKey) (ip : IpFrag) :
    List Ipq × Option (List Mbuf × Int) :=
  match ipqFind l k with
  | none =>
    if mget = false then (l, none)
    else
      match fragDone [ip] with
      | none => (⟨k, ipfragttl, [ip]⟩ :: l, none)
      | some next => (l, some (fragJoin [ip], A.store next))
  | some qs =>
    match fragInsert A qs ip with
    | none => (l, none)
    | some qs =>
      match fragDone qs with
      | none => (ipqSet k qs l, none)
      | some next => (ipFreef k l, some (fragJoin qs, A.store next))

/-! ## `ipintr` from the label `ours` -/

def IpPkt.mf (k : IpPkt) : Bool := k.off.testBit 13

/-- `ip_off &~ IP_DF`. -/
def IpPkt.offNoDf (k : IpPkt) : Nat := k.off &&& 0xbfff

def IpPkt.key (k : IpPkt) : IpKey := ⟨k.id, k.src, k.dst, k.p⟩

/-- The packet as `ip_reass` takes it: `ip_len -= hlen`, `ipf_mff`, `ip_off <<= 3`, and then
`m_data += hlen`, `m_len -= hlen`. -/
def IpPkt.frag (k : IpPkt) (m : List Mbuf) : IpFrag :=
  { hl := k.hl
    mff := k.mf
    off := A.shl3 k.off
    len := A.store (k.len - 4 * k.hl)
    lead := (headBytes m).take (4 * k.hl)
    m :=
      match m with
      | [] => []
      | m :: ms => { m with mOff := m.mOff + 4 * k.hl, mData := m.mData.drop (4 * k.hl) } :: ms }

/-- The chain in which `ip_reass` gets the packet: `m_pullup(m, sizeof(struct ip))` if it starts
with a cluster. -/
def ipPull (mget : Bool) : List Mbuf → Option (List Mbuf)
  | [] => none
  | m :: ms => if m.mExt.isSome then mPullup mget (m :: ms) ipHdrLen else some (m :: ms)

/-- The results of the allocations made for one packet: the `MGET` of the three calls of
`m_pullup`, and the `m_get` of `ip_reass`. -/
structure IpAlloc where
  g20 : Bool := true
  gHl : Bool := true
  gExt : Bool := true
  gQueue : Bool := true
  deriving DecidableEq, Repr

/-- The fragment passed to `ip_reass`, if the packet is passed to it. -/
def ipPassed (a : IpAlloc) (k : IpPkt) : Option IpFrag :=
  if k.offNoDf ≠ 0 then
    (ipPull a.gExt k.m).bind fun m =>
      let ip := k.frag A m
      if ip.mff ∨ ip.off ≠ 0 then some ip else none
  else none

/-- From the label `ours` to the call of `pr_input`. -/
def ipOurs (a : IpAlloc) (l : List Ipq) (k : IpPkt) : List Ipq × Option IpInput :=
  let hlen := 4 * k.hl
  if k.offNoDf ≠ 0 then
    match ipPull a.gExt k.m with
    | none => (l, none)
    | some m =>
      let ip := k.frag A m
      if ip.mff ∨ ip.off ≠ 0 then
        let r := ipReass A a.gQueue l k.key ip
        (r.1, r.2.map fun d => ⟨d.1, d.2, hlen⟩)
      else (ipFreef k.key l, some ⟨m, ip.len, hlen⟩)
  else (l, some ⟨k.m, A.store (k.len - hlen), hlen⟩)

/-! ## Runs -/

/-- One operation. In `packet r a dst`, `dst` is `ip_dst` after `ip_dooptions` if the packet `r` is
for this host then, `none` if it was rejected or forwarded. -/
inductive IpOp where
  | packet (r : RcvdPkt) (a : IpAlloc) (dst : Option Nat)
  | slowtimo
  | drain

/-- The packet of an operation that arrives at the label `ours`. -/
def IpOp.ours : IpOp → Option (IpAlloc × IpPkt)
  | .packet r a (some dst) =>
    (ipCheck a.g20 a.gHl (r.m :: r.ms)).map fun k => (a, { k with dst := dst })
  | _ => none

def ipSlowtimo (l : List Ipq) : List Ipq :=
  (l.map fun q => { q with ttl := q.ttl - 1 }).filter fun q => q.ttl ≠ 0

/-- One operation of the layer: a packet, a run of the slow timer, a drain. -/
def ipStep (l : List Ipq) (op : IpOp) : List Ipq × Option IpInput :=
  match op.ours with
  | some (a, k) => ipOurs A a l k
  | none =>
    match op with
    | .packet _ _ _ => (l, none)
    | .slowtimo => (ipSlowtimo l, none)
    | .drain => ([], none)

def ipNext (l : List Ipq) (op : IpOp) : List Ipq := (ipStep A l op).1

end

/-- States reached from the empty list of queues by operations that meet `C`. -/
def IpReach (C : List Ipq → IpOp → Prop) : List Ipq → Prop := Reach (· = []) (By (ipNext cShort) C)

/-- A packet that stands in one plain mbuf. -/
def IpHdr.plain (h : IpHdr) (data : List Byte) : RcvdPkt where
  m := { mPkthdr := some ((h.bytes ++ data).length : Int), mData := h.bytes ++ data }
  ms := []
  pkthdr_len := by simp [chainLen]

theorem IpOp.ours_ok {op : IpOp} {a : IpAlloc} {k : IpPkt} (h : op.ours = some (a, k)) :
    k.Ok := by
  cases op with
  | packet r a' dst =>
    cases dst with
    | none => cases h
    | some dst =>
      obtain ⟨k', hk', he⟩ := Option.map_eq_some_iff.mp h
      cases he
      obtain ⟨h1, h2, h3, h4, h5, h6, h7, h8⟩ := ipCheck_ok hk'
      exact ⟨h1, h2, h3, h4, h5, h6, h7, h8⟩
  | slowtimo => cases h
  | drain => cases h

/-! ## What a step can do to the queues -/

theorem ipqFind_mem {fs : List IpFrag} (h : ipqFind l k = some fs) :
    ∃ q ∈ l, q.frags = fs := by
  obtain ⟨q, hq, rfl⟩ := Option.map_eq_some_iff.mp h
  exact ⟨q, mem_of_find?_eq_some hq, rfl⟩

theorem mem_ipqSet {fs : List IpFrag} {q : Ipq} (h : q ∈ ipqSet k fs l) : q ∈ l ∨ q.frags = fs := by
  induction l with
  | nil => exact .inl h
  | cons q' l ih =>
    rw [ipqSet] at h
    split at h
    · rcases mem_cons.mp h with rfl | h
      · exact .inr rfl
      · exact .inl (mem_cons_of_mem _ h)
    · rcases mem_cons.mp h with rfl | h
      · exact .inl mem_cons_self
      · exact (ih h).imp_left (mem_cons_of_mem _)

theorem fragInsert_nil (A : ShortArith) (ip : IpFrag) : fragInsert A [] ip = some [ip] := rfl

section

variable {A : ShortArith} {P : List IpFrag → Prop}

/-- The queues after `ip_reass` are those before it and the one `ip` was inserted into. -/
theorem ipReass_queues {mget : Bool} (hl : ∀ q ∈ l, P q.frags)
    (hnew : ∀ qs ∈ fragInsert A ((ipqFind l k).getD []) ip, P qs) :
    ∀ q ∈ (ipReass A mget l k ip).1, P q.frags := by
  intro q hq
  rw [ipReass] at hq
  cases hfind : ipqFind l k with
  | none =>
    simp only [hfind] at hq hnew
    split at hq
    · exact hl q hq
    split at hq
    · rcases mem_cons.mp hq with rfl | hq
      · exact hnew _ (fragInsert_nil A ip)
      · exact hl q hq
    · exact hl q hq
  | some qs =>
    simp only [hfind, Option.getD_some] at hq hnew
    split at hq
    · exact hl q hq
    next qs' hins =>
    split at hq
    · rcases mem_ipqSet hq with hq | hq
      · exact hl q hq
      · rw [hq]
        exact hnew qs' hins
    · exact hl q (mem_of_mem_eraseP hq)

/-- **One step.** What holds of the fragments of every queue is kept if inserting the fragment
passed to `ip_reass` keeps it. -/
theorem ipStep_queues {op : IpOp} (hl : ∀ q ∈ l, P q.frags)
    (hnew : ∀ a k ip, op.ours = some (a, k) → ipPassed A a k = some ip →
      ∀ qs ∈ fragInsert A ((ipqFind l k.key).getD []) ip, P qs) :
    ∀ q ∈ ipNext A l op, P q.frags := by
  intro q hq
  rw [ipNext, ipStep.eq_def] at hq
  split at hq
  · next a k hours =>
    have hnew := fun ip => hnew a k ip hours
    simp only [ipOurs] at hq
    simp only [ipPassed] at hnew
    split at hq
    · next hoff =>
      rw [if_pos hoff] at hnew
      split at hq
      · exact hl q hq
      next m hpull =>
      simp only [hpull, Option.bind_some] at hnew
      split at hq
      · next hfrag =>
        rw [if_pos hfrag] at hnew
        exact ipReass_queues hl (hnew _ rfl) q hq
      · exact hl q (mem_of_mem_eraseP hq)
    · exact hl q hq
  · split at hq
    · exact hl q hq
    · obtain ⟨q', hq', rfl⟩ := mem_map.mp (mem_of_mem_filter hq)
      exact hl q' hq'
    · cases hq

end

theorem ipPassed_frag {A : ShortArith} {a : IpAlloc} {k : IpPkt} (h : ipPassed A a k = some ip) :
    ∃ m, ipPull a.gExt k.m = some m ∧ ip = k.frag A m := by
  rw [ipPassed] at h
  split at h
  · obtain ⟨m, hm, h⟩ := Option.bind_eq_some_iff.mp h
    dsimp only at h
    split at h
    · cases h
      exact ⟨m, hm, rfl⟩
    · cases h
  · cases h

/-- Where `ip_reass` returns a datagram, it is made of the queue with the fragment inserted. -/
theorem ipReass_some {A : ShortArith} {mget : Bool} {c : List Mbuf} {n : Int}
    (h : (ipReass A mget l k ip).2 = some (c, n)) :
    ∃ qs next, fragInsert A ((ipqFind l k).getD []) ip = some qs ∧ fragDone qs = some next ∧
      c = fragJoin qs ∧ n = A.store next := by
  rw [ipReass] at h
  cases hfind : ipqFind l k with
  | none =>
    simp only [hfind] at h
    split_ifs at h
    split at h
    · cases h
    next next hdone =>
    cases h
    exact ⟨[ip], next, fragInsert_nil A ip, hdone, rfl, rfl⟩
  | some qs =>
    simp only [hfind] at h
    split at h
    · cases h
    next qs' hins =>
    split at h
    · cases h
    next next hdone =>
    cases h
    exact ⟨qs', next, hins, hdone, rfl, rfl⟩

end Anp
