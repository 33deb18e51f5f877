import Anp.Ip.Cksum
import Anp.Ip.Fragment

/-!
# Output — `ip_output`

`netinet/ip_output.c`: `ip_insertoptions`, `ip_mloopback` and `ip_output` from the call to the
last exit. A call (`IpCall`) is the chain with its skeletal header, the option mbuf and the flags;
what the call meets (`IpEnv`) are the tables of routes and addresses, the allocator, the answers of
the interface and, in `len0`, what stands in the variable `len` when the function is entered:
`ip_insertoptions` sets it, but not where it declines.

The result is what happens to mbufs (`OutEvent`): allocated, handed to `if_output`, freed. An mbuf
is named by where it comes from (`MbufId`).
-/

namespace Anp

open Machine

/-! ## Calls and what they meet -/

/-- `struct ipoption`, of which `opt->m_len - 4` octets of the list count. -/
structure IpOption where
  dst : Nat
  list : List Byte
  deriving DecidableEq, Repr

/-- `struct ifnet`, the fields `ip_output` reads. `loif` says that it is the loopback interface. -/
structure IpIf where
  mtu : Nat
  multicast : Bool := false
  broadcast : Bool := false
  loif : Bool := false
  deriving DecidableEq, Repr

structure InIfaddr where
  addr : Nat
  ifp : IpIf
  deriving DecidableEq, Repr

/-- The route in `ro`, with `rt_flags & RTF_UP` and the gateway if `RTF_GATEWAY` is set. -/
structure IpRt where
  ia : InIfaddr
  ifp : IpIf
  up : Bool := true
  gateway : Option Nat := none
  deriving DecidableEq, Repr

structure IpMoptions where
  ttl : Nat
  ifp : Option IpIf := none
  loop : Bool := true
  deriving DecidableEq, Repr

structure IpCall where
  m0 : List Mbuf
  /-- The header in the first mbuf, in host order. -/
  ip : IpHdr
  opt : Option IpOption := none
  forwarding : Bool := false
  rawoutput : Bool := false
  routetoif : Bool := false
  allowbroadcast : Bool := false
  /-- The cached route and its destination. -/
  ro : Option (Nat × IpRt) := none
  imo : Option IpMoptions := none
  deriving DecidableEq, Repr

structure IpEnv where
  rtalloc : Nat → Option IpRt
  ifaIfwithdstaddr : Nat → Option InIfaddr := fun _ => none
  ifaIfwithnet : Nat → Option InIfaddr := fun _ => none
  inIfaddr : List InIfaddr := []
  inLookupMulti : Nat → IpIf → Bool := fun _ _ => false
  inBroadcast : Nat → IpIf → Bool := fun _ _ => false
  ipId : Nat := 0
  /-- `MGETHDR` in `ip_insertoptions`. -/
  optHdr : Bool := true
  /-- The mbufs there are for the copy in `ip_mloopback`. -/
  loopAvail : Nat := 0
  frag : FragAlloc := ⟨fun _ => true, fun _ => 0⟩
  /-- Whether the `i`th call of `if_output` returns an error. -/
  ifError : Nat → Bool := fun _ => false
  len0 : Int := 0

/-- Where an mbuf comes from: the caller, `ip_insertoptions`, `ip_mloopback`, the header and the
copied data of the fragment at `off`. -/
inductive MbufId where
  | given (i : Nat)
  | opt
  | loop (i : Nat)
  | hdr (off : Int)
  | copy (off : Int) (i : Nat)
  deriving DecidableEq, Repr

inductive OutEvent where
  | alloc (ids : List MbufId)
  | output (ids : List MbufId) (p : IpSent)
  | free (ids : List MbufId)
  deriving DecidableEq, Repr

inductive OutErr where
  | enetunreach
  | ehostunreach
  | eaddrnotavail
  | eacces
  | emsgsize
  | enobufs
  | ifOutput
  deriving DecidableEq, Repr

/-- How `ip_output` ends: it returns, panics or faults in `m_copym`, or never comes back from
`ip_optcopy`. -/
inductive OutRet where
  | done (error : Option OutErr)
  | panic
  | fault
  | stuck
  deriving DecidableEq, Repr

structure OutRes where
  events : List OutEvent
  ret : OutRet
  deriving DecidableEq, Repr

/-! ## `ip_insertoptions` -/

def ipMaxpacket : Nat := 65535

/-- The packet with its mbufs, and `*phlen` if it has been set. -/
structure Inserted where
  ids : List MbufId
  m : List Mbuf
  ip : IpHdr
  phlen : Option Nat
  deriving DecidableEq, Repr

/-- `m->m_flags & M_EXT || m->m_data - optlen < m->m_pktdat`. -/
def optNeedsMbuf (optlen : Nat) (m : Mbuf) : Bool :=
  m.mExt.isSome || decide (m.mOff < mlen - mhlen + optlen)

/-- The options after the first 20 octets, in place or with a new first mbuf. -/
def ipInsertoptions (mgethdr : Bool) (p : IpOption) (ids : List MbufId) (ip : IpHdr)
    (m0 : List Mbuf) : Inserted :=
  match m0 with
  | [] => { ids := ids, m := [], ip := ip, phlen := none }
  | m :: ms =>
    let optlen := p.list.length
    if optlen + ip.len > ipMaxpacket then { ids := ids, m := m :: ms, ip := ip, phlen := none }
    else
      let ip := if p.dst ≠ 0 then { ip with dst := p.dst } else ip
      let done : IpHdr := { ip with len := ip.len + optlen, opts := p.list ++ ip.opts }
      if optNeedsMbuf optlen m then
        if mgethdr = false then { ids := ids, m := m :: ms, ip := ip, phlen := none }
        else
          { ids := .opt :: ids
            m :=
              { mType := .header
                mPkthdr := m.mPkthdr.map (· + optlen)
                mOff := mlen - mhlen + maxLinkhdr
                mData := m.mData.take ipHdrLen ++ p.list } ::
              { m with mData := m.mData.drop ipHdrLen, mOff := m.mOff + ipHdrLen } :: ms
            ip := done
            phlen := some (ipHdrLen + optlen) }
      else
        { ids := ids
          m :=
            { m with
              mOff := m.mOff - optlen
              mPkthdr := m.mPkthdr.map (· + optlen)
              mData := m.mData.take ipHdrLen ++ p.list ++ m.mData.drop ipHdrLen } :: ms
          ip := done
          phlen := some (ipHdrLen + optlen) }

/-! ## Routing -/

/-- What the routing part ends in: `goto bad`, a multicast that is not sent out, or `sendit`; the
packet may have been looped back before. -/
inductive Routed where
  | bad (error : OutErr)
  | gone (ip : IpHdr) (loops : Bool)
  | send (ip : IpHdr) (ifp : IpIf) (loops : Bool)
  deriving DecidableEq, Repr

/-- The interface, its address and the next hop, and the header (`IP_ROUTETOIF` sets `ip_ttl`). -/
def ipFindRoute (e : IpEnv) (c : IpCall) (ip : IpHdr) :
    Except OutErr (IpHdr × InIfaddr × IpIf × Nat) :=
  if c.routetoif then
    match (e.ifaIfwithdstaddr ip.dst).or (e.ifaIfwithnet ip.dst) with
    | none => .error .enetunreach
    | some ia => .ok ({ ip with ttl := 1 }, ia, ia.ifp, ip.dst)
  else
    -- a cached route that is down or to somewhere else is looked up again
    match (c.ro.filter fun r => r.2.up && r.1 == ip.dst).map (·.2) |>.or (e.rtalloc ip.dst) with
    | none => .error .ehostunreach
    | some rt => .ok (ip, rt.ia, rt.ifp, rt.gateway.getD ip.dst)

/-- `IN_MULTICAST(ip->ip_dst)`. -/
def ipRouteMulticast (e : IpEnv) (c : IpCall) (ip : IpHdr) (ifp : IpIf) : Routed :=
  let ifp : IpIf := (c.imo.bind (·.ifp)).getD ifp
  let ip : IpHdr := { ip with ttl := (c.imo.map (·.ttl)).getD 1 }
  if ifp.multicast = false then .bad .enetunreach
  else
    let ip : IpHdr :=
      if ip.src = 0 then
        { ip with src := ((e.inIfaddr.find? (·.ifp == ifp)).map (·.addr)).getD ip.src }
      else ip
    let loops := e.inLookupMulti ip.dst ifp && (c.imo.map (·.loop)).getD true
    if ip.ttl = 0 ∨ ifp.loif then .gone ip loops else .send ip ifp loops

/-- From "Route packet" to the label `sendit`. -/
def ipRoute (e : IpEnv) (c : IpCall) (ip : IpHdr) : Routed :=
  match ipFindRoute e c ip with
  | .error err => .bad err
  | .ok (ip, ia, ifp, dst) =>
    if inClassd ip.dst then ipRouteMulticast e c ip ifp
    else
      let ip := if ip.src = 0 then { ip with src := ia.addr } else ip
      if e.inBroadcast dst ifp then
        if ifp.broadcast = false then .bad .eaddrnotavail
        else if c.allowbroadcast = false then .bad .eacces
        else if ip.len > ifp.mtu then .bad .emsgsize
        else .send ip ifp false
      else .send ip ifp false

/-! ## The header of a packet that goes out -/

/-- `struct ip` at the start of the first mbuf, `sum` standing in `ip_sum`. -/
def stampHdr (h : IpHdr) (sum : Nat) : List Mbuf → List Mbuf
  | [] => []
  | m :: ms => { m with mData := (h.octets sum).take ipHdrLen ++ m.mData.drop ipHdrLen } :: ms

/-- `ip_sum = 0; ip_sum = in_cksum(m, hlen)`. A negative length sums nothing. -/
def sumHdr (h : IpHdr) (hlen : Int) (m : List Mbuf) : List Mbuf :=
  stampHdr h (inCksum (stampHdr h 0 m) hlen.toNat) m

/-- The ids of the `n` mbufs of a copy. -/
def copyIds (f : Nat → MbufId) (n : Nat) : List MbufId := (List.range n).map f

/-- `ip_mloopback`. The second component is set if it does not return. -/
def ipMloopback (avail : Nat) (ip : IpHdr) (m : List Mbuf) : List OutEvent × Option OutRet :=
  match mCopym m 0 mCopyall avail with
  | .ok n =>
    ([.alloc (copyIds .loop n.length),
      .output (copyIds .loop n.length) { hdr := ip, m := sumHdr ip (4 * ip.hl) n }], none)
  | .nospace => ([.alloc (copyIds .loop avail), .free (copyIds .loop avail)], none)
  | .panic => ([], some .panic)
  | .fault => ([], some .fault)

/-! ## Fragments -/

/-- `(ifp->if_mtu - hlen) &~ 7`. -/
def outFragLen (mtu : Nat) (hlen : Int) : Int :=
  int32 ((u32 ((mtu : Int) - hlen) / 8 * 8 : Nat) : Int)

/-- `mhip` with its options. `hlen` is compared as an unsigned number. -/
def outFragHdr (hlen : Int) (ip : IpHdr) (m0 : List Mbuf) : Option IpHdr :=
  if ipHdrLen < u32 hlen then
    (ipOptcopy ((headBytes m0).drop ipHdrLen) (4 * ip.hl - ipHdrLen)).map fun opts =>
      { ip with hl := (ipHdrLen + opts.length) / 4, opts := opts }
  else some { ip with opts := [] }

/-- `mhip->ip_off`. -/
def outFragOff (hlen : Int) (ip : IpHdr) (off : Int) (more : Bool) : Nat :=
  let o := u16 ((off - hlen) / 8 + ((ip.off &&& 0xdfff : Nat) : Int))
  let o := if ip.off &&& ipMf ≠ 0 then o ||| ipMf else o
  if more then o ||| ipMf else o

def outFragHdrAt (hlen : Int) (ip h : IpHdr) (off : Int) (len : Nat) (more : Bool) : IpHdr :=
  { h with
    len := u16 ((len + (ipHdrLen + h.opts.length) : Nat) : Int)
    off := outFragOff hlen ip off more }

/-- A packet on the list that is sent at the end. -/
structure OutPkt where
  ids : List MbufId
  sent : IpSent
  deriving DecidableEq, Repr

/-- How the loop over the fragments ends. -/
inductive FragEnd where
  | all
  | enobufs
  | panic
  | fault
  | stuck
  deriving DecidableEq, Repr

/-- The packets linked to the list, what happened to mbufs on the way, and the end. -/
structure FragRun where
  pkts : List OutPkt
  events : List OutEvent
  fin : FragEnd
  deriving DecidableEq, Repr

/-- The fragment with the header `h` and the copied data `n`. -/
def outFragPkt (hlen : Int) (ip h : IpHdr) (off : Int) (len : Nat) (more : Bool)
    (n : List Mbuf) : OutPkt :=
  { ids := .hdr off :: copyIds (.copy off) n.length
    sent :=
      { hdr := outFragHdrAt hlen ip h off len more
        m :=
          sumHdr (outFragHdrAt hlen ip h off len more) ((ipHdrLen + h.opts.length : Nat) : Int)
            ({ mType := .header
               mPkthdr := some ((ipHdrLen + h.opts.length + len : Nat) : Int)
               mOff := mlen - mhlen + maxLinkhdr
               mData := List.replicate ipHdrLen 0 ++ h.opts } :: n) } }

/-- `for (off = hlen + len; off < (u_short)ip->ip_len; off += len)`, at `off`. -/
def outFragLoop (a : FragAlloc) (hlen : Int) (ip : IpHdr) (m0 : List Mbuf) (len : Nat) :
    Nat → Int → FragRun
  | 0, off => ⟨[], [], if off < ip.len then .stuck else .all⟩
  | n + 1, off =>
    if off < ip.len then
      if a.mgethdr off.toNat = false then ⟨[], [], .enobufs⟩
      else
        match outFragHdr hlen ip m0 with
        | none => ⟨[], [.alloc [.hdr off]], .stuck⟩
        | some h =>
          let last := (ip.len : Int) ≤ off + len
          let len' := if last then (ip.len - off).toNat else len
          let avail := a.avail off.toNat
          match mCopym m0 off len' avail with
          | .panic => ⟨[], [.alloc [.hdr off]], .panic⟩
          | .fault => ⟨[], [.alloc [.hdr off]], .fault⟩
          | .nospace =>
            let ids := copyIds (.copy off) avail
            ⟨[], [.alloc [.hdr off], .alloc ids, .free ids, .free [.hdr off]], .enobufs⟩
          | .ok c =>
            let p := outFragPkt hlen ip h off len' (!decide last) c
            let r := outFragLoop a hlen ip m0 len n (off + len')
            ⟨p :: r.pkts, .alloc p.ids :: r.events, r.fin⟩
    else ⟨[], [], .all⟩

/-- The first fragment: what `m_adj` leaves of the packet. -/
def outFragFirst (hlen : Int) (ip : IpHdr) (m0 : List Mbuf) (firstlen : Nat) : IpSent :=
  let plen := hlen + firstlen
  let h := { ip with len := u16 plen, off := ip.off ||| ipMf }
  { hdr := h, m := sumHdr h hlen (adjPkthdr (fun _ => plen) (mAdj m0 (plen - ip.len))) }

/-- `sendorfree` without an error: the packets go out in order, up to one that `if_output` refuses;
the ones after it are freed. -/
def sendAll (ifError : Nat → Bool) : Nat → List OutPkt → List OutEvent × Option OutErr
  | _, [] => ([], none)
  | i, p :: ps =>
    if ifError i then
      (.output p.ids p.sent :: ps.map fun q => .free q.ids, some .ifOutput)
    else
      let r := sendAll ifError (i + 1) ps
      (.output p.ids p.sent :: r.1, r.2)

/-- The loop over the fragments of `len` octets and what follows it. -/
def outFragSend (e : IpEnv) (hlen : Int) (ip : IpHdr) (ids : List MbufId) (m : List Mbuf)
    (len : Nat) : OutRes :=
  let r := outFragLoop e.frag hlen ip m len ip.len (hlen + len)
  match r.fin with
  | .panic => ⟨r.events, .panic⟩
  | .fault => ⟨r.events, .fault⟩
  | .stuck => ⟨r.events, .stuck⟩
  | .enobufs =>
    ⟨r.events ++ .free ids :: r.pkts.map fun q => .free q.ids, .done (some .enobufs)⟩
  | .all =>
    let s := sendAll e.ifError 0 (⟨ids, outFragFirst hlen ip m len⟩ :: r.pkts)
    ⟨r.events ++ s.1, .done s.2⟩

/-- The packet cannot be fragmented: `IP_DF`, or less than 8 octets in a fragment. -/
def cantFrag (mtu : Nat) (hlen : Int) (ip : IpHdr) : Bool :=
  decide (ip.off &&& ipDf ≠ 0) || decide (outFragLen mtu hlen < 8)

/-- "Too large for interface; fragment if possible." `bad` is what the label `bad` does. -/
def outFragment (e : IpEnv) (ifp : IpIf) (hlen : Int) (ip : IpHdr) (ids : List MbufId)
    (m : List Mbuf) (bad : OutErr → OutRes) : OutRes :=
  if cantFrag ifp.mtu hlen ip then bad .emsgsize
  else outFragSend e hlen ip ids m (outFragLen ifp.mtu hlen).toNat

/-! ## `ip_output` -/

/-- The mbufs of the chain passed in. -/
def IpCall.ids (c : IpCall) : List MbufId := copyIds .given c.m0.length

/-- `if (opt) m = ip_insertoptions(m, opt, &len)`. -/
def IpCall.inserted (e : IpEnv) (c : IpCall) : Inserted :=
  match c.opt with
  | none => { ids := c.ids, m := c.m0, ip := c.ip, phlen := some ipHdrLen }
  | some p => ipInsertoptions e.optHdr p c.ids c.ip c.m0

/-- `hlen` after the options. -/
def IpCall.hlen0 (e : IpEnv) (c : IpCall) : Int :=
  ((c.inserted e).phlen.map (Nat.cast : Nat → Int)).getD e.len0

/-- "Fill in IP header." -/
def IpCall.filled (e : IpEnv) (c : IpCall) : IpHdr × Int :=
  let ip := (c.inserted e).ip
  if c.forwarding || c.rawoutput then (ip, 4 * ip.hl)
  else
    ({ ip with
        off := ip.off &&& ipDf
        id := e.ipId % 65536
        hl := (c.hlen0 e / 4 % 16).toNat }, c.hlen0 e)

/-- The mbuf that `ip_insertoptions` has allocated. -/
def IpCall.optEvents (e : IpEnv) (c : IpCall) : List OutEvent :=
  if .opt ∈ (c.inserted e).ids then [.alloc [.opt]] else []

/-- `bad: m_freem(m0)`, where `m0` still is the chain passed in. -/
def IpCall.bad (c : IpCall) (err : OutErr) : OutRes := ⟨[.free c.ids], .done (some err)⟩

/-- The loopback of a multicast, and then `rest`. -/
def withLoop (e : IpEnv) (loops : Bool) (ip : IpHdr) (m : List Mbuf) (rest : OutRes) : OutRes :=
  if loops then
    let l := ipMloopback e.loopAvail ip m
    match l.2 with
    | some ret => ⟨l.1, ret⟩
    | none => ⟨l.1 ++ rest.events, rest.ret⟩
  else rest

/-- What `sendit` does with the packet. -/
def outSendit (e : IpEnv) (ifp : IpIf) (hlen : Int) (ip : IpHdr) (ids : List MbufId)
    (m : List Mbuf) (bad : OutErr → OutRes) : OutRes :=
  if ip.len ≤ ifp.mtu then
    let s := sendAll e.ifError 0 [⟨ids, { hdr := ip, m := sumHdr ip hlen m }⟩]
    ⟨s.1, .done s.2⟩
  else outFragment e ifp hlen ip ids m bad

/-- The call after the header has been filled in. -/
def IpCall.route (e : IpEnv) (c : IpCall) : OutRes :=
  let r := c.inserted e
  match ipRoute e c (c.filled e).1 with
  | .bad err => c.bad err
  | .gone ip loops => withLoop e loops ip r.m ⟨[.free r.ids], .done none⟩
  | .send ip ifp loops =>
    withLoop e loops ip r.m (outSendit e ifp (c.filled e).2 ip r.ids r.m c.bad)

/-- `ip_output`. -/
def ipOutput (e : IpEnv) (c : IpCall) : OutRes :=
  ⟨c.optEvents e ++ (c.route e).events, (c.route e).ret⟩

/-! ## `ip_pcbopts` -/

/-- The loop over the options at `cp`, `dst` standing before them. A source route loses its first
hop to `dst`. -/
def pcboptsLoop : Nat → List Byte → List Byte → Option (List Byte × List Byte)
  | _, dst, [] => some (dst, [])
  | 0, _, _ :: _ => none
  | n + 1, dst, opt :: l =>
    if opt = 0 then some (dst, opt :: l)
    else if opt = 1 then (pcboptsLoop n dst l).map fun r => (r.1, 1 :: r.2)
    else
      match l with
      | [] => none
      | olen :: body =>
        if olen.toNat ≤ 1 ∨ olen.toNat > body.length + 2 then none
        else if opt = 131 ∨ opt = 137 then
          if olen.toNat < 7 then none
          else
            (pcboptsLoop n ((body.drop 1).take 4) (body.drop (olen.toNat - 2))).map fun r =>
              (r.1, opt :: (olen - 4) :: (body.take 1 ++
                (body.take (olen.toNat - 2)).drop 5 ++ r.2))
        else
          (pcboptsLoop n dst (body.drop (olen.toNat - 2))).map fun r =>
            (r.1, opt :: olen :: (body.take (olen.toNat - 2) ++ r.2))

/-- `ip_pcbopts(pcbopt, m)`: the options it stores, of the mbuf `m`. -/
def ipPcbopts (m : Mbuf) : Option IpOption :=
  if m.mLen = 0 ∨ m.mLen % 4 ≠ 0 then none
  else if mlen ≤ m.mOff + m.mLen + 4 then none
  else
    (pcboptsLoop m.mLen [0, 0, 0, 0] m.mData).bind fun r =>
      if r.2.length > 40 then none else some { dst := rdLong r.1 0, list := r.2 }

end Anp
