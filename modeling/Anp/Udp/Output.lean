import Anp.Ip.InPcb
import Anp.Ip.Output

/-!
# Output — `udp_output`

`netinet/udp_usrreq.c`. With a destination address the pcb is connected for the time of the call:
`in_pcbconnect` before the header is made, `in_pcbdisconnect` after `ip_output`.
-/

namespace Anp

open Machine

/-! ## The datagram -/

/-- What `udp_output` takes from the socket and the pcb beside the addresses, and the allocator:
`mget` is for `M_PREPEND`. -/
structure UdpSock where
  ttl : Nat := 64
  tos : Nat := 0
  broadcast : Bool := false
  opt : Option IpOption := none
  ro : Option (Nat × IpRt) := none
  imo : Option IpMoptions := none
  udpcksum : Bool := true
  mget : Bool := true

/-- `struct udpiphdr`, 28 octets: the pseudo header over the IP header, and the UDP header. -/
def udpiphdr (inp : Inpcb) (ulen sum : Nat) : List Byte :=
  List.replicate 9 0 ++ [17] ++ wrShort ulen ++ wrLong inp.laddr ++ wrLong inp.faddr ++
    wrShort inp.lport ++ wrShort inp.fport ++ wrShort ulen ++ wrShort sum

/-- `ui_sum`: 0 where checksums are off, and 0xffff for a checksum of 0. -/
def udpSum (on : Bool) (m : List Mbuf) (len : Nat) : Nat :=
  if on then if inCksum m len = 0 then 0xffff else inCksum m len else 0

/-- The datagram `m` with its header, handed to `ip_output`; `none` if there is no mbuf for it. -/
def udpPacket (a : UdpSock) (inp : Inpcb) (m : List Mbuf) : Option IpCall :=
  let len : Nat := ((m.head?.bind (·.mPkthdr)).getD 0).toNat
  let ulen := (len + 8) % 65536
  (mPrepend a.mget (udpiphdr inp ulen 0) m).bind fun m0 =>
    (mPrepend a.mget (udpiphdr inp ulen (udpSum a.udpcksum m0 (28 + len))) m).map fun m1 =>
      { m0 := m1
        ip :=
          { hl := 0
            tos := a.tos
            len := (28 + len) % 65536
            id := 0
            off := 0
            ttl := a.ttl
            p := 17
            src := inp.laddr
            dst := inp.faddr }
        opt := a.opt
        routetoif := inp.dontroute
        allowbroadcast := a.broadcast
        ro := a.ro
        imo := a.imo }

/-! ## The call -/

structure UdpRes where
  h : PcbHead
  error : Option PcbErr
  sent : Option IpCall

/-- `udp_output(inp, m, addr, control)`. `ipFails` says for which packets `ip_output` fails; `none`
if `in_pcbbind` takes more than `n` probes. -/
def udpOutput (e : PcbEnv) (n : Nat) (a : UdpSock) (ipFails : IpCall → Bool) (h : PcbHead)
    (inp : Inpcb) (m : List Mbuf) (addr : Option SockaddrIn) : Option UdpRes :=
  let result (call : IpCall) : Option PcbErr := if ipFails call then some .ipOutput else none
  match addr with
  | some sin =>
    if inp.faddr ≠ 0 then some ⟨h, some .eisconn, none⟩
    else
      (inPcbconnect e n h inp sin).map fun r =>
        match r.error with
        | some err => ⟨r.h, some err, none⟩
        | none =>
          match udpPacket a r.inp m with
          | none => ⟨r.h, some .enobufs, none⟩
          | some call =>
            let h' := inPcbdisconnect r.h r.inp
            ⟨h'.put { r.inp with faddr := 0, fport := 0, laddr := inp.laddr }, result call,
              some call⟩
  | none =>
    if inp.faddr = 0 then some ⟨h, some .enotconn, none⟩
    else
      match udpPacket a inp m with
      | none => some ⟨h, some .enobufs, none⟩
      | some call => some ⟨h, result call, some call⟩

/-! ## The pcb after `in_pcbconnect` -/

section

variable {e : PcbEnv} {n : Nat} {h : PcbHead} {inp : Inpcb}

/-- What `in_pcbconnect` has made of `inp`: with an error only the route has changed, without one
the pcb has its foreign port. -/
structure ConnectDone (inp : Inpcb) (sin : SockaddrIn) (r : PcbRes) : Prop where
  mem : r.inp ∈ r.h.list
  id : r.inp.id = inp.id
  failed : ∀ err, r.error = some err → ∃ route, r.inp = { inp with route := route }
  done : r.error = none →
    r.inp.fport = sin.port ∧ sin.port ≠ 0 ∧ (r.inp.lport = inp.lport ∨ inp.lport = 0)

/-- What becomes of the pcb in `in_pcbconnect`. -/
theorem inPcbconnect_spec {sin : SockaddrIn} {r : PcbRes}
    (hr : inPcbconnect e n h inp sin = some r) (hin : inp ∈ h.list) : ConnectDone inp sin r := by
  obtain ⟨hlist, ⟨route, err, hinp, herr⟩ | ⟨herr, l, -, hj⟩⟩ := inPcbconnect_cases hr hin
  · have hmem : r.inp ∈ (h.put r.inp).list := PcbHead.mem_put hin (by rw [hinp])
    refine ⟨hlist ▸ hmem, by rw [hinp], fun _ _ => ⟨route, hinp⟩, fun hnone => ?_⟩
    rw [herr] at hnone
    cases hnone
  · have hid : r.inp.id = inp.id := by rw [hj.eq]
    refine ⟨hlist ▸ PcbHead.mem_put hin hid, hid, fun _ hsome => ?_, fun _ => ?_⟩
    · rw [herr] at hsome
      cases hsome
    · refine ⟨by rw [hj.eq], hj.port, ?_⟩
      rcases hj.chosen with hl | ⟨hzero, -⟩
      · exact .inl hl
      · exact .inr hzero

end

/-! ## A `sendto` on an unconnected socket -/

/-- The pcb is unconnected and has its local address, and its local port unless it had none. -/
structure StillUnconnected (inp q : Inpcb) : Prop where
  faddr : q.faddr = 0
  fport : q.fport = 0
  laddr : q.laddr = inp.laddr
  lport : q.lport = inp.lport ∨ inp.lport = 0

/-- `in_pcbconnect` succeeds within `n` probes. -/
def Connects (e : PcbEnv) (n : Nat) (h : PcbHead) (inp : Inpcb) (sin : SockaddrIn) : Prop :=
  ∃ r, inPcbconnect e n h inp sin = some r ∧ r.error = none

theorem length_udpiphdr (inp : Inpcb) (ulen sum : Nat) : (udpiphdr inp ulen sum).length = 28 := by
  simp [udpiphdr, wrShort, wrLong]

theorem udpPacket_isSome (a : UdpSock) (inp : Inpcb) (m : List Mbuf) :
    (udpPacket a inp m).isSome = mRoom a.mget 28 m := by
  have hroom (ulen sum : Nat) :
      (mPrepend a.mget (udpiphdr inp ulen sum) m).isSome = mRoom a.mget 28 m := by
    rw [mPrepend_isSome, length_udpiphdr]
  rw [udpPacket]
  cases hr : mRoom a.mget 28 m with
  | false =>
    have hnone (ulen : Nat) : mPrepend a.mget (udpiphdr inp ulen 0) m = none := by
      rw [← Option.isNone_iff_eq_none, ← Option.not_isSome, hroom, hr]
      rfl
    rw [hnone]
    rfl
  | true =>
    obtain ⟨m0, hm0⟩ := Option.isSome_iff_exists.mp ((hroom _ 0).trans hr)
    rw [hm0, Option.bind_some, Option.isSome_map]
    exact (hroom _ _).trans hr

theorem PcbHead.mem_put_inv {h : PcbHead} {p q : Inpcb} (hq : q ∈ (h.put p).list)
    (hid : q.id = p.id) : q = p := by
  obtain ⟨t, -, rfl⟩ := List.mem_map.mp hq
  split at hid
  next ht => rw [if_pos ht]
  next ht => exact absurd hid ht

theorem PcbHead.get_put {h : PcbHead} {p q : Inpcb} (hq : (h.put p).get p.id = some q) : q = p := by
  have hmem := List.mem_of_find?_eq_some hq
  have hid := List.find?_some hq
  exact PcbHead.mem_put_inv hmem (by simpa using hid)

/-- The pcb is as it was, a new local port apart, exactly when the call does not fail between
`in_pcbconnect` and `ip_output`; a stale foreign port is kept where `in_pcbconnect` fails. -/
theorem sendto_unconnected (e : PcbEnv) (n : Nat) (a : UdpSock) (ipFails : IpCall → Bool)
    (h : PcbHead) (inp : Inpcb) (m : List Mbuf) (sin : SockaddrIn) (r : UdpRes)
    (hin : inp ∈ h.list) (hun : inp.faddr = 0)
    (hr : udpOutput e n a ipFails h inp m (some sin) = some r) :
    (∀ q, r.h.get inp.id = some q → StillUnconnected inp q) ↔
      (Connects e n h inp sin → mRoom a.mget 28 m = true) ∧
        (Connects e n h inp sin ∨ inp.fport = 0) := by
  rw [udpOutput, if_neg (by simpa using hun)] at hr
  obtain ⟨c, hc, rfl⟩ := Option.map_eq_some_iff.mp hr
  have hspec := inPcbconnect_spec hc hin
  have hget : c.h.get inp.id = some c.inp := hspec.id ▸ PcbHead.get_of_mem hspec.mem
  cases herr : c.error with
  | some err =>
    have hno : ¬ Connects e n h inp sin := by
      rintro ⟨c', hc', hnone⟩
      rw [hc] at hc'
      cases hc'
      rw [herr] at hnone
      cases hnone
    obtain ⟨route, hroute⟩ := hspec.failed err herr
    constructor
    · intro hall
      have hq := (hall c.inp hget).fport
      rw [hroute] at hq
      exact ⟨fun hyes => absurd hyes hno, .inr hq⟩
    · rintro ⟨-, hyes | hfport⟩
      · exact absurd hyes hno
      · intro q hq
        rw [hget] at hq
        cases hq
        rw [hroute]
        exact ⟨hun, hfport, rfl, .inl rfl⟩
  | none =>
    have hyes : Connects e n h inp sin := ⟨c, hc, herr⟩
    obtain ⟨hfport, hport, hlport⟩ := hspec.done herr
    have hsome := udpPacket_isSome a c.inp m
    cases hp : udpPacket a c.inp m with
    | none =>
      -- the pcb stays connected
      rw [hp] at hsome
      refine iff_of_false (fun hall => hport ?_) (fun hroom => ?_)
      · rw [← hfport]
        exact (hall c.inp hget).fport
      · rw [← hsome] at hroom
        exact absurd (hroom.1 hyes) (by simp)
    | some call =>
      rw [hp] at hsome
      refine iff_of_true (fun q hq => ?_) ⟨fun _ => hsome.symm, .inl hyes⟩
      have hq' : q = { c.inp with faddr := 0, fport := 0, laddr := inp.laddr } := by
        apply PcbHead.get_put (h := inPcbdisconnect c.h c.inp)
        rw [← hq, ← hspec.id]
      rw [hq']
      exact ⟨rfl, rfl, rfl, hlport⟩

/-- A datagram of one octet in an mbuf without leading space. -/
def oneOctetDgram : List Mbuf := [{ mPkthdr := some 1, mOff := mlen - mhlen, mData := [7] }]

/-- With an mbuf for the header the socket is unconnected after the call, and bound to a port. -/
theorem sendto_unconnected_sent :
    ∃ r q, udpOutput oneAddr 1 {} (fun _ => false) { list := [freshPcb] } freshPcb oneOctetDgram
        (some ⟨0x0a000002, 7, true, true⟩) = some r ∧ r.error = none ∧
      r.h.get freshPcb.id = some q ∧ q.lport = 1024 ∧ StillUnconnected freshPcb q := by
  have h := (sendto_unconnected oneAddr 1 {} (fun _ => false) { list := [freshPcb] } freshPcb
    oneOctetDgram ⟨0x0a000002, 7, true, true⟩ _ (by simp) rfl rfl).mpr
      ⟨fun _ => by decide, .inr rfl⟩
  exact ⟨_, _, rfl, rfl, rfl, rfl, h _ rfl⟩

/-- Without an mbuf for the header the socket is left connected to the destination. -/
theorem sendto_left_connected :
    ∃ r q, udpOutput oneAddr 1 { mget := false } (fun _ => false) { list := [freshPcb] } freshPcb
        oneOctetDgram (some ⟨0x0a000002, 7, true, true⟩) = some r ∧ r.error = some .enobufs ∧
      r.h.get freshPcb.id = some q ∧ q.faddr = 0x0a000002 ∧ q.fport = 7 ∧
      q.laddr = 0x0a000001 ∧ ¬ StillUnconnected freshPcb q := by
  refine ⟨_, _, rfl, rfl, rfl, rfl, rfl, rfl, fun h => ?_⟩
  exact absurd h.fport (by decide)

end Anp
