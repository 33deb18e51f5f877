import Anp.Lib.Runs
import Anp.Udp.Output

/-!
# PcbRun — the addresses of connected pcbs, over whole runs

One list of pcbs (`udb` or `tcb`) under the calls that change an address or a port: the requests
of `udp_usrreq` and `tcp_usrreq`, `udp_output` with a destination, and the `LISTEN` case of
`tcp_input` with the `sonewconn` before it.
-/

namespace Anp

open Runs List

/-! ## The calls -/

/-- What `setsockopt`, `ip_output` and `soclose` change in a pcb and its socket. -/
structure PcbOpts where
  reuseaddr : Bool := false
  reuseport : Bool := false
  acceptconn : Bool := false
  dontroute : Bool := false
  nofdref : Bool := false
  multicastIf : Option Nat := none
  route : Option (Nat × PcbRt) := none

def Inpcb.withOpts (inp : Inpcb) (o : PcbOpts) : Inpcb :=
  { inp with
    reuseaddr := o.reuseaddr
    reuseport := o.reuseport
    acceptconn := o.acceptconn
    dontroute := o.dontroute
    nofdref := o.nofdref
    multicastIf := o.multicastIf
    route := o.route }

/-- `insque(inp, head)`, for a pcb that is not on the list. -/
def PcbHead.insque (h : PcbHead) (inp : Inpcb) : PcbHead :=
  if hnew : inp.id ∈ h.list.map (·.id) then h
  else { h with list := inp :: h.list, nodup := List.nodup_cons.mpr ⟨hnew, h.nodup⟩ }

/-- The calls. Each names its pcb; `e` is the state of the interfaces and routes at the time. -/
inductive PcbOp where
  /-- `in_pcballoc`. -/
  | attach (id : Nat)
  /-- `sonewconn` in `tcp_input`, with the addresses of the segment. -/
  | newconn (id dst dport : Nat)
  | setopt (id : Nat) (o : PcbOpts)
  | bind (e : PcbEnv) (id : Nat) (nam : Option SockaddrIn)
  /-- `PRU_LISTEN` of `tcp_usrreq`. -/
  | listen (e : PcbEnv) (id : Nat)
  /-- `PRU_CONNECT` of `tcp_usrreq`; `template` is the outcome of `tcp_template`. -/
  | tcpConnect (e : PcbEnv) (id : Nat) (sin : SockaddrIn) (template : Bool)
  /-- A SYN for a pcb in the state `LISTEN`. -/
  | syn (e : PcbEnv) (id dst : Nat) (src : SockaddrIn)
  /-- `PRU_CONNECT` of `udp_usrreq`. -/
  | udpConnect (e : PcbEnv) (id : Nat) (sin : SockaddrIn)
  /-- `PRU_DISCONNECT` of `udp_usrreq`. -/
  | udpDisconnect (id : Nat)
  /-- `udp_output` with a destination. -/
  | sendto (e : PcbEnv) (a : UdpSock) (ipFails : IpCall → Bool) (id : Nat) (m : List Mbuf)
      (sin : SockaddrIn)
  /-- `in_pcbdetach`. -/
  | detach (id : Nat)

def PcbOp.id : PcbOp → Nat
  | .attach id | .newconn id _ _ | .setopt id _ | .bind _ id _ | .listen _ id
  | .tcpConnect _ id _ _ | .syn _ id _ _ | .udpConnect _ id _ | .udpDisconnect id
  | .sendto _ _ _ id _ _ | .detach id => id

/-- `PRU_CONNECT` of `tcp_usrreq`. -/
def tcpConnectPcb (e : PcbEnv) (h : PcbHead) (inp : Inpcb) (sin : SockaddrIn) (template : Bool) :
    Option PcbHead :=
  let connect (b : PcbRes) : Option PcbHead :=
    (inPcbconnect e bindProbes b.h b.inp sin).map fun r =>
      if r.error = none ∧ template = false then inPcbdisconnect r.h r.inp else r.h
  if inp.lport = 0 then
    (inPcbbind e bindProbes h inp none).bind fun b =>
      if b.error = none then connect b else some b.h
  else connect ⟨h, inp, none⟩

/-- The pcb of a listening socket takes the address the segment was sent to. -/
def Inpcb.at (inp : Inpcb) (dst : Nat) : Inpcb :=
  if inp.laddr = 0 then { inp with laddr := dst } else inp

/-- The `LISTEN` case of `tcp_input`. -/
def listenConnect (e : PcbEnv) (h : PcbHead) (inp : Inpcb) (dst : Nat) (src : SockaddrIn) :
    Option PcbHead :=
  (inPcbconnect e bindProbes (h.put (inp.at dst)) (inp.at dst) src).map fun r =>
    if r.error = none then r.h else r.h.put { r.inp with laddr := inp.laddr }

/-- A call on the pcb `inp`; `none` if it does not return. -/
def pcbCall (h : PcbHead) (inp : Inpcb) : PcbOp → Option PcbHead
  | .attach _ | .newconn _ _ _ => some h
  | .setopt _ o => some (h.put (inp.withOpts o))
  | .bind e _ nam => (inPcbbind e bindProbes h inp nam).map (·.h)
  | .listen e _ =>
    if inp.lport = 0 then (inPcbbind e bindProbes h inp none).map (·.h) else some h
  | .tcpConnect e _ sin template => tcpConnectPcb e h inp sin template
  | .syn e _ dst src => listenConnect e h inp dst src
  | .udpConnect e _ sin =>
    if inp.faddr ≠ 0 then some h else (inPcbconnect e bindProbes h inp sin).map (·.h)
  | .udpDisconnect _ =>
    if inp.faddr = 0 then some h
    else some ((inPcbdisconnect h inp).put { inp with faddr := 0, fport := 0, laddr := 0 })
  | .sendto e a ipFails _ m sin =>
    (udpOutput e bindProbes a ipFails h inp m (some sin)).map (·.h)
  | .detach id => some (h.remove id)

/-- One call. One that does not return leaves no new state behind. -/
def pcbStep (h : PcbHead) (op : PcbOp) : PcbHead :=
  match op, h.get op.id with
  | .attach id, none => h.insque { id := id }
  | .newconn id dst dport, none => h.insque { id := id, laddr := dst, lport := dport }
  | _, none => h
  | op, some inp => (pcbCall h inp op).getD h

/-! ## Unique tuples -/

def Inpcb.SameTuple (p q : Inpcb) : Prop :=
  p.laddr = q.laddr ∧ p.lport = q.lport ∧ p.faddr = q.faddr ∧ p.fport = q.fport
deriving Decidable

/-- No other pcb of the list has the tuple of `p`, if `p` is connected. -/
def FreshTuple (h : PcbHead) (p : Inpcb) : Prop :=
  p.faddr ≠ 0 → ∀ q ∈ h.list, q.id ≠ p.id → ¬ p.SameTuple q

/-- Two pcbs with non-wildcard foreign addresses have different tuples. -/
def Tuples (h : PcbHead) : Prop :=
  ∀ p ∈ h.list, ∀ q ∈ h.list, p.faddr ≠ 0 → q.faddr ≠ 0 → p.SameTuple q → p.id = q.id
deriving Decidable

section

variable {h h' : PcbHead} {inp p q : Inpcb}

theorem Tuples.fresh (ht : Tuples h) (hp : p ∈ h.list) : FreshTuple h p := by
  intro hne q hq hid hsame
  apply hid
  have hqne : q.faddr ≠ 0 := hsame.2.2.1 ▸ hne
  exact (ht p hp q hq hne hqne hsame).symm

theorem FreshTuple.unconnected (hp : p.faddr = 0) : FreshTuple h p := absurd hp

theorem FreshTuple.congr (hf : FreshTuple h p) (hid : q.id = p.id) (hsame : q.SameTuple p) : FreshTuple h q := by
  intro hne t ht htid hqt
  have hpne : p.faddr ≠ 0 := hsame.2.2.1 ▸ hne
  apply hf hpne t ht (hid ▸ htid)
  obtain ⟨h1, h2, h3, h4⟩ := hsame
  obtain ⟨g1, g2, g3, g4⟩ := hqt
  exact ⟨h1.symm.trans g1, h2.symm.trans g2, h3.symm.trans g3, h4.symm.trans g4⟩

theorem Tuples.of_list (ht : Tuples h) (hl : h'.list = h.list) : Tuples h' := by
  rw [Tuples, hl]
  exact ht

theorem Tuples.put (ht : Tuples h) (hf : FreshTuple h p) : Tuples (h.put p) := by
  intro s hs t ht' hsne htne hsame
  obtain ⟨s0, hs0, rfl⟩ := mem_map.mp hs
  obtain ⟨t0, ht0, rfl⟩ := mem_map.mp ht'
  by_cases hsid : s0.id = p.id
  · by_cases htid : t0.id = p.id
    · rw [if_pos hsid, if_pos htid]
    · rw [if_pos hsid] at hsne hsame
      rw [if_neg htid] at hsame
      exact absurd hsame (hf hsne t0 ht0 htid)
  · by_cases htid : t0.id = p.id
    · rw [if_pos htid] at htne hsame
      rw [if_neg hsid] at hsame
      obtain ⟨h1, h2, h3, h4⟩ := hsame
      exact absurd ⟨h1.symm, h2.symm, h3.symm, h4.symm⟩ (hf htne s0 hs0 hsid)
    · rw [if_neg hsid] at hsne hsame ⊢
      rw [if_neg htid] at htne hsame ⊢
      exact ht s0 hs0 t0 ht0 hsne htne hsame

theorem Tuples.remove (ht : Tuples h) (id : Nat) : Tuples (h.remove id) := by
  intro p hp q hq
  exact ht p (mem_of_mem_filter hp) q (mem_of_mem_filter hq)

theorem Tuples.insque (ht : Tuples h) (hp : p.faddr = 0) : Tuples (h.insque p) := by
  rw [PcbHead.insque]
  split
  · exact ht
  intro s hs t ht' hsne htne hsame
  rcases mem_cons.mp hs with rfl | hs
  · exact absurd hp hsne
  rcases mem_cons.mp ht' with rfl | ht'
  · exact absurd hp htne
  · exact ht s hs t ht' hsne htne hsame

end

/-! ## The tuple that `in_pcbconnect` completes -/

section

variable {e : PcbEnv} {n : Nat} {h h' : PcbHead} {inp p q : Inpcb} {sin : SockaddrIn} {r : PcbRes}

theorem pcbWildcard_tuple (hne : q.faddr ≠ 0) :
    pcbWildcard q.faddr q.fport q.laddr q.lport q = some 0 := by
  rw [pcbWildcard, if_neg (by simp)]
  by_cases hl : q.laddr = 0 <;> simp [hl, hne]

theorem FreshTuple.of_lookup {l : List Inpcb}
    (hnone : inPcblookup l p.faddr p.fport p.laddr p.lport false = none)
    (hl : ∀ q ∈ h.list, q.id ≠ p.id → q ∈ l) : FreshTuple h p := by
  intro hne q hq hid hsame
  obtain ⟨h1, h2, h3, h4⟩ := hsame
  apply inPcblookup_eq_none.mp hnone q (hl q hq hid)
  rw [h1, h2, h3, h4]
  exact ⟨0, pcbWildcard_tuple (h3 ▸ hne), .inl rfl⟩

theorem pcbWildcard_port (q : Inpcb) : ∃ w, pcbWildcard 0 0 0 q.lport q = some w := by
  rw [pcbWildcard, if_neg (by simp)]
  by_cases hl : q.laddr = 0 <;> by_cases hf : q.faddr = 0 <;> simp [hl, hf]

/-- The calls in which the port is chosen after the check are harmless if no other pcb is connected
from an ephemeral port of the same source address to the same destination. -/
def ConnectSafe (e : PcbEnv) (h : PcbHead) (inp : Inpcb) (sin : SockaddrIn) : Prop :=
  inp.laddr = 0 → inp.lport = 0 → bindWild e inp = false → ∀ q ∈ h.list, q.id ≠ inp.id →
    ¬ (q.faddr = pcbForeign e sin.addr ∧ q.fport = sin.port ∧
      (pcbSource e inp (pcbForeign e sin.addr)).2 = some q.laddr ∧
      ipportReserved ≤ q.lport ∧ q.lport ≤ ipportUserreserved)
deriving Decidable

/-- `in_pcbconnect` completes a tuple that no other pcb has, unless it chooses the port after its
check with a lookup that passes over connected pcbs. -/
theorem FreshTuple.connect (hin : inp ∈ h.list) (hsafe : ConnectSafe e h inp sin)
    (hr : inPcbconnect e n h inp sin = some r) (herr : r.error = none) :
    FreshTuple h r.inp := by
  obtain ⟨-, ⟨_, _, -, hsome⟩ | ⟨-, l, hothers, hj⟩⟩ := inPcbconnect_cases hr hin
  · rw [herr] at hsome
    cases hsome
  have hid : r.inp.id = inp.id := by rw [hj.eq]
  rcases hj.chosen with hl | ⟨hlport, hladdr, hif, b, c, hchosen, hb, hc, hwb⟩
  · exact .of_lookup (hl ▸ hj.checked) (hid ▸ hothers)
  -- the port was chosen after the check
  intro hne q hq hqid hsame
  rw [hid] at hqid
  obtain ⟨h1, h2, h3, h4⟩ := hsame
  obtain ⟨-, hlow, hhigh, hfree⟩ := hchosen
  rw [hc, h2] at hlow hhigh hfree
  cases hwild : bindWild e inp with
  | true =>
    obtain ⟨w, hw⟩ := pcbWildcard_port q
    rw [hwb, hwild, hb] at hfree
    exact inPcblookup_eq_none.mp hfree q (hothers q hq hqid) ⟨w, hw, .inr rfl⟩
  | false =>
    refine hsafe hladdr hlport hwild q hq hqid ⟨?_, ?_, h1 ▸ hif, hlow, hhigh⟩
    · rw [← h3, hj.eq]
    · rw [← h4, hj.eq]

/-! ## The calls keep the tuples unique -/

theorem Tuples.connect (ht : Tuples h) (hin : inp ∈ h.list)
    (hsafe : r.error = none → ConnectSafe e h inp sin)
    (hr : inPcbconnect e n h inp sin = some r) : Tuples r.h := by
  refine (ht.put ?_).of_list (inPcbconnect_cases hr hin).1
  cases herr : r.error with
  | none => exact .connect hin (hsafe herr) hr herr
  | some err =>
    obtain ⟨route, hroute⟩ := (inPcbconnect_spec hr hin).failed err herr
    rw [hroute]
    exact (ht.fresh hin).congr rfl ⟨rfl, rfl, rfl, rfl⟩

/-- `in_pcbbind` does not complete the tuple of a connected pcb. -/
def BindSafe (inp : Inpcb) : Prop := inp.faddr = 0 ∨ inp.laddr ≠ 0 ∨ inp.lport ≠ 0
deriving Decidable

theorem BindSafe.unconnected (hsafe : BindSafe inp) (hdone : BindDone h inp r)
    (herr : r.error = none) : r.inp.faddr = 0 := by
  obtain ⟨hlport, hladdr⟩ := hdone.fresh herr
  rcases hsafe with hf | hl | hp
  · exact hdone.faddr.trans hf
  · exact absurd hladdr hl
  · exact absurd hlport hp

theorem Tuples.bind {nam : Option SockaddrIn} (ht : Tuples h) (hin : inp ∈ h.list)
    (hsafe : BindSafe inp) (hr : inPcbbind e n h inp nam = some r) : Tuples r.h := by
  have hdone := (inPcbbind_done hr hin).1
  refine (ht.put ?_).of_list hdone.list
  by_cases herr : r.error = none
  · exact .unconnected (hsafe.unconnected hdone herr)
  · rw [hdone.failed herr]
    exact ht.fresh hin

theorem Tuples.disconnect (ht : Tuples h) (hl : h'.list = (h.put p).list) :
    Tuples (inPcbdisconnect h' p) := by
  have hput : Tuples (h'.put { p with faddr := 0, fport := 0 }) :=
    (ht.put (.unconnected rfl)).of_list (PcbHead.put_put hl rfl)
  rw [inPcbdisconnect]
  dsimp only
  split
  · exact hput.remove p.id
  · exact hput

theorem Tuples.tcpConnect {template : Bool} (ht : Tuples h) (hin : inp ∈ h.list)
    (hsafe : BindSafe inp) (hr : tcpConnectPcb e h inp sin template = some h') : Tuples h' := by
  have hconnect {b : PcbRes} (hb : Tuples b.h) (hmem : b.inp ∈ b.h.list) (hport : b.inp.lport ≠ 0)
      (hr : (inPcbconnect e bindProbes b.h b.inp sin).map (fun r =>
        if r.error = none ∧ template = false then inPcbdisconnect r.h r.inp else r.h) = some h') :
      Tuples h' := by
    obtain ⟨c, hc, rfl⟩ := Option.map_eq_some_iff.mp hr
    split
    · exact hb.disconnect (inPcbconnect_cases hc hmem).1
    · exact hb.connect hmem (fun _ _ h0 => absurd h0 hport) hc
  rw [tcpConnectPcb] at hr
  split at hr
  · obtain ⟨b, hb, hr⟩ := Option.bind_eq_some_iff.mp hr
    have hbt := ht.bind hin hsafe hb
    split at hr
    next herr =>
      obtain ⟨hdone, hchosen⟩ := inPcbbind_done hb hin
      have hmem : b.inp ∈ b.h.list := hdone.list ▸ PcbHead.mem_put hin hdone.id
      have hlow := (hchosen rfl herr).2.1
      exact hconnect hbt hmem (Nat.ne_of_gt (Nat.lt_of_lt_of_le (by decide) hlow)) hr
    · cases hr
      exact hbt
  next hport => exact hconnect (b := ⟨h, inp, none⟩) ht hin hport hr

theorem ConnectSafe.put (hsafe : ConnectSafe e h inp sin) (hid : p.id = inp.id) :
    ConnectSafe e (h.put p) inp sin := by
  intro hladdr hlport hwild q hq hne
  obtain ⟨t, ht, rfl⟩ := mem_map.mp hq
  split at hne
  · exact absurd hid hne
  next hother =>
    rw [if_neg hother]
    exact hsafe hladdr hlport hwild t ht hne

theorem Inpcb.at_id (inp : Inpcb) (dst : Nat) : (inp.at dst).id = inp.id := by
  rw [Inpcb.at]
  split <;> rfl

theorem Tuples.syn {dst : Nat} {src : SockaddrIn} (ht : Tuples h) (hin : inp ∈ h.list)
    (hsafe : ConnectSafe e h (inp.at dst) src)
    (hr : listenConnect e h inp dst src = some h') : Tuples h' := by
  have hat := Inpcb.at_id inp dst
  have hin' : inp.at dst ∈ (h.put (inp.at dst)).list := PcbHead.mem_put hin hat
  obtain ⟨c, hc, rfl⟩ := Option.map_eq_some_iff.mp hr
  have hspec := inPcbconnect_spec hc hin'
  have hlist : c.h.list = (h.put c.inp).list :=
    (inPcbconnect_cases hc hin').1.trans (PcbHead.put_put rfl hspec.id)
  cases herr : c.error with
  | none =>
    refine (ht.put ?_).of_list hlist
    intro hne q hq hid
    have hfresh := FreshTuple.connect hin' (hsafe.put rfl) hc herr
    exact hfresh hne q (PcbHead.mem_put_other hq (hspec.id ▸ hid)) hid
  | some err =>
    -- the local address is put back
    refine (ht.put ?_).of_list (PcbHead.put_put hlist rfl)
    obtain ⟨route, hroute⟩ := hspec.failed err herr
    refine (ht.fresh hin).congr (hspec.id.trans hat) ?_
    rw [hroute, Inpcb.at]
    split <;> exact ⟨rfl, rfl, rfl, rfl⟩

theorem Tuples.sendto {a : UdpSock} {ipFails : IpCall → Bool} {m : List Mbuf} {u : UdpRes}
    (ht : Tuples h) (hin : inp ∈ h.list)
    (hsafe : mRoom a.mget 28 m = false → ConnectSafe e h inp sin)
    (hr : udpOutput e n a ipFails h inp m (some sin) = some u) : Tuples u.h := by
  rw [udpOutput] at hr
  split at hr
  · cases hr
    exact ht
  obtain ⟨c, hc, rfl⟩ := Option.map_eq_some_iff.mp hr
  have hlist := (inPcbconnect_cases hc hin).1
  cases herr : c.error with
  | some err =>
    exact ht.connect hin (fun hnone => by rw [herr] at hnone; cases hnone) hc
  | none =>
    have hsome := udpPacket_isSome a c.inp m
    cases hp : udpPacket a c.inp m with
    | none =>
      rw [hp] at hsome
      exact ht.connect hin (fun _ => hsafe hsome.symm) hc
    | some call => exact (ht.disconnect hlist).put (.unconnected rfl)

end

/-! ## Runs -/

/-- The condition on a call: a port is not chosen for a tuple after the check of the tuple. -/
def PcbOk (h : PcbHead) (op : PcbOp) : Prop :=
  match op, h.get op.id with
  | .bind _ _ _, some inp | .listen _ _, some inp | .tcpConnect _ _ _ _, some inp => BindSafe inp
  | .syn e _ dst src, some inp => ConnectSafe e h (inp.at dst) src
  | .udpConnect e _ sin, some inp => ConnectSafe e h inp sin
  | .sendto e a _ _ m sin, some inp => mRoom a.mget 28 m = false → ConnectSafe e h inp sin
  | _, _ => True

instance (h : PcbHead) (op : PcbOp) : Decidable (PcbOk h op) := by
  unfold PcbOk
  split <;> infer_instance

theorem Tuples.step {h : PcbHead} {op : PcbOp} (ht : Tuples h) (hok : PcbOk h op) :
    Tuples (pcbStep h op) := by
  cases hget : h.get op.id with
  | none =>
    cases op <;> simp only [pcbStep, hget] <;> first | exact ht | exact ht.insque rfl
  | some inp =>
    have hin : inp ∈ h.list := mem_of_find?_eq_some hget
    suffices hcall : ∀ h', pcbCall h inp op = some h' → Tuples h' by
      have hstep : pcbStep h op = (pcbCall h inp op).getD h := by
        cases op <;> simp only [pcbStep, hget]
      rw [hstep]
      cases hc : pcbCall h inp op with
      | none => exact ht
      | some h' => exact hcall h' hc
    intro h' hc
    cases op with
    | attach | newconn =>
      cases hc
      exact ht
    | setopt id o =>
      cases hc
      exact ht.put ((ht.fresh hin).congr rfl ⟨rfl, rfl, rfl, rfl⟩)
    | bind e id nam =>
      simp only [PcbOk, hget] at hok
      obtain ⟨r, hr, rfl⟩ := Option.map_eq_some_iff.mp hc
      exact ht.bind hin hok hr
    | listen e id =>
      simp only [PcbOk, hget] at hok
      rw [pcbCall] at hc
      split at hc
      · obtain ⟨r, hr, rfl⟩ := Option.map_eq_some_iff.mp hc
        exact ht.bind hin hok hr
      · cases hc
        exact ht
    | tcpConnect e id sin template =>
      simp only [PcbOk, hget] at hok
      exact ht.tcpConnect hin hok hc
    | syn e id dst src =>
      simp only [PcbOk, hget] at hok
      exact ht.syn hin hok hc
    | udpConnect e id sin =>
      simp only [PcbOk, hget] at hok
      rw [pcbCall] at hc
      split at hc
      · cases hc
        exact ht
      · obtain ⟨r, hr, rfl⟩ := Option.map_eq_some_iff.mp hc
        exact ht.connect hin (fun _ => hok) hr
    | udpDisconnect id =>
      rw [pcbCall] at hc
      split at hc
      · cases hc
        exact ht
      · cases hc
        exact (ht.disconnect (PcbHead.put_self hin).symm).put (.unconnected rfl)
    | sendto e a ipFails id m sin =>
      simp only [PcbOk, hget] at hok
      obtain ⟨u, hu, rfl⟩ := Option.map_eq_some_iff.mp hc
      exact ht.sendto hin hok hu
    | detach id =>
      cases hc
      exact ht.remove id

def PcbReach (C : PcbHead → PcbOp → Prop) (h : PcbHead) : Prop :=
  Reach (fun h => h.list = []) (By pcbStep C) h

/-- In every run whose calls meet the condition, two connected pcbs have different tuples. -/
theorem pcbTuples_unique {h : PcbHead} (hr : PcbReach PcbOk h) : Tuples h := by
  refine hr.ops (fun h hnil => ?_) (fun h op ht hok => ht.step hok)
  rw [Tuples, hnil]
  intro p hp
  cases hp

/-- A socket is connected from port 1024; a second one with `SO_REUSEADDR` connects to `sin`. -/
def twoConnects (sin : SockaddrIn) : List PcbOp :=
  [.attach 1, .bind oneAddr 1 (some ⟨0, 1024, true, true⟩),
    .udpConnect oneAddr 1 ⟨0x0a000002, 7, true, true⟩, .attach 2,
    .setopt 2 { reuseaddr := true }, .udpConnect oneAddr 2 sin]

def emptyHead : PcbHead := { list := [], lport_le := Nat.zero_le _ }

/-- To another port of the host the second connection may use the same local port. -/
theorem pcbTuples_unique_two :
    Tuples ((twoConnects ⟨0x0a000002, 8, true, true⟩).foldl pcbStep emptyHead) ∧
      ((twoConnects ⟨0x0a000002, 8, true, true⟩).foldl pcbStep emptyHead).list.map
        (fun p => (p.lport, p.fport)) = [(1024, 8), (1024, 7)] := by
  have hstart : PcbReach PcbOk emptyHead := .start rfl
  refine ⟨pcbTuples_unique (hstart.foldl (l := twoConnects ⟨0x0a000002, 8, true, true⟩) ?_), ?_⟩
  · decide +kernel
  · decide +kernel

/-- To the same port the two have the same tuple. -/
theorem pcbTuples_shared :
    ∃ h, PcbReach (fun _ _ => True) h ∧ ¬ Tuples h := by
  have hstart : PcbReach (fun _ _ => True) emptyHead := .start rfl
  refine ⟨(twoConnects ⟨0x0a000002, 7, true, true⟩).foldl pcbStep emptyHead,
    hstart.foldl (MeetsAll.trivial _ _), ?_⟩
  decide +kernel

end Anp
