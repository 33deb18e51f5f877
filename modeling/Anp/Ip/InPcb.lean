import Mathlib.Data.List.Nodup
import Anp.Ip.Header

/-!
# InPcb — Internet protocol control blocks

`netinet/in_pcb.c`. The pcbs of a protocol form a list with a head (`PcbHead`); the head's own
`inp_lport` is the cursor of the search for an ephemeral port. Addresses and ports are numbers, 0
being `INADDR_ANY` and "no port".

**`ephemeral_port`** says when the search ends, and what it finds.
-/

namespace Anp

open List

/-! ## Control blocks -/

/-- A route as `in_pcbconnect` reads it: the address of `rt_ifa`, and whether `rt_ifp` is a
loopback interface. -/
structure PcbRt where
  addr : Nat
  loopback : Bool := false
  deriving DecidableEq, Repr

/-- `struct inpcb`, with the options and the state of its socket. -/
structure Inpcb where
  id : Nat
  laddr : Nat := 0
  lport : Nat := 0
  faddr : Nat := 0
  fport : Nat := 0
  /-- `inp_route`: the destination and the route. -/
  route : Option (Nat × PcbRt) := none
  /-- `imo_multicast_ifp`. -/
  multicastIf : Option Nat := none
  reuseaddr : Bool := false
  reuseport : Bool := false
  acceptconn : Bool := false
  dontroute : Bool := false
  nofdref : Bool := false
  deriving DecidableEq, Repr

def ipportReserved : Nat := 1024

def ipportUserreserved : Nat := 5000

/-- The head of a list. Its `inp_lport` is 0 at the start and set by `in_pcbbind` only. -/
structure PcbHead where
  lport : Nat := 0
  list : List Inpcb := []
  lport_le : lport ≤ ipportUserreserved := by decide
  nodup : (list.map (·.id)).Nodup := by decide

def PcbHead.put (h : PcbHead) (inp : Inpcb) : PcbHead :=
  { h with
    list := h.list.map fun q => if q.id = inp.id then inp else q
    nodup := by
      have hids : (h.list.map fun q => if q.id = inp.id then inp else q).map (·.id)
          = h.list.map (·.id) := by
        rw [List.map_map]
        refine map_congr_left fun q _ => ?_
        show (if q.id = inp.id then inp else q).id = q.id
        split
        next he => exact he.symm
        next => rfl
      rw [hids]
      exact h.nodup }

/-- `remque`. -/
def PcbHead.remove (h : PcbHead) (id : Nat) : PcbHead :=
  { h with
    list := h.list.filter (·.id != id)
    nodup := h.nodup.sublist (filter_sublist.map _) }

def PcbHead.get (h : PcbHead) (id : Nat) : Option Inpcb := h.list.find? (·.id == id)

/-! ## `in_pcblookup` -/

/-- How many of the two local and foreign addresses match by a wildcard only; `none` where the
pcb does not match (`continue`). -/
def pcbWildcard (faddr fport laddr lport : Nat) (inp : Inpcb) : Option Nat :=
  if inp.lport ≠ lport then none
  else
    let l : Option Nat :=
      if inp.laddr ≠ 0 then
        if laddr = 0 then some 1 else if inp.laddr ≠ laddr then none else some 0
      else if laddr ≠ 0 then some 1 else some 0
    let f : Option Nat :=
      if inp.faddr ≠ 0 then
        if faddr = 0 then some 1
        else if inp.faddr ≠ faddr ∨ inp.fport ≠ fport then none else some 0
      else if faddr ≠ 0 then some 1 else some 0
    l.bind fun a => f.map (a + ·)

/-- The loop of `in_pcblookup`; `wild` is `flags & INPLOOKUP_WILDCARD`. -/
def inPcblookupLoop (faddr fport laddr lport : Nat) (wild : Bool) :
    List Inpcb → Option Inpcb → Nat → Option Inpcb
  | [], found, _ => found
  | inp :: l, found, matchwild =>
    match pcbWildcard faddr fport laddr lport inp with
    | none => inPcblookupLoop faddr fport laddr lport wild l found matchwild
    | some w =>
      if w ≠ 0 ∧ wild = false then inPcblookupLoop faddr fport laddr lport wild l found matchwild
      else if w < matchwild then
        if w = 0 then some inp
        else inPcblookupLoop faddr fport laddr lport wild l (some inp) w
      else inPcblookupLoop faddr fport laddr lport wild l found matchwild

/-- The best match for a pair of addresses and ports. -/
def inPcblookup (l : List Inpcb) (faddr fport laddr lport : Nat) (wild : Bool) : Option Inpcb :=
  inPcblookupLoop faddr fport laddr lport wild l none 3

/-- The pcb is one that `in_pcblookup` may return. -/
def PcbMatches (faddr fport laddr lport : Nat) (wild : Bool) (inp : Inpcb) : Prop :=
  ∃ w, pcbWildcard faddr fport laddr lport inp = some w ∧ (w = 0 ∨ wild = true)

theorem pcbWildcard_le {faddr fport laddr lport w : Nat} {inp : Inpcb}
    (h : pcbWildcard faddr fport laddr lport inp = some w) : w ≤ 2 := by
  rw [pcbWildcard] at h
  split at h
  · cases h
  obtain ⟨a, ha, h⟩ := Option.bind_eq_some_iff.mp h
  obtain ⟨b, hb, rfl⟩ := Option.map_eq_some_iff.mp h
  have ha2 : a ≤ 1 := by
    split_ifs at ha <;> cases ha <;> omega
  have hb2 : b ≤ 1 := by
    split_ifs at hb <;> cases hb <;> omega
  omega

section

variable {faddr fport laddr lport : Nat} {wild : Bool}

theorem inPcblookupLoop_found {l : List Inpcb} {inp : Inpcb} {mw : Nat} :
    (inPcblookupLoop faddr fport laddr lport wild l (some inp) mw).isSome := by
  induction l generalizing inp mw with
  | nil => rfl
  | cons q l ih =>
    rw [inPcblookupLoop]
    split
    · exact ih
    split_ifs
    · exact ih
    · rfl
    · exact ih
    · exact ih

theorem inPcblookup_eq_none {l : List Inpcb} :
    inPcblookup l faddr fport laddr lport wild = none ↔
      ∀ inp ∈ l, ¬ PcbMatches faddr fport laddr lport wild inp := by
  rw [inPcblookup]
  induction l with
  | nil => simp [inPcblookupLoop]
  | cons inp l ih =>
    rw [forall_mem_cons, ← ih, inPcblookupLoop]
    split
    next hw =>
      refine (and_iff_right ?_).symm
      rintro ⟨w, hw', -⟩
      rw [hw] at hw'
      cases hw'
    next w hw =>
    split
    next hskip =>
      refine (and_iff_right ?_).symm
      rintro ⟨w', hw', h⟩
      rw [hw] at hw'
      cases hw'
      rw [hskip.2] at h
      exact h.elim hskip.1 nofun
    next hskip =>
    have hle := pcbWildcard_le hw
    have hmatch : PcbMatches faddr fport laddr lport wild inp := by
      refine ⟨w, hw, ?_⟩
      cases hwild : wild with
      | true => exact .inr rfl
      | false =>
        by_contra hne
        exact hskip ⟨fun h => hne (.inl h), hwild⟩
    rw [if_pos (by omega)]
    refine iff_of_false ?_ (fun h => h.1 hmatch)
    split
    · simp
    · intro hnone
      have hsome := @inPcblookupLoop_found faddr fport laddr lport wild l inp w
      rw [hnone] at hsome
      cases hsome

end

/-! ## `in_pcbbind` -/

/-- `struct sockaddr_in` in an mbuf: `lenOk` is `nam->m_len == sizeof (*sin)`, `inet` is
`sin_family == AF_INET`. -/
structure SockaddrIn where
  addr : Nat
  port : Nat
  lenOk : Bool := true
  inet : Bool := true
  deriving DecidableEq, Repr

/-- `struct in_ifaddr`, with the broadcast flag of its interface. -/
structure PcbIa where
  addr : Nat
  broadaddr : Nat := 0
  broadcast : Bool := false
  ifp : Nat := 0
  deriving DecidableEq, Repr

inductive PcbErr where
  | eaddrnotavail
  | einval
  | eaddrinuse
  | eafnosupport
  | eacces
  | eisconn
  | enotconn
  | enobufs
  | ipOutput
  deriving DecidableEq, Repr

/-- The tables the functions look into. `connrequired` is `PR_CONNREQUIRED` of the protocol. -/
structure PcbEnv where
  inIfaddr : List PcbIa := []
  rtalloc : Nat → Option PcbRt := fun _ => none
  ifaIfwithaddr : Nat → Bool := fun _ => false
  ifaIfwithdstaddr : Nat → Option Nat := fun _ => none
  ifaIfwithnet : Nat → Option Nat := fun _ => none
  suser : Bool := true
  connrequired : Bool := false

structure PcbRes where
  h : PcbHead
  inp : Inpcb
  error : Option PcbErr

/-- `wild` in `in_pcbbind`. -/
def bindWild (e : PcbEnv) (inp : Inpcb) : Bool :=
  !(inp.reuseaddr || inp.reuseport) && (!e.connrequired || !inp.acceptconn)

/-- `(reuseport & t->inp_socket->so_options) != 0`, for a binding to `addr`. -/
def bindShares (inp : Inpcb) (addr : Nat) (t : Inpcb) : Bool :=
  if inClassd addr && inp.reuseaddr then t.reuseaddr || t.reuseport
  else inp.reuseport && t.reuseport

/-- The checks of `in_pcbbind`: the address and the port it goes on with. -/
def bindCheck (e : PcbEnv) (h : PcbHead) (inp : Inpcb) (nam : Option SockaddrIn) :
    Except PcbErr (Nat × Nat) :=
  if e.inIfaddr = [] then .error .eaddrnotavail
  else if inp.lport ≠ 0 ∨ inp.laddr ≠ 0 then .error .einval
  else
    match nam with
    | none => .ok (inp.laddr, 0)
    | some sin =>
      if sin.lenOk = false then .error .einval
      else if inClassd sin.addr = false ∧ sin.addr ≠ 0 ∧ e.ifaIfwithaddr sin.addr = false then
        .error .eaddrnotavail
      else if sin.port ≠ 0 then
        if sin.port < ipportReserved ∧ e.suser = false then .error .eacces
        else
          match inPcblookup h.list 0 0 sin.addr sin.port (bindWild e inp) with
          | none => .ok (sin.addr, sin.port)
          | some t =>
            if bindShares inp sin.addr t then .ok (sin.addr, sin.port) else .error .eaddrinuse
      else .ok (sin.addr, 0)

/-- `head->inp_lport` after one more round: the next port from 1024 to 5000, in a circle. -/
def nextPort (cur : Nat) : Nat :=
  if cur < ipportReserved ∨ cur + 1 > ipportUserreserved then ipportReserved else cur + 1

/-- `do ... while (in_pcblookup(...))`, at most `n` rounds of it. -/
def bindLoop (l : List Inpcb) (laddr : Nat) (wild : Bool) : Nat → Nat → Option Nat
  | 0, _ => none
  | n + 1, cur =>
    if (inPcblookup l 0 0 laddr (nextPort cur) wild).isSome then
      bindLoop l laddr wild n (nextPort cur)
    else some (nextPort cur)

theorem nextPort_range (cur : Nat) :
    ipportReserved ≤ nextPort cur ∧ nextPort cur ≤ ipportUserreserved := by
  rw [nextPort, ipportReserved, ipportUserreserved]
  split <;> omega

def PcbHead.cursor (h : PcbHead) (p : Nat) (hp : p ≤ ipportUserreserved) : PcbHead :=
  { h with lport := p, lport_le := hp }

variable {l : List Inpcb} {laddr : Nat} {wild : Bool}

theorem bindLoop_some {n cur p : Nat} (h : bindLoop l laddr wild n cur = some p) :
    ipportReserved ≤ p ∧ p ≤ ipportUserreserved ∧ inPcblookup l 0 0 laddr p wild = none := by
  fun_induction bindLoop l laddr wild n cur with
  | case1 => cases h
  | case2 n cur _ ih => exact ih h
  | case3 n cur hfree =>
    cases h
    exact ⟨(nextPort_range cur).1, (nextPort_range cur).2, by simpa using hfree⟩

/-- `in_pcbbind(inp, nam)`; `none` if the search for a port takes more than `n` probes. -/
def inPcbbind (e : PcbEnv) (n : Nat) (h : PcbHead) (inp : Inpcb) (nam : Option SockaddrIn) :
    Option PcbRes :=
  match bindCheck e h inp nam with
  | .error err => some ⟨h, inp, some err⟩
  | .ok (laddr, lport) =>
    let inp := { inp with laddr := laddr }
    let h := h.put inp
    if lport = 0 then
      match hl : bindLoop h.list laddr (bindWild e inp) n h.lport with
      | none => none
      | some p =>
        some ⟨(h.cursor p (bindLoop_some hl).2.1).put { inp with lport := p },
          { inp with lport := p }, none⟩
    else some ⟨h.put { inp with lport := lport }, { inp with lport := lport }, none⟩

/-! ## `in_pcbconnect` and `in_pcbdisconnect` -/

/-- The foreign address: `INADDR_ANY` and `INADDR_BROADCAST` stand for addresses of the first
interface. -/
def pcbForeign (e : PcbEnv) (addr : Nat) : Nat :=
  match e.inIfaddr with
  | [] => addr
  | ia :: _ =>
    if addr = 0 then ia.addr
    else if addr = 0xffffffff ∧ ia.broadcast then ia.broadaddr
    else addr

/-- The route and the source address for a pcb that has no local address yet. -/
def pcbSource (e : PcbEnv) (inp : Inpcb) (faddr : Nat) : Option (Nat × PcbRt) × Option Nat :=
  let route :=
    if inp.dontroute then none
    else (inp.route.filter fun r => r.1 == faddr).or ((e.rtalloc faddr).map fun r => (faddr, r))
  let ia := ((route.filter fun r => !r.2.loopback).map fun r => r.2.addr)
    |>.or (e.ifaIfwithdstaddr faddr) |>.or (e.ifaIfwithnet faddr)
    |>.or (e.inIfaddr.head?.map (·.addr))
  match ia, inp.multicastIf with
  | none, _ => (route, none)
  | some a, none => (route, some a)
  | some a, some ifp =>
    if inClassd faddr then (route, (e.inIfaddr.find? fun ia => ia.ifp == ifp).map (·.addr))
    else (route, some a)

/-- `in_pcbconnect(inp, nam)`; `none` if `in_pcbbind` takes more than `n` probes. -/
def inPcbconnect (e : PcbEnv) (n : Nat) (h : PcbHead) (inp : Inpcb) (sin : SockaddrIn) :
    Option PcbRes :=
  if sin.lenOk = false then some ⟨h, inp, some .einval⟩
  else if sin.inet = false then some ⟨h, inp, some .eafnosupport⟩
  else if sin.port = 0 then some ⟨h, inp, some .eaddrnotavail⟩
  else
    let faddr := pcbForeign e sin.addr
    let join (h : PcbHead) (inp : Inpcb) (laddr : Nat) : PcbRes :=
      let inp := { inp with laddr := laddr, faddr := faddr, fport := sin.port }
      ⟨h.put inp, inp, none⟩
    if inp.laddr ≠ 0 then
      if (inPcblookup h.list faddr sin.port inp.laddr inp.lport false).isSome then
        some ⟨h, inp, some .eaddrinuse⟩
      else some (join h inp inp.laddr)
    else
      let src := pcbSource e inp faddr
      let inp := { inp with route := src.1 }
      let h := h.put inp
      match src.2 with
      | none => some ⟨h, inp, some .eaddrnotavail⟩
      | some ifaddr =>
        if (inPcblookup h.list faddr sin.port ifaddr inp.lport false).isSome then
          some ⟨h, inp, some .eaddrinuse⟩
        else if inp.lport = 0 then
          -- the port is chosen after the check
          (inPcbbind e n h inp none).map fun r => join r.h r.inp ifaddr
        else some (join h inp ifaddr)

/-- `in_pcbdisconnect(inp)`. The pcb goes with a socket that nobody refers to. -/
def inPcbdisconnect (h : PcbHead) (inp : Inpcb) : PcbHead :=
  let inp := { inp with faddr := 0, fport := 0 }
  if inp.nofdref then (h.put inp).remove inp.id else h.put inp

/-! ## The pcb after a call -/

namespace PcbHead

variable {h : PcbHead} {inp q : Inpcb}

theorem get_of_mem (hin : inp ∈ h.list) : h.get inp.id = some inp := by
  have hnd := h.nodup
  rw [PcbHead.get]
  generalize h.list = l at hin hnd
  induction l with
  | nil => cases hin
  | cons p l ih =>
    rw [map_cons, List.nodup_cons] at hnd
    rcases mem_cons.mp hin with rfl | hin
    · exact find?_cons_of_pos (by simp)
    · have hne : p.id ≠ inp.id := fun he => hnd.1 (he ▸ mem_map_of_mem hin)
      rw [find?_cons_of_neg (by simpa using hne)]
      exact ih hin hnd.2

theorem mem_put (hin : inp ∈ h.list) (hid : q.id = inp.id) : q ∈ (h.put q).list :=
  mem_map.mpr ⟨inp, hin, if_pos hid.symm⟩

theorem mem_put_other (hq : q ∈ h.list) (hid : q.id ≠ inp.id) : q ∈ (h.put inp).list :=
  mem_map.mpr ⟨q, hq, if_neg hid⟩

theorem put_self (hin : inp ∈ h.list) : (h.put inp).list = h.list := by
  refine (map_congr_left fun q hq => ?_).trans (map_id _)
  split
  next hid =>
    have hsome := PcbHead.get_of_mem hin
    rw [← hid, PcbHead.get_of_mem hq] at hsome
    exact (Option.some.inj hsome).symm
  next => rfl

theorem put_put {h' : PcbHead} {p : Inpcb} (hl : h'.list = (h.put p).list) (hid : q.id = p.id) :
    (h'.put q).list = (h.put q).list := by
  show h'.list.map (fun t => if t.id = q.id then q else t) = _
  rw [hl]
  show (h.list.map fun t => if t.id = p.id then p else t).map _ = h.list.map _
  rw [List.map_map]
  refine map_congr_left fun t _ => ?_
  show (if (if t.id = p.id then p else t).id = q.id then q else if t.id = p.id then p else t) =
    if t.id = q.id then q else t
  by_cases ht : t.id = p.id
  · rw [if_pos ht, if_pos hid.symm, if_pos (ht.trans hid.symm)]
  · rw [if_neg ht]

end PcbHead

structure BindDone (h : PcbHead) (inp : Inpcb) (r : PcbRes) : Prop where
  list : r.h.list = (h.put r.inp).list
  id : r.inp.id = inp.id
  faddr : r.inp.faddr = inp.faddr
  failed : r.error ≠ none → r.inp = inp
  fresh : r.error = none → inp.lport = 0 ∧ inp.laddr = 0

/-- `p` is `inp` with the port that `in_pcbbind(inp, 0)` has found: an ephemeral one, for which
the lookup in `l` finds nothing. -/
def PortChosen (e : PcbEnv) (l : List Inpcb) (inp p : Inpcb) : Prop :=
  p = { inp with lport := p.lport } ∧ ipportReserved ≤ p.lport ∧ p.lport ≤ ipportUserreserved ∧
    inPcblookup l 0 0 inp.laddr p.lport (bindWild e inp) = none

/-- What `in_pcbconnect` has made of `inp` when it returns 0. The tuple was looked up in `l`, before
a port was chosen if `inp` had none. -/
structure Joined (e : PcbEnv) (l : List Inpcb) (inp : Inpcb) (sin : SockaddrIn) (p : Inpcb) :
    Prop where
  eq : p = { inp with
    laddr := p.laddr, lport := p.lport, route := p.route
    faddr := pcbForeign e sin.addr, fport := sin.port }
  port : sin.port ≠ 0
  checked : inPcblookup l p.faddr p.fport p.laddr inp.lport false = none
  chosen : p.lport = inp.lport ∨ (inp.lport = 0 ∧ inp.laddr = 0 ∧
    (pcbSource e inp (pcbForeign e sin.addr)).2 = some p.laddr ∧
    ∃ q b, PortChosen e l q b ∧ q.laddr = 0 ∧ b.lport = p.lport ∧ bindWild e q = bindWild e inp)

section

variable {e : PcbEnv} {h : PcbHead} {inp : Inpcb} {n : Nat} {r : PcbRes} {sin : SockaddrIn}

theorem inPcbbind_done {nam : Option SockaddrIn} (hr : inPcbbind e n h inp nam = some r)
    (hin : inp ∈ h.list) :
    BindDone h inp r ∧ (nam = none → r.error = none → PortChosen e h.list inp r.inp) := by
  rw [inPcbbind] at hr
  split at hr
  · cases hr
    exact ⟨⟨(PcbHead.put_self hin).symm, rfl, rfl, fun _ => rfl, fun h => by cases h⟩,
      fun _ herr => by cases herr⟩
  next laddr lport hc =>
  have hfree : (inp.lport = 0 ∧ inp.laddr = 0) ∧ (nam = none → laddr = inp.laddr ∧ lport = 0) := by
    rw [bindCheck.eq_def] at hc
    split at hc
    · cases hc
    split at hc
    · cases hc
    next hun =>
      rw [not_or, not_not, not_not] at hun
      refine ⟨hun, ?_⟩
      rintro rfl
      cases hc
      exact ⟨rfl, rfl⟩
  have hlist (port : Nat) (h' : PcbHead) (hh' : h'.list = (h.put { inp with laddr := laddr }).list) :
      BindDone h inp ⟨h'.put { inp with laddr := laddr, lport := port },
        { inp with laddr := laddr, lport := port }, none⟩ :=
    ⟨PcbHead.put_put hh' rfl, rfl, rfl, absurd rfl, fun _ => hfree.1⟩
  dsimp only at hr
  split at hr
  · split at hr
    · cases hr
    next p hl =>
      cases hr
      refine ⟨hlist p _ rfl, fun hnam _ => ?_⟩
      obtain ⟨rfl, -⟩ := hfree.2 hnam
      obtain ⟨hlow, hhigh, hnone⟩ := bindLoop_some hl
      rw [PcbHead.put_self hin] at hnone
      exact ⟨rfl, hlow, hhigh, hnone⟩
  next hport =>
    cases hr
    exact ⟨hlist lport _ rfl, fun hnam _ => absurd (hfree.2 hnam).2 hport⟩

/-- `in_pcbconnect` changes the pcb only: the route with an error, else the addresses that were
looked up among the other pcbs. -/
theorem inPcbconnect_cases (hr : inPcbconnect e n h inp sin = some r) (hin : inp ∈ h.list) :
    r.h.list = (h.put r.inp).list ∧
      ((∃ route err, r.inp = { inp with route := route } ∧ r.error = some err) ∨
        (r.error = none ∧ ∃ l, (∀ q ∈ h.list, q.id ≠ inp.id → q ∈ l) ∧
          Joined e l inp sin r.inp)) := by
  have hself := PcbHead.put_self hin
  rw [inPcbconnect] at hr
  split at hr
  · cases hr
    exact ⟨hself.symm, .inl ⟨_, _, rfl, rfl⟩⟩
  split at hr
  · cases hr
    exact ⟨hself.symm, .inl ⟨_, _, rfl, rfl⟩⟩
  split at hr
  · cases hr
    exact ⟨hself.symm, .inl ⟨_, _, rfl, rfl⟩⟩
  next hport =>
  dsimp only at hr
  split at hr
  · split at hr
    · cases hr
      exact ⟨hself.symm, .inl ⟨_, _, rfl, rfl⟩⟩
    next hlook =>
      cases hr
      refine ⟨rfl, .inr ⟨rfl, h.list, fun q hq _ => hq, rfl, hport, ?_, .inl rfl⟩⟩
      simpa using hlook
  next hladdr =>
  rw [not_not] at hladdr
  -- the source address comes from the route
  generalize hsrc : pcbSource e inp (pcbForeign e sin.addr) = src at hr
  have hothers : ∀ q ∈ h.list, q.id ≠ inp.id → q ∈ (h.put { inp with route := src.1 }).list :=
    fun q hq hid => PcbHead.mem_put_other hq hid
  split at hr
  · cases hr
    exact ⟨rfl, .inl ⟨_, _, rfl, rfl⟩⟩
  next ifaddr hif =>
  split at hr
  · cases hr
    exact ⟨rfl, .inl ⟨_, _, rfl, rfl⟩⟩
  next hlook =>
  rw [Bool.not_eq_true, Option.isSome_eq_false_iff, Option.isNone_iff_eq_none] at hlook
  split at hr
  · next hlport =>
    obtain ⟨b, hb, rfl⟩ := Option.map_eq_some_iff.mp hr
    have hin' : ({ inp with route := src.1 } : Inpcb) ∈ (h.put { inp with route := src.1 }).list :=
      PcbHead.mem_put hin rfl
    obtain ⟨hdone, hchosen⟩ := inPcbbind_done hb hin'
    refine ⟨PcbHead.put_put (hdone.list.trans (PcbHead.put_put rfl hdone.id)) rfl,
      .inr ⟨rfl, _, hothers, ?_⟩⟩
    cases herr : b.error with
    | some err =>
      -- no interface has an address: the port stays 0
      have hsame := hdone.failed (by rw [herr]; simp)
      rw [hsame]
      exact ⟨rfl, hport, hlook, .inl rfl⟩
    | none =>
      have hb' := hchosen rfl herr
      refine ⟨?_, hport, hlook, .inr ⟨hlport, hladdr, ?_, _, b.inp, hb', hladdr, rfl, rfl⟩⟩
      · rw [hb'.1]
      · rw [hsrc]
        exact hif
  · cases hr
    exact ⟨PcbHead.put_put (p := { inp with route := src.1 }) rfl rfl,
      .inr ⟨rfl, _, hothers, rfl, hport, hlook, .inl rfl⟩⟩

end

/-! ## The search for a port -/

def bindProbes : Nat := 3977

/-- How many rounds it takes from the cursor to the port `q`. -/
def portDist (cur q : Nat) : Nat :=
  if cur < ipportReserved ∨ cur = ipportUserreserved then q - 1023
  else if cur < q then q - cur
  else 5000 - cur + (q - 1023)

theorem bindLoop_finds {q : Nat} (hq : ipportReserved ≤ q ∧ q ≤ ipportUserreserved)
    (hfree : inPcblookup l 0 0 laddr q wild = none) {n cur : Nat}
    (hcur : cur ≤ ipportUserreserved) (hn : portDist cur q ≤ n) :
    (bindLoop l laddr wild n cur).isSome := by
  have hlow : ipportReserved = 1024 := rfl
  have hhigh : ipportUserreserved = 5000 := rfl
  induction n generalizing cur with
  | zero =>
    rw [portDist] at hn
    split at hn
    · omega
    split at hn <;> omega
  | succ n ih =>
    rw [bindLoop]
    split
    next hsome =>
      have hne : nextPort cur ≠ q := by
        intro he
        rw [he, hfree] at hsome
        cases hsome
      apply ih (nextPort_range cur).2
      -- one round closer
      rw [portDist] at hn ⊢
      rw [nextPort] at hne ⊢
      split_ifs at hn hne ⊢ <;> omega
    next => rfl

/-- A search that finds all ports taken never ends. -/
theorem bindLoop_none (hall : ∀ q, ipportReserved ≤ q → q ≤ ipportUserreserved →
      (inPcblookup l 0 0 laddr q wild).isSome) (n cur : Nat) :
    bindLoop l laddr wild n cur = none := by
  induction n generalizing cur with
  | zero => rfl
  | succ n ih =>
    rw [bindLoop, if_pos (hall _ (nextPort_range cur).1 (nextPort_range cur).2)]
    exact ih _

theorem portDist_le {cur q : Nat} (hq : q ≤ ipportUserreserved) : portDist cur q ≤ bindProbes := by
  have hlow : ipportReserved = 1024 := rfl
  have hhigh : ipportUserreserved = 5000 := rfl
  rw [portDist, bindProbes]
  split_ifs <;> omega

/-- The port `p` is an ephemeral one that no pcb matches, for the pcb `inp` with the local address
`laddr`. -/
structure PortFree (e : PcbEnv) (h : PcbHead) (inp : Inpcb) (laddr p : Nat) : Prop where
  ge : 1024 ≤ p
  le : p ≤ 5000
  free : inPcblookup (h.put { inp with laddr := laddr }).list 0 0 laddr p (bindWild e inp) = none

section

variable {e : PcbEnv} {h : PcbHead} {inp : Inpcb} {nam : Option SockaddrIn} {n : Nat}

theorem bindCheck_port (hport : ∀ sin, nam = some sin → sin.port = 0) :
    (∃ err, bindCheck e h inp nam = .error err) ∨
      ∃ laddr, bindCheck e h inp nam = .ok (laddr, 0) := by
  rw [bindCheck.eq_def]
  split
  · exact .inl ⟨_, rfl⟩
  split
  · exact .inl ⟨_, rfl⟩
  split
  · exact .inr ⟨_, rfl⟩
  next sin =>
    split
    · exact .inl ⟨_, rfl⟩
    split
    · exact .inl ⟨_, rfl⟩
    rw [if_neg (by simp [hport sin rfl])]
    exact .inr ⟨_, rfl⟩

theorem inPcbbind_search (hc : bindCheck e h inp nam = .ok (laddr, 0)) :
    (inPcbbind e n h inp nam).map (fun r => (r.error, r.inp)) =
      (bindLoop (h.put { inp with laddr := laddr }).list laddr (bindWild e inp) n h.lport).map
        fun p => (none, { inp with laddr := laddr, lport := p }) := by
  have hwild : bindWild e { inp with laddr := laddr } = bindWild e inp := rfl
  have hcur : (h.put { inp with laddr := laddr }).lport = h.lport := rfl
  rw [inPcbbind, hc]
  dsimp only
  rw [if_pos rfl]
  split
  all_goals
    next hl =>
    rw [hwild, hcur] at hl
    rw [hl]
    rfl

end

/-- **The search for an ephemeral port.** Without a port in `nam`, `in_pcbbind` returns if and only
if a check fails or a port from 1024 to 5000 is not matched, after at most one probe for each; the
port it chooses is such a port. -/
theorem ephemeral_port (e : PcbEnv) (h : PcbHead) (inp : Inpcb) (nam : Option SockaddrIn)
    (hport : ∀ sin, nam = some sin → sin.port = 0) :
    ((∃ n, (inPcbbind e n h inp nam).isSome) ↔
      ∀ laddr, bindCheck e h inp nam = .ok (laddr, 0) → ∃ p, PortFree e h inp laddr p) ∧
    (∀ n, (inPcbbind e n h inp nam).isSome → (inPcbbind e bindProbes h inp nam).isSome) ∧
    ∀ n r, inPcbbind e n h inp nam = some r → r.error = none →
      ∃ laddr, bindCheck e h inp nam = .ok (laddr, 0) ∧ PortFree e h inp laddr r.inp.lport := by
  have hcheck : (∃ err, bindCheck e h inp nam = .error err) ∨
      ∃ laddr, bindCheck e h inp nam = .ok (laddr, 0) := bindCheck_port hport
  rcases hcheck with ⟨err, hc⟩ | ⟨laddr, hc⟩
  · have hres (n : Nat) : inPcbbind e n h inp nam = some ⟨h, inp, some err⟩ := by
      rw [inPcbbind, hc]
    refine ⟨iff_of_true ⟨0, by rw [hres]; rfl⟩ ?_, fun _ _ => by rw [hres]; rfl, ?_⟩
    · intro laddr hok
      rw [hc] at hok
      cases hok
    · intro n r hr herr
      rw [hres] at hr
      cases hr
      cases herr
  · have hsearch (n : Nat) := inPcbbind_search (n := n) hc
    have hsome (n : Nat) : (inPcbbind e n h inp nam).isSome =
        (bindLoop (h.put { inp with laddr := laddr }).list laddr (bindWild e inp) n
          h.lport).isSome := by
      have := congrArg Option.isSome (hsearch n)
      simpa using this
    have hfound (n : Nat) (r : PcbRes) (hr : inPcbbind e n h inp nam = some r) :
        PortFree e h inp laddr r.inp.lport := by
      have hs := hsearch n
      rw [hr, Option.map_some] at hs
      obtain ⟨p, hp, heq⟩ := Option.map_eq_some_iff.mp hs.symm
      obtain ⟨-, hinp⟩ := Prod.mk.inj heq
      obtain ⟨hge, hle, hfree⟩ := bindLoop_some hp
      rw [← hinp]
      exact ⟨hge, hle, hfree⟩
    have hprobes (p : Nat) (hp : PortFree e h inp laddr p) :
        (inPcbbind e bindProbes h inp nam).isSome := by
      rw [hsome]
      exact bindLoop_finds ⟨hp.ge, hp.le⟩ hp.free h.lport_le (portDist_le hp.le)
    have hfree (n : Nat) (hn : (inPcbbind e n h inp nam).isSome) :
        ∃ p, PortFree e h inp laddr p := by
      obtain ⟨r, hr⟩ := Option.isSome_iff_exists.mp hn
      exact ⟨_, hfound n r hr⟩
    refine ⟨⟨?_, ?_⟩, ?_, ?_⟩
    · rintro ⟨n, hn⟩ laddr' hok
      rw [hc] at hok
      cases hok
      exact hfree n hn
    · intro hall
      obtain ⟨p, hp⟩ := hall laddr hc
      exact ⟨bindProbes, hprobes p hp⟩
    · intro n hn
      obtain ⟨p, hp⟩ := hfree n hn
      exact hprobes p hp
    · intro n r hr _
      exact ⟨laddr, hc, hfound n r hr⟩

/-- A socket without an address, and one interface. -/
def freshPcb : Inpcb := { id := 0 }

def oneAddr : PcbEnv := { inIfaddr := [{ addr := 0x0a000001 }] }

/-- The first search on a list finds port 1024. -/
theorem ephemeral_port_first :
    (inPcbbind oneAddr bindProbes { list := [freshPcb] } freshPcb none).isSome ∧
      ∃ laddr, PortFree oneAddr { list := [freshPcb] } freshPcb laddr 1024 := by
  have h := ephemeral_port oneAddr { list := [freshPcb] } freshPcb none (by simp)
  have hone : ∃ r, inPcbbind oneAddr 1 { list := [freshPcb] } freshPcb none = some r ∧
      r.error = none ∧ r.inp.lport = 1024 := ⟨_, rfl, rfl, rfl⟩
  obtain ⟨r, hr, herr, hport⟩ := hone
  refine ⟨h.2.1 1 (by rw [hr]; rfl), ?_⟩
  obtain ⟨laddr, -, hfree⟩ := h.2.2 1 r hr herr
  exact ⟨laddr, hport ▸ hfree⟩

def fullHead : PcbHead :=
  { list := freshPcb :: (List.range bindProbes).map fun i => { id := i + 1, lport := 1024 + i }
    nodup := by
      rw [map_cons, List.nodup_cons, List.map_map]
      constructor
      · intro hmem
        obtain ⟨i, -, hi⟩ := mem_map.mp hmem
        exact Nat.succ_ne_zero i hi
      · exact Nodup.map (fun i j hij => Nat.succ_inj.mp hij) nodup_range }

/-- With all ephemeral ports taken, `in_pcbbind` never returns. -/
theorem ephemeral_port_full :
    ¬∃ n, (inPcbbind oneAddr n fullHead freshPcb none).isSome := by
  rintro ⟨n, hret⟩
  have hc : bindCheck oneAddr fullHead freshPcb none = .ok (0, 0) := rfl
  have hnone : bindLoop (fullHead.put { freshPcb with laddr := 0 }).list 0
      (bindWild oneAddr freshPcb) n fullHead.lport = none := by
    apply bindLoop_none
    intro q hlow hhigh
    have h0 : ipportReserved = 1024 := rfl
    have h1 : ipportUserreserved = 5000 := rfl
    rw [← Option.ne_none_iff_isSome, ne_eq, inPcblookup_eq_none]
    intro hall
    have hmem : ({ id := q - 1023, lport := q } : Inpcb) ∈
        (fullHead.put { freshPcb with laddr := 0 }).list := by
      refine mem_map.mpr ⟨{ id := q - 1023, lport := q }, ?_, if_neg ?_⟩
      · refine mem_cons_of_mem _ (mem_map.mpr ⟨q - 1024, ?_, ?_⟩)
        · rw [mem_range, bindProbes]
          omega
        · have hid : q - 1024 + 1 = q - 1023 := by omega
          have hlport : 1024 + (q - 1024) = q := by omega
          rw [hid, hlport]
      · show q - 1023 ≠ 0
        omega
    exact hall _ hmem ⟨0, by simp [pcbWildcard], .inl rfl⟩
  have hsearch := inPcbbind_search (n := n) hc
  rw [hnone, Option.map_none, Option.map_eq_none_iff] at hsearch
  rw [hsearch] at hret
  cases hret

end Anp
