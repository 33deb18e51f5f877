import Anp.Lib.Machine
import Anp.Lib.Runs
import Mathlib.Data.List.Basic

/-!
# Route — routing entries, their holders and the operations on them

`rtalloc1`, `rtfree`, `rtrequest`, `rt_setgate`, `ifa_ifwithroute` of `net/route.c`, `RTFREE` of
`net/route.h`, `route_output` of `net/rtsock.c`, `in_losing`, `in_rtchange` and `in_pcbdetach` of
`netinet/in_pcb.c`, and what `ip_output`, `ip_forward` and `in_pcbconnect` do to a route cache.

Which entry the radix tree gives for an address plays no part in counting references. What the
tree answers is therefore left open (`Rnh`): an entry that is in the tree.

`none` is a panic, or an access to an entry that has been freed.
-/

namespace Anp

open Runs Machine

/-! ## Entries -/

/-- `rt_flags` apart from `RTF_UP`, as far as it is read. -/
structure RtFlags where
  gateway : Bool := false
  host : Bool := false
  dynamic : Bool := false
  cloning : Bool := false
  deriving DecidableEq, Repr

/-- `struct rtentry` over addresses `α`; an entry is named by its number. -/
structure Rtentry (α : Type) where
  rtKey : α
  rtMask : Option α
  rtGateway : α
  rtGenmask : Option α := none
  rtGwroute : Option Nat := none
  rtFlags : RtFlags := {}
  up : Bool := true
  -- a `short`
  rtRefcnt : Int := 0
  deriving DecidableEq, Repr

/-- Every entry ever made, `none` once it is freed, and those in the tree. -/
structure RtTable (α : Type) where
  rts : List (Option (Rtentry α)) := []
  tree : List Nat := []
  deriving DecidableEq, Repr

variable {α : Type}

def RtTable.entry (t : RtTable α) (rt : Nat) : Option (Rtentry α) := t.rts[rt]?.join

def RtTable.put (t : RtTable α) (rt : Nat) (e : Rtentry α) : RtTable α :=
  { t with rts := t.rts.set rt (some e) }

def RtTable.drop (t : RtTable α) (rt : Nat) : RtTable α := { t with rts := t.rts.set rt none }

/-- `rt->f = ..` -/
def RtTable.upd (t : RtTable α) (rt : Nat) (f : Rtentry α → Rtentry α) : Option (RtTable α) :=
  (t.entry rt).map fun e => t.put rt (f e)

/-- `rt->rt_refcnt++` -/
def refIncr (t : RtTable α) (rt : Nat) : Option (RtTable α) :=
  t.upd rt fun e => { e with rtRefcnt := int16 (e.rtRefcnt + 1) }

/-- `rt->rt_refcnt--` -/
def refDecr (t : RtTable α) (rt : Nat) : Option (RtTable α) :=
  t.upd rt fun e => { e with rtRefcnt := int16 (e.rtRefcnt - 1) }

/-- The answers of the radix tree (`rnh_matchaddr` without the root, `rnh_addaddr`, `rnh_deladdr`,
the walk over `rn_dupedkey` in `route_output`) with the entries `tree` in it, `rt_maskedcopy`, and
the comparison of an address with a key. -/
structure Rnh (α : Type) where
  matchaddr : List Nat → α → Option Nat
  addaddr : List Nat → α → Option α → Bool
  deladdr : List Nat → α → Option α → Option Nat
  dupedkey : List Nat → Nat → Option α → Option Nat
  maskedcopy : α → α → α
  sameKey : α → α → Bool
  match_mem : ∀ tree a rt, matchaddr tree a = some rt → rt ∈ tree
  del_mem : ∀ tree a m rt, deladdr tree a m = some rt → rt ∈ tree
  dup_mem : ∀ tree i m rt, dupedkey tree i m = some rt → rt ∈ tree

/-! ## `net/route.c`

`R_Malloc` is answered from a list, from left to right; there is no more memory when the list
is at its end. -/

/-- `rtfree`. A negative count is reported and the entry kept. -/
def rtfree (t : RtTable α) (rt : Nat) : Option (RtTable α) :=
  match t.entry rt with
  | none => none
  | some e =>
    let e := { e with rtRefcnt := int16 (e.rtRefcnt - 1) }
    if e.rtRefcnt ≤ 0 ∧ e.up = false then
      -- `RNF_ACTIVE`: panic
      if rt ∈ t.tree then none
      else if e.rtRefcnt < 0 then some (t.put rt e)
      else some (t.drop rt)
    else some (t.put rt e)

def rtFREE (t : RtTable α) (rt : Nat) : Option (RtTable α) :=
  match t.entry rt with
  | none => none
  | some e => if e.rtRefcnt ≤ 1 then rtfree t rt else refDecr t rt

/-- `rtrequest` from `ndst = rt_key(rt)` on: the new entry `e` goes into the tree, or is freed
with its reference to the gateway's route. -/
def rtEnter (rn : Rnh α) (t : RtTable α) (e : Rtentry α) : Option (RtTable α × Option Nat) :=
  if rn.addaddr t.tree e.rtKey e.rtMask then
    some ({ rts := t.rts ++ [some e], tree := t.rts.length :: t.tree }, some t.rts.length)
  else
    match e.rtGwroute with
    | none => some (t, none)
    | some g => (rtfree t g).map fun t => (t, none)

/-- `ndst`: the key of a new entry. -/
def Rnh.ndst (rn : Rnh α) (dst : α) : Option α → α
  | none => dst
  | some netmask => rn.maskedcopy dst netmask

/-- `rtalloc1(dst, report)`, with `rtrequest(RTM_RESOLVE, ..)` for a route that is to be cloned. The
calls nest through `rt_setgate` of the new entry; each takes two blocks of memory. -/
def rtalloc1 (rn : Rnh α) :
    List Bool → RtTable α → α → Bool → Option (RtTable α × List Bool × Option Nat)
  | mem, t, dst, report =>
    match rn.matchaddr t.tree dst with
    | none => some (t, mem, none)
    | some rt =>
      match t.entry rt with
      | none => none
      | some e =>
        let found (t : RtTable α) (mem : List Bool) := (refIncr t rt).map fun t => (t, mem, some rt)
        if report ∧ e.rtFlags.cloning then
          match mem with
          | [] => found t []
          | false :: mem => found t mem
          | [true] => found t []
          | true :: false :: mem => found t mem
          | true :: true :: mem =>
            (if e.rtFlags.gateway then rtalloc1 rn mem t e.rtGateway true
              else some (t, mem, none)).bind fun (t, mem, gw) =>
            (rtEnter rn t
              { rtKey := rn.ndst dst e.rtGenmask
                rtMask := e.rtGenmask
                rtGateway := e.rtGateway
                rtGwroute := gw
                rtFlags := { e.rtFlags with
                  cloning := false
                  host := e.rtFlags.host || e.rtGenmask.isNone } }).bind fun (t, new) =>
            match new with
            | none => found t mem
            | some n => (refIncr t n).map fun t => (t, mem, some n)
        else found t mem

/-- `ifa_ifwithroute`: whether an interface is found; `direct` if without the table. -/
def ifaIfwithroute (rn : Rnh α) (t : RtTable α) (dst : α) (direct : Bool) :
    Option (RtTable α × Bool) :=
  if direct then some (t, true)
  else
    (rtalloc1 rn [] t dst false).bind fun (t, _, rt) =>
    match rt with
    | none => some (t, false)
    | some rt => (refDecr t rt).map fun t => (t, true)

/-- `rtrequest(RTM_ADD, dst, gateway, netmask, flags, ret_nrt)`; `ret` if `ret_nrt` is not 0. The
new entry, `none` on an error. -/
def rtrequestAdd (rn : Rnh α) (mem : List Bool) (t : RtTable α) (dst gateway : α)
    (netmask : Option α) (flags : RtFlags) (direct ret : Bool) :
    Option (RtTable α × Option Nat) :=
  (ifaIfwithroute rn t dst direct).bind fun (t, ifa) =>
  if ifa then
    match mem with
    | true :: true :: mem =>
      let netmask := if flags.host then none else netmask
      (if flags.gateway then rtalloc1 rn mem t gateway true
        else some (t, mem, none)).bind fun (t, _, gw) =>
      (rtEnter rn t
        { rtKey := rn.ndst dst netmask
          rtMask := netmask
          rtGateway := gateway
          rtGwroute := gw
          rtFlags := flags }).bind fun (t, new) =>
      match new with
      | none => some (t, none)
      | some n => if ret then (refIncr t n).map fun t => (t, some n) else some (t, some n)
    | _ => some (t, none)
  else some (t, none)

/-- `if (rt->rt_gwroute) { RTFREE(rt->rt_gwroute); rt->rt_gwroute = 0; }` -/
def dropGwroute (t : RtTable α) (rt : Nat) : Option (RtTable α) :=
  match t.entry rt with
  | none => none
  | some e =>
    match e.rtGwroute with
    | none => some t
    | some g => (rtFREE t g).bind fun t => t.upd rt fun e => { e with rtGwroute := none }

/-- `rtrequest(RTM_DELETE, dst, .., netmask, flags, ret_nrt)`. With `ret_nrt` the entry is freed
by the caller, `rtinit`, as it is here without. -/
def rtrequestDelete (rn : Rnh α) (t : RtTable α) (dst : α) (netmask : Option α)
    (flags : RtFlags) : Option (RtTable α) :=
  match rn.deladdr t.tree dst (if flags.host then none else netmask) with
  | none => some t
  | some rt =>
    (({ t with tree := t.tree.erase rt }).upd rt fun e => { e with up := false }).bind fun t =>
    (dropGwroute t rt).bind fun t =>
    match t.entry rt with
    | none => none
    | some e => if e.rtRefcnt ≤ 0 then (refIncr t rt).bind fun t => rtfree t rt else some t

/-- `rt_setgate(rt0, rt_key(rt0), gate)` for an entry in the tree; `grow` if the new gateway does
not fit where the old one is. Whether it succeeds. -/
def rtSetgate (rn : Rnh α) (mem : List Bool) (t : RtTable α) (rt : Nat) (gate : α)
    (grow : Bool) : Option (RtTable α × Bool) :=
  match (if grow then mem.head?.getD false else true) with
  | false => some (t, false)
  | true =>
    let mem := if grow then mem.tail else mem
    (t.upd rt fun e => { e with rtGateway := gate }).bind fun t =>
    (dropGwroute t rt).bind fun t =>
    match t.entry rt with
    | none => none
    | some e =>
      if e.rtFlags.gateway then
        (rtalloc1 rn mem t gate true).bind fun (t, _, gw) =>
        (t.upd rt fun e => { e with rtGwroute := gw }).map fun t => (t, true)
      else some (t, true)

/-! ## `net/rtsock.c` -/

inductive RtmType where
  | add
  | delete
  | get
  | change
  | lock
  deriving DecidableEq, Repr

/-- What `route_output` finds in a message. -/
structure RtMsg (α : Type) where
  rtmType : RtmType
  dst : α
  gate : Option α := none
  netmask : Option α := none
  genmask : Option α := none
  rtmFlags : RtFlags := {}
  deriving DecidableEq, Repr

/-- `gate && rt_setgate(rt, rt_key(rt), gate)`: whether that succeeds. -/
def rtmSetgate (rn : Rnh α) (mem : List Bool) (t : RtTable α) (m : RtMsg α) (rt : Nat)
    (grow : Bool) : Option (RtTable α × Bool) :=
  match m.gate with
  | none => some (t, true)
  | some gate => rtSetgate rn mem t rt gate grow

/-- `case RTM_CHANGE:` of the inner switch, for entry `rt`. -/
def rtmChange (rn : Rnh α) (mem : List Bool) (t : RtTable α) (m : RtMsg α) (rt : Nat)
    (grow direct : Bool) : Option (RtTable α) :=
  (rtmSetgate rn mem t m rt grow).bind fun (t, ok) =>
  if ok then
    match t.entry rt with
    | none => none
    | some e =>
      (ifaIfwithroute rn t e.rtKey direct).bind fun (t, _) =>
      match m.genmask with
      | none => some t
      | some genmask => t.upd rt fun e => { e with rtGenmask := some genmask }
  -- `EDQUOT`
  else some t

/-- `RTM_GET`, `RTM_CHANGE` and `RTM_LOCK`, when `rtalloc1` has given `rt`. -/
def rtmFound (rn : Rnh α) (mem : List Bool) (t : RtTable α) (m : RtMsg α) (rt : Nat)
    (grow direct : Bool) : Option (RtTable α) :=
  if m.rtmType = .get then rtfree t rt
  else
    match t.entry rt with
    | none => none
    | some e =>
      if rn.sameKey m.dst e.rtKey then
        match rn.dupedkey t.tree rt m.netmask with
        | none => rtfree t rt
        -- `rt = (struct rtentry *)rn`, and the reference to the first is forgotten
        | some rt =>
          (if m.rtmType = .change then rtmChange rn mem t m rt grow direct
            else some t).bind fun t => rtfree t rt
      else rtfree t rt

/-- `route_output`, from the switch on `rtm_type` on. -/
def routeOutput (rn : Rnh α) (mem : List Bool) (t : RtTable α) (m : RtMsg α)
    (grow direct : Bool) : Option (RtTable α) :=
  match m.rtmType with
  | .add =>
    match m.gate with
    | none => some t
    | some gate =>
      (rtrequestAdd rn mem t m.dst gate m.netmask m.rtmFlags direct true).bind fun (t, new) =>
      match new with
      | none => some t
      | some nrt =>
        (refDecr t nrt).bind fun t => t.upd nrt fun e => { e with rtGenmask := m.genmask }
  | .delete => rtrequestDelete rn t m.dst m.netmask m.rtmFlags
  | .get | .change | .lock =>
    (rtalloc1 rn [] t m.dst false).bind fun (t, _, rt) =>
    match rt with
    | none => some t
    | some rt => rtmFound rn mem t m rt grow direct

/-! ## Route caches and callers -/

/-- `routes` are the route caches, `ipforward_rt` and those of the pcbs (left empty when detached);
`callers` are references between `rtalloc1` and `rtfree`. -/
structure RtSys (α : Type) where
  tbl : RtTable α := {}
  routes : List (Option Nat) := [none]
  callers : List Nat := []
  deriving DecidableEq, Repr

def RtSys.held (s : RtSys α) : List Nat := s.routes.filterMap id ++ s.callers

inductive RtOp (α : Type) where
  | rtalloc1 (dst : α) (report : Bool)
  | rtfree (rt : Nat)
  | rtadd (dst gateway : α) (netmask : Option α) (flags : RtFlags) (direct ret : Bool)
  | rtdelete (dst : α) (netmask : Option α) (flags : RtFlags)
  | rtsetgate (rt : Nat) (gate : α) (grow : Bool)
  | inPcballoc
  -- `rtalloc(ro)` for a cache, and `RTFREE(ro->ro_rt); ro->ro_rt = 0` before it
  | rtalloc (i : Nat) (dst : α)
  | roflush (i : Nat)
  | inLosing (i : Nat)
  | inRtchange (i : Nat)
  | inPcbdetach (i : Nat)
  | routeOutput (m : RtMsg α) (grow direct : Bool)

/-- An operation, with the answers it gets from the radix tree and from `R_Malloc`. -/
structure RtStep (α : Type) where
  rn : Rnh α
  mem : List Bool := []
  op : RtOp α

/-- What callers see to: `rtfree` is for a reference one has, `rt_setgate` for an entry just looked
up, `rtalloc` for an empty cache. -/
def RtSys.Allowed (s : RtSys α) : RtOp α → Prop
  | .rtfree rt => rt ∈ s.callers
  | .rtsetgate rt _ _ => rt ∈ s.callers ∧ rt ∈ s.tbl.tree
  | .rtalloc i _ => s.routes[i]? = some none
  | _ => True

instance RtSys.decidableAllowed (s : RtSys α) (op : RtOp α) : Decidable (s.Allowed op) :=
  match op with
  | .rtfree _ => inferInstanceAs (Decidable (_ ∈ _))
  | .rtsetgate .. => inferInstanceAs (Decidable (_ ∧ _))
  | .rtalloc .. => inferInstanceAs (Decidable (_ = _))
  | .rtalloc1 .. | .rtadd .. | .rtdelete .. | .inPcballoc | .roflush _ | .inLosing _
  | .inRtchange _ | .inPcbdetach _ | .routeOutput .. => .isTrue trivial

/-- Cache `i` is emptied, after `f` has been done with the entry in it. -/
def RtSys.leave (s : RtSys α) (i : Nat) (f : RtTable α → Nat → Option (RtTable α)) :
    Option (RtSys α) :=
  match s.routes[i]? with
  | some (some rt) =>
    (f s.tbl rt).map fun tbl => { s with tbl, routes := s.routes.set i none }
  | _ => some s

/-- `in_losing`: a dynamic route is deleted, but the reference to it is not dropped. -/
def inLosing (rn : Rnh α) (t : RtTable α) (rt : Nat) : Option (RtTable α) :=
  match t.entry rt with
  | none => none
  | some e =>
    if e.rtFlags.dynamic then rtrequestDelete rn t e.rtKey e.rtMask e.rtFlags else rtfree t rt

/-- The operations on route caches and entries. -/
def rtDo (s : RtSys α) (st : RtStep α) : Option (RtSys α) :=
  match st.op with
  | .rtalloc1 dst report =>
    (rtalloc1 st.rn st.mem s.tbl dst report).map fun (tbl, _, rt) =>
      { s with tbl, callers := rt.toList ++ s.callers }
  | .rtfree rt => (rtfree s.tbl rt).map fun tbl => { s with tbl, callers := s.callers.erase rt }
  | .rtadd dst gateway netmask flags direct ret =>
    (rtrequestAdd st.rn st.mem s.tbl dst gateway netmask flags direct ret).map fun (tbl, new) =>
      { s with tbl, callers := (if ret then new.toList else []) ++ s.callers }
  | .rtdelete dst netmask flags =>
    (rtrequestDelete st.rn s.tbl dst netmask flags).map fun tbl => { s with tbl }
  | .rtsetgate rt gate grow =>
    (rtSetgate st.rn st.mem s.tbl rt gate grow).map fun (tbl, _) => { s with tbl }
  | .inPcballoc => some { s with routes := s.routes ++ [none] }
  | .rtalloc i dst =>
    match ((s.routes[i]?.join).bind s.tbl.entry).any (·.up) with
    | true => some s
    | false =>
      (rtalloc1 st.rn st.mem s.tbl dst true).map fun (tbl, _, rt) =>
        { s with tbl, routes := s.routes.set i rt }
  | .roflush i => s.leave i rtFREE
  | .inLosing i => s.leave i (inLosing st.rn)
  | .inRtchange i => s.leave i rtfree
  | .inPcbdetach i => s.leave i rtfree
  | .routeOutput m grow direct =>
    (routeOutput st.rn st.mem s.tbl m grow direct).map fun tbl => { s with tbl }

/-- What is not allowed does not happen. -/
def rtStep (s : RtSys α) (st : RtStep α) : Option (RtSys α) :=
  if s.Allowed st.op then rtDo s st else some s

/-- A panic is the end: nothing changes any more. -/
def rtNext (s : RtSys α) (st : RtStep α) : RtSys α := (rtStep s st).getD s

def RtReach (C : RtSys α → RtStep α → Prop) : RtSys α → Prop := Reach (· = {}) (By rtNext C)

theorem rtReach_foldl {C : RtSys α → RtStep α → Prop} {l : List (RtStep α)}
    (h : MeetsAll rtNext C {} l) : RtReach C (l.foldl rtNext {}) :=
  Reach.foldl (show RtReach C {} from Reach.start rfl) h

end Anp
