import Anp.Kern.AcceptRun

/-!
# Fdtbl — descriptors and the calls that hand them out

`anp_fdalloc`, `anp_fdfind`, `anp_fdfree` of `uspace/anp_fdtbl.c`, `socket`, `accept` and
`socketpair` of `kern/uipc_syscalls.c`, and `anp_socket`, `anp_accept`, `anp_socketpair` and
`anp_close` of `uspace/anp_syscall.c`. The sockets are those of `SoQueue`.

A local variable that is read before it is set has the value found on the stack, which is an argument
here. `none` is a failed assertion, a panic or an access to address zero.
-/

namespace Anp

/-! ## The table -/

def maxfds : Nat := 256

/-- `fdtbl`: the socket of every descriptor in use. -/
structure FdTbl where
  slots : List (Option Nat)
  size : slots.length = maxfds
  deriving DecidableEq

def FdTbl.empty : FdTbl := ⟨List.replicate maxfds none, List.length_replicate⟩

namespace FdTbl

def sock (t : FdTbl) (fd : Nat) : Option Nat := (t.slots[fd]?).join

def put (t : FdTbl) (fd : Nat) (v : Option Nat) : FdTbl :=
  ⟨t.slots.set fd v, by rw [List.length_set]; exact t.size⟩

def Full (t : FdTbl) : Prop := none ∉ t.slots
deriving Decidable

/-- `anp_fdalloc`. -/
def fdalloc (t : FdTbl) (so : Nat) : FdTbl × Int :=
  match t.slots.findIdx? (·.isNone) with
  | some i => (t.put i (some so), i)
  | none => (t, -1)

/-- `anp_fdfind`, with its assertions. -/
def fdfind (t : FdTbl) (fd : Nat) : Option Nat := if fd < maxfds then t.sock fd else none

/-- `anp_fdfree`. -/
def fdfree (t : FdTbl) (fd : Nat) : FdTbl := t.put fd none

end FdTbl

/-! ## Calls in the kernel -/

structure FdSys where
  soq : SoqSys := {}
  tbl : FdTbl := .empty

/-- The error of a call with what it stored at `retval` (or, for `socketpair`, at `rsv`). -/
inductive SysRet where
  | asleep
  | done (error : Int) (retval : List Int)
  deriving DecidableEq, Repr

/-- `socket`; `new` is the result of `socreate`, an error or the new socket. -/
def sysSocket (σ : FdSys) (new : Except Nat Nat) : Option (FdSys × SysRet) :=
  match new with
  | .error e => some (σ, .done e [])
  | .ok so =>
    (soqDo σ.soq (.create so)).map fun q =>
      ({ soq := q, tbl := (σ.tbl.fdalloc so).1 }, .done 0 [(σ.tbl.fdalloc so).2])

def eopnotsupp : Nat := 45

/-- `soconnect2`: every protocol answers `PRU_CONNECT2` so. -/
def soconnect2 : Nat := eopnotsupp

/-- `socketpair`, with what `socreate` returns the first and the second time and what `PRU_DETACH`
does to the two sockets. -/
def sysSocketpair (σ : FdSys) (dgram : Bool) (new₁ new₂ : Except Nat Nat) (det₁ det₂ : Bool) :
    Option (FdSys × SysRet) :=
  match new₁ with
  | .error e => some (σ, .done e [])
  | .ok so₁ =>
    (soqDo σ.soq (.create so₁)).bind fun q =>
      match new₂ with
      | .error e =>
        (soqDo q (.close so₁ false false det₁)).map fun q => ({ σ with soq := q }, .done e [])
      | .ok so₂ =>
        (soqDo q (.create so₂)).bind fun q =>
          let t₁ := σ.tbl.fdalloc so₁
          let t₂ := t₁.1.fdalloc so₂
          -- a datagram socket is connected both ways
          let error := if soconnect2 ≠ 0 then soconnect2 else if dgram then soconnect2 else 0
          if error ≠ 0 then
            (soqDo q (.close so₂ false false det₂)).bind fun q =>
              (soqDo q (.close so₁ false false det₁)).map fun q =>
                ({ soq := q, tbl := t₂.1 }, .done error [])
          else some ({ soq := q, tbl := t₂.1 }, .done 0 [t₁.2, t₂.2])

/-- The arguments of `accept` and what it finds: whether the call has slept before it goes on here,
the value `error` has on the stack, and the result of `tsleep` (0 if it is a wakeup). -/
structure AcceptArgs where
  name : Bool
  anamelen : Bool
  slept : Bool
  stack : Int
  tsleep : Nat := 0
  deriving DecidableEq, Repr

/-- `error`, where no statement on the way has set it. -/
def AcceptArgs.error (a : AcceptArgs) : Int := if a.name || a.slept then 0 else a.stack

def FdSys.withHeap (σ : FdSys) (m : SoHeap) : FdSys := { σ with soq := { σ.soq with heap := m } }

/-- The rest of `accept`, after the queue: the connection gets a descriptor; `copyout` of the name and
of its length succeed. -/
def acceptEnd (σ : FdSys) (a : AcceptArgs) : AcceptRet → FdSys × SysRet
  | .error e => (σ, .done e [])
  | .sleep => (σ, if a.tsleep = 0 then .asleep else .done a.tsleep [])
  | .conn aso =>
    ({ σ with tbl := (σ.tbl.fdalloc aso).1 }, .done a.error [(σ.tbl.fdalloc aso).2])

/-- `accept`. The length is read through `anamelen` before anything else. -/
def sysAccept (σ : FdSys) (fd : Nat) (a : AcceptArgs) : Option (FdSys × SysRet) :=
  if a.name && !a.anamelen then none
  else
    (σ.tbl.fdfind fd).bind fun so =>
      (σ.soq.heap.accept so).map fun r => acceptEnd (σ.withHeap r.1) a r.2

/-! ## Calls of the application -/

/-- What a call returns, `anp_errno`, and the descriptors it gives out. -/
inductive FdRet where
  | asleep
  | ret (r : Int) (anpErrno : Int) (fds : List Int)
  deriving DecidableEq, Repr

/-- `if (anp_errno = anp_sys_...) return -1; return retval`. -/
def SysRet.anp : SysRet → FdRet
  | .asleep => .asleep
  | .done error retval =>
    if error ≠ 0 then .ret (-1) error [] else .ret (retval.headD 0) 0 retval

/-- `anp_close`. Where `soclose` sleeps, the entry stays until it has finished. -/
def anpClose (σ : FdSys) (fd : Nat) (disc linger det : Bool) : Option (FdSys × FdRet) :=
  (σ.tbl.fdfind fd).bind fun so =>
    (soqDo σ.soq (.close so disc linger det)).map fun q =>
      if so ∈ q.closing then ({ σ with soq := q }, .asleep)
      else ({ soq := q, tbl := σ.tbl.fdfree fd }, .ret 0 0 [])

/-- `anp_close` from where it slept. -/
def anpCloseEnd (σ : FdSys) (fd : Nat) (det : Bool) : Option (FdSys × FdRet) :=
  (σ.tbl.fdfind fd).bind fun so =>
    (soqDo σ.soq (.closeEnd so det)).map fun q =>
      ({ soq := q, tbl := σ.tbl.fdfree fd }, .ret 0 0 [])

/-- The calls, and what the protocol does in between. -/
inductive FdCall where
  | socket (new : Except Nat Nat)
  | socketpair (dgram : Bool) (new₁ new₂ : Except Nat Nat) (det₁ det₂ : Bool)
  | accept (fd : Nat) (a : AcceptArgs)
  | close (fd : Nat) (disc linger det : Bool)
  | closeEnd (fd : Nat) (det : Bool)
  | listen (fd : Nat) (backlog : Int)
  | newconn (head : Nat) (connstatus : Bool) (new : Option Nat) (attach : Bool)
  | isconnected (so : Nat)
  | tcpClose (so : Nat)

/-- A result `socreate` can have: an error is not zero, and the memory of a new socket was free. -/
def FdSys.Created (σ : FdSys) : Except Nat Nat → Prop
  | .error e => e ≠ 0
  | .ok so => σ.soq.heap.get so = none

instance (σ : FdSys) : (new : Except Nat Nat) → Decidable (σ.Created new)
  | .error e => inferInstanceAs (Decidable (e ≠ 0))
  | .ok so => inferInstanceAs (Decidable (σ.soq.heap.get so = none))

/-- Who calls with what; a descriptor is closed by one thread at a time. -/
def FdSys.Called (σ : FdSys) : FdCall → Prop
  | .socket new => σ.Created new
  | .socketpair _ new₁ new₂ _ _ =>
    σ.Created new₁ ∧ σ.Created new₂ ∧ (new₁.toOption = none ∨ new₁.toOption ≠ new₂.toOption)
  | .accept _ _ => True
  | .close fd _ _ _ => ∀ so ∈ σ.tbl.fdfind fd, so ∉ σ.soq.closing
  | .closeEnd fd _ => ∀ so ∈ σ.tbl.fdfind fd, so ∈ σ.soq.closing
  | .listen fd _ => ∀ so ∈ σ.tbl.fdfind fd, so ∉ σ.soq.closing
  | .newconn head c new att => σ.soq.Called (.newconn head c new att)
  | .isconnected so => σ.soq.Called (.isconnected so)
  | .tcpClose so => σ.soq.Called (.tcpClose so)

instance (σ : FdSys) : (c : FdCall) → Decidable (σ.Called c)
  | .socket new => inferInstanceAs (Decidable (σ.Created new))
  | .socketpair .. => inferInstanceAs (Decidable (_ ∧ _ ∧ (_ ∨ _)))
  | .accept _ _ => .isTrue trivial
  | .close fd _ _ _ => inferInstanceAs (Decidable (∀ so ∈ σ.tbl.fdfind fd, so ∉ σ.soq.closing))
  | .closeEnd fd _ => inferInstanceAs (Decidable (∀ so ∈ σ.tbl.fdfind fd, so ∈ σ.soq.closing))
  | .listen fd _ => inferInstanceAs (Decidable (∀ so ∈ σ.tbl.fdfind fd, so ∉ σ.soq.closing))
  | .newconn head c new att => inferInstanceAs (Decidable (σ.soq.Called (.newconn head c new att)))
  | .isconnected so => inferInstanceAs (Decidable (σ.soq.Called (.isconnected so)))
  | .tcpClose so => inferInstanceAs (Decidable (σ.soq.Called (.tcpClose so)))

/-- A call as the application sees it. -/
def fdCall (σ : FdSys) : FdCall → Option (FdSys × FdRet)
  | .socket new => (sysSocket σ new).map fun r => (r.1, r.2.anp)
  | .socketpair dgram new₁ new₂ det₁ det₂ =>
    (sysSocketpair σ dgram new₁ new₂ det₁ det₂).map fun r => (r.1, r.2.anp)
  | .accept fd a => (sysAccept σ fd a).map fun r => (r.1, r.2.anp)
  | .close fd disc linger det => anpClose σ fd disc linger det
  | .closeEnd fd det => anpCloseEnd σ fd det
  | .listen fd backlog =>
    (σ.tbl.fdfind fd).bind fun so =>
      (soqDo σ.soq (.listen so backlog)).map fun q => ({ σ with soq := q }, .ret 0 0 [])
  | .newconn head c new att =>
    (soqDo σ.soq (.newconn head c new att)).map fun q => ({ σ with soq := q }, .asleep)
  | .isconnected so => (soqDo σ.soq (.isconnected so)).map fun q => ({ σ with soq := q }, .asleep)
  | .tcpClose so => (soqDo σ.soq (.tcpClose so)).map fun q => ({ σ with soq := q }, .asleep)

end Anp
