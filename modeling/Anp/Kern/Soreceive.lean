import Anp.Kern.SbLock
import Anp.Kern.Sockbuf
import Mathlib.Data.List.Forall2

/-!
# Soreceive — reading from a socket

`soreceive` of `kern/uipc_socket.c` and `sbappendaddr`, `sbdroprecord` of
`kern/uipc_socket2.c`, for one reader. The reader runs until it sleeps in `sbwait`, comes to
`goto restart` or returns; in between chains are appended and the state of the socket changes.

`flags` is none, `MSG_WAITALL` or `MSG_DONTWAIT`, data goes out with `uiomove` (`mp0` is 0), and
there is no urgent mark (`so_oobmark` is 0).
-/

namespace Anp

open Machine Runs List

variable {next : List (List Mbuf)} {c d rec : List Mbuf}

/-! ## Records with an address -/

/-- `sbappendaddr`: the buffer and the value returned; `mget` says whether an mbuf can be had. -/
def sbappendaddr (sb : Sockbuf) (asa : List Byte) (m0 control : List Mbuf) (mget : Bool) :
    Sockbuf × Bool :=
  let space : Int := asa.length + ((m0.head?.bind (·.mPkthdr)).getD 0) + chainLen control
  if sbspace sb < space ∨ mlen < asa.length ∨ mget = false then (sb, false)
  else
    let m := { mType := .soname, mData := asa } :: (control ++ m0)
    ({ m.foldl sballoc sb with sbMb := sb.sbMb ++ [m] }, true)

theorem sbappendaddr_spec (sb : Sockbuf) (asa : List Byte) (m0 control : List Mbuf) (mget : Bool) :
    (sbappendaddr sb asa m0 control mget).1.sbMb =
      if (sbappendaddr sb asa m0 control mget).2 then
        sb.sbMb ++ [{ mType := .soname, mData := asa } :: (control ++ m0)]
      else sb.sbMb := by
  rw [sbappendaddr]
  split <;> rfl

def sbdroprecord (sb : Sockbuf) : Sockbuf :=
  match sb.sbMb with
  | [] => sb
  | m :: next => { m.foldl sbfree sb with sbMb := next }

/-! ## `soreceive` -/

/-- `pr_flags`. -/
structure SoProto where
  prAtomic : Bool
  prAddr : Bool
  prConnrequired : Bool := false
  deriving DecidableEq, Repr

/-- The arguments and the variables of a call. `want` is `uio_resid` at the call, `hit` says
whether a record has been found. -/
structure Rcv where
  want : Nat := 0
  resid : Nat := 0
  origResid : Nat := 0
  waitall : Bool := false
  dontwait : Bool := false
  paddr : Bool := false
  controlp : Bool := false
  eor : Bool := false
  trunc : Bool := false
  oob : Bool := false
  addr : Option (List Byte) := none
  control : List Mbuf := []
  out : List Byte := []
  hit : Bool := false
  deriving DecidableEq, Repr

/-- What a call returns, in `out` the bytes moved; `left` says whether records were left in the
buffer then. -/
structure RcvRet where
  error : Nat
  rcv : Rcv
  left : Bool
  deriving DecidableEq, Repr

inductive RcvPc where
  | idle
  -- at the label `restart`
  | restart
  -- in the `sbwait` before `goto restart`
  | wait
  -- in the `sbwait` of `MSG_WAITALL`
  | waitall
  deriving DecidableEq, Repr

/-- A socket and its reader; `sent` are the bytes given to `sbappend`, `recs` the records made by
`sbappendaddr`, `rets` the calls that have returned. -/
structure RcvSys where
  pr : SoProto
  soError : Nat := 0
  cantrcvmore : Bool := false
  nbio : Bool := false
  connected : Bool := true
  sb : Sockbuf := {}
  pc : RcvPc := .idle
  rcv : Rcv := {}
  sent : List Byte := []
  recs : List (List Mbuf) := []
  rets : List RcvRet := []
  deriving DecidableEq, Repr

variable {s : RcvSys}

/-- The bytes returned so far: by the calls that were successful, and by the one that is going
on. -/
def RcvSys.done (s : RcvSys) : List Byte := (s.rets.filter (·.error = 0)).flatMap (·.rcv.out)

def RcvSys.read (s : RcvSys) : List Byte := s.done ++ if s.pc = .idle then [] else s.rcv.out

def soReturn (s : RcvSys) (error : Nat) : RcvSys :=
  { s with pc := .idle, rets := s.rets ++ [⟨error, s.rcv, s.sb.sbMb ≠ []⟩] }

/-- What the loop over the data leaves. -/
structure Moved where
  sb : Sockbuf
  chain : List Mbuf
  resid : Nat
  eor : Bool
  out : List Byte

/-- The loop `while (m && uio->uio_resid > 0 && error == 0)`, up to the end of the record. -/
def soMove (oob : Bool) : Sockbuf → List Mbuf → Nat → Bool → Moved
  | sb, [], resid, eor => ⟨sb, [], resid, eor, []⟩
  | sb, m :: ms, resid, eor =>
    if resid = 0 ∨ decide (m.mType = .oobdata) ≠ oob then ⟨sb, m :: ms, resid, eor, []⟩
    else if m.mLen ≤ resid then
      if eor || m.mEor then ⟨sbfree sb m, ms, resid - m.mLen, true, m.mData⟩
      else
        let r := soMove oob (sbfree sb m) ms (resid - m.mLen) false
        { r with out := m.mData ++ r.out }
    else
      ⟨{ sb with sbCc := sb.sbCc - resid },
        { m with mData := m.mData.drop resid, mOff := m.mOff + resid } :: ms, 0, eor,
        m.mData.take resid⟩

/-- The buffer behind the data: `chain` is what is left of the record, `next` the records behind it;
an atomic socket's record goes. -/
def soSettle (s : RcvSys) (chain : List Mbuf) (next : List (List Mbuf)) : RcvSys :=
  let sb := { s.sb with sbMb := if chain = [] then next else chain :: next }
  if chain ≠ [] ∧ s.pr.prAtomic then
    { s with rcv := { s.rcv with trunc := true }, sb := sbdroprecord sb }
  else { s with sb }

/-- From `if (m && pr->pr_flags & PR_ATOMIC)` on. -/
def soFinish (s : RcvSys) (chain : List Mbuf) (next : List (List Mbuf)) : RcvSys :=
  if s.rcv.origResid = s.rcv.resid ∧ s.rcv.origResid ≠ 0 ∧ s.rcv.eor = false ∧
      s.cantrcvmore = false then { soSettle s chain next with pc := .restart }
  else soReturn (soSettle s chain next) 0

/-- The loop `while (flags & MSG_WAITALL && m == 0 ...)` with nothing in the buffer. -/
def soWaitall (s : RcvSys) : RcvSys :=
  if s.soError ≠ 0 ∨ s.cantrcvmore then soFinish s [] []
  else { s with pc := .waitall, sb := { s.sb with sbMb := [] } }

def soData (s : RcvSys) (chain : List Mbuf) (next : List (List Mbuf)) : RcvSys :=
  let r := soMove s.rcv.oob s.sb chain s.rcv.resid s.rcv.eor
  let s : RcvSys := { s with
    sb := r.sb
    rcv := { s.rcv with resid := r.resid, eor := r.eor, out := s.rcv.out ++ r.out } }
  if chain ≠ [] ∧ r.chain = [] ∧ r.eor = false ∧ s.rcv.waitall ∧ 0 < r.resid ∧
      s.pr.prAtomic = false ∧ next = [] then soWaitall s
  else soFinish s r.chain next

/-- The control mbufs at the head of a chain. -/
def soControl (s : RcvSys) : List Mbuf → RcvSys × List Mbuf
  | [] => (s, [])
  | m :: ms =>
    if m.mType = .control then
      soControl { s with
        sb := sbfree s.sb m
        rcv := if s.rcv.controlp then
            { s.rcv with control := s.rcv.control ++ [m], origResid := 0 }
          else s.rcv } ms
    else (s, m :: ms)

/-- The address at the head of a record. -/
def soAddr (s : RcvSys) : List Mbuf → RcvSys × List Mbuf
  | [] => (s, [])
  | m :: ms =>
    if s.pr.prAddr then
      ({ s with
        sb := sbfree s.sb m
        rcv := { s.rcv with
          origResid := 0, addr := if s.rcv.paddr then some m.mData else s.rcv.addr } }, ms)
    else (s, m :: ms)

/-- From the label `dontblock` on. -/
def soDontblock (s : RcvSys) (rec : List Mbuf) (next : List (List Mbuf)) : RcvSys :=
  let r := soAddr { s with rcv := { s.rcv with hit := true } } rec
  let r := soControl r.1 r.2
  soData { r.1 with rcv := { r.1.rcv with oob := r.2.head?.any (·.mType = .oobdata) } } r.2 next

/-- Less data than requested, and the call may wait for more. -/
def soShort (s : RcvSys) (next : List (List Mbuf)) : Prop :=
  (s.rcv.dontwait = false ∧ s.sb.sbCc < s.rcv.resid) ∧
    ((s.sb.sbCc : Int) < u32 s.sb.sbLowat ∨ (s.rcv.waitall ∧ s.rcv.resid ≤ s.sb.sbHiwat)) ∧
    next = [] ∧ s.pr.prAtomic = false
deriving Decidable

def enotconn : Nat := 57

/-- Nothing to return yet: an error, or a sleep. -/
def soBlock (s : RcvSys) : RcvSys :=
  if s.connected = false ∧ s.pr.prConnrequired then soReturn s enotconn
  else if s.rcv.resid = 0 then soReturn s 0
  else if s.nbio ∨ s.rcv.dontwait then soReturn s ewouldblock
  else { s with pc := .wait }

/-- From the label `restart` on. -/
def soPass (s : RcvSys) : RcvSys :=
  match s.sb.sbMb with
  | [] =>
    if s.soError ≠ 0 then { soReturn s s.soError with soError := 0 }
    else if s.cantrcvmore then soReturn s 0
    else soBlock s
  | rec :: next =>
    if soShort s next ∧ s.soError = 0 ∧ s.cantrcvmore = false ∧
        rec.any (fun m => m.mType = .oobdata ∨ m.mEor) = false then soBlock s
    else soDontblock s rec next

/-- The mbuf chains callers pass: control and data, of their types. -/
def DataChain (m : List Mbuf) : Prop := ∀ b ∈ m, b.mType = .data ∨ b.mType = .header
deriving Decidable

def ControlChain (m : List Mbuf) : Prop := ∀ b ∈ m, b.mType = .control
deriving Decidable

inductive RcvOp where
  -- `sbappend`
  | append (m : List Mbuf)
  -- `sbappendaddr`
  | appendaddr (asa : List Byte) (m0 control : List Mbuf) (mget : Bool)
  -- `soreceive` is called
  | call (want : Nat) (waitall dontwait paddr controlp : Bool)
  -- the reader goes on from `restart`
  | go
  -- `sbwait` returns
  | wake (error : Nat)
  -- the protocol changes the state of the socket
  | socket (soError : Nat) (cantrcvmore nbio connected : Bool)
  deriving DecidableEq, Repr

/-- A stream gets data, a socket with addresses gets records. -/
def RcvSys.Allowed (s : RcvSys) : RcvOp → Prop
  | .append m => s.pr.prAtomic = false ∧ s.pr.prAddr = false ∧ DataChain m
  | .appendaddr _ m0 control _ =>
    s.pr.prAtomic = true ∧ s.pr.prAddr = true ∧ DataChain m0 ∧ ControlChain control ∧
      (m0 = [] ∨ (m0.head?.bind (·.mPkthdr)).isSome)
  | _ => True

instance RcvSys.decidableAllowed (s : RcvSys) (op : RcvOp) : Decidable (s.Allowed op) :=
  match op with
  | .append _ => inferInstanceAs (Decidable (_ ∧ _ ∧ _))
  | .appendaddr .. => inferInstanceAs (Decidable (_ ∧ _ ∧ _ ∧ _ ∧ _))
  | .call .. | .go | .wake _ | .socket .. => .isTrue trivial

def rcvDo (s : RcvSys) : RcvOp → RcvSys
  | .append m => { s with sb := sbappend s.sb m, sent := s.sent ++ chainBytes m }
  | .appendaddr asa m0 control mget =>
    let r := sbappendaddr s.sb asa m0 control mget
    { s with
      sb := r.1
      recs := if r.2 then s.recs ++ [{ mType := .soname, mData := asa } :: (control ++ m0)]
        else s.recs }
  | .call want waitall dontwait paddr controlp =>
    if s.pc = .idle then
      soPass { s with rcv := { want, resid := want, origResid := want, waitall, dontwait, paddr,
                               controlp } }
    else s
  | .go => if s.pc = .restart then soPass s else s
  | .wake error =>
    match s.pc with
    | .wait => if error ≠ 0 then soReturn s error else soPass s
    | .waitall =>
      if error ≠ 0 then soReturn s 0
      else
        match s.sb.sbMb with
        | [] => soWaitall s
        | rec :: next => soData s rec next
    | _ => s
  | .socket soError cantrcvmore nbio connected =>
    { s with soError, cantrcvmore, nbio, connected }

/-- The reader goes on, a chain comes in, or the state of the socket changes. -/
def rcvStep (s : RcvSys) (op : RcvOp) : RcvSys := if s.Allowed op then rcvDo s op else s

/-! ## Runs -/

/-- A mark `M_EOR` on a data mbuf comes behind all the data that is asked for. -/
def eorOk : List Mbuf → Nat → Bool
  | [], _ => true
  | m :: ms, n => if m.mEor then decide (n ≤ m.mLen ∨ chainLen ms = 0) else eorOk ms (n - m.mLen)

def recData (rec : List Mbuf) : List Mbuf := rec.tail.dropWhile (·.mType = .control)

/-- The step runs from the label `restart`, with so many bytes to read. -/
def passResid (s : RcvSys) : RcvOp → Option Nat
  | .call want .. => if s.pc = .idle then some want else none
  | .go => if s.pc = .restart then some s.rcv.resid else none
  | .wake error => if s.pc = .wait ∧ error = 0 then some s.rcv.resid else none
  | _ => none

/-- On a socket with addresses, a reader that goes for the first record finds no mark `M_EOR`
before the end of what it is to get. -/
def EorCond (s : RcvSys) (op : RcvOp) : Prop :=
  s.pr.prAddr = true → ∀ n ∈ passResid s op, ∀ rec ∈ s.sb.sbMb.head?, eorOk (recData rec) n = true
deriving Decidable

def RcvReach (pr : SoProto) (C : RcvSys → RcvOp → Prop) : RcvSys → Prop :=
  Reach (fun s => ∃ hiwat mbmax lowat,
    s = { pr, sb := { sbHiwat := hiwat, sbMbmax := mbmax, sbLowat := lowat } }) (By rcvStep C)

/-! ### A stream -/

/-- In a call: all the bytes appended are with the reader or in `chain` and `next`. -/
structure Streams (s : RcvSys) (chain : List Mbuf) (next : List (List Mbuf)) : Prop where
  atomic : s.pr.prAtomic = false
  addr : s.pr.prAddr = false
  bytes : s.done ++ (s.rcv.out ++ (chainBytes chain ++ next.flatMap chainBytes)) = s.sent
  chain : DataChain chain
  next : ∀ rec ∈ next, DataChain rec
  len : s.rcv.out.length + s.rcv.resid = s.rcv.want
  orig : s.rcv.origResid = s.rcv.want

/-- Between two steps. A call that is to start again has read nothing. -/
structure StreamInv (s : RcvSys) : Prop where
  atomic : s.pr.prAtomic = false
  addr : s.pr.prAddr = false
  bytes : s.read ++ sbBytes s.sb = s.sent
  recs : ∀ rec ∈ s.sb.sbMb, DataChain rec
  call : s.pc ≠ .idle → s.rcv.out.length + s.rcv.resid = s.rcv.want ∧ s.rcv.origResid = s.rcv.want
  fresh : s.pc = .restart ∨ s.pc = .wait → s.rcv.out = []

theorem soMove_spec (oob : Bool) (sb : Sockbuf) {ms : List Mbuf} (resid : Nat) (eor : Bool)
    (h : DataChain ms) {r : Moved} (hr : soMove oob sb ms resid eor = r) :
    r.out ++ chainBytes r.chain = chainBytes ms ∧ r.out.length + r.resid = resid ∧
      DataChain r.chain := by
  induction ms generalizing sb resid eor r with
  | nil =>
    subst hr
    exact ⟨rfl, Nat.zero_add _, h⟩
  | cons m ms ih =>
    obtain ⟨hm, hms⟩ := forall_mem_cons.mp h
    have hlen : m.mData.length = m.mLen := rfl
    rw [soMove] at hr
    split_ifs at hr <;> subst hr
    · exact ⟨rfl, Nat.zero_add _, h⟩
    · exact ⟨rfl, by dsimp only; omega, hms⟩
    · obtain ⟨hbytes, hresid, hdata⟩ := ih (sbfree sb m) (resid - m.mLen) false hms rfl
      refine ⟨?_, ?_, hdata⟩
      · rw [append_assoc, hbytes, chainBytes_cons]
      · rw [length_append]
        dsimp only
        omega
    · refine ⟨?_, ?_, forall_mem_cons.mpr ⟨hm, hms⟩⟩
      · rw [chainBytes_cons, chainBytes_cons, ← append_assoc, take_append_drop]
      · rw [length_take]
        dsimp only
        omega

theorem Streams.return {n : Nat} (h : Streams s [] s.sb.sbMb) (he : n = 0 ∨ s.rcv.out = []) :
    StreamInv (soReturn s n) := by
  refine ⟨h.atomic, h.addr, ?_, h.next, absurd rfl, fun hpc => ?_⟩
  · have hdone : (soReturn s n).done = s.done ++ s.rcv.out := by
      rw [RcvSys.done, RcvSys.done, soReturn]
      rcases he with he | he
      · simp [he]
      · by_cases h0 : n = 0 <;> simp [h0, he]
    show (soReturn s n).done ++ [] ++ sbBytes s.sb = s.sent
    rw [hdone, ← h.bytes]
    simp [sbBytes]
  · rcases hpc with hpc | hpc <;> cases hpc

theorem Streams.stop {pc : RcvPc} (h : Streams s [] s.sb.sbMb) (hpc : pc ≠ .idle)
    (hout : pc = .restart ∨ pc = .wait → s.rcv.out = []) : StreamInv { s with pc } := by
  refine ⟨h.atomic, h.addr, ?_, h.next, fun _ => ⟨h.len, h.orig⟩, hout⟩
  rw [← h.bytes, RcvSys.read, if_neg hpc]
  simp [RcvSys.done, sbBytes]

theorem Streams.finish {chain : List Mbuf} (h : Streams s chain next) :
    StreamInv (soFinish s chain next) := by
  obtain ⟨sb, heq, hsb⟩ : ∃ sb, soSettle s chain next = { s with sb } ∧
      sb.sbMb = if chain = [] then next else chain :: next :=
    ⟨_, by rw [soSettle, if_neg (by simp [h.atomic])], rfl⟩
  have hsettle : Streams { s with sb } [] sb.sbMb := by
    refine { h with bytes := ?_, chain := forall_mem_nil _, next := ?_ }
    · rw [← h.bytes, hsb]
      split
      · next hnil => rw [hnil]; rfl
      · rfl
    · rw [hsb]
      split
      · exact h.next
      · exact forall_mem_cons.mpr ⟨h.chain, h.next⟩
  rw [soFinish, heq]
  split
  · next hagain =>
    -- what is left to read is all that was asked for
    have hout : s.rcv.out = [] := by
      have hlen := h.len
      have horig := h.orig
      exact length_eq_zero_iff.mp (by omega)
    exact hsettle.stop nofun fun _ => hout
  · exact hsettle.return (.inl rfl)

theorem Streams.waitall (h : Streams s [] []) : StreamInv (soWaitall s) := by
  rw [soWaitall]
  split
  · exact h.finish
  · have hempty : Streams { s with sb := { s.sb with sbMb := [] } } [] [] := { h with }
    exact hempty.stop nofun (by rintro (hpc | hpc) <;> cases hpc)

theorem Streams.data {chain : List Mbuf} (h : Streams s chain next) :
    StreamInv (soData s chain next) := by
  obtain ⟨hbytes, hlen, hdata⟩ := soMove_spec s.rcv.oob s.sb s.rcv.resid s.rcv.eor h.chain rfl
  rw [soData]
  generalize soMove s.rcv.oob s.sb chain s.rcv.resid s.rcv.eor = r at hbytes hlen hdata
  have hmoved : Streams { s with
      sb := r.sb
      rcv := { s.rcv with resid := r.resid, eor := r.eor, out := s.rcv.out ++ r.out } }
      r.chain next := by
    refine { h with bytes := ?_, chain := hdata, len := ?_ }
    · rw [← h.bytes, ← hbytes]
      simp only [RcvSys.done, append_assoc]
    · have := h.len
      rw [length_append]
      dsimp only
      omega
  split
  · next hwait =>
    rw [hwait.2.1, hwait.2.2.2.2.2.2] at hmoved
    exact hmoved.waitall
  · exact hmoved.finish

theorem soControl_data (s : RcvSys) (hd : DataChain d) : soControl s d = (s, d) := by
  cases d with
  | nil => rfl
  | cons m ms =>
    rw [soControl, if_neg]
    rcases hd m mem_cons_self with hm | hm <;> simp [hm]

theorem Streams.dontblock (h : Streams s rec next) : StreamInv (soDontblock s rec next) := by
  have haddr (s : RcvSys) (hs : s.pr.prAddr = false) : soAddr s rec = (s, rec) := by
    cases rec with
    | nil => rfl
    | cons m ms => rw [soAddr, if_neg (by rw [hs]; exact Bool.false_ne_true)]
  have hhead := haddr { s with rcv := { s.rcv with hit := true } } h.addr
  rw [soDontblock, hhead, soControl_data _ h.chain]
  exact Streams.data { h with }

theorem Streams.block (h : Streams s [] s.sb.sbMb) (hout : s.rcv.out = []) :
    StreamInv (soBlock s) := by
  rw [soBlock]
  split_ifs
  iterate 3 exact h.return (.inr hout)
  exact h.stop nofun fun _ => hout

theorem Streams.uncons (h : Streams s [] s.sb.sbMb) (hmb : s.sb.sbMb = rec :: next) :
    Streams s rec next := by
  have hb := h.bytes
  have hn := h.next
  rw [hmb] at hb hn
  obtain ⟨h1, h2⟩ := forall_mem_cons.mp hn
  exact { h with bytes := hb, chain := h1, next := h2 }

theorem Streams.pass (h : Streams s [] s.sb.sbMb) (hout : s.rcv.out = []) :
    StreamInv (soPass s) := by
  rw [soPass]
  split
  · split_ifs
    · have hret := h.return (n := s.soError) (.inr hout)
      exact { hret with }
    · exact h.return (.inr hout)
    · exact h.block hout
  · next rec next hmb =>
    split
    · exact h.block hout
    · exact (h.uncons hmb).dontblock

theorem StreamInv.call_streams (h : StreamInv s) (hpc : s.pc ≠ .idle) :
    Streams s [] s.sb.sbMb := by
  obtain ⟨hlen, horig⟩ := h.call hpc
  refine ⟨h.atomic, h.addr, ?_, forall_mem_nil _, h.recs, hlen, horig⟩
  rw [← h.bytes, RcvSys.read, if_neg hpc]
  simp [sbBytes]

theorem StreamInv.step (h : StreamInv s) (op : RcvOp) : StreamInv (rcvStep s op) := by
  rw [rcvStep]
  split
  · next ha =>
    cases op with
    | append m =>
      obtain ⟨hbytes, -⟩ := sbappend_spec s.sb m
      refine ⟨h.atomic, h.addr, ?_,
        sbappend_types (fun t => t = .data ∨ t = .header) s.sb m h.recs ha.2.2, h.call, h.fresh⟩
      show s.read ++ sbBytes (sbappend s.sb m) = s.sent ++ chainBytes m
      rw [hbytes, ← h.bytes, append_assoc]
    | appendaddr asa m0 control mget =>
      rw [RcvSys.Allowed, h.atomic] at ha
      exact absurd ha.1 Bool.false_ne_true
    | call want waitall dontwait paddr controlp =>
      rw [rcvDo]
      split
      · next hidle =>
        refine Streams.pass ⟨h.atomic, h.addr, ?_, forall_mem_nil _, h.recs,
          Nat.zero_add _, rfl⟩ rfl
        rw [← h.bytes, RcvSys.read, if_pos hidle, append_nil]
        rfl
      · exact h
    | go =>
      rw [rcvDo]
      split
      · next hre =>
        exact (h.call_streams (by simp [hre])).pass (h.fresh (.inl hre))
      · exact h
    | wake error =>
      rw [rcvDo]
      split
      · next hw =>
        have hs := h.call_streams (by simp [hw])
        split
        · exact hs.return (.inr (h.fresh (.inr hw)))
        · exact hs.pass (h.fresh (.inr hw))
      · next hw =>
        have hs := h.call_streams (by simp [hw])
        split
        · exact hs.return (.inl rfl)
        · split
          · next hmb =>
            rw [hmb] at hs
            exact hs.waitall
          · next rec next hmb => exact (hs.uncons hmb).data
      · exact h
    | socket soError cantrcvmore nbio connected => exact { h with }
  · exact h

/-! ### Records with an address -/

structure AddrRec (rec : List Mbuf) (a : Mbuf) (c d : List Mbuf) : Prop where
  eq : rec = a :: (c ++ d)
  control : ControlChain c
  data : DataChain d

def Delivered (rec : List Mbuf) (r : RcvRet) : Prop :=
  ∃ a c d, AddrRec rec a c d ∧ r.error = 0 ∧ (r.rcv.paddr = true → r.rcv.addr = some a.mData) ∧
    r.rcv.out = (chainBytes d).take r.rcv.want ∧ (r.rcv.want < chainLen d → r.rcv.trunc = true)

/-- Records are in the buffer as they were appended, and one has been taken for each call that
found one. -/
structure DgramInv (s : RcvSys) : Prop where
  atomic : s.pr.prAtomic = true
  addr : s.pr.prAddr = true
  recs : ∀ rec ∈ s.sb.sbMb, ∃ a c d, AddrRec rec a c d
  taken : ∃ gone, s.recs = gone ++ s.sb.sbMb ∧ Forall₂ Delivered gone (s.rets.filter (·.rcv.hit))
  missed : ∀ r ∈ s.rets, r.rcv.hit = false → r.error = 0 → r.left = false ∧ r.rcv.out = []

structure Begun (r : Rcv) : Prop where
  resid : r.resid = r.want
  out : r.out = []
  eor : r.eor = false
  hit : r.hit = false

/-- Between two steps a call is not in the middle of a record. -/
structure DgramPc (s : RcvSys) : Prop where
  pc : s.pc ≠ .waitall
  begun : s.pc ≠ .idle → Begun s.rcv

theorem recData_of_addrRec {a : Mbuf} (h : AddrRec rec a c d) :
    recData rec = d := by
  have hd : d.dropWhile (·.mType = .control) = d := by
    cases d with
    | nil => rfl
    | cons m ms =>
      rcases h.data m mem_cons_self with hm | hm <;> simp [hm]
  rw [recData, h.eq, tail_cons, dropWhile_append_of_pos, hd]
  intro m hm
  simpa using h.control m hm

theorem soControl_control (s : RcvSys) (hc : ControlChain c) (hd : DataChain d) :
    ∃ sb rcv, soControl s (c ++ d) = ({ s with sb, rcv }, d) ∧
      (s.rcv.origResid = 0 → rcv.origResid = 0) ∧
      rcv = { s.rcv with control := rcv.control, origResid := rcv.origResid } := by
  induction c generalizing s with
  | nil =>
    exact ⟨s.sb, s.rcv, soControl_data s hd, id, rfl⟩
  | cons m ms ih =>
    obtain ⟨hm, hms⟩ := forall_mem_cons.mp hc
    rw [cons_append, soControl, if_pos hm]
    obtain ⟨sb, rcv, heq, horig, hrcv⟩ := ih _ hms
    refine ⟨sb, rcv, heq, ?_, ?_⟩
    · intro h0
      refine horig ?_
      split
      · rfl
      · exact h0
    · rw [hrcv]
      split <;> rfl

/-- Of a data chain the reader gets what it asked for, and if it asked for less than there is,
something stays. -/
theorem soMove_take (sb : Sockbuf) (n : Nat) (hd : DataChain d) (hok : eorOk d n = true) :
    (soMove false sb d n false).out = (chainBytes d).take n ∧
      (n < chainLen d → (soMove false sb d n false).chain ≠ []) := by
  induction d generalizing sb n with
  | nil => exact ⟨take_nil.symm, fun h => absurd h (Nat.not_lt_zero _)⟩
  | cons m ms ih =>
    obtain ⟨hm, hms⟩ := forall_mem_cons.mp hd
    have htype : decide (m.mType = .oobdata) = false := by
      rcases hm with hm | hm <;> simp [hm]
    have hlen : m.mData.length = m.mLen := rfl
    rw [soMove, htype, chainLen_cons, chainBytes_cons, take_append]
    by_cases h0 : n = 0
    · rw [if_pos (.inl h0), h0]
      simp
    · rw [if_neg (by simp [h0])]
      split
      · next hle =>
        rw [take_of_length_le (by omega), hlen]
        rw [eorOk] at hok
        by_cases heor : m.mEor = true
        · -- the mark: nothing is missing behind it
          rw [if_pos heor, decide_eq_true_eq] at hok
          rw [heor, Bool.false_or, if_pos rfl]
          have hrest : (chainBytes ms).take (n - m.mLen) = [] := by
            rcases hok with hok | hok
            · rw [Nat.sub_eq_zero_of_le hok, take_zero]
            · rw [length_eq_zero_iff.mp hok, take_nil]
          refine ⟨by rw [hrest, append_nil], fun hlt hnil => ?_⟩
          dsimp only at hnil
          rw [hnil] at hlt
          exact absurd hlt (Nat.not_lt.mpr hle)
        · rw [if_neg heor] at hok
          rw [Bool.false_or, if_neg heor]
          obtain ⟨hout, hstay⟩ := ih (sbfree sb m) (n - m.mLen) hms hok
          exact ⟨congrArg (m.mData ++ ·) hout, fun hlt => hstay (by omega)⟩
      · have hn : n - m.mData.length = 0 := by omega
        rw [hn, take_zero, append_nil]
        exact ⟨rfl, fun _ => cons_ne_nil _ _⟩

theorem soFinish_atomic (hatomic : s.pr.prAtomic = true) (horig : s.rcv.origResid = 0)
    (chain : List Mbuf) (next : List (List Mbuf)) :
    ∃ sb trunc, soFinish s chain next = soReturn { s with sb, rcv := { s.rcv with trunc } } 0 ∧
      sb.sbMb = next ∧ (chain ≠ [] → trunc = true) := by
  rw [soFinish, if_neg (by simp [horig])]
  by_cases hnil : chain = []
  · refine ⟨{ s.sb with sbMb := next }, s.rcv.trunc, ?_, rfl, absurd hnil⟩
    rw [soSettle, if_neg (by simp [hnil]), if_pos hnil]
  · refine ⟨sbdroprecord { s.sb with sbMb := chain :: next }, true, ?_, rfl, fun _ => rfl⟩
    rw [soSettle, if_pos ⟨hnil, hatomic⟩, if_neg hnil]

/-- **A record.** The call returns the address and the data, and the record is gone. -/
theorem soDontblock_delivers (hatomic : s.pr.prAtomic = true) (haddr : s.pr.prAddr = true)
    (hb : Begun s.rcv) {a : Mbuf} (hrec : AddrRec rec a c d) (hok : eorOk d s.rcv.want = true)
    (next : List (List Mbuf)) :
    ∃ sb rcv, soDontblock s rec next = soReturn { s with sb, rcv } 0 ∧
      sb.sbMb = next ∧ rcv.hit = true ∧ ∀ left, Delivered rec ⟨0, rcv, left⟩ := by
  have hnoob : d.head?.any (·.mType = .oobdata) = false := by
    cases d with
    | nil => rfl
    | cons m ms =>
      rcases hrec.data m mem_cons_self with hm | hm <;> simp [hm]
  have heq := hrec.eq
  subst heq
  rw [soDontblock, soAddr, if_pos haddr]
  obtain ⟨sb, rcv, hcontrol, horig, hrcv⟩ := soControl_control
    { s with
      sb := sbfree s.sb a
      rcv := { s.rcv with
        hit := true, origResid := 0
        addr := if s.rcv.paddr then some a.mData else s.rcv.addr } } hrec.control hrec.data
  rw [hcontrol]
  have horig0 : rcv.origResid = 0 := horig rfl
  rw [hnoob, soData]
  have hresid : rcv.resid = s.rcv.want := by rw [hrcv]; exact hb.resid
  have heor : rcv.eor = false := by rw [hrcv]; exact hb.eor
  rw [hresid, heor]
  obtain ⟨hout, hstay⟩ := soMove_take sb s.rcv.want hrec.data hok
  generalize soMove false sb d s.rcv.want false = r at hout hstay
  rw [if_neg (by simp [hatomic])]
  obtain ⟨sb', trunc, hfin, hmb, htrunc⟩ := soFinish_atomic (s := { s with
    sb := r.sb
    rcv := { rcv with oob := false, resid := r.resid, eor := r.eor, out := rcv.out ++ r.out } })
    hatomic horig0 r.chain next
  refine ⟨sb', _, hfin, hmb, by rw [hrcv], fun left => ?_⟩
  refine ⟨a, c, d, hrec, rfl, ?_, ?_, ?_⟩
  · intro hp
    rw [hrcv] at hp ⊢
    exact if_pos hp
  · rw [hrcv]
    rw [hb.out, hout]
    rfl
  · intro hlt
    rw [hrcv] at hlt
    exact htrunc (hstay hlt)

theorem DgramInv.miss (h : DgramInv s) (hb : Begun s.rcv) {error : Nat}
    (he : error = 0 → s.sb.sbMb = []) :
    DgramInv (soReturn s error) ∧ DgramPc (soReturn s error) := by
  refine ⟨⟨h.atomic, h.addr, h.recs, ?_, ?_⟩, nofun, absurd rfl⟩
  · obtain ⟨gone, hrecs, hall⟩ := h.taken
    refine ⟨gone, hrecs, ?_⟩
    show Forall₂ Delivered gone ((s.rets ++ [_]).filter _)
    rw [filter_append, filter_singleton, hb.hit]
    simpa using hall
  · intro r hr hrhit herr
    rcases mem_append.mp hr with hr | hr
    · exact h.missed r hr hrhit herr
    · rw [mem_singleton.mp hr] at herr ⊢
      exact ⟨decide_eq_false (not_not.mpr (he herr)), hb.out⟩

theorem DgramInv.block (h : DgramInv s) (hb : Begun s.rcv) (hempty : s.sb.sbMb = []) :
    DgramInv (soBlock s) ∧ DgramPc (soBlock s) := by
  rw [soBlock]
  split_ifs
  · exact h.miss hb fun he => absurd he (by decide)
  · exact h.miss hb fun _ => hempty
  · exact h.miss hb fun he => absurd he (by decide)
  · exact ⟨{ h with }, nofun, fun _ => hb⟩

theorem DgramInv.pass (h : DgramInv s) (hb : Begun s.rcv)
    (hok : ∀ rec ∈ s.sb.sbMb.head?, eorOk (recData rec) s.rcv.want = true) :
    DgramInv (soPass s) ∧ DgramPc (soPass s) := by
  rw [soPass]
  split
  · next hempty =>
    split_ifs with herr hmore
    · obtain ⟨hinv, -⟩ := h.miss hb fun he => absurd he herr
      exact ⟨{ hinv with }, nofun, absurd rfl⟩
    · exact h.miss hb fun _ => hempty
    · exact h.block hb hempty
  · next rec next hmb =>
    have hatomic := h.atomic
    rw [if_neg (by simp [soShort, hatomic])]
    obtain ⟨a, c, d, hrec⟩ := h.recs rec (hmb ▸ mem_cons_self)
    have hd : eorOk d s.rcv.want = true := by
      rw [← recData_of_addrRec hrec]
      exact hok rec (by rw [hmb]; rfl)
    obtain ⟨sb, rcv, heq, hsb, hhit, hdel⟩ := soDontblock_delivers hatomic h.addr hb hrec hd next
    rw [heq]
    refine ⟨⟨hatomic, h.addr, ?_, ?_, ?_⟩, nofun, absurd rfl⟩
    · intro r hr
      exact h.recs r (hmb ▸ mem_cons_of_mem _ (hsb ▸ hr))
    · obtain ⟨gone, hrecs, hall⟩ := h.taken
      refine ⟨gone ++ [rec], ?_, ?_⟩
      · show s.recs = gone ++ [rec] ++ sb.sbMb
        rw [hsb, hrecs, hmb, append_assoc, singleton_append]
      · show Forall₂ Delivered (gone ++ [rec]) ((s.rets ++ [_]).filter _)
        rw [filter_append, filter_singleton, hhit]
        exact rel_append hall (.cons (hdel _) .nil)
    · intro r hr hrhit
      rcases mem_append.mp hr with hr | hr
      · exact h.missed r hr hrhit
      · rw [mem_singleton.mp hr, hhit] at hrhit
        cases hrhit

theorem DgramInv.step (h : DgramInv s) (hpc : DgramPc s) {op : RcvOp} (hc : EorCond s op) :
    DgramInv (rcvStep s op) ∧ DgramPc (rcvStep s op) := by
  have hcond := hc h.addr
  rw [rcvStep]
  split
  · next ha =>
    cases op with
    | append m =>
      rw [RcvSys.Allowed, h.atomic] at ha
      cases ha.1
    | appendaddr asa m0 control mget =>
      refine ⟨?_, hpc.pc, hpc.begun⟩
      have hspec := sbappendaddr_spec s.sb asa m0 control mget
      rw [rcvDo]
      generalize sbappendaddr s.sb asa m0 control mget = r at hspec
      obtain ⟨sb, ok⟩ := r
      cases ok with
      | false =>
        exact ⟨h.atomic, h.addr, hspec ▸ h.recs, hspec ▸ h.taken, h.missed⟩
      | true =>
        refine ⟨h.atomic, h.addr, ?_, ?_, h.missed⟩
        · intro rec hrec
          rw [show sb.sbMb = _ from hspec] at hrec
          rcases mem_append.mp hrec with hrec | hrec
          · exact h.recs rec hrec
          · exact ⟨_, control, m0, mem_singleton.mp hrec, ha.2.2.2.1, ha.2.2.1⟩
        · obtain ⟨gone, hrecs, hall⟩ := h.taken
          refine ⟨gone, ?_, hall⟩
          rw [hrecs, show sb.sbMb = _ from hspec, append_assoc]
          rfl
    | call want waitall dontwait paddr controlp =>
      rw [rcvDo]
      split
      · next hidle =>
        exact DgramInv.pass { h with } ⟨rfl, rfl, rfl, rfl⟩
          (hcond want (by rw [passResid, if_pos hidle]; rfl))
      · exact ⟨h, hpc⟩
    | go =>
      rw [rcvDo]
      split
      · next hre =>
        have hb := hpc.begun (by simp [hre])
        exact h.pass hb (hb.resid ▸ hcond s.rcv.resid (by rw [passResid, if_pos hre]; rfl))
      · exact ⟨h, hpc⟩
    | wake error =>
      rw [rcvDo]
      split
      · next hw =>
        have hb := hpc.begun (by simp [hw])
        split
        · next he => exact h.miss hb fun h0 => absurd h0 he
        · next he =>
          refine h.pass hb (hb.resid ▸ hcond s.rcv.resid ?_)
          rw [passResid, if_pos ⟨hw, not_not.mp he⟩]
          rfl
      · next hw => exact absurd hw hpc.pc
      · exact ⟨h, hpc⟩
    | socket soError cantrcvmore nbio connected =>
      exact ⟨{ h with }, hpc.pc, hpc.begun⟩
  · exact ⟨h, hpc⟩

/-! ## What is appended is delivered -/

/-- **Delivery.** Of a stream, the bytes returned and those in the buffer are the bytes appended.
With records, the calls that found one have returned the oldest ones in order, with their addresses,
the others are still there, and a successful call that found none returned nothing. -/
theorem receive_delivers {pr : SoProto} {s : RcvSys} (h : RcvReach pr EorCond s) :
    (pr.prAtomic = false → pr.prAddr = false → s.read ++ sbBytes s.sb = s.sent) ∧
      (pr.prAtomic = true → pr.prAddr = true → (∃ gone, s.recs = gone ++ s.sb.sbMb ∧
          Forall₂ Delivered gone (s.rets.filter (·.rcv.hit))) ∧
        ∀ r ∈ s.rets, r.rcv.hit = false → r.error = 0 → r.left = false ∧ r.rcv.out = []) := by
  constructor
  · intro hatomic haddr
    have hinv : StreamInv s := by
      refine Reach.ops (I := StreamInv) ?_ (fun s op hs _ => hs.step op) h
      rintro s ⟨hiwat, mbmax, lowat, rfl⟩
      exact ⟨hatomic, haddr, rfl, forall_mem_nil _, absurd rfl, fun _ => rfl⟩
    exact hinv.bytes
  · intro hatomic haddr
    have hinv : DgramInv s ∧ DgramPc s := by
      refine Reach.ops (I := fun s => DgramInv s ∧ DgramPc s) ?_
        (fun s op hs hc => hs.1.step hs.2 hc) h
      rintro s ⟨hiwat, mbmax, lowat, rfl⟩
      exact ⟨⟨hatomic, haddr, forall_mem_nil _, ⟨[], rfl, .nil⟩, forall_mem_nil _⟩,
        nofun, absurd rfl⟩
    exact ⟨hinv.1.taken, hinv.1.missed⟩

def dgramSock : RcvSys :=
  { pr := { prAtomic := true, prAddr := true }, sb := { sbHiwat := 100, sbMbmax := 4000 } }

theorem rcvReach_dgram {C : RcvSys → RcvOp → Prop} {l : List RcvOp}
    (hl : MeetsAll rcvStep C dgramSock l) :
    RcvReach dgramSock.pr C (l.foldl rcvStep dgramSock) := by
  have hstart : RcvReach dgramSock.pr C dgramSock := Reach.start ⟨100, 4000, _, rfl⟩
  exact Reach.foldl hstart hl

/-- Two datagrams of two mbufs are read, the second one with a request for two bytes. -/
def twoDatagrams : List RcvOp :=
  [.appendaddr [7] [{ mData := [1], mPkthdr := some 2 }, { mData := [2] }] [] true,
    .appendaddr [8] [{ mData := [3, 4], mPkthdr := some 3 }, { mData := [5] }] [] true,
    .call 10 false false true false, .call 2 false false true false]

theorem receive_delivers_two :
    (twoDatagrams.foldl rcvStep dgramSock).rets.map
        (fun r => (r.rcv.addr, r.rcv.out, r.rcv.trunc)) =
      [(some [7], [1, 2], false), (some [8], [3, 4], true)] ∧
    ∃ gone, (twoDatagrams.foldl rcvStep dgramSock).recs =
      gone ++ (twoDatagrams.foldl rcvStep dgramSock).sb.sbMb := by
  refine ⟨by decide +kernel, ?_⟩
  have hreach : RcvReach dgramSock.pr EorCond (twoDatagrams.foldl rcvStep dgramSock) :=
    rcvReach_dgram (by decide +kernel)
  obtain ⟨-, hrecs⟩ := receive_delivers hreach
  obtain ⟨⟨gone, hgone, -⟩, -⟩ := hrecs rfl rfl
  exact ⟨gone, hgone⟩

/-- A datagram of two mbufs, `M_EOR` on the first one, is read with a request for ten bytes. -/
def markedDatagram : List RcvOp :=
  [.appendaddr [7] [{ mData := [1], mPkthdr := some 2, mEor := true }, { mData := [2] }] [] true,
    .call 10 false false true false]

/-- Only the first of its two bytes comes out, and the record is gone. -/
theorem marked_datagram_cut :
    RcvReach dgramSock.pr (fun _ _ => True) (markedDatagram.foldl rcvStep dgramSock) ∧
      (markedDatagram.foldl rcvStep dgramSock).rets.map
        (fun r => (r.error, r.rcv.want, r.rcv.out)) = [(0, 10, [1])] ∧
      (markedDatagram.foldl rcvStep dgramSock).recs.map
        (fun rec => chainBytes (recData rec)) = [[1, 2]] ∧
      (markedDatagram.foldl rcvStep dgramSock).sb.sbMb = [] := by
  refine ⟨rcvReach_dgram (by decide +kernel), ?_, ?_, ?_⟩ <;> decide +kernel

end Anp
