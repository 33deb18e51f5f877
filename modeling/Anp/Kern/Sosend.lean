import Anp.Kern.Pullup
import Anp.Kern.Soreceive

/-!
# Sosend — writing to a socket

`sosend` of `kern/uipc_socket.c` over an arbitrary protocol: `pr_usrreq` is a function on the socket
and on a state `ω` of the protocol's own.

`uiomove` does not fail here (`copyin` is `memcpy`), and `resid` is not negative (such a call returns
at once). Memory for mbufs is there, for clusters it may not be.
-/

namespace Anp

open Machine List

def epipe : Nat := 32

def edestaddrreq : Nat := 39

def emsgsize : Nat := 40

/-- `MINCLSIZE`: from here on a cluster is used. -/
def minclsize : Nat := mhlen + mlen

/-- `max_hdr`. -/
def soMaxHdr : Nat := maxLinkhdr + maxProtohdr

/-! ## Sockets, protocols and calls -/

/-- What `sosend` reads of a socket, and `SO_DONTROUTE`, which it sets. -/
structure SndSock where
  cantsendmore : Bool := false
  soError : Nat := 0
  isconnected : Bool := false
  isconfirming : Bool := false
  nbio : Bool := false
  dontroute : Bool := false
  soSnd : Sockbuf := {}
  deriving DecidableEq, Repr

/-- The arguments of `PRU_SEND` and `PRU_SENDOOB`. -/
structure SndReq where
  oob : Bool
  top : List Mbuf
  addr : Bool
  control : Option Mbuf
  deriving DecidableEq, Repr

/-- A protocol with states `ω`: its flags, and what a request does and returns. -/
structure SndProto (ω : Type) where
  prAtomic : Bool
  prConnrequired : Bool
  usrreq : SndSock × ω → SndReq → (SndSock × ω) × Nat

/-- The arguments of a call. `top` is the chain given in place of a `uio`; `mcl n` says whether
there is a cluster when `n` bytes are left. -/
structure SndArgs where
  addr : Bool := false
  top : Option (List Mbuf) := none
  oob : Bool := false
  eor : Bool := false
  dontroute : Bool := false
  mcl : Nat → Bool

/-- The variables of a call: the bytes that `uio` still describes, and the control mbuf until it has
been passed down. -/
structure SndVar where
  data : List Byte
  control : Option Mbuf := none
  deriving DecidableEq, Repr

def SndVar.clen (v : SndVar) : Nat := (v.control.map (·.mLen)).getD 0

def SndArgs.resid (a : SndArgs) (v : SndVar) : Int :=
  match a.top with
  | none => v.data.length
  | some top => (top.head?.bind (·.mPkthdr)).getD 0

def SndArgs.atomic {ω : Type} (a : SndArgs) (pr : SndProto ω) : Bool := pr.prAtomic || a.top.isSome

inductive SndGo where
  | fail (error : Nat)
  | sleep
  | go (space : Int)
  deriving DecidableEq, Repr

/-! ## One iteration -/

section

variable {ω : Type} (pr : SndProto ω) (a : SndArgs)

/-- The tests of the socket, up to `space -= clen`. -/
def sndTest (so : SndSock) (v : SndVar) : SndGo :=
  let space := int32 (sbspace so.soSnd + if a.oob then 1024 else 0)
  if so.cantsendmore then .fail epipe
  else if so.soError ≠ 0 then .fail so.soError
  else if so.isconnected = false ∧ pr.prConnrequired ∧ so.isconfirming = false ∧
      ¬(a.resid v = 0 ∧ v.clen ≠ 0) then .fail enotconn
  else if so.isconnected = false ∧ pr.prConnrequired = false ∧ a.addr = false then
    .fail edestaddrreq
  else if (a.atomic pr ∧ (so.soSnd.sbHiwat : Int) < a.resid v) ∨ so.soSnd.sbHiwat < v.clen then
    .fail emsgsize
  else if space < int32 (a.resid v + v.clen) ∧ a.top = none ∧
      (a.atomic pr ∨ space < so.soSnd.sbLowat ∨ space < v.clen) then
    if so.nbio then .fail ewouldblock else .sleep
  else .go (int32 (space - v.clen))

/-- One mbuf is filled: the mbuf, and what is left of `space`. `min` is unsigned, so negative space
does not limit it. -/
def sndMbuf (atomic first mcl : Bool) (data : List Byte) (space : Int) : Mbuf × Int :=
  if minclsize ≤ data.length ∧ (mclbytes : Int) ≤ space ∧ mcl then
    if atomic && first then
      ({ mExt := some mclbytes, mOff := soMaxHdr, mData := data.take (mclbytes - soMaxHdr) },
        space - mclbytes)
    else ({ mExt := some mclbytes, mData := data.take mclbytes }, space - mclbytes)
  else
    let room := if first then mhlen else mlen
    let len := min (min room data.length) (u32 space)
    -- a packet header takes the first bytes of the mbuf; `MH_ALIGN` puts the data at its end
    let off := if first then mlen - mhlen else 0
    ({ mOff := if atomic && first && decide (len < room) then off + (mhlen - len) / 4 * 4 else off,
       mData := data.take len }, space - len)

/-- The loop `do ... while (space > 0 && atomic)`, with a bound on the rounds: the mbufs, the bytes
left and what is left of `space`. -/
def sndGather (atomic : Bool) (mcl : Nat → Bool) :
    Nat → Bool → List Byte → Int → Option (List Mbuf × List Byte × Int)
  | 0, _, _, _ => none
  | n + 1, first, data, space =>
    let m := sndMbuf atomic first (mcl data.length) data space
    let rest := data.drop m.1.mLen
    if rest = [] ∨ ¬(0 < m.2 ∧ atomic) then some ([m.1], rest, m.2)
    else (sndGather atomic mcl n false rest m.2).map fun r => (m.1 :: r.1, r.2)

/-- The packet header of the chain, and `M_EOR` if this is the end of the data. -/
def sndHead (eor : Bool) (top : List Mbuf) : List Mbuf :=
  match top with
  | [] => []
  | m :: ms => { m with mPkthdr := some (chainLen (m :: ms)), mEor := eor } :: ms

inductive SndOut (ω : Type) where
  | ret (error : Nat) (σ : SndSock × ω)
  | sleep (σ : SndSock × ω)
  | more (data : List Byte) (σ : SndSock × ω)
  deriving DecidableEq

/-- The chain that is passed down, the bytes left behind it and what is left of `space`. -/
def sndChain (data : List Byte) (space : Int) : Option (List Mbuf × List Byte × Int) :=
  match a.top with
  | some [] => some ([], [], space)
  | some (m :: ms) => some ({ m with mEor := m.mEor || a.eor } :: ms, [], space)
  | none =>
    (sndGather (a.atomic pr) a.mcl (data.length + 1) true data space).map fun r =>
      (sndHead (a.eor && decide (r.2.1 = [])) r.1, r.2)

/-- `pr_usrreq`, with `SO_DONTROUTE` set for this request. -/
def sndCall (σ : SndSock × ω) (req : SndReq) : (SndSock × ω) × Nat :=
  if a.dontroute then
    let r := pr.usrreq ({ σ.1 with dontroute := true }, σ.2) req
    (({ r.1.1 with dontroute := false }, r.1.2), r.2)
  else pr.usrreq σ req

/-- The loop `do ... while (resid && space > 0)` and the test of the outer loop, with a bound on the
rounds. -/
def sndPass : Nat → SndSock × ω → List Byte → Int → Option Mbuf → Option (SndOut ω)
  | 0, _, _, _, _ => none
  | n + 1, σ, data, space, control =>
    (sndChain pr a data space).bind fun c =>
      let r := sndCall pr a σ ⟨a.oob, c.1, a.addr, control⟩
      if r.2 ≠ 0 then some (.ret r.2 r.1)
      else if c.2.1 = [] then some (.ret 0 r.1)
      else if 0 < c.2.2 then sndPass n r.1 c.2.1 c.2.2 none
      else some (.more c.2.1 r.1)

/-- One iteration of the outer loop. -/
def sndIter (σ : SndSock × ω) (v : SndVar) : Option (SndOut ω) :=
  match sndTest pr a σ.1 v with
  | .fail error => some (.ret error σ)
  | .sleep => some (.sleep σ)
  | .go space => sndPass pr a (v.data.length + 1) σ v.data space v.control

/-- The state before the next iteration but `n - 1`; `none` when the call has returned or sleeps by
then. -/
def sndAt : Nat → SndSock × ω → SndVar → Option ((SndSock × ω) × SndVar)
  | 0, σ, v => some (σ, v)
  | n + 1, σ, v =>
    match sndIter pr a σ v with
    | some (.more data σ') => sndAt n σ' { data }
    | _ => none

/-! ## What an iteration moves -/

theorem u32_eq_zero_of_int32 {z : Int} (h : u32 (int32 z) = 0) : int32 z = 0 := by
  unfold u32 at h
  unfold int32 at h ⊢
  rw [Int.bmod_def] at h ⊢
  split at h <;> split <;> omega

variable {space : Int}

theorem sndMbuf_pos (atomic first mcl : Bool) {data : List Byte} (hdata : data ≠ [])
    (hspace : u32 space ≠ 0) : 0 < (sndMbuf atomic first mcl data space).1.mLen := by
  have hpos := length_pos_iff.mpr hdata
  unfold sndMbuf
  split
  · split
    · unfold Mbuf.mLen soMaxHdr maxLinkhdr maxProtohdr mclbytes
      rw [length_take]
      omega
    · unfold Mbuf.mLen mclbytes
      rw [length_take]
      omega
  · have hroom : 0 < if first then mhlen else mlen := by cases first <;> decide
    unfold Mbuf.mLen
    rw [length_take]
    omega

theorem sndMbuf_space (atomic first mcl : Bool) (data : List Byte) (space : Int) :
    (sndMbuf atomic first mcl data space).2 ≤ space := by
  unfold sndMbuf
  split
  · split
    · show space - mclbytes ≤ space
      omega
    · show space - mclbytes ≤ space
      omega
  · dsimp only
    omega

theorem u32_ne_zero {z : Int} (hpos : 0 < z) (hlt : z < 2 ^ 31) : u32 z ≠ 0 := by
  rw [u32_of_range hpos.le (by omega)]
  omega

/-- The inner loop ends. What it leaves is no more than what it began with, and less if there was
space. -/
theorem sndGather_spec (atomic : Bool) (mcl : Nat → Bool) {n : Nat} (first : Bool)
    (data : List Byte) (space : Int) (hn : data.length < n) (hlt : space < 2 ^ 31) :
    ∃ r, sndGather atomic mcl n first data space = some r ∧ r.2.1.length ≤ data.length ∧
      r.2.2 ≤ space ∧ (data ≠ [] → u32 space ≠ 0 → r.2.1.length < data.length) := by
  induction n generalizing first data space with
  | zero => omega
  | succ n ih =>
    rw [sndGather]
    have hspace := sndMbuf_space atomic first (mcl data.length) data space
    have hpos (hdata : data ≠ []) (hu : u32 space ≠ 0) :=
      sndMbuf_pos atomic first (mcl data.length) hdata hu
    generalize sndMbuf atomic first (mcl data.length) data space = m at *
    have hrest : (data.drop m.1.mLen).length = data.length - m.1.mLen := length_drop
    split_ifs with hstop
    · refine ⟨_, rfl, by dsimp only; omega, hspace, fun hdata hu => ?_⟩
      have := hpos hdata hu
      have := length_pos_iff.mpr hdata
      dsimp only
      omega
    · -- there is space left, so there was space before and the mbuf took a byte
      obtain ⟨hne, hgo⟩ := not_or.mp hstop
      have hdata : data ≠ [] := by
        rintro rfl
        exact hne drop_nil
      have hbyte := hpos hdata (u32_ne_zero (by omega) hlt)
      have := length_pos_iff.mpr hdata
      obtain ⟨r, heq, hlen, hle, -⟩ := ih false (data.drop m.1.mLen) m.2 (by omega) (by omega)
      rw [heq]
      refine ⟨(m.1 :: r.1, r.2), rfl, ?_, ?_, fun _ _ => ?_⟩
      · dsimp only
        omega
      · exact hle.trans hspace
      · dsimp only
        omega

theorem sndChain_spec (data : List Byte) (hlt : space < 2 ^ 31) :
    ∃ c, sndChain pr a data space = some c ∧ c.2.1.length ≤ data.length ∧ c.2.2 ≤ space ∧
      (c.2.1 ≠ [] → a.top = none) ∧
      (data ≠ [] → u32 space ≠ 0 → c.2.1.length < data.length) := by
  unfold sndChain
  split
  · exact ⟨_, rfl, Nat.zero_le _, le_rfl, absurd rfl, fun hdata _ => length_pos_iff.mpr hdata⟩
  · exact ⟨_, rfl, Nat.zero_le _, le_rfl, absurd rfl, fun hdata _ => length_pos_iff.mpr hdata⟩
  · next htop =>
    obtain ⟨r, heq, hlen, hle, hless⟩ := sndGather_spec (a.atomic pr) a.mcl true data space
      (Nat.lt_succ_self data.length) hlt
    rw [heq]
    exact ⟨_, rfl, hlen, hle, fun _ => htop, hless⟩

/-- The loop that passes mbufs down ends. If bytes are left then, it began with more if there was
space. -/
theorem sndPass_spec {n : Nat} (σ : SndSock × ω) (data : List Byte) (space : Int)
    (control : Option Mbuf) (hn : data.length < n) (hlt : space < 2 ^ 31) :
    ∃ o, sndPass pr a n σ data space control = some o ∧
      ∀ rest σ', o = .more rest σ' → rest ≠ [] ∧ a.top = none ∧ rest.length ≤ data.length ∧
        (u32 space ≠ 0 → rest.length < data.length) := by
  induction n generalizing σ data space control with
  | zero => omega
  | succ n ih =>
    obtain ⟨c, heq, hlen, hle, htop, hless⟩ := sndChain_spec pr a data hlt
    have hdata (hne : c.2.1 ≠ []) : data ≠ [] := by
      rintro rfl
      exact hne (length_eq_zero_iff.mp (Nat.le_zero.mp hlen))
    rw [sndPass, heq, Option.bind_some]
    generalize sndCall pr a σ ⟨a.oob, c.1, a.addr, control⟩ = r
    dsimp only
    split_ifs with herr hnil hmore
    · exact ⟨_, rfl, nofun⟩
    · exact ⟨_, rfl, nofun⟩
    · -- there is space left: bytes have been passed down
      have hdown := hless (hdata hnil) (u32_ne_zero (by omega) hlt)
      obtain ⟨o, ho, hrest⟩ := ih r.1 c.2.1 c.2.2 none (by omega) (by omega)
      refine ⟨o, ho, fun rest σ' hmore' => ?_⟩
      obtain ⟨hne, htop', hle', -⟩ := hrest rest σ' hmore'
      exact ⟨hne, htop', by omega, fun _ => by omega⟩
    · refine ⟨_, rfl, fun rest σ' hmore' => ?_⟩
      cases hmore'
      exact ⟨hnil, htop hnil, hlen, hless (hdata hnil)⟩

/-! ## Progress -/

/-- An mbuf without data, as the loop makes it when there is no space. -/
def sndEmpty (atomic : Bool) : List Mbuf :=
  [{ mPkthdr := some 0, mOff := if atomic then mlen else mlen - mhlen, mData := [] }]

/-- **The loop has no grip.** The tests pass with no space, there is something to send and no
control data, and the protocol takes the empty mbuf. -/
structure Stuck (σ : SndSock × ω) (v : SndVar) : Prop where
  uio : a.top = none
  data : v.data ≠ []
  clen : v.clen = 0
  test : sndTest pr a σ.1 v = .go 0
  taken : (sndCall pr a σ ⟨a.oob, sndEmpty (a.atomic pr), a.addr, v.control⟩).2 = 0

/-- The iteration moves a byte of the data or of the control mbuf, sleeps, or returns. -/
def SndOut.moves (v : SndVar) : SndOut ω → Prop
  | .more data _ => data.length < v.data.length + v.clen
  | .ret .. | .sleep _ => True

theorem sndChain_empty {data : List Byte} (htop : a.top = none) (hdata : data ≠ []) :
    sndChain pr a data 0 = some (sndEmpty (a.atomic pr), data, 0) := by
  have hcl : ¬(minclsize ≤ data.length ∧ (mclbytes : Int) ≤ 0 ∧ a.mcl data.length = true) := by
    intro h
    exact absurd h.2.1 (by decide)
  have hm : sndMbuf (a.atomic pr) true (a.mcl data.length) data 0 =
      ({ mOff := if a.atomic pr then mlen else mlen - mhlen, mData := [] }, 0) := by
    unfold sndMbuf
    rw [if_neg hcl]
    dsimp only
    rw [show u32 0 = 0 from rfl, Nat.min_zero]
    cases a.atomic pr <;> rfl
  unfold sndChain
  rw [htop, sndGather, hm]
  simp [hdata, sndHead, sndEmpty, Mbuf.mLen]

theorem int32_lt (z : Int) : int32 z < 2 ^ 31 := by
  unfold int32
  rw [Int.bmod_def]
  split <;> omega

theorem sndTest_go {so : SndSock} {v : SndVar}
    (h : sndTest pr a so v = .go space) : ∃ z, space = int32 z := by
  unfold sndTest at h
  dsimp only at h
  split_ifs at h
  all_goals exact ⟨_, (SndGo.go.inj h).symm⟩

theorem sndIter_moves (σ : SndSock × ω) (v : SndVar) :
    ∃ o, sndIter pr a σ v = some o ∧ (o.moves v ↔ ¬Stuck pr a σ v) := by
  unfold sndIter
  cases htest : sndTest pr a σ.1 v with
  | fail | sleep =>
    refine ⟨_, rfl, iff_of_true trivial fun hstuck => ?_⟩
    cases htest.symm.trans hstuck.test
  | go space =>
    obtain ⟨z, rfl⟩ := sndTest_go pr a htest
    show ∃ o, sndPass pr a (v.data.length + 1) σ v.data (int32 z) v.control = some o ∧ _
    by_cases hno : a.top = none ∧ v.data ≠ [] ∧ int32 z = 0
    · -- an empty mbuf is passed down, and there is no space for more
      obtain ⟨htop, hdata, hzero⟩ := hno
      rw [hzero, sndPass, sndChain_empty pr a htop hdata, Option.bind_some]
      simp only [hdata, lt_irrefl, if_false]
      split_ifs with herr
      · exact ⟨_, rfl, iff_of_true trivial fun hstuck => herr hstuck.taken⟩
      · refine ⟨_, rfl, ?_⟩
        show v.data.length < v.data.length + v.clen ↔ _
        constructor
        · intro hlt hstuck
          have := hstuck.clen
          omega
        · intro hnot
          by_contra hge
          exact hnot ⟨htop, hdata, by omega, by rw [htest, hzero], not_not.mp herr⟩
    · obtain ⟨o, ho, hrest⟩ := sndPass_spec pr a σ v.data (int32 z) v.control
        (Nat.lt_succ_self _) (int32_lt z)
      refine ⟨o, ho, iff_of_true ?_ fun hstuck => ?_⟩
      · cases o with
        | ret | sleep => trivial
        | more rest σ' =>
          obtain ⟨hne, htop, hle, hless⟩ := hrest rest σ' rfl
          have hdata : v.data ≠ [] := by
            intro hnil
            rw [hnil] at hle
            exact hne (length_eq_zero_iff.mp (Nat.le_zero.mp hle))
          have hspace : int32 z ≠ 0 := fun hzero => hno ⟨htop, hdata, hzero⟩
          have := hless (mt u32_eq_zero_of_int32 hspace)
          show rest.length < v.data.length + v.clen
          omega
      · exact hno ⟨hstuck.uio, hstuck.data, SndGo.go.inj (htest.symm.trans hstuck.test)⟩

/-- A call that does not get stuck returns or sleeps after as many iterations as it has bytes to send
and one. -/
theorem sndAt_ends {σ : SndSock × ω} {v : SndVar}
    (hfree : ∀ n τ, sndAt pr a n σ v = some τ → ¬Stuck pr a τ.1 τ.2) :
    sndAt pr a (v.data.length + v.clen + 1) σ v = none := by
  -- by induction on the number of iterations, the measure is what is left to move
  have hend : ∀ n, v.data.length + v.clen < n → sndAt pr a n σ v = none := by
    intro n
    induction n generalizing σ v with
    | zero => omega
    | succ n ih =>
      intro hn
      obtain ⟨o, ho, hmoves⟩ := sndIter_moves pr a σ v
      have hmove := hmoves.mpr (hfree 0 (σ, v) rfl)
      rw [sndAt, ho]
      cases o with
      | ret error σ' => rfl
      | sleep σ' => rfl
      | more rest σ' =>
        refine ih (fun k τ hτ => hfree (k + 1) τ ?_) ?_
        · rw [sndAt, ho]
          exact hτ
        · have hless : rest.length < v.data.length + v.clen := hmove
          show rest.length + 0 < n
          omega
  exact hend _ (Nat.lt_succ_self _)

/-- **`sosend` does not spin**: an iteration of the outer loop moves a byte, sleeps or returns
exactly if it is not stuck, and a call that is never stuck ends. -/
theorem sosend_progress (σ : SndSock × ω) (v : SndVar) :
    (∃ o, sndIter pr a σ v = some o ∧ (o.moves v ↔ ¬Stuck pr a σ v)) ∧
      ((∀ n τ, sndAt pr a n σ v = some τ → ¬Stuck pr a τ.1 τ.2) →
        sndAt pr a (v.data.length + v.clen + 1) σ v = none) :=
  ⟨sndIter_moves pr a σ v, sndAt_ends pr a⟩

end

/-- A stream protocol that appends what it gets to the send buffer, as `tcp_usrreq` does. -/
def streamProto : SndProto Unit where
  prAtomic := false
  prConnrequired := true
  usrreq := fun σ req => (({ σ.1 with soSnd := sbappend σ.1.soSnd req.top }, ()), 0)

/-- A connected socket after `setsockopt(SO_SNDBUF)`, with nothing in its send buffer. -/
def sndReserved (cc : Nat) : SndSock :=
  { isconnected := true
    soSnd := (sbreserve { sbHiwat := 8192, sbMbmax := 16384, sbLowat := 2048 } cc).getD {} }

/-- A write of three bytes to a buffer for two: it passes two bytes down and sleeps. -/
theorem sosend_progress_short :
    sndIter streamProto { mcl := fun _ => true } (sndReserved 2, ()) { data := [1, 2, 3] } ≠ none ∧
      sndAt streamProto { mcl := fun _ => true } 4 (sndReserved 2, ()) { data := [1, 2, 3] } =
        none := by
  have hall := sosend_progress streamProto { mcl := fun _ => true } (sndReserved 2, ())
    { data := [1, 2, 3] }
  refine ⟨?_, hall.2 fun n τ hτ hstuck => ?_⟩
  · obtain ⟨o, ho, -⟩ := hall.1
    rw [ho]
    exact nofun
  · have htest := hstuck.test
    match n with
    | 0 =>
      obtain rfl := Option.some.inj hτ
      exact absurd htest (by decide)
    | 1 =>
      obtain rfl := Option.some.inj hτ
      exact absurd htest (by decide)
    | n + 2 => cases hτ

/-- **`SO_SNDBUF` 0.** The low-water mark goes to 0 with the buffer, so a write finds no space and no
reason to wait: it passes an empty mbuf down again and again. -/
theorem sosend_spins :
    (fun n => sndAt streamProto { mcl := fun _ => true } n (sndReserved 0, ()) { data := [1] }) =
      fun _ => some ((sndReserved 0, ()), { data := [1] }) := by
  have hiter : sndIter streamProto { mcl := fun _ => true } (sndReserved 0, ()) { data := [1] } =
      some (.more [1] (sndReserved 0, ())) := by decide
  funext n
  induction n with
  | zero => rfl
  | succ n ih =>
    rw [sndAt, hiter]
    exact ih

end Anp
