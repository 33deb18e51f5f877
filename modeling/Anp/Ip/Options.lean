import Anp.Lib.Octets
import Anp.Lib.Machine

/-!
# Options — `ip_dooptions`

`netinet/ip_input.c`. The packet is memory (`Octets.Mem`) with the IP header at address 0, so that
a pointer the code computes from the packet is an address which may lie past the header. The
interface tables, the routing table and the clock are arguments (`OptEnv`): `ip_rtaddr` keeps a
route in `ipforward_rt` and the clock moves, so these two carry a state.

`optlen - sizeof(struct in_addr)` is unsigned, so for an option shorter than 4 octets it is a huge
number and no pointer is found to be beyond it; `OptFits` says what has to hold instead.
-/

namespace Anp

open Machine Octets

variable {m m' : Mem} {H optlen : Nat}

/-! ## The tables -/

/-- What `ip_dooptions` asks about the host; `ifaofIfp` is `ifaof_ifpforaddr` for the interface the
packet came in on. -/
structure OptEnv (ρ : Type) where
  ifWithAddr : BitVec 32 → Option (BitVec 32)
  ifWithDstaddr : BitVec 32 → Option (BitVec 32)
  ifWithNet : BitVec 32 → Option (BitVec 32)
  ifaofIfp : BitVec 32 → Option (BitVec 32)
  ipRtaddr : ρ → BitVec 32 → Option (BitVec 32) × ρ
  iptime : ρ → BitVec 32 × ρ

/-- The variables of the loop, the state of the tables, and what `save_rte` has put into `ip_srcrt`
(`srcopt` and `dst`). -/
structure OptSt (ρ : Type) where
  mem : Mem
  cp : Nat
  cnt : Nat
  forward : Bool
  env : ρ
  srcrt : Option (List UInt8 × BitVec 32)

/-- `goto bad`, with `type` and `code`. -/
structure OptBad where
  type : Nat
  code : Nat
  mem : Mem

/-- `ICMP_UNREACH` with its codes, and `ICMP_PARAMPROB`. -/
def icmpUnreach : Nat := 3

def icmpUnreachHost : Nat := 1

def icmpUnreachSrcfail : Nat := 5

def icmpParamprob : Nat := 12

section

variable {ρ : Type} (E : OptEnv ρ)

/-- `ip->ip_dst`. -/
def ipDst (m : Mem) : BitVec 32 := rd32 m 16

def inMulticast (a : BitVec 32) : Bool := a.extractLsb' 28 4 == 14#4

/-- `off > optlen - sizeof(struct in_addr)`, an unsigned comparison. -/
def pastSlot (optlen off : Nat) : Prop := u32 ((optlen : Int) - 4) < off
deriving Decidable

/-- `cp[IPOPT_OFFSET] += 4`. -/
def bumpPtr (m : Mem) (cp : Nat) : Mem := wr8 m (cp + 2) (m (cp + 2) + 4)

/-! ## The options -/

/-- The address a source route names next: for a strict one it has to be on a net of ours. -/
def nextHop (strict : Bool) (env : ρ) (a : BitVec 32) : Option (BitVec 32) × ρ :=
  if strict then ((E.ifWithDstaddr a).or (E.ifWithNet a), env) else E.ipRtaddr env a

/-- `case IPOPT_LSRR`, `case IPOPT_SSRR`. -/
def ipSrcroute (strict : Bool) (optlen : Nat) (s : OptSt ρ) : Except OptBad (OptSt ρ) :=
  let off := (s.mem (s.cp + 2)).toNat
  if off < 4 then .error ⟨icmpParamprob, s.cp + 2, s.mem⟩
  else
    match E.ifWithAddr (ipDst s.mem) with
    | none =>
      if strict then .error ⟨icmpUnreach, icmpUnreachSrcfail, s.mem⟩
      -- loose routing, and not at next destination yet
      else .ok s
    | some _ =>
      if pastSlot optlen (off - 1) then
        -- end of source route: `save_rte(cp, ip->ip_src)`
        .ok { s with srcrt := some ((List.range' s.cp optlen).map s.mem, rd32 s.mem 12) }
      else
        let a := rd32 s.mem (s.cp + (off - 1))
        match nextHop E strict s.env a with
        | (none, _) => .error ⟨icmpUnreach, icmpUnreachSrcfail, s.mem⟩
        | (some b, env) =>
          let m := wr32 (wr32 s.mem 16 a) (s.cp + (off - 1)) b
          .ok { s with mem := bumpPtr m s.cp, forward := !inMulticast a, env := env }

/-- The interface for the route that is recorded. -/
def recordIf (s : OptSt ρ) : Option (BitVec 32) × ρ :=
  match E.ifWithAddr (ipDst s.mem) with
  | some b => (some b, s.env)
  | none => E.ipRtaddr s.env (ipDst s.mem)

/-- `case IPOPT_RR`. -/
def ipRecord (optlen : Nat) (s : OptSt ρ) : Except OptBad (OptSt ρ) :=
  let off := (s.mem (s.cp + 2)).toNat
  if off < 4 then .error ⟨icmpParamprob, s.cp + 2, s.mem⟩
  else if pastSlot optlen (off - 1) then .ok s
  else
    match recordIf E s with
    | (none, _) => .error ⟨icmpUnreach, icmpUnreachHost, s.mem⟩
    | (some b, env) =>
      .ok { s with mem := bumpPtr (wr32 s.mem (s.cp + (off - 1)) b) s.cp, env := env }

/-- `ntime = iptime()` and its copy to the slot `ipt_ptr` names. -/
def putTime (s : OptSt ρ) : OptSt ρ :=
  let t := E.iptime s.env
  let m := wr32 s.mem (s.cp + (s.mem (s.cp + 2)).toNat - 1) t.1
  { s with mem := bumpPtr m s.cp, env := t.2 }

/-- `++ipt->ipt_oflw`, a counter of 4 bits. -/
def nextOflw (b : UInt8) : Nat := (b.toNat / 16 + 1) % 16

/-- `case IPOPT_TS`; `dst` is `ip_dst` as the packet arrived. -/
def ipStamp (dst : BitVec 32) (s : OptSt ρ) : Except OptBad (OptSt ρ) :=
  let len := (s.mem (s.cp + 1)).toNat
  let ptr := (s.mem (s.cp + 2)).toNat
  let flags := s.mem (s.cp + 3)
  if len < 5 then .error ⟨icmpParamprob, s.cp, s.mem⟩
  else if len - 4 < ptr then
    let m := wr8 s.mem (s.cp + 3) (UInt8.ofNat (16 * nextOflw flags + flags.toNat % 16))
    if nextOflw flags = 0 then .error ⟨icmpParamprob, s.cp, m⟩ else .ok { s with mem := m }
  else
    match flags.toNat % 16 with
    | 0 => .ok (putTime E s)
    | 1 =>
      if len < ptr + 8 then .error ⟨icmpParamprob, s.cp, s.mem⟩
      else
        match E.ifaofIfp dst with
        | none => .ok s
        | some b =>
          .ok (putTime E { s with mem := bumpPtr (wr32 s.mem (s.cp + ptr - 1) b) s.cp })
    | 3 =>
      if len < ptr + 8 then .error ⟨icmpParamprob, s.cp, s.mem⟩
      else
        match E.ifWithAddr (rd32 s.mem (s.cp + ptr - 1)) with
        | none => .ok s
        | some _ => .ok (putTime E { s with mem := bumpPtr s.mem s.cp })
    | _ => .error ⟨icmpParamprob, s.cp, s.mem⟩

/-- The `switch`. -/
def ipOption (dst : BitVec 32) (opt optlen : Nat) (s : OptSt ρ) : Except OptBad (OptSt ρ) :=
  if opt = 131 then ipSrcroute E false optlen s
  else if opt = 137 then ipSrcroute E true optlen s
  else if opt = 7 then ipRecord E optlen s
  else if opt = 68 then ipStamp E dst s
  else .ok s

/-! ## The loop -/

/-- `cnt -= optlen, cp += optlen`. -/
def OptSt.skip (s : OptSt ρ) (optlen : Nat) : OptSt ρ :=
  { s with cp := s.cp + optlen, cnt := s.cnt - optlen }

/-- The loop. Every round takes at least one octet off `cnt`, so `cnt` rounds are enough. -/
def ipOptLoop (dst : BitVec 32) : Nat → OptSt ρ → Except OptBad (OptSt ρ)
  | 0, s => .ok s
  | n + 1, s =>
    let opt := (s.mem s.cp).toNat
    if s.cnt = 0 ∨ opt = 0 then .ok s
    else if opt = 1 then ipOptLoop dst n (s.skip 1)
    else
      let optlen := (s.mem (s.cp + 1)).toNat
      if optlen = 0 ∨ s.cnt < optlen then .error ⟨icmpParamprob, s.cp + 1, s.mem⟩
      else
        match ipOption E dst opt optlen s with
        | .error b => .error b
        | .ok s => ipOptLoop dst n (s.skip optlen)

/-- What `ip_dooptions` does with the packet. -/
inductive OptVerdict where
  | accepted
  | forwarded
  | rejected (type code : Nat)
  deriving DecidableEq, Repr

structure OptOut where
  verdict : OptVerdict
  mem : Mem

/-- `ip->ip_hl << 2`. -/
def ipHlen (m : Mem) : Nat := 4 * ((m 0).toNat % 16)

def optStart (m : Mem) (env : ρ) : OptSt ρ := ⟨m, 20, ipHlen m - 20, false, env, none⟩

/-- After the loop: `ip_forward`, or return to `ipintr`; and at `bad`, `ip_len -= ip_hl << 2` for
`icmp_error`. -/
def optFinish : Except OptBad (OptSt ρ) → OptOut
  | .ok s => ⟨if s.forward then .forwarded else .accepted, s.mem⟩
  | .error b =>
    ⟨.rejected b.type b.code, wr16 b.mem 2 (rd16 b.mem 2 - BitVec.ofNat 16 (ipHlen b.mem))⟩

/-- The whole function, with what becomes of the packet (`OptOut`). -/
def ipDooptions (m : Mem) (env : ρ) : OptOut :=
  optFinish (ipOptLoop E (ipDst m) (ipHlen m - 20) (optStart m env))

/-! ## Options that stay inside the header -/

/-- The slot of an address option, the pointer being `off`, lies before the end of the header. A
pointer below 4 is rejected before it is used. -/
def SlotFits (cnt optlen off : Nat) : Prop := off < 4 ∨ 4 ≤ optlen ∨ off + 3 ≤ cnt
deriving Decidable

/-- The condition on one option: where it has addresses, the pointer octet and the slot that is used
are in the header; where a timestamp stores one, the pointer does not point at itself. -/
def OptionFits (dst : BitVec 32) (opt optlen : Nat) (s : OptSt ρ) : Prop :=
  let ptr := (s.mem (s.cp + 2)).toNat
  (opt = 131 ∨ opt = 137 →
      3 ≤ s.cnt ∧ (SlotFits s.cnt optlen ptr ∨ E.ifWithAddr (ipDst s.mem) = none)) ∧
    (opt = 7 → 3 ≤ s.cnt ∧ (SlotFits s.cnt optlen ptr ∨ (recordIf E s).1 = none)) ∧
    (opt = 68 → (s.mem (s.cp + 3)).toNat % 16 = 1 → ptr + 8 ≤ optlen →
      4 ≤ ptr ∨ E.ifaofIfp dst = none)
deriving Decidable

/-- `P` of the state after a round that did not end in `bad`. -/
def IfOk (P : OptSt ρ → Prop) : Except OptBad (OptSt ρ) → Prop
  | .error _ => True
  | .ok s => P s

/-- The condition on every option the loop comes to: its length octet is in the header, and if it
passes the check the option meets `OptionFits`. -/
def OptFits (dst : BitVec 32) : Nat → OptSt ρ → Prop
  | 0, _ => True
  | n + 1, s =>
    let opt := (s.mem s.cp).toNat
    let optlen := (s.mem (s.cp + 1)).toNat
    (s.cnt = 0 ∨ opt = 0) ∨ opt = 1 ∧ OptFits dst n (s.skip 1) ∨ opt ≠ 1 ∧ 2 ≤ s.cnt ∧
        ((optlen = 0 ∨ s.cnt < optlen) ∨ OptionFits E dst opt optlen s ∧
            IfOk (fun s => OptFits dst n (s.skip optlen)) (ipOption E dst opt optlen s))

instance IfOk.instDecidable (P : OptSt ρ → Prop) [DecidablePred P] :
    DecidablePred (IfOk P)
  | .error _ => .isTrue trivial
  | .ok s => inferInstanceAs (Decidable (P s))

instance OptFits.instDecidable (dst : BitVec 32) :
    (n : Nat) → (s : OptSt ρ) → Decidable (OptFits E dst n s)
  | 0, _ => .isTrue trivial
  | n + 1, _ =>
    have := OptFits.instDecidable dst n
    inferInstanceAs (Decidable (_ ∨ _ ∧ OptFits E dst n _ ∨ _ ∧ _ ∧ (_ ∨ _ ∧ IfOk _ _)))

end

/-! ## Two packets with the same header -/

section

variable {ρ : Type}

/-- Nothing outside `ip_dst` and the options of a header of `H` octets has changed. -/
def Keeps (H : Nat) (m n : Mem) : Prop := ∀ i, i < 16 ∨ H ≤ i → n i = m i

theorem Keeps.refl (H : Nat) (m : Mem) : Keeps H m m := fun _ _ => rfl

theorem Keeps.trans {n k : Mem} (h : Keeps H m n) (h' : Keeps H n k) : Keeps H m k :=
  fun i hi => (h' i hi).trans (h i hi)

/-- The memory of two packets that agree on the header; outside of `ip_dst` and the options the
first is as `k` was. -/
structure Twin (H : Nat) (k m m' : Mem) : Prop where
  same : Same m m' 0 H
  keeps : Keeps H k m

namespace Twin

variable {k : Mem} {o : Nat}

theorem refl (h : Same m m' 0 H) : Twin H m m m' := ⟨h, Keeps.refl H m⟩

theorem wr8 (h : Twin H k m m') (ho : 16 ≤ o) (hH : o < H) (v : UInt8) :
    Twin H k (wr8 m o v) (wr8 m' o v) := by
  refine ⟨fun i h0 hi => ?_, fun i hi => ?_⟩
  · rw [Octets.wr8, Octets.wr8, h.same i h0 hi]
  · rw [Octets.wr8, if_neg (by omega), h.keeps i hi]

theorem wr32 (h : Twin H k m m') (ho : 16 ≤ o) (hH : o + 4 ≤ H) (v : BitVec 32) :
    Twin H k (wr32 m o v) (wr32 m' o v) := by
  have h2 := (h.wr8 ho (by omega) (hi8 (v.extractLsb' 16 16))).wr8 (o := o + 1) (by omega)
    (by omega) (lo8 (v.extractLsb' 16 16))
  exact (h2.wr8 (o := o + 2) (by omega) (by omega) _).wr8 (o := o + 2 + 1) (by omega) (by omega) _

theorem bumpPtr (h : Twin H k m m') {cp : Nat} (hcp : 16 ≤ cp) (hH : cp + 2 < H) :
    Twin H k (bumpPtr m cp) (bumpPtr m' cp) := by
  rw [Anp.bumpPtr, Anp.bumpPtr, h.same (cp + 2) (by omega) hH]
  exact h.wr8 (by omega) hH _

end Twin

theorem same_ipDst (h : Same m m' 0 H) (hH : 20 ≤ H) :
    ipDst m = ipDst m' := by
  rw [ipDst, ipDst, h.rd32 (o := 16) (by omega) (by omega)]

/-- Two rounds, from `s` and from another memory that agrees on the header: the same verdict, or the
same state up to such memory, and nothing written outside. -/
def InStep (H : Nat) (s : OptSt ρ) : Except OptBad (OptSt ρ) → Except OptBad (OptSt ρ) → Prop
  | .error b, .error b' =>
    b.type = b'.type ∧ b.code = b'.code ∧ Same b.mem b'.mem 0 H ∧ Keeps H s.mem b.mem
  | .ok t, .ok t' =>
    t' = { t with mem := t'.mem } ∧ Same t.mem t'.mem 0 H ∧ Keeps H s.mem t.mem ∧
      t.cp = s.cp ∧ t.cnt = s.cnt
  | _, _ => False

variable {s : OptSt ρ}

theorem InStep.bad (h : Same s.mem m' 0 H) (type code : Nat) :
    InStep H s (.error ⟨type, code, s.mem⟩) (.error ⟨type, code, m'⟩) :=
  ⟨rfl, rfl, h, Keeps.refl H s.mem⟩

theorem InStep.ok {s t : OptSt ρ} (h : Twin H s.mem t.mem m') (hcp : t.cp = s.cp)
    (hcnt : t.cnt = s.cnt) : InStep H s (.ok t) (.ok { t with mem := m' }) :=
  ⟨rfl, h.same, h.keeps, hcp, hcnt⟩

theorem InStep.same (h : Same s.mem m' 0 H) :
    InStep H s (.ok s) (.ok { s with mem := m' }) :=
  .ok (.refl h) rfl rfl

/-- Where the code goes on to use a slot, the slot is inside the header. -/
theorem SlotFits.inside {cnt off : Nat} (h : SlotFits cnt optlen off) (hoff : ¬ off < 4)
    (hp : ¬ pastSlot optlen (off - 1)) (hle : optlen ≤ cnt) (hlt : optlen < 256) :
    off - 1 + 4 ≤ cnt := by
  rcases h with h | h | h
  · exact absurd h hoff
  · rw [pastSlot, u32_of_range (by omega) (by omega)] at hp
    omega
  · omega

variable {E : OptEnv ρ} {H : Nat}

theorem ipSrcroute_inStep (strict : Bool) (h : Same s.mem m' 0 H) (hcp : 20 ≤ s.cp)
    (hH : s.cp + s.cnt = H) (hle : optlen ≤ s.cnt) (hlt : optlen < 256) (hcnt : 3 ≤ s.cnt)
    (hfit : SlotFits s.cnt optlen (s.mem (s.cp + 2)).toNat ∨ E.ifWithAddr (ipDst s.mem) = none) :
    InStep H s (ipSrcroute E strict optlen s)
      (ipSrcroute E strict optlen { s with mem := m' }) := by
  have hptr : m' (s.cp + 2) = s.mem (s.cp + 2) := (h (s.cp + 2) (by omega) (by omega)).symm
  have hdst : ipDst m' = ipDst s.mem := (same_ipDst h (by omega)).symm
  simp only [ipSrcroute, hptr, hdst]
  generalize (s.mem (s.cp + 2)).toNat = off at hfit ⊢
  split
  · exact InStep.bad h _ _
  next hoff =>
  cases hia : E.ifWithAddr (ipDst s.mem) with
  | none =>
    cases strict with
    | true => exact InStep.bad h _ _
    | false => exact InStep.same h
  | some a =>
    have hslot : SlotFits s.cnt optlen off := hfit.resolve_right (by simp [hia])
    by_cases hp : pastSlot optlen (off - 1)
    · -- the route is used up; what `save_rte` reads is the option and `ip_src`
      have hopt : (List.range' s.cp optlen).map m' = (List.range' s.cp optlen).map s.mem := by
        apply List.map_congr_left
        intro i hi
        rw [List.mem_range'_1] at hi
        exact (h i (by omega) (by omega)).symm
      have hsrc : rd32 m' 12 = rd32 s.mem 12 := (h.rd32 (o := 12) (by omega) (by omega)).symm
      simp only [if_pos hp, hopt, hsrc]
      exact .ok (.refl h) rfl rfl
    · have hin := hslot.inside hoff hp hle hlt
      have hnext : rd32 m' (s.cp + (off - 1)) = rd32 s.mem (s.cp + (off - 1)) :=
        (h.rd32 (by omega) (by omega)).symm
      simp only [if_neg hp, hnext]
      generalize rd32 s.mem (s.cp + (off - 1)) = a
      cases nextHop E strict s.env a with
      | mk b env =>
        cases b with
        | none => exact InStep.bad h _ _
        | some b =>
          have hdst := (Twin.refl h).wr32 (o := 16) (by omega) (by omega) a
          have hslot := hdst.wr32 (o := s.cp + (off - 1)) (by omega) (by omega) b
          exact .ok (hslot.bumpPtr (by omega) (by omega)) rfl rfl

theorem ipRecord_inStep (h : Same s.mem m' 0 H) (hcp : 20 ≤ s.cp)
    (hH : s.cp + s.cnt = H) (hle : optlen ≤ s.cnt) (hlt : optlen < 256) (hcnt : 3 ≤ s.cnt)
    (hfit : SlotFits s.cnt optlen (s.mem (s.cp + 2)).toNat ∨ (recordIf E s).1 = none) :
    InStep H s (ipRecord E optlen s) (ipRecord E optlen { s with mem := m' }) := by
  have hptr : m' (s.cp + 2) = s.mem (s.cp + 2) := (h (s.cp + 2) (by omega) (by omega)).symm
  have hif : recordIf E { s with mem := m' } = recordIf E s := by
    simp only [recordIf, same_ipDst h (by omega)]
  simp only [ipRecord, hptr, hif]
  generalize (s.mem (s.cp + 2)).toNat = off at hfit ⊢
  split_ifs with hoff hp
  · exact InStep.bad h _ _
  · exact InStep.same h
  cases hr : recordIf E s with
  | mk b env =>
    cases b with
    | none => exact InStep.bad h _ _
    | some b =>
      have hslot : SlotFits s.cnt optlen off := hfit.resolve_right (by simp [hr])
      have hin := hslot.inside hoff hp hle hlt
      have hput := (Twin.refl h).wr32 (o := s.cp + (off - 1)) (by omega) (by omega) b
      exact .ok (hput.bumpPtr (by omega) (by omega)) rfl rfl

theorem putTime_inStep (h : Twin H s.mem m m') (hcp : 20 ≤ s.cp)
    (hH : s.cp + s.cnt = H) (hptr : (m (s.cp + 2)).toNat + 3 ≤ s.cnt) :
    InStep H s (.ok (putTime E { s with mem := m })) (.ok (putTime E { s with mem := m' })) := by
  have he : m' (s.cp + 2) = m (s.cp + 2) := (h.same (s.cp + 2) (by omega) (by omega)).symm
  simp only [putTime, he]
  generalize (m (s.cp + 2)).toNat = ptr at hptr ⊢
  have hput := h.wr32 (o := s.cp + ptr - 1) (by omega) (by omega) (E.iptime s.env).1
  exact .ok (hput.bumpPtr (by omega) (by omega)) rfl rfl

theorem wr32_off (m : Mem) (o : Nat) (v : BitVec 32) {i : Nat} (h : i < o ∨ o + 4 ≤ i) :
    wr32 m o v i = m i := by
  rw [wr32, wr16_off _ _ _ (by omega), wr16_off _ _ _ (by omega)]

theorem bumpPtr_toNat {cp ptr : Nat} (h : (m (cp + 2)).toNat = ptr) (hlt : ptr + 4 < 256) :
    (bumpPtr m cp (cp + 2)).toNat = ptr + 4 := by
  have h4 : (4 : UInt8).toNat = 4 := rfl
  rw [bumpPtr, wr8, if_pos rfl, UInt8.toNat_add, h, h4]
  omega

variable {dst : BitVec 32}

theorem ipStamp_inStep (h : Same s.mem m' 0 H) (hcp : 20 ≤ s.cp)
    (hH : s.cp + s.cnt = H) (hcnt : 2 ≤ s.cnt) (hle : (s.mem (s.cp + 1)).toNat ≤ s.cnt)
    (hfit : (s.mem (s.cp + 3)).toNat % 16 = 1 →
      (s.mem (s.cp + 2)).toNat + 8 ≤ (s.mem (s.cp + 1)).toNat →
        4 ≤ (s.mem (s.cp + 2)).toNat ∨ E.ifaofIfp dst = none) :
    InStep H s (ipStamp E dst s) (ipStamp E dst { s with mem := m' }) := by
  have h1 : m' (s.cp + 1) = s.mem (s.cp + 1) := (h (s.cp + 1) (by omega) (by omega)).symm
  have hlen256 := UInt8.toNat_lt (s.mem (s.cp + 1))
  by_cases h5 : (s.mem (s.cp + 1)).toNat < 5
  · simp only [ipStamp, h1, if_pos h5]
    exact InStep.bad h _ _
  -- the fixed part of the option is in the header
  have h2 : m' (s.cp + 2) = s.mem (s.cp + 2) := (h (s.cp + 2) (by omega) (by omega)).symm
  have h3 : m' (s.cp + 3) = s.mem (s.cp + 3) := (h (s.cp + 3) (by omega) (by omega)).symm
  simp only [ipStamp, h1, h2, h3, if_neg h5]
  generalize hlen : (s.mem (s.cp + 1)).toNat = len at *
  generalize hptr : (s.mem (s.cp + 2)).toNat = ptr at *
  generalize hflg : s.mem (s.cp + 3) = flags at *
  by_cases hfull : len - 4 < ptr
  · -- no room: the overflow counter
    simp only [if_pos hfull]
    have hput := (Twin.refl h).wr8 (o := s.cp + 3) (by omega) (by omega)
      (UInt8.ofNat (16 * nextOflw flags + flags.toNat % 16))
    split
    · exact ⟨rfl, rfl, hput.same, hput.keeps⟩
    · exact .ok hput rfl rfl
  simp only [if_neg hfull]
  generalize hf : flags.toNat % 16 = flg at hfit ⊢
  match flg with
  | 0 =>
    exact putTime_inStep (.refl h) hcp hH (by rw [hptr]; omega)
  | 1 =>
    split_ifs
    · exact InStep.bad h _ _
    cases hia : E.ifaofIfp dst with
    | none => exact InStep.same h
    | some b =>
      have h4 : 4 ≤ ptr := (hfit rfl (by omega)).resolve_right (by simp [hia])
      have hput := (Twin.refl h).wr32 (o := s.cp + ptr - 1) (by omega) (by omega) b
      have hp : (wr32 s.mem (s.cp + ptr - 1) b (s.cp + 2)).toNat = ptr := by
        rw [wr32_off _ _ _ (by omega), hptr]
      exact putTime_inStep (hput.bumpPtr (by omega) (by omega)) hcp hH
        (by rw [bumpPtr_toNat hp (by omega)]; omega)
  | 3 =>
    by_cases hroom : len < ptr + 8
    · simp only [if_pos hroom]
      exact InStep.bad h _ _
    have hrd : rd32 m' (s.cp + ptr - 1) = rd32 s.mem (s.cp + ptr - 1) :=
      (h.rd32 (by omega) (by omega)).symm
    simp only [if_neg hroom, hrd]
    cases E.ifWithAddr (rd32 s.mem (s.cp + ptr - 1)) with
    | none => exact InStep.same h
    | some b =>
      exact putTime_inStep ((Twin.refl h).bumpPtr (by omega) (by omega)) hcp hH
        (by rw [bumpPtr_toNat hptr (by omega)]; omega)
  | 2 => exact InStep.bad h _ _
  | _ + 4 => exact InStep.bad h _ _

theorem ipOption_inStep {opt : Nat} (h : Same s.mem m' 0 H)
    (hcp : 20 ≤ s.cp) (hH : s.cp + s.cnt = H) (hcnt : 2 ≤ s.cnt)
    (hle : (s.mem (s.cp + 1)).toNat ≤ s.cnt)
    (hfit : OptionFits E dst opt (s.mem (s.cp + 1)).toNat s) :
    InStep H s (ipOption E dst opt (s.mem (s.cp + 1)).toNat s)
      (ipOption E dst opt (s.mem (s.cp + 1)).toNat { s with mem := m' }) := by
  obtain ⟨hroute, hrecord, hstamp⟩ := hfit
  have hlt := UInt8.toNat_lt (s.mem (s.cp + 1))
  rw [ipOption, ipOption]
  split_ifs with hl hs hr ht
  · obtain ⟨h3, hslot⟩ := hroute (.inl hl)
    exact ipSrcroute_inStep false h hcp hH hle hlt h3 hslot
  · obtain ⟨h3, hslot⟩ := hroute (.inr hs)
    exact ipSrcroute_inStep true h hcp hH hle hlt h3 hslot
  · obtain ⟨h3, hslot⟩ := hrecord hr
    exact ipRecord_inStep h hcp hH hle hlt h3 hslot
  · exact ipStamp_inStep h hcp hH hcnt hle (hstamp ht)
  · exact InStep.same h

/-! ## The whole loop -/

/-- The results of two loops that started with memory agreeing on the header, that of the first
one being `m`. -/
def Alike (H : Nat) (m : Mem) : Except OptBad (OptSt ρ) → Except OptBad (OptSt ρ) → Prop
  | .error b, .error b' => b.type = b'.type ∧ b.code = b'.code ∧ Keeps H m b.mem
  | .ok t, .ok t' => t.forward = t'.forward ∧ Keeps H m t.mem
  | _, _ => False

theorem Alike.of_keeps {n : Mem} {r r' : Except OptBad (OptSt ρ)} (h : Alike H n r r')
    (hk : Keeps H m n) : Alike H m r r' := by
  rcases r with b | t <;> rcases r' with b' | t'
  · exact ⟨h.1, h.2.1, hk.trans h.2.2⟩
  · exact h.elim
  · exact h.elim
  · exact ⟨h.1, hk.trans h.2⟩

/-- **The loop over the options.** Each round keeps the two packets in step, so the next option is
the same one in both. -/
theorem ipOptLoop_alike {n : Nat} (h : Same s.mem m' 0 H)
    (hcp : 20 ≤ s.cp) (hH : s.cp + s.cnt = H) (hfit : OptFits E dst n s) :
    Alike H s.mem (ipOptLoop E dst n s) (ipOptLoop E dst n { s with mem := m' }) := by
  induction n generalizing s m' with
  | zero => exact ⟨rfl, Keeps.refl H s.mem⟩
  | succ n ih =>
    by_cases hend : s.cnt = 0
    · simp only [ipOptLoop, hend, true_or, if_true]
      exact ⟨rfl, Keeps.refl H s.mem⟩
    have hopt : m' s.cp = s.mem s.cp := (h s.cp (by omega) (by omega)).symm
    simp only [ipOptLoop, hopt]
    split
    · exact ⟨rfl, Keeps.refl H s.mem⟩
    next heol =>
    split
    · next hnop =>
      have hfit' : OptFits E dst n (s.skip 1) := by
        rcases hfit with hf | hf | hf
        · exact absurd hf heol
        · exact hf.2
        · exact absurd hnop hf.1
      exact ih (s := s.skip 1) h (by simp only [OptSt.skip]; omega)
        (by simp only [OptSt.skip]; omega) hfit'
    next hnop =>
    -- an option with a length octet, which is in the header
    obtain ⟨hcnt, hfit'⟩ : 2 ≤ s.cnt ∧
        (((s.mem (s.cp + 1)).toNat = 0 ∨ s.cnt < (s.mem (s.cp + 1)).toNat) ∨
          OptionFits E dst (s.mem s.cp).toNat (s.mem (s.cp + 1)).toNat s ∧
            IfOk (fun t => OptFits E dst n (t.skip (s.mem (s.cp + 1)).toNat))
              (ipOption E dst (s.mem s.cp).toNat (s.mem (s.cp + 1)).toNat s)) := by
      rcases hfit with hf | hf | hf
      · exact absurd hf heol
      · exact absurd hf.1 hnop
      · exact hf.2
    have hlen : m' (s.cp + 1) = s.mem (s.cp + 1) := (h (s.cp + 1) (by omega) (by omega)).symm
    simp only [hlen]
    split
    · exact ⟨rfl, rfl, Keeps.refl H s.mem⟩
    next hbad =>
    obtain ⟨hone, hrest⟩ := hfit'.resolve_left hbad
    have hstep := ipOption_inStep h hcp hH hcnt (by omega) hone
    generalize (s.mem (s.cp + 1)).toNat = optlen at *
    generalize ipOption E dst (s.mem s.cp).toNat optlen s = r at *
    generalize ipOption E dst (s.mem s.cp).toNat optlen { s with mem := m' } = r' at *
    rcases r with b | t <;> rcases r' with b' | t'
    · exact ⟨hstep.1, hstep.2.1, hstep.2.2.2⟩
    · exact hstep.elim
    · exact hstep.elim
    · obtain ⟨ht', hsame, hkeep, htcp, htcnt⟩ := hstep
      have hnext := ih (s := t.skip optlen) hsame (by simp only [OptSt.skip]; omega)
        (by simp only [OptSt.skip]; omega) hrest
      rw [ht']
      exact hnext.of_keeps hkeep

def ChangedIn (H : Nat) (m : Mem) (o : OptOut) : Prop := ∀ i, o.mem i ≠ m i →
    16 ≤ i ∧ i < H ∨ (i = 2 ∨ i = 3) ∧ ∃ type code, o.verdict = .rejected type code

theorem Alike.finish {r r' : Except OptBad (OptSt ρ)} (h : Alike H m r r') :
    (optFinish r).verdict = (optFinish r').verdict ∧ ChangedIn H m (optFinish r) := by
  rcases r with b | t <;> rcases r' with b' | t'
  · obtain ⟨htype, hcode, hkeep⟩ := h
    refine ⟨by simp only [optFinish, htype, hcode], fun i hi => ?_⟩
    by_cases h23 : i = 2 ∨ i = 3
    · exact .inr ⟨h23, b.type, b.code, rfl⟩
    · left
      have hoff : i < 2 ∨ 2 + 2 ≤ i := by omega
      simp only [optFinish, wr16_off _ _ _ hoff] at hi
      by_contra hout
      exact hi (hkeep i (by omega))
  · exact h.elim
  · exact h.elim
  · obtain ⟨hfwd, hkeep⟩ := h
    refine ⟨by simp only [optFinish, hfwd], fun i hi => .inl ?_⟩
    by_contra hout
    exact hi (hkeep i (by omega))

/-- **Options are confined to the header**, where they meet `OptFits`: of two packets that agree on
the header, `ip_dooptions` changes the first only in its options, `ip_dst` and, if it rejects it,
`ip_len`, and both get the same verdict. -/
theorem dooptions_confined (E : OptEnv ρ) (env : ρ) (m m' : Mem) (hhl : 20 ≤ ipHlen m)
    (hfit : OptFits E (ipDst m) (ipHlen m - 20) (optStart m env))
    (h : ∀ i < ipHlen m, m i = m' i) :
    (ipDooptions E m env).verdict = (ipDooptions E m' env).verdict ∧
      ChangedIn (ipHlen m) m (ipDooptions E m env) := by
  have hsame : Same m m' 0 (ipHlen m) := fun i _ hi => h i hi
  have hhl' : ipHlen m' = ipHlen m := by
    rw [ipHlen, ipHlen, h 0 (by omega)]
  have hdst : ipDst m' = ipDst m := (same_ipDst hsame hhl).symm
  have hstart : optStart m' env = { optStart m env with mem := m' } := by simp only [optStart, hhl']
  have hloop := ipOptLoop_alike (s := optStart m env) hsame (Nat.le_refl 20)
    (by simp only [optStart]; omega) hfit
  rw [ipDooptions, ipDooptions, hhl', hdst, hstart]
  exact hloop.finish

end

/-- A host with the address 10.0.0.2 and no routes. -/
def loneHost : OptEnv Unit where
  ifWithAddr a := if a = 0x0a000002#32 then some 0x0a000002#32 else none
  ifWithDstaddr _ := none
  ifWithNet _ := none
  ifaofIfp _ := some 0x0a000002#32
  ipRtaddr _ _ := (none, ())
  iptime _ := (0, ())

/-- A packet to 10.0.0.2, its first octet being `0x40 + ip_hl`; `rest` are the octets from the
options on. -/
def toLoneHost (hl : UInt8) (rest : List UInt8) : Mem := fun i =>
  ([0x40 + hl, 0, 0, 40, 0, 7, 0, 0, 64, 17, 0, 0, 10, 0, 0, 1, 10, 0, 0, 2] ++ rest).getD i 0

/-- Record route, with room for one address. -/
theorem dooptions_confined_record :
    (ipDooptions loneHost (toLoneHost 7 [7, 7, 4, 0, 0, 0, 0, 0]) ()).mem 26 = 2 ∧
      (ipDooptions loneHost (toLoneHost 7 [7, 7, 4, 0, 0, 0, 0, 0]) ()).verdict
        = (ipDooptions loneHost (toLoneHost 7 [7, 7, 4, 0, 0, 0, 0, 0, 9, 9]) ()).verdict :=
  ⟨by decide +kernel, (dooptions_confined loneHost () (toLoneHost 7 [7, 7, 4, 0, 0, 0, 0, 0])
      (toLoneHost 7 [7, 7, 4, 0, 0, 0, 0, 0, 9, 9]) (by decide +kernel) (by decide +kernel)
      (by decide +kernel)).1⟩

/-- **Out of the header.** A record-route option of 3 octets at the end of a header of 24 puts its
address into octets 23 to 26; and the length of an option in the last octet of the header is taken
from the payload. -/
theorem options_escape :
    (ipDooptions loneHost (toLoneHost 6 [7, 3, 4, 0, 0, 0, 0, 0]) ()).mem 26 = 2 ∧
      toLoneHost 6 [7, 3, 4, 0, 0, 0, 0, 0] 26 = 0 ∧
      (∀ i < ipHlen (toLoneHost 6 [1, 1, 1, 130, 1]),
        toLoneHost 6 [1, 1, 1, 130, 1] i = toLoneHost 6 [1, 1, 1, 130, 0] i) ∧
      (ipDooptions loneHost (toLoneHost 6 [1, 1, 1, 130, 1]) ()).verdict = .accepted ∧
      (ipDooptions loneHost (toLoneHost 6 [1, 1, 1, 130, 0]) ()).verdict
        = .rejected icmpParamprob 24 := by
  decide +kernel

end Anp
