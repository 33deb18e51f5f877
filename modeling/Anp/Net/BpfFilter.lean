import Anp.Lib.Machine
import Mathlib.Data.List.Basic

/-!
# BpfFilter — the packet filter machine and its validator

`net/bpf_filter.c`: `bpf_filter` and `bpf_validate`.
-/

namespace Anp

open Machine List

/-! ## Instructions -/

structure BpfInsn where
  code : BitVec 16
  jt : BitVec 8 := 0
  jf : BitVec 8 := 0
  k : BitVec 32 := 0
  deriving DecidableEq, Repr

inductive BpfSize where
  | w | h | b
  deriving DecidableEq, Repr

/-- `BPF_K` and `BPF_X`. -/
inductive BpfSrc where
  | k | x
  deriving DecidableEq, Repr

inductive BpfAlu where
  | add | sub | mul | div | and | or | lsh | rsh
  deriving DecidableEq, Repr

inductive BpfCond where
  | jgt | jge | jeq | jset
  deriving DecidableEq, Repr

inductive BpfOp where
  | retK
  | retA
  /-- `BPF_LD` from the packet, `BPF_IND` or `BPF_ABS`. -/
  | ld (size : BpfSize) (ind : Bool)
  | ldLen
  | ldxLen
  | ldxMsh
  | ldImm
  | ldxImm
  | ldMem
  | ldxMem
  | st
  | stx
  | ja
  | jmp (c : BpfCond) (src : BpfSrc)
  | alu (o : BpfAlu) (src : BpfSrc)
  | neg
  | tax
  | txa
  deriving DecidableEq, Repr

/-- The cases of the `switch`. -/
def bpfDecode (code : Nat) : Option BpfOp :=
  match code with
  | 0x06 => some .retK
  | 0x16 => some .retA
  | 0x20 => some (.ld .w false)
  | 0x28 => some (.ld .h false)
  | 0x30 => some (.ld .b false)
  | 0x80 => some .ldLen
  | 0x81 => some .ldxLen
  | 0x40 => some (.ld .w true)
  | 0x48 => some (.ld .h true)
  | 0x50 => some (.ld .b true)
  | 0xb1 => some .ldxMsh
  | 0x00 => some .ldImm
  | 0x01 => some .ldxImm
  | 0x60 => some .ldMem
  | 0x61 => some .ldxMem
  | 0x02 => some .st
  | 0x03 => some .stx
  | 0x05 => some .ja
  | 0x25 => some (.jmp .jgt .k)
  | 0x35 => some (.jmp .jge .k)
  | 0x15 => some (.jmp .jeq .k)
  | 0x45 => some (.jmp .jset .k)
  | 0x2d => some (.jmp .jgt .x)
  | 0x3d => some (.jmp .jge .x)
  | 0x1d => some (.jmp .jeq .x)
  | 0x4d => some (.jmp .jset .x)
  | 0x0c => some (.alu .add .x)
  | 0x1c => some (.alu .sub .x)
  | 0x2c => some (.alu .mul .x)
  | 0x3c => some (.alu .div .x)
  | 0x5c => some (.alu .and .x)
  | 0x4c => some (.alu .or .x)
  | 0x6c => some (.alu .lsh .x)
  | 0x7c => some (.alu .rsh .x)
  | 0x04 => some (.alu .add .k)
  | 0x14 => some (.alu .sub .k)
  | 0x24 => some (.alu .mul .k)
  | 0x34 => some (.alu .div .k)
  | 0x54 => some (.alu .and .k)
  | 0x44 => some (.alu .or .k)
  | 0x64 => some (.alu .lsh .k)
  | 0x74 => some (.alu .rsh .k)
  | 0x84 => some .neg
  | 0x07 => some .tax
  | 0x87 => some .txa
  | _ => none

/-- What is loaded from the packet: the width, and whether it is a `BPF_IND` load; `msh` is
`BPF_LDX|BPF_MSH|BPF_B`. -/
inductive BpfKind where
  | pkt (size : BpfSize) (ind : Bool)
  | msh
  deriving DecidableEq, Repr

/-! ## The machine -/

def bpfMemwords : Nat := 16

/-- `A`, `X` and `mem`. None of them is initialised. -/
structure BpfRegs where
  a : BitVec 32 := 0
  x : BitVec 32 := 0
  mem : Fin bpfMemwords → BitVec 32 := fun _ => 0

/-- What an instruction does. `fault` is an instruction fetched outside the program, an index
outside `mem`, or a division by zero. -/
inductive BpfAct where
  | ret (v : BitVec 32)
  | next (pc : Nat) (s : BpfRegs)
  | fault

/-- Where C does not define a shift, by 32 or more, all bits are shifted out. -/
def BpfAlu.eval (o : BpfAlu) (a b : BitVec 32) : BitVec 32 :=
  match o with
  | .add => a + b
  | .sub => a - b
  | .mul => a * b
  | .div => a / b
  | .and => a &&& b
  | .or => a ||| b
  | .lsh => a <<< b
  | .rsh => a >>> b

def BpfCond.eval (c : BpfCond) (a b : BitVec 32) : Bool :=
  match c with
  | .jgt => decide (b.toNat < a.toNat)
  | .jge => decide (b.toNat ≤ a.toNat)
  | .jeq => a == b
  | .jset => a &&& b != 0

def BpfSrc.eval (src : BpfSrc) (p : BpfInsn) (s : BpfRegs) : BitVec 32 :=
  match src with
  | .k => p.k
  | .x => s.x

/-- `pc + pc->k`, counted in instructions of 8 octets in an address space of 32 bits. -/
def bpfJump (pc : Nat) (k : BitVec 32) : Nat := ((pc + 1 + k.toInt) % 536870912).toNat

section

variable (ld : BpfKind → BitVec 32 → Option (BitVec 32)) (wirelen : BitVec 32)

def bpfExec (p : BpfInsn) (pc : Nat) (s : BpfRegs) : BpfOp → BpfAct
  | .retK => .ret p.k
  | .retA => .ret s.a
  | .ld size ind =>
    match ld (.pkt size ind) (if ind then s.x + p.k else p.k) with
    | none => .ret 0
    | some v => .next (pc + 1) { s with a := v }
  | .ldLen => .next (pc + 1) { s with a := wirelen }
  | .ldxLen => .next (pc + 1) { s with x := wirelen }
  | .ldxMsh =>
    match ld .msh p.k with
    | none => .ret 0
    | some v => .next (pc + 1) { s with x := (v &&& 0xf) <<< 2 }
  | .ldImm => .next (pc + 1) { s with a := p.k }
  | .ldxImm => .next (pc + 1) { s with x := p.k }
  | .ldMem =>
    if h : p.k.toNat < bpfMemwords then .next (pc + 1) { s with a := s.mem ⟨p.k.toNat, h⟩ }
    else .fault
  | .ldxMem =>
    if h : p.k.toNat < bpfMemwords then .next (pc + 1) { s with x := s.mem ⟨p.k.toNat, h⟩ }
    else .fault
  | .st =>
    if p.k.toNat < bpfMemwords then
      .next (pc + 1) { s with mem := fun i => if i.val = p.k.toNat then s.a else s.mem i }
    else .fault
  | .stx =>
    if p.k.toNat < bpfMemwords then
      .next (pc + 1) { s with mem := fun i => if i.val = p.k.toNat then s.x else s.mem i }
    else .fault
  | .ja => .next (bpfJump pc p.k) s
  | .jmp c src =>
    .next (pc + 1 + (if c.eval s.a (src.eval p s) then p.jt else p.jf).toNat) s
  | .alu o src =>
    if o = .div ∧ src.eval p s = 0 then if src = .x then .ret 0 else .fault
    else .next (pc + 1) { s with a := o.eval s.a (src.eval p s) }
  | .neg => .next (pc + 1) { s with a := -s.a }
  | .tax => .next (pc + 1) { s with x := s.a }
  | .txa => .next (pc + 1) { s with a := s.x }

/-- One instruction. What a load finds in the packet is a parameter (`ld`), `none` for `return 0`. -/
def bpfStep (f : List BpfInsn) (pc : Nat) (s : BpfRegs) : BpfAct :=
  match f[pc]? with
  | none => .fault
  | some p =>
    match bpfDecode p.code.toNat with
    | none => .ret 0
    | some op => bpfExec ld wirelen p pc s op

inductive BpfEnd where
  | ret (v : BitVec 32)
  | fault
  | more
  deriving DecidableEq, Repr

/-- The loop of `bpf_filter`, at most `n` rounds of it. -/
def bpfRun (f : List BpfInsn) : Nat → Nat → BpfRegs → BpfEnd
  | 0, _, _ => .more
  | n + 1, pc, s =>
    match bpfStep ld wirelen f pc s with
    | .ret v => .ret v
    | .fault => .fault
    | .next pc s => bpfRun f n pc s

end

/-! ## `bpf_validate` -/

def bpfClass (p : BpfInsn) : Nat := p.code.toNat % 8

def bpfInsnValid (len i : Nat) (p : BpfInsn) : Bool :=
  let code := p.code.toNat
  let jump :=
    if bpfClass p = 5 then
      if code / 16 % 16 = 0 then decide (int32 (i + 1 + p.k.toInt) < len)
      else decide (i + 1 + p.jt.toNat < len) && decide (i + 1 + p.jf.toNat < len)
    else true
  let mem :=
    if bpfClass p = 2 ∨ (bpfClass p = 0 ∧ code / 32 % 8 = 3) then
      decide (p.k.toInt < bpfMemwords) && decide (0 ≤ p.k.toInt)
    else true
  jump && mem && !(decide (code = 0x34) && decide (p.k = 0))

/-- `bpf_validate(f, len)`. For an empty program the last test reads what stands before it in
memory. -/
def bpfValidate (before : BpfInsn) (f : List BpfInsn) : Bool :=
  (f.zipIdx.all fun x => bpfInsnValid f.length x.2 x.1) &&
    decide (bpfClass (f.getLast?.getD before) = 6)

def bpfMaxinsns : Nat := 512

def bpfSetf (before : BpfInsn) (f : List BpfInsn) : Bool :=
  decide (f.length ≤ bpfMaxinsns) && bpfValidate before f

/-! ## Accepted programs -/

def BpfOp.code : BpfOp → Nat
  | .retK => 0x06
  | .retA => 0x16
  | .ld .w ind => if ind then 0x40 else 0x20
  | .ld .h ind => if ind then 0x48 else 0x28
  | .ld .b ind => if ind then 0x50 else 0x30
  | .ldLen => 0x80
  | .ldxLen => 0x81
  | .ldxMsh => 0xb1
  | .ldImm => 0x00
  | .ldxImm => 0x01
  | .ldMem => 0x60
  | .ldxMem => 0x61
  | .st => 0x02
  | .stx => 0x03
  | .ja => 0x05
  | .jmp c src =>
    (match c with | .jgt => 0x25 | .jge => 0x35 | .jeq => 0x15 | .jset => 0x45) +
      (match src with | .k => 0 | .x => 8)
  | .alu o src =>
    (match o with
      | .add => 0x04 | .sub => 0x14 | .mul => 0x24 | .div => 0x34
      | .or => 0x44 | .and => 0x54 | .lsh => 0x64 | .rsh => 0x74) +
      (match src with | .k => 0 | .x => 8)
  | .neg => 0x84
  | .tax => 0x07
  | .txa => 0x87

theorem bpfDecode_code {code : Nat} {op : BpfOp} (h : bpfDecode code = some op) :
    code = op.code := by
  unfold bpfDecode at h
  split at h <;> cases h <;> rfl

/-- The instruction leads on to a later one, or ends the run. -/
def BpfAct.Forward (len pc : Nat) : BpfAct → Prop
  | .ret _ => True
  | .next pc' _ => pc < pc' ∧ pc' < len
  | .fault => False

/-- What `bpf_validate` does not check: a `BPF_JA` backwards or out of the program, and the index of
`BPF_STX` and `BPF_LDX|BPF_MEM`. -/
structure BpfInsn.Ok (len i : Nat) (p : BpfInsn) : Prop where
  ja : p.code.toNat = 0x05 → i < bpfJump i p.k ∧ bpfJump i p.k < len
  mem : p.code.toNat = 0x03 ∨ p.code.toNat = 0x61 → p.k.toNat < bpfMemwords

/-- From every instruction of the program the run goes forward. -/
def BpfSound (f : List BpfInsn) : Prop :=
  f ≠ [] ∧ ∀ ld wirelen pc s, pc < f.length → (bpfStep ld wirelen f pc s).Forward f.length pc

section

variable {before p : BpfInsn} {f : List BpfInsn} {pc : Nat}

theorem bpfValidate_insn (h : bpfValidate before f = true) (hp : f[pc]? = some p) :
    bpfInsnValid f.length pc p = true := by
  rw [bpfValidate, Bool.and_eq_true] at h
  exact all_eq_true.mp h.1 (p, pc) (mem_zipIdx_iff_getElem?.mpr hp)

theorem bpfValidate_last (h : bpfValidate before f = true) (hp : f[pc]? = some p)
    (hlast : f.length ≤ pc + 1) : bpfClass p = 6 := by
  rw [bpfValidate, Bool.and_eq_true, decide_eq_true_eq] at h
  have hlt : pc < f.length := (List.getElem?_eq_some_iff.mp hp).1
  have hget : f.getLast? = some p := by
    rw [getLast?_eq_getElem?, ← hp]
    congr 1
    omega
  have hclass := h.2
  rw [hget] at hclass
  exact hclass

theorem toNat_lt_memwords {k : BitVec 32} (hlt : k.toInt < bpfMemwords) (hge : 0 ≤ k.toInt) :
    k.toNat < bpfMemwords := by
  rw [BitVec.toInt_eq_toNat_cond] at hlt hge
  split at hge <;> omega

variable {len : Nat}

theorem bpfInsnValid_jmp (h : bpfInsnValid len pc p = true) {c : BpfCond} {src : BpfSrc}
    (hcode : p.code.toNat = (BpfOp.jmp c src).code) :
    pc + 1 + p.jt.toNat < len ∧ pc + 1 + p.jf.toNat < len := by
  have hclass : bpfClass p = 5 := by
    rw [bpfClass, hcode]
    cases c <;> cases src <;> rfl
  have hop : p.code.toNat / 16 % 16 ≠ 0 := by
    rw [hcode]
    cases c <;> cases src <;> decide
  rw [bpfInsnValid] at h
  simp only [if_pos hclass, if_neg hop, Bool.and_eq_true, decide_eq_true_eq] at h
  exact h.1.1

theorem bpfInsnValid_mem (h : bpfInsnValid len pc p = true)
    (hcode : p.code.toNat = 0x02 ∨ p.code.toNat = 0x60) : p.k.toNat < bpfMemwords := by
  have hmem : bpfClass p = 2 ∨ (bpfClass p = 0 ∧ p.code.toNat / 32 % 8 = 3) := by
    rw [bpfClass]
    rcases hcode with hcode | hcode
    · exact .inl (by rw [hcode])
    · exact .inr (by rw [hcode]; exact ⟨rfl, rfl⟩)
  rw [bpfInsnValid] at h
  simp only [if_pos hmem, Bool.and_eq_true, decide_eq_true_eq] at h
  exact toNat_lt_memwords h.1.2.1 h.1.2.2

theorem bpfInsnValid_div (h : bpfInsnValid len pc p = true)
    (hcode : p.code.toNat = 0x34) : p.k ≠ 0 := by
  rw [bpfInsnValid] at h
  simp only [hcode, Bool.and_eq_true] at h
  intro hk
  rw [hk] at h
  exact absurd h.2 (by decide)

section

variable {ld : BpfKind → BitVec 32 → Option (BitVec 32)} {wirelen : BitVec 32} {s : BpfRegs}

/-- An instruction that is checked, here or by `bpf_validate`, goes forward. `hnext` says that the
program does not end with it. -/
theorem bpfExec_forward {op : BpfOp} (hcode : p.code.toNat = op.code)
    (hvalid : bpfInsnValid len pc p = true) (hok : p.Ok len pc)
    (hnext : op.code % 8 ≠ 6 → pc + 1 < len) :
    (bpfExec ld wirelen p pc s op).Forward len pc := by
  have hon {s' : BpfRegs} (h6 : op.code % 8 ≠ 6) : (BpfAct.next (pc + 1) s').Forward len pc :=
    ⟨Nat.lt_succ_self pc, hnext h6⟩
  cases op with
  | retK | retA => trivial
  | ld size ind =>
    rw [bpfExec]
    split
    · trivial
    · apply hon
      cases size <;> cases ind <;> decide
  | ldxMsh =>
    rw [bpfExec]
    split
    · trivial
    · exact hon (by decide)
  | ldLen | ldxLen | ldImm | ldxImm | neg | tax | txa => exact hon (by decide)
  | ldMem =>
    rw [bpfExec, dif_pos (bpfInsnValid_mem hvalid (.inr hcode))]
    exact hon (by decide)
  | st =>
    rw [bpfExec, if_pos (bpfInsnValid_mem hvalid (.inl hcode))]
    exact hon (by decide)
  | ldxMem =>
    rw [bpfExec, dif_pos (hok.mem (.inr hcode))]
    exact hon (by decide)
  | stx =>
    rw [bpfExec, if_pos (hok.mem (.inl hcode))]
    exact hon (by decide)
  | ja => exact hok.ja hcode
  | jmp c src =>
    obtain ⟨hjt, hjf⟩ := bpfInsnValid_jmp hvalid hcode
    rw [bpfExec]
    split
    · exact ⟨by omega, hjt⟩
    · exact ⟨by omega, hjf⟩
  | alu o src =>
    rw [bpfExec]
    split
    next hdiv =>
      split
      · trivial
      next hsrc =>
        -- a division by a constant is one by a constant other than 0
        cases src with
        | x => exact absurd rfl hsrc
        | k =>
          rw [hdiv.1] at hcode
          exact absurd hdiv.2 (bpfInsnValid_div hvalid hcode)
    next =>
      apply hon
      cases o <;> cases src <;> decide

theorem BpfInsn.Ok.of_forward (hp : f[pc]? = some p)
    (h : ∀ ld wirelen s, (bpfStep ld wirelen f pc s).Forward len pc) : p.Ok len pc := by
  have hstep := h (fun _ _ => none) 0 {}
  rw [bpfStep, hp] at hstep
  dsimp only at hstep
  constructor
  · intro hcode
    rw [hcode] at hstep
    exact hstep
  · rintro (hcode | hcode)
    all_goals
      rw [hcode] at hstep
      by_contra hge
      simp [bpfDecode, bpfExec, hge, BpfAct.Forward] at hstep

theorem bpfSound_iff (h : bpfValidate before f = true) :
    BpfSound f ↔ f ≠ [] ∧ ∀ (pc : Nat) (p : BpfInsn), f[pc]? = some p → p.Ok f.length pc := by
  constructor
  · rintro ⟨hne, hall⟩
    refine ⟨hne, fun pc p hp => BpfInsn.Ok.of_forward hp fun ld wirelen s => ?_⟩
    exact hall ld wirelen pc s (List.getElem?_eq_some_iff.mp hp).1
  · rintro ⟨hne, hok⟩
    refine ⟨hne, fun ld wirelen pc s hlt => ?_⟩
    have hp : f[pc]? = some f[pc] := getElem?_eq_getElem hlt
    rw [bpfStep, hp]
    dsimp only
    split
    · trivial
    next op hop =>
      have hcode := bpfDecode_code hop
      refine bpfExec_forward hcode (bpfValidate_insn h hp) (hok pc _ hp) fun h6 => ?_
      by_contra hge
      apply h6
      rw [← hcode]
      exact bpfValidate_last h hp (by omega)

/-- The program counter grows with each instruction, so there are as many rounds at most. -/
theorem BpfSound.run (h : BpfSound f) (n : Nat) (hpc : pc < f.length) (hn : f.length - pc ≤ n) :
    ∃ v, bpfRun ld wirelen f n pc s = .ret v := by
  induction n generalizing pc s with
  | zero => omega
  | succ n ih =>
    have hstep := h.2 ld wirelen pc s hpc
    rw [bpfRun]
    cases hact : bpfStep ld wirelen f pc s with
    | ret v => exact ⟨v, rfl⟩
    | fault =>
      rw [hact] at hstep
      exact hstep.elim
    | next pc' s' =>
      rw [hact] at hstep
      exact ih hstep.2 (by have := hstep.1; omega)

end

end

/-- An installed program goes forward exactly if it is not empty and has no instruction that the
checks miss; then it returns after at most as many instructions as it has, whatever it loads. -/
theorem bpf_accepted_runs (before : BpfInsn) (f : List BpfInsn) (h : bpfSetf before f = true) :
    (BpfSound f ↔ f ≠ [] ∧ ∀ (pc : Nat) (p : BpfInsn), f[pc]? = some p → p.Ok f.length pc) ∧
      (BpfSound f → ∀ ld wirelen s, ∃ v, bpfRun ld wirelen f f.length 0 s = .ret v) := by
  rw [bpfSetf, Bool.and_eq_true] at h
  refine ⟨bpfSound_iff h.2, fun hs ld wirelen s => ?_⟩
  exact hs.run f.length (length_pos_iff.mpr hs.1) (by omega)

/-- Accept packets with the type 0x0800 at offset 12. -/
def bpfIp : List BpfInsn :=
  [{ code := 0x28, k := 12 }, { code := 0x15, jf := 1, k := 0x800 }, { code := 0x06, k := 96 },
    { code := 0x06, k := 0 }]

theorem bpf_accepted_runs_ip :
    bpfSetf { code := 0 } bpfIp = true ∧
      ∀ ld wirelen s, ∃ v, bpfRun ld wirelen bpfIp 4 0 s = .ret v := by
  have hset : bpfSetf { code := 0 } bpfIp = true := by decide
  refine ⟨hset, ?_⟩
  have h := bpf_accepted_runs { code := 0 } bpfIp hset
  apply h.2
  refine h.1.mpr ⟨by decide, fun pc p hp => ?_⟩
  have hall : ∀ p ∈ bpfIp, p.code.toNat ≠ 0x05 ∧ p.code.toNat ≠ 0x03 ∧ p.code.toNat ≠ 0x61 := by
    decide
  obtain ⟨hja, hstx, hldx⟩ := hall p (mem_of_getElem? hp)
  exact ⟨fun h => absurd h hja, fun h => h.elim (absurd · hstx) (absurd · hldx)⟩

/-- A jump to itself and a store behind `mem` are accepted. -/
theorem bpf_accepted_loops :
    (bpfSetf { code := 0 } [{ code := 0x05, k := -1 }, { code := 0x06 }] = true ∧ ∀ n ld wirelen s,
        bpfRun ld wirelen [{ code := 0x05, k := -1 }, { code := 0x06 }] n 0 s = .more) ∧
    (bpfSetf { code := 0 } [{ code := 0x03, k := 16 }, { code := 0x06 }] = true ∧ ∀ ld wirelen s,
        bpfRun ld wirelen [{ code := 0x03, k := 16 }, { code := 0x06 }] 2 0 s = .fault) := by
  refine ⟨⟨by decide, fun n ld wirelen s => ?_⟩, by decide, fun ld wirelen s => rfl⟩
  induction n with
  | zero => rfl
  | succ n ih =>
    rw [bpfRun]
    exact ih

end Anp
