import Anp.Lib.Machine
import Anp.Net.Promisc

/-!
# BpfName — the names of interfaces in `net/bpf.c`

`bpf_ifname` writes the name of an interface for `BIOCGETIF`, `bpf_setif` reads one for `BIOCSETIF`.
A C string is the list of its characters, and memory from `ifr_name` on is a list.
-/

namespace Anp

open Machine List

structure BpfIfp where
  ifName : List Byte
  ifUnit : Int
  deriving DecidableEq, Repr

def bpfIfname (ifp : BpfIfp) (ifr : List Byte) : List Byte :=
  ifp.ifName ++ 0 :: ⟨BitVec.ofInt 8 (ifp.ifUnit + 48)⟩ :: 0 :: ifr.drop (ifp.ifName.length + 3)

/-- `unit = 10 * unit + *cp++ - '0'` up to the NUL. -/
def bpfUnit (c : Byte) (cs : List Byte) : Int :=
  (cs.takeWhile (· ≠ 0)).foldl (fun unit c => int32 (10 * unit + c.toBitVec.toInt - 48))
    (c.toNat - 48)

/-- The loop of `bpf_setif`, at the character behind one that is not NUL. -/
def bpfScan : List Byte → List Byte × Int
  | [] => ([], 0)
  | c :: cs =>
    if 48 ≤ c ∧ c ≤ 57 then ([], bpfUnit c cs)
    else if c = 0 then ([], 0)
    else (c :: (bpfScan cs).1, (bpfScan cs).2)

/-- The first character may be a digit. -/
def bpfParse : List Byte → List Byte × Int
  | [] => ([], 0)
  | c :: cs => if c = 0 then ([], 0) else (c :: (bpfScan cs).1, (bpfScan cs).2)

def BpfIfp.named (r : List Byte × Int) (ifp : Option BpfIfp) : Bool :=
  ifp.any fun ifp => r.2 = ifp.ifUnit ∧ ifp.ifName = r.1

inductive Setif where
  | enxio
  | enetdown
  | found (i : Nat)
  deriving DecidableEq, Repr

/-- `bpf_setif` for descriptor `k`; `l` are the `bif_ifp` of `bpf_iflist`, and `ifr_name` has 16
characters, the last of them set to NUL. -/
def bpfSetif (l : List (Option BpfIfp)) (s : PromSys) (k : Nat) (ifr : List Byte) (bufs : Bool)
    (rc : Option Errno) : Setif × Option PromSys :=
  match l.findIdx? (BpfIfp.named (bpfParse (ifr.take 15))) with
  | none => (.enxio, some s)
  | some i =>
    if (s.ifs i).up then (.found i, promStep s (.biocsetif k i bufs rc)) else (.enetdown, some s)

def Letter (c : Byte) : Prop := 65 ≤ c ∧ c ≤ 90 ∨ 97 ≤ c ∧ c ≤ 122
deriving Decidable

theorem Letter.plain {c : Byte} (h : Letter c) : ¬(48 ≤ c ∧ c ≤ 57) ∧ c ≠ 0 := by
  simp only [Letter, UInt8.le_iff_toNat_le, ne_eq, ← UInt8.toNat_inj] at *
  simp only [UInt8.reduceToNat] at *
  omega

theorem bpfScan_name {name : List Byte} (h : ∀ c ∈ name, Letter c) (r : List Byte) (n : Nat) :
    bpfScan ((name ++ 0 :: r).take n) = (name.take n, 0) := by
  induction name generalizing n with
  | nil => cases n <;> rfl
  | cons c cs ih =>
    cases n with
    | zero => rfl
    | succ n =>
      obtain ⟨hc, hcs⟩ := forall_mem_cons.mp h
      rw [cons_append, take_succ_cons, bpfScan, if_neg hc.plain.1, if_neg hc.plain.2, ih hcs]
      rfl

theorem bpfParse_name {name : List Byte} (h : ∀ c ∈ name, Letter c) (r : List Byte) :
    bpfParse ((name ++ 0 :: r).take 15) = (name.take 15, 0) := by
  cases name with
  | nil => rfl
  | cons c cs =>
    obtain ⟨hc, hcs⟩ := forall_mem_cons.mp h
    rw [cons_append, take_succ_cons, bpfParse, if_neg hc.plain.2, bpfScan_name hcs]
    rfl

/-- **The name of an interface**, for every list of interfaces and every descriptor. -/
theorem bpf_ifname_setif_iff (l : List (Option BpfIfp)) (s : PromSys) (i : Nat) (ifp : BpfIfp)
    (hi : l[i]? = some (some ifp)) (hup : (s.ifs i).up = true) (hname : ∀ c ∈ ifp.ifName, Letter c)
    (ifr : List Byte) (k : Nat) (bufs : Bool) (rc : Option Errno) :
    bpfSetif l s k (bpfIfname ifp ifr) bufs rc = (.found i, promStep s (.biocsetif k i bufs rc)) ↔
      ifp.ifUnit = 0 ∧ ifp.ifName.length ≤ 15 ∧ some ifp ∉ l.take i := by
  have hfound : bpfSetif l s k (bpfIfname ifp ifr) bufs rc =
      (.found i, promStep s (.biocsetif k i bufs rc)) ↔
        l.findIdx? (BpfIfp.named (ifp.ifName.take 15, 0)) = some i := by
    rw [bpfSetif, bpfIfname, bpfParse_name hname]
    generalize l.findIdx? _ = o
    cases o with
    | none => simp
    | some j =>
      dsimp only
      by_cases hj : j = i
      · simp [hj, hup]
      · split_ifs <;> simp [hj]
  have hself : BpfIfp.named (ifp.ifName.take 15, 0) (some ifp) = true ↔
      ifp.ifUnit = 0 ∧ ifp.ifName.length ≤ 15 := by
    rw [BpfIfp.named, Option.any_some, decide_eq_true_iff, eq_comm, eq_comm (a := ifp.ifName),
      take_eq_self_iff]
  obtain ⟨hlt, hget⟩ := List.getElem?_eq_some_iff.mp hi
  rw [hfound, findIdx?_eq_some_iff_getElem]
  constructor
  · rintro ⟨_, hn, hbefore⟩
    rw [hget] at hn
    obtain ⟨hu, hl⟩ := hself.mp hn
    refine ⟨hu, hl, fun hmem => ?_⟩
    obtain ⟨j, hj, hq⟩ := mem_take_iff_getElem.mp hmem
    exact hbefore j (by omega) (hq ▸ hn)
  · rintro ⟨hu, hl, hbefore⟩
    refine ⟨hlt, hget ▸ hself.mpr ⟨hu, hl⟩, fun j hj hn => hbefore ?_⟩
    refine mem_take_iff_getElem.mpr ⟨j, by omega, ?_⟩
    rw [take_of_length_le hl, ← hu] at hn
    cases hq : l[j] with
    | none => simp [hq, BpfIfp.named] at hn
    | some q =>
      obtain ⟨name, unit⟩ := q
      obtain ⟨h1, h2⟩ : ifp.ifUnit = unit ∧ name = ifp.ifName := by
        simpa [hq, BpfIfp.named] using hn
      rw [h2, ← h1]

/-- `sl0` and `lo0`, with `s0` before them. -/
def bpfThree : List (Option BpfIfp) := [some ⟨[115], 0⟩, some ⟨[115, 108], 0⟩, some ⟨[108, 111], 0⟩]

theorem bpf_ifname_setif_two :
    bpfSetif bpfThree { ifs := fun _ => { up := true }, ds := [none] } 0
      (bpfIfname ⟨[115, 108], 0⟩ []) true none =
        (.found 1, promStep { ifs := fun _ => { up := true }, ds := [none] }
          (.biocsetif 0 1 true none)) := by
  have hname : ∀ c ∈ ([115, 108] : List Byte), Letter c :=
    forall_mem_cons.mpr ⟨by decide, forall_mem_singleton.mpr (by decide)⟩
  exact (bpf_ifname_setif_iff bpfThree _ 1 _ rfl rfl hname [] 0 true none).mpr (by decide)

/-- The name of `sl1` selects `sl0`. -/
theorem bpf_ifname_other :
    ((bpfSetif [some ⟨[115, 108], 1⟩, some ⟨[115, 108], 0⟩]
      { ifs := fun _ => { up := true }, ds := [none] } 0 (bpfIfname ⟨[115, 108], 1⟩ []) true none).1) =
        .found 1 := by
  decide

end Anp
