import Anp.Lib.Lists
import Anp.Lib.Runs
import Anp.Tcp.Var
import Mathlib.Data.List.Count
import Mathlib.Logic.Function.Basic

/-!
# Promisc — promiscuous mode

`ifpromisc`, `bpf_detachd`, `bpf_setif`, `bpfclose` and `BIOCPROMISC` of `net/bpf.c`, and what
sets `IFF_UP` and `IFF_PROMISC` elsewhere. `none` is the panic of `bpf_detachd`.
-/

namespace Anp

open Runs List

/-- `IFF_UP`, `IFF_PROMISC` and `if_pcount`. -/
structure PromIf where
  up : Bool := false
  promisc : Bool := false
  ifPcount : Int := 0
  deriving DecidableEq

variable {ifp : PromIf} {n : Nat} {rc : Option Errno}

/-- `rc` is what the `if_ioctl` of the driver returns. -/
def ifpromisc (ifp : PromIf) (pswitch : Bool) (rc : Option Errno) : PromIf × Option Errno :=
  if ifp.up = false then (ifp, some .enetdown)
  else if pswitch then
    if ifp.ifPcount ≠ 0 then ({ ifp with ifPcount := ifp.ifPcount + 1 }, none)
    else ({ ifp with ifPcount := ifp.ifPcount + 1, promisc := true }, rc)
  else if 0 < ifp.ifPcount - 1 then ({ ifp with ifPcount := ifp.ifPcount - 1 }, none)
  else ({ ifp with ifPcount := ifp.ifPcount - 1, promisc := false }, rc)

/-- A descriptor has its interface (`bd_bif`) and `bd_promisc`, which is 0 without one. The list
`bif_dlist` of an interface is that of the descriptors that have it. -/
structure PromSys where
  ifs : Nat → PromIf := fun _ => {}
  ds : List (Option (Nat × Bool))

variable {s : PromSys} {k : Nat} {d : Option (Nat × Bool)}

/-- `bpf_detachd`, if the descriptor is attached, and then `new` in its place. -/
def bpfDetachd (s : PromSys) (k : Nat) (rc : Option Errno) (new : Option (Nat × Bool)) :
    Option PromSys :=
  match s.ds[k]?.join with
  | some (i, true) =>
    let r := ifpromisc (s.ifs i) false rc
    if r.2 = none then some ⟨Function.update s.ifs i r.1, s.ds.set k new⟩ else none
  | _ => some { s with ds := s.ds.set k new }

inductive PromOp where
  | biocpromisc (k : Nat) (rc : Option Errno)
  -- `bufs`: there is memory for the buffers
  | biocsetif (k i : Nat) (bufs : Bool) (rc : Option Errno)
  | close (k : Nat) (rc : Option Errno)
  -- `if_up`, `if_down`, and the drivers themselves
  | up (i : Nat) (b : Bool)
  -- `SIOCSIFFLAGS`; `IFF_PROMISC` is not in `IFF_CANTCHANGE`
  | siocsifflags (i : Nat) (up promisc : Bool)

/-- The interfaces and the descriptors. -/
def promStep (s : PromSys) : PromOp → Option PromSys
  | .biocpromisc k rc =>
    match s.ds[k]?.join with
    | some (i, false) =>
      let r := ifpromisc (s.ifs i) true rc
      some ⟨Function.update s.ifs i r.1, if r.2 = none then s.ds.set k (some (i, true)) else s.ds⟩
    | _ => some s
  | .biocsetif k i bufs rc =>
    if (s.ifs i).up ∧ bufs ∧ ∀ x ∈ s.ds[k]?.join, x.1 ≠ i then bpfDetachd s k rc (some (i, false))
    else some s
  | .close k rc => bpfDetachd s k rc none
  | .up i b => some { s with ifs := Function.update s.ifs i { s.ifs i with up := b } }
  | .siocsifflags i up promisc =>
    some { s with ifs := Function.update s.ifs i { s.ifs i with up, promisc } }

def promNext (s : PromSys) (op : PromOp) : PromSys := (promStep s op).getD s

/-- Descriptors attached to an interface with `bd_promisc` set. -/
def listeners (ds : List (Option (Nat × Bool))) (i : Nat) : Nat := ds.count (some (i, true))

def PromIf.Right (ifp : PromIf) (n : Nat) : Prop := ifp.ifPcount = n ∧ (ifp.promisc = true ↔ 0 < n)

/-- A listener leaves an interface that is up, and the driver does not refuse the last one. -/
def PromSys.MayLeave (s : PromSys) (k : Nat) (rc : Option Errno) : Prop :=
  ∀ x ∈ s.ds[k]?.join, x.2 = true → (s.ifs x.1).up = true ∧ ((s.ifs x.1).ifPcount ≤ 1 → rc = none)

/-- The driver does not refuse the first listener of an interface; `SIOCSIFFLAGS` keeps
`IFF_PROMISC`. -/
def PromCond (s : PromSys) : PromOp → Prop
  | .biocpromisc k rc => ∀ x ∈ s.ds[k]?.join, x.2 = false → (s.ifs x.1).up = true →
      (s.ifs x.1).ifPcount = 0 → rc = none
  | .biocsetif k i bufs rc =>
    ((s.ifs i).up ∧ bufs ∧ ∀ x ∈ s.ds[k]?.join, x.1 ≠ i) → s.MayLeave k rc
  | .close k rc => s.MayLeave k rc
  | .up _ _ => True
  | .siocsifflags i _ promisc => promisc = (s.ifs i).promisc

def PromSys.Counted (s : PromSys) : Prop := ∀ i, (s.ifs i).Right (listeners s.ds i)

theorem ifpromisc_on (h : ifp.Right n) (hup : ifp.up = true) (hrc : ifp.ifPcount = 0 → rc = none) :
    (ifpromisc ifp true rc).2 = none ∧ (ifpromisc ifp true rc).1.Right (n + 1) := by
  obtain ⟨hn, hp⟩ := h
  rw [ifpromisc, if_neg (by simp [hup]), if_pos rfl]
  split
  · refine ⟨rfl, by simp [hn], hp.trans ?_⟩
    omega
  · next h0 => exact ⟨hrc (not_not.mp h0), by simp [hn], by simp⟩

theorem ifpromisc_off (h : ifp.Right (n + 1)) (hup : ifp.up = true)
    (hrc : ifp.ifPcount ≤ 1 → rc = none) :
    (ifpromisc ifp false rc).2 = none ∧ (ifpromisc ifp false rc).1.Right n := by
  obtain ⟨hn, hp⟩ := h
  rw [ifpromisc, if_neg (by simp [hup]), if_neg Bool.false_ne_true]
  split
  · refine ⟨rfl, by simp [hn], hp.trans ?_⟩
    omega
  · exact ⟨hrc (by omega), by simp [hn], iff_of_false Bool.false_ne_true (by omega)⟩

theorem right_update {ifs : Nat → PromIf} {i : Nat} {f : Nat → Nat} (hi : ifp.Right (f i))
    (h : ∀ j, j ≠ i → (ifs j).Right (f j)) (j : Nat) :
    (Function.update ifs i ifp j).Right (f j) := by
  by_cases hj : j = i
  · rw [hj, Function.update_self]
    exact hi
  · rw [Function.update_of_ne hj]
    exact h j hj

theorem listeners_set (hk : s.ds[k]? = some d) (new : Option (Nat × Bool)) (i : Nat) :
    listeners (s.ds.set k new) i + listeners [d] i = listeners s.ds i + listeners [new] i := by
  obtain ⟨a, b, heq, hset⟩ := Lists.exists_set_eq hk
  rw [hset, heq]
  simp only [listeners, count_append, count_cons, count_nil]
  omega

theorem listeners_one (i j : Nat) (b : Bool) :
    listeners [some (i, b)] j = if i = j ∧ b = true then 1 else 0 := by
  simp [listeners, count_singleton]

theorem counted_detachd (h : s.Counted) (hl : s.MayLeave k rc) {new : Option (Nat × Bool)}
    (hnew : ∀ i, listeners [new] i = 0) : ∃ s', bpfDetachd s k rc new = some s' ∧ s'.Counted := by
  rw [bpfDetachd]
  split
  · next i hd =>
    obtain ⟨hup, hrc⟩ := hl _ hd rfl
    have hset := listeners_set (Option.join_eq_some_iff.mp hd) new
    simp only [hnew, listeners_one, and_true] at hset
    have hi := h i
    rw [show listeners s.ds i = listeners (s.ds.set k new) i + 1 by simpa using (hset i).symm] at hi
    obtain ⟨hok, hright⟩ := ifpromisc_off hi hup hrc
    refine ⟨_, if_pos hok, right_update hright fun j hj => ?_⟩
    have hj' := hset j
    rw [if_neg (Ne.symm hj)] at hj'
    exact Nat.add_right_cancel hj' ▸ h j
  · next hd =>
    refine ⟨_, rfl, fun j => ?_⟩
    cases hk : s.ds[k]? with
    | none =>
      rw [set_eq_of_length_le (getElem?_eq_none_iff.mp hk)]
      exact h j
    | some d =>
      have hd' : listeners [d] j = 0 :=
        count_eq_zero.mpr fun he => hd j (by rw [hk, ← mem_singleton.mp he]; rfl)
      have hset := listeners_set hk new j
      rw [hnew, hd'] at hset
      exact Nat.add_right_cancel hset ▸ h j

theorem counted_step (h : s.Counted) {op : PromOp} (hc : PromCond s op) :
    ∃ s', promStep s op = some s' ∧ s'.Counted := by
  cases op with
  | biocpromisc k rc =>
    rw [promStep]
    split
    · next i hd =>
      by_cases hup : (s.ifs i).up = true
      · obtain ⟨hok, hright⟩ := ifpromisc_on (h i) hup (hc _ hd rfl hup)
        have hset := listeners_set (Option.join_eq_some_iff.mp hd) (some (i, true))
        simp only [listeners_one, and_true, Bool.false_eq_true, and_false, if_false, Nat.add_zero] at hset
        refine ⟨_, rfl, ?_⟩
        rw [if_pos hok]
        refine right_update (f := listeners (s.ds.set k (some (i, true)))) ?_ fun j hj => ?_
        · rw [hset, if_pos rfl]
          exact hright
        · rw [hset, if_neg (Ne.symm hj)]
          exact h j
      · rw [ifpromisc, if_pos (Bool.eq_false_iff.mpr hup)]
        exact ⟨_, rfl, right_update (h i) fun j _ => h j⟩
    · exact ⟨s, rfl, h⟩
  | biocsetif k i bufs rc =>
    rw [promStep]
    split
    · next hgo => exact counted_detachd h (hc hgo) fun j => by simp [listeners_one]
    · exact ⟨s, rfl, h⟩
  | close k rc => exact counted_detachd h hc fun j => rfl
  | up i b => exact ⟨_, rfl, right_update (h i) fun j _ => h j⟩
  | siocsifflags i up promisc =>
    obtain rfl : promisc = (s.ifs i).promisc := hc
    exact ⟨_, rfl, right_update (h i) fun j _ => h j⟩

/-- **Promiscuous mode.** In every run that meets the condition `if_pcount` is the number of
listeners, `IFF_PROMISC` is set exactly if there is one, and no step panics. -/
theorem promisc_counted {s : PromSys}
    (h : Reach (fun s => ∃ n, s = { ds := List.replicate n none }) (By promNext PromCond) s) :
    (∀ i, (s.ifs i).ifPcount = listeners s.ds i ∧
      ((s.ifs i).promisc = true ↔ 0 < listeners s.ds i)) ∧
      ∀ op, PromCond s op → (promStep s op).isSome := by
  have hs : s.Counted := by
    refine h.ops (I := PromSys.Counted) ?_ fun s op hs hc => ?_
    · rintro s ⟨n, rfl⟩ i
      simp [listeners, PromIf.Right, count_replicate]
    · obtain ⟨s', hstep, hs'⟩ := counted_step hs hc
      rw [promNext, hstep]
      exact hs'
  refine ⟨hs, fun op hc => ?_⟩
  obtain ⟨s', hstep, -⟩ := counted_step hs hc
  rw [hstep]
  rfl

def promRun (rc : Option Errno) : PromSys :=
  [.up 0 true, .biocsetif 0 0 true none, .biocpromisc 0 rc].foldl promNext { ds := [none] }

theorem promisc_counted_one : ((promRun none).ifs 0).ifPcount = listeners (promRun none).ds 0 ∧
    listeners (promRun none).ds 0 = 1 := by
  refine ⟨((promisc_counted (Reach.foldl (Reach.start ⟨1, rfl⟩) ?_)).1 0).1, by decide⟩
  exact ⟨trivial, fun _ => nofun, fun _ _ _ _ _ => rfl, trivial⟩

/-- The driver refuses: `if_pcount` is 1 and `IFF_PROMISC` is set, but nobody listens. -/
theorem promisc_refused : ((promRun (some .einval)).ifs 0).ifPcount = 1 ∧
    ((promRun (some .einval)).ifs 0).promisc = true ∧ listeners (promRun (some .einval)).ds 0 = 0 := by
  decide

end Anp
