import Anp.Lib.Lists
import Anp.Lib.Runs
import Anp.Kern.Mbuf
import Mathlib.Data.List.Count
import Mathlib.Data.List.Nodup

/-!
# Cluster — the reference counts of mbuf clusters

`cl_rc_insert`, `cl_rc_incr`, `cl_rc_decr`, `m_clalloc`, `m_copym`, `m_split` of
`kern/uipc_mbuf.c`, `MCLALLOC`, `MCLGET`, `MCLFREE`, `MFREE` of `sys/mbuf.h`, and the cluster
`net/if_sl.c` reads packets into. A cluster is named by its address; the bytes in it are not
modelled here, only who holds it.

`none` is a panic.
-/

namespace Anp

open Runs List Option

variable {cl : Nat}

/-! ## The table and the free list -/

/-- `cl_rc_tbl` with its entries (`cl_base`, `cl_refcnt`), and `mclfree`. -/
structure Mcl where
  clRcTbl : List (Nat × UInt8) := []
  mclfree : List Nat := []
  deriving DecidableEq, Repr

variable {m : Mcl}

def Mcl.bases (m : Mcl) : List Nat := m.clRcTbl.map (·.1)

def clRcInsert (cl : Nat) (m : Mcl) : Mcl := { m with clRcTbl := m.clRcTbl ++ [(cl, 0)] }

/-- The first entry for `cl` is changed by `f`; `none` if there is none. -/
def clRcUpdate (f : UInt8 → UInt8) (cl : Nat) :
    List (Nat × UInt8) → Option (List (Nat × UInt8) × UInt8)
  | [] => none
  | e :: es =>
    if e.1 = cl then some ((e.1, f e.2) :: es, f e.2)
    else (clRcUpdate f cl es).map fun r => (e :: r.1, r.2)

def clRcIncr (cl : Nat) (m : Mcl) : Option Mcl :=
  (clRcUpdate (· + 1) cl m.clRcTbl).map fun r => { m with clRcTbl := r.1 }

/-- `cl_rc_decr`, which returns the new count. -/
def clRcDecr (cl : Nat) (m : Mcl) : Option (Mcl × UInt8) :=
  (clRcUpdate (· - 1) cl m.clRcTbl).map fun r => ({ m with clRcTbl := r.1 }, r.2)

/-- `CLBYTES / MCLBYTES`: clusters in a page. -/
def mclPerPage : Nat := 4096 / mclbytes

/-- The loop of `m_clalloc`: `ncl` clusters from address `p` on. -/
def mClallocLoop : Nat → Nat → Mcl → Mcl
  | 0, _, m => m
  | ncl + 1, p, m =>
    mClallocLoop ncl (p + mclbytes) (clRcInsert p { m with mclfree := p :: m.mclfree })

/-- `m_clalloc(ncl, nowait)`; `p` is what `valloc` returns. -/
def mClalloc (ncl : Nat) (p : Option Nat) (m : Mcl) : Mcl :=
  match p with
  | none => m
  | some p => mClallocLoop (ncl * mclPerPage) p m

/-- `MCLALLOC`; `p` is what `valloc` returns if it is called. -/
def mclalloc (p : Option Nat) (m : Mcl) : Option (Mcl × Option Nat) :=
  let m := if m.mclfree = [] then mClalloc 1 p m else m
  match m.mclfree with
  | [] => some (m, none)
  | cl :: rest => (clRcIncr cl m).map fun m => ({ m with mclfree := rest }, some cl)

def mclFree (cl : Nat) (m : Mcl) : Option Mcl :=
  (clRcDecr cl m).map fun r => if r.2 = 0 then { r.1 with mclfree := cl :: r.1.mclfree } else r.1

/-- The table and the free list are right for the references `refs`. -/
structure Mcl.Counts (m : Mcl) (refs : List Nat) : Prop where
  nodup : m.bases.Nodup
  count : ∀ x ∈ m.clRcTbl, x.2.toNat = refs.count x.1
  known : ∀ cl ∈ refs, cl ∈ m.bases
  freeNodup : m.mclfree.Nodup
  free : ∀ cl, cl ∈ m.mclfree ↔ cl ∈ m.bases ∧ refs.count cl = 0
  aligned : ∀ cl ∈ m.bases, mclbytes ∣ cl

theorem Mcl.Counts.perm {refs refs' : List Nat} (h : m.Counts refs) (hp : refs.Perm refs') :
    m.Counts refs' where
  nodup := h.nodup
  count x hx := (h.count x hx).trans (hp.count_eq x.1)
  known cl hcl := h.known cl (hp.mem_iff.mpr hcl)
  freeNodup := h.freeNodup
  free cl := by rw [h.free, hp.count_eq]
  aligned := h.aligned

/-- An entry of a table without duplicates is the one that is found, and the only one that is
changed. -/
theorem clRcUpdate_spec (f : UInt8 → UInt8) {l : List (Nat × UInt8)} (hnd : (l.map (·.1)).Nodup)
    (hcl : cl ∈ l.map (·.1)) :
    ∃ c, (cl, c) ∈ l ∧ clRcUpdate f cl l =
      some (l.map fun x => if x.1 = cl then (x.1, f x.2) else x, f c) := by
  induction l with
  | nil => cases hcl
  | cons e es ih =>
    rw [map_cons, List.nodup_cons] at hnd
    by_cases he : e.1 = cl
    · have hes : (es.map fun x => if x.1 = cl then (x.1, f x.2) else x) = es := by
        conv_rhs => rw [← map_id es]
        refine map_congr_left fun x hx => if_neg fun hxcl => hnd.1 ?_
        rw [he, ← hxcl]
        exact mem_map_of_mem hx
      refine ⟨e.2, ?_, ?_⟩
      · rw [← he]
        exact mem_cons_self
      · rw [clRcUpdate, if_pos he, map_cons, if_pos he, hes]
    · rw [map_cons, mem_cons] at hcl
      obtain ⟨c, hc, heq⟩ := ih hnd.2 (hcl.resolve_left fun h => he h.symm)
      refine ⟨c, mem_cons_of_mem _ hc, ?_⟩
      rw [clRcUpdate, if_neg he, heq, map_cons, if_neg he]
      rfl

theorem bases_update (f : UInt8 → UInt8) (cl : Nat) (l : List (Nat × UInt8)) :
    (l.map fun x => if x.1 = cl then (x.1, f x.2) else x).map (·.1) = l.map (·.1) := by
  rw [List.map_map]
  refine map_congr_left fun x _ => ?_
  show (if x.1 = cl then (x.1, f x.2) else x).1 = x.1
  split <;> rfl

section

variable {refs : List Nat}

theorem Mcl.Counts.update (h : m.Counts refs) (hcl : cl ∈ m.bases)
    (f : UInt8 → UInt8) (refs' : List Nat)
    (hf : ∀ c : UInt8, c.toNat = refs.count cl → (f c).toNat = refs'.count cl)
    (hrest : ∀ b, b ≠ cl → refs.count b = refs'.count b) (hknown : ∀ b ∈ refs', b ∈ m.bases) :
    ∃ c tbl, c.toNat = refs.count cl ∧ clRcUpdate f cl m.clRcTbl = some (tbl, f c) ∧
      ∀ fl : List Nat, fl.Nodup → (∀ b, b ∈ fl ↔ b ∈ m.bases ∧ refs'.count b = 0) →
        ({ clRcTbl := tbl, mclfree := fl } : Mcl).Counts refs' := by
  obtain ⟨c, hc, heq⟩ := clRcUpdate_spec f h.nodup hcl
  refine ⟨c, _, h.count _ hc, heq, fun fl hfl hfree => ?_⟩
  have hb : (⟨m.clRcTbl.map fun x => if x.1 = cl then (x.1, f x.2) else x, fl⟩ : Mcl).bases =
      m.bases := bases_update f cl m.clRcTbl
  refine ⟨by rw [hb]; exact h.nodup, fun x hx => ?_, by rw [hb]; exact hknown, hfl,
    by rw [hb]; exact hfree, by rw [hb]; exact h.aligned⟩
  obtain ⟨y, hy, rfl⟩ := mem_map.mp hx
  split
  · next hycl =>
    rw [hycl]
    exact hf y.2 (hycl ▸ h.count y hy)
  · next hycl =>
    rw [← hrest y.1 hycl]
    exact h.count y hy

/-- What `valloc` returns: page aligned memory that no cluster lies in. -/
def Mcl.Fresh (m : Mcl) (ncl : Nat) (p : Option Nat) : Prop :=
  ∀ q ∈ p, mclbytes ∣ q ∧ ∀ cl ∈ m.bases, cl + mclbytes ≤ q ∨ q + ncl * mclPerPage * mclbytes ≤ cl
deriving Decidable

theorem counts_mClallocLoop (n : Nat) {p : Nat} (h : m.Counts refs)
    (ha : mclbytes ∣ p) (hfresh : ∀ cl ∈ m.bases, cl + mclbytes ≤ p ∨ p + n * mclbytes ≤ cl) :
    (mClallocLoop n p m).Counts refs := by
  induction n generalizing p m with
  | zero => exact h
  | succ n ih =>
    have hb : (clRcInsert p { m with mclfree := p :: m.mclfree }).bases = m.bases ++ [p] := by
      simp [Mcl.bases, clRcInsert]
    have hpos : 0 < mclbytes := by decide
    have hnew : p ∉ m.bases := fun hp => by
      rcases hfresh p hp with hlt | hle
      · omega
      · rw [Nat.succ_mul] at hle
        omega
    have hnone : refs.count p = 0 := count_eq_zero.mpr fun hp => hnew (h.known p hp)
    refine ih ?_ (Nat.dvd_add ha (Nat.dvd_refl _)) ?_
    · refine ⟨?_, ?_, ?_, ?_, ?_, ?_⟩
      · rw [hb]
        exact nodup_append.mpr ⟨h.nodup, nodup_singleton p, fun x hx y hy hxy => by
          rw [mem_singleton.mp hy] at hxy
          exact hnew (hxy ▸ hx)⟩
      · intro x hx
        rcases mem_append.mp hx with hx | hx
        · exact h.count x hx
        · rw [mem_singleton.mp hx, hnone]
          rfl
      · intro cl hcl
        rw [hb]
        exact mem_append_left _ (h.known cl hcl)
      · exact List.nodup_cons.mpr ⟨fun hp => hnew ((h.free p).mp hp).1, h.freeNodup⟩
      · intro cl
        rw [hb, mem_append, mem_singleton]
        show cl ∈ p :: m.mclfree ↔ _
        rw [mem_cons, h.free]
        constructor
        · rintro (rfl | ⟨h1, h2⟩)
          · exact ⟨.inr rfl, hnone⟩
          · exact ⟨.inl h1, h2⟩
        · rintro ⟨h1 | rfl, h2⟩
          · exact .inr ⟨h1, h2⟩
          · exact .inl rfl
      · intro cl hcl
        rw [hb, mem_append, mem_singleton] at hcl
        rcases hcl with hcl | rfl
        · exact h.aligned cl hcl
        · exact ha
    · intro cl hcl
      rw [hb, mem_append, mem_singleton] at hcl
      rcases hcl with hcl | rfl
      · rcases hfresh cl hcl with hlt | hle
        · left
          omega
        · right
          rw [Nat.succ_mul] at hle
          omega
      · exact .inl (Nat.le_refl _)

theorem counts_mClalloc {ncl : Nat} {p : Option Nat} (h : m.Counts refs)
    (hf : m.Fresh ncl p) : (mClalloc ncl p m).Counts refs := by
  cases p with
  | none => exact h
  | some q => exact counts_mClallocLoop _ h (hf q rfl).1 (hf q rfl).2

/-- **`MCLALLOC`.** It does not panic; the cluster it hands out has no holder, and the table is
right when its first holder is counted. -/
theorem counts_mclalloc {p : Option Nat} (h : m.Counts refs) (hf : m.Fresh 1 p) :
    ∃ m' cl, mclalloc p m = some (m', cl) ∧ m'.Counts (cl.toList ++ refs) ∧
      ∀ b ∈ cl, refs.count b = 0 := by
  have hm : (if m.mclfree = [] then mClalloc 1 p m else m).Counts refs := by
    split
    · exact counts_mClalloc h hf
    · exact h
  rw [mclalloc]
  generalize (if m.mclfree = [] then mClalloc 1 p m else m) = m1 at hm ⊢
  cases hfree : m1.mclfree with
  | nil => exact ⟨m1, none, rfl, hm, fun b hb => by cases hb⟩
  | cons cl rest =>
    have hin : cl ∈ m1.mclfree := hfree ▸ mem_cons_self
    obtain ⟨hcl, hzero⟩ := (hm.free cl).mp hin
    obtain ⟨c, tbl, -, heq, hnew⟩ := hm.update hcl (· + 1) (cl :: refs) (by
      intro c hc
      have hc0 : c = 0 := UInt8.toNat_inj.mp (hc.trans hzero)
      rw [hc0, count_cons_self, hzero]
      rfl) (fun b hb => by rw [count_cons_of_ne (Ne.symm hb)])
      (forall_mem_cons.mpr ⟨hcl, hm.known⟩)
    have hnd := hm.freeNodup
    rw [hfree, List.nodup_cons] at hnd
    refine ⟨_, some cl, by simp only [clRcIncr, heq, map_some], hnew rest hnd.2 ?_, ?_⟩
    · intro b
      have hfb := hm.free b
      rw [hfree, mem_cons] at hfb
      by_cases hbcl : b = cl
      · subst hbcl
        simp [hnd.1]
      · rw [count_cons_of_ne (Ne.symm hbcl), ← hfb]
        simp [hbcl]
    · rintro b ⟨⟩
      exact hzero

/-- **`MCLFREE`.** One holder less; without a holder the cluster goes to the free list. -/
theorem counts_mclFree (h : m.Counts (cl :: refs)) :
    ∃ m', mclFree cl m = some m' ∧ m'.Counts refs := by
  have hcl : cl ∈ m.bases := h.known cl mem_cons_self
  have hdec (c : UInt8) (hc : c.toNat = (cl :: refs).count cl) :
      (c - 1).toNat = refs.count cl := by
    rw [count_cons_self] at hc
    have hle : (1 : UInt8) ≤ c := by
      rw [UInt8.le_iff_toNat_le, hc]
      exact Nat.le_add_left _ _
    rw [UInt8.toNat_sub_of_le _ _ hle, hc]
    rfl
  obtain ⟨c, tbl, hc, heq, hnew⟩ := h.update hcl (· - 1) refs hdec
    (fun b hb => by rw [count_cons_of_ne (Ne.symm hb)])
    (fun b hb => h.known b (mem_cons_of_mem _ hb))
  have hnotfree : cl ∉ m.mclfree := fun hin => by
    have := ((h.free cl).mp hin).2
    rw [count_cons_self] at this
    omega
  have hzero : c - 1 = 0 ↔ refs.count cl = 0 := by
    rw [← hdec c hc, ← UInt8.toNat_inj]
    rfl
  have hother (b : Nat) (hbcl : b ≠ cl) : b ∈ m.mclfree ↔ b ∈ m.bases ∧ refs.count b = 0 := by
    rw [h.free, count_cons_of_ne (Ne.symm hbcl)]
  have hgo : mclFree cl m = some (if c - 1 = 0 then { clRcTbl := tbl, mclfree := cl :: m.mclfree }
      else { clRcTbl := tbl, mclfree := m.mclfree }) := by
    simp only [mclFree, clRcDecr, heq, map_some]
  refine ⟨_, hgo, ?_⟩
  split
  · next hlast =>
    refine hnew _ (List.nodup_cons.mpr ⟨hnotfree, h.freeNodup⟩) fun b => ?_
    rw [mem_cons]
    by_cases hbcl : b = cl
    · subst hbcl
      exact ⟨fun _ => ⟨hcl, hzero.mp hlast⟩, fun _ => .inl rfl⟩
    · rw [hother b hbcl]
      exact or_iff_right hbcl
  · next hlast =>
    refine hnew _ h.freeNodup fun b => ?_
    by_cases hbcl : b = cl
    · subst hbcl
      exact ⟨fun hin => absurd hin hnotfree, fun hno => absurd (hzero.mpr hno.2) hlast⟩
    · exact hother b hbcl

end

/-! ## Mbuf chains and the SLIP buffer -/

/-- What matters of an mbuf here: `m_ext.ext_buf` if `M_EXT` is set, `M_PKTHDR`, `m_len`. -/
structure ClMbuf where
  extBuf : Option Nat := none
  pkthdr : Bool := false
  mLen : Nat := 0
  deriving DecidableEq, Repr

/-- Chains of live mbufs, and `sc_ep - SLBUFSIZE` when the SLIP line is open. -/
structure ClSys where
  mcl : Mcl := {}
  chains : List (List ClMbuf) := []
  slBase : Option Nat := none
  deriving DecidableEq, Repr

variable {s : ClSys}

def ClSys.refs (s : ClSys) : List Nat := s.chains.flatten.filterMap (·.extBuf) ++ s.slBase.toList

def mFree (m : ClMbuf) (c : Mcl) : Option Mcl :=
  match m.extBuf with
  | none => some c
  | some cl => mclFree cl c

def mFreem : List ClMbuf → Mcl → Option Mcl
  | [], c => some c
  | m :: ms, c => (mFree m c).bind (mFreem ms)

inductive CopyEnd where
  | done
  | nospace
  | panic
  deriving DecidableEq, Repr

/-- The first loop of `m_copym`: skip `off` bytes. -/
def clSkip : List ClMbuf → Nat → Option (List ClMbuf × Nat)
  | ms, 0 => some (ms, 0)
  | [], _ + 1 => none
  | m :: ms, off => if off < m.mLen then some (m :: ms, off) else clSkip ms (off - m.mLen)

/-- The second loop: `avail` mbufs can be had. An mbuf with a cluster shares it: `cl_rc_tbl` is left
as it is, and `mclrefcnt[mtocl(..)]++`, a fault in `mCopym`, writes here what nobody reads. -/
def clCopyLoop : List ClMbuf → Nat → Nat → Nat → Bool → List ClMbuf × CopyEnd
  | [], _, len, _, _ => ([], if len = 0 ∨ len = mCopyall then .done else .panic)
  | _ :: _, _, 0, _, _ => ([], .done)
  | _ :: _, _, _ + 1, 0, _ => ([], .nospace)
  | m :: ms, off, len + 1, avail + 1, copyhdr =>
    let n := min (len + 1) (m.mLen - off)
    let r := clCopyLoop ms 0 (if len + 1 = mCopyall then len + 1 else len + 1 - n) avail false
    ({ extBuf := m.extBuf, pkthdr := copyhdr, mLen := n } :: r.1, r.2)

/-- `m_copym`: the copy (`[]` for 0), and what becomes of the counts. -/
def clCopym (m : List ClMbuf) (off0 len avail : Nat) (c : Mcl) : Option (List ClMbuf × Mcl) :=
  match clSkip m off0 with
  | none => none
  | some (ms, off) =>
    let copyhdr := off0 = 0 ∧ m.head?.any (·.pkthdr)
    match clCopyLoop ms off len avail copyhdr with
    | (top, .done) => some (top, c)
    | (top, .nospace) => (mFreem top c).map fun c => ([], c)
    | (_, .panic) => none

/-- The loop of `m_split`: what is before the mbuf to split, that mbuf, what is behind it, and
the bytes of it that stay. -/
def clSplitAt : List ClMbuf → Nat → Option (List ClMbuf × ClMbuf × List ClMbuf × Nat)
  | [], _ => none
  | m :: ms, len =>
    if m.mLen < len then
      (clSplitAt ms (len - m.mLen)).map fun r => (m :: r.1, r.2)
    else some ([], m, ms, len)

/-- `m_split`: the two parts; `none` when it returns 0 and has changed nothing. Text that a header
mbuf has no room for takes a second mbuf. -/
def clSplit (m0 : List ClMbuf) (len0 avail : Nat) : Option (List ClMbuf × List ClMbuf) :=
  match clSplitAt m0 len0 with
  | none => none
  | some (front, m, rest, len) =>
    let remain := m.mLen - len
    let kept := front ++ [{ m with mLen := len }]
    if m0.head?.any (·.pkthdr) then
      if avail = 0 then none
      else if m.extBuf.isSome then
        some (kept, { extBuf := m.extBuf, pkthdr := true, mLen := remain } :: rest)
      else if mhlen < remain then
        if avail = 1 then none
        else some (kept, { pkthdr := true } :: { mLen := remain } :: rest)
      else some (kept, { pkthdr := true, mLen := remain } :: rest)
    else if remain = 0 then some (front ++ [m], rest)
    else if avail = 0 then none
    else some (kept, { extBuf := m.extBuf, mLen := remain } :: rest)

/-- The operations; `p` is what `valloc` returns if it is called. -/
inductive ClOp where
  -- `MGET` or `MGETHDR`
  | mget (pkthdr : Bool)
  -- `MCLGET` for the first mbuf of a chain
  | mclget (i : Nat) (p : Option Nat)
  -- `m_free` of the first mbuf of a chain, `m_freem`
  | mfree (i : Nat)
  | mfreem (i : Nat)
  | mcopym (i off len avail : Nat)
  | msplit (i len avail : Nat)
  | mclalloc (ncl : Nat) (p : Option Nat)
  -- chains are linked and cut, and lengths set, with every mbuf kept
  | relink (chains : List (List ClMbuf))
  -- `slinit`, `sl_btom` for a packet at `sc_buf`, `slclose`
  | slinit (p : Option Nat)
  | slbtom (scBuf : Nat) (p : Option Nat)
  | slclose
  deriving DecidableEq, Repr

def mclget (m : ClMbuf) (p : Option Nat) (c : Mcl) : Option (ClMbuf × Mcl) :=
  (mclalloc p c).map fun r =>
    (match r.2 with | none => m | some cl => { m with extBuf := some cl }, r.1)

/-- What `valloc` may return, and what callers see to: `MCLGET` is for an mbuf without a cluster,
`sc_buf` points into the buffer, relinking loses no mbuf. -/
def ClSys.Allowed (s : ClSys) : ClOp → Prop
  | .mclget i p => s.mcl.Fresh 1 p ∧ ∀ m ∈ (s.chains.getD i []).head?, m.extBuf = none
  | .mclalloc ncl p => s.mcl.Fresh ncl p
  | .relink chains =>
    (chains.flatten.filterMap (·.extBuf)).Perm (s.chains.flatten.filterMap (·.extBuf))
  | .slinit p => s.mcl.Fresh 1 p
  | .slbtom scBuf p => s.mcl.Fresh 1 p ∧ ∀ b ∈ s.slBase, b ≤ scBuf ∧ scBuf < b + mclbytes
  | _ => True

instance ClSys.decidableAllowed (s : ClSys) (op : ClOp) : Decidable (s.Allowed op) :=
  match op with
  | .mclget _ _ | .slbtom _ _ => inferInstanceAs (Decidable (_ ∧ _))
  | .mclalloc _ _ | .slinit _ => inferInstanceAs (Decidable (Mcl.Fresh _ _ _))
  | .relink _ => inferInstanceAs (Decidable (Perm _ _))
  | .mget _ | .mfree _ | .mfreem _ | .mcopym .. | .msplit .. | .slclose => .isTrue trivial

def clDo (s : ClSys) : ClOp → Option ClSys
  | .mget pkthdr => some { s with chains := s.chains ++ [[{ pkthdr }]] }
  | .mclget i p =>
    match s.chains[i]? with
    | some (m :: ms) =>
      (mclget m p s.mcl).map fun r => { s with mcl := r.2, chains := s.chains.set i (r.1 :: ms) }
    | _ => some s
  | .mfree i =>
    match s.chains[i]? with
    | some (m :: ms) =>
      (mFree m s.mcl).map fun c => { s with mcl := c, chains := s.chains.set i ms }
    | _ => some s
  | .mfreem i =>
    (mFreem (s.chains.getD i []) s.mcl).map fun c =>
      { s with mcl := c, chains := s.chains.set i [] }
  | .mcopym i off len avail =>
    (clCopym (s.chains.getD i []) off len avail s.mcl).map fun r =>
      { s with mcl := r.2, chains := s.chains ++ [r.1] }
  | .msplit i len avail =>
    match clSplit (s.chains.getD i []) len avail with
    | none => some s
    | some (a, b) => some { s with chains := s.chains.set i a ++ [b] }
  | .mclalloc ncl p => some { s with mcl := mClalloc ncl p s.mcl }
  | .relink chains => some { s with chains }
  | .slinit p =>
    if s.slBase = none then
      (mclalloc p s.mcl).map fun r => { s with mcl := r.1, slBase := r.2 }
    else some s
  | .slbtom scBuf p =>
    match s.slBase with
    | none => some s
    | some _ =>
      (mclalloc p s.mcl).map fun r =>
        match r.2 with
        -- no cluster: the mbuf is freed again
        | none => { s with mcl := r.1 }
        | some cl =>
          { s with
            mcl := r.1
            slBase := some cl
            -- `(int)sc->sc_buf &~ MCLOFSET`
            chains := s.chains ++ [[{ extBuf := some (scBuf / mclbytes * mclbytes),
                                      pkthdr := true }]] }
  | .slclose =>
    match s.slBase with
    | none => some s
    | some b => (mclFree b s.mcl).map fun c => { s with mcl := c, slBase := none }

/-- What is not allowed does not happen. -/
def clStep (s : ClSys) (op : ClOp) : Option ClSys :=
  if s.Allowed op then clDo s op else some s

/-! ### `m_copym` with the bytes -/

/-- An mbuf with its bytes, and the same mbuf as it counts here. -/
structure ClMbuf.Of (m : Mbuf) (c : ClMbuf) : Prop where
  ext : c.extBuf.isSome = m.mExt.isSome
  pkthdr : c.pkthdr = m.mPkthdr.isSome
  mLen : c.mLen = m.mLen

section

variable {m n : List Mbuf} {cs : List ClMbuf} {off len avail : Nat}

theorem clSkip_of (h : Forall₂ ClMbuf.Of m cs) {r : List Mbuf × Nat} (hr : mSkip m off = some r) :
    ∃ cs', clSkip cs off = some (cs', r.2) ∧ Forall₂ ClMbuf.Of r.1 cs' := by
  fun_induction mSkip m off generalizing cs with
  | case1 m =>
    cases hr
    exact ⟨cs, by rw [clSkip], h⟩
  | case2 => cases hr
  | case3 b m off hoff hlt =>
    cases hr
    cases h with | cons hb h
    exact ⟨_, by rw [clSkip, hb.mLen, if_pos hlt]; exact hoff, .cons hb h⟩
  | case4 b m off hoff hge ih =>
    cases h with | cons hb h
    rw [clSkip, hb.mLen, if_neg hge]
    · exact ih h hr
    · exact hoff

theorem clCopyLoop_of {hdr : Option (Int → Int)} (h : Forall₂ ClMbuf.Of m cs)
    (hhdr : hdr.isSome → ∀ b ∈ m.head?, b.mPkthdr.isSome)
    (hn : mCopymLoop hdr m off len avail = .ok n) :
    ∃ ns, clCopyLoop cs off len avail hdr.isSome = (ns, .done) ∧ Forall₂ ClMbuf.Of n ns := by
  induction h generalizing hdr off len avail n with
  | nil =>
    cases len with
    | zero => cases hn; exact ⟨[], rfl, .nil⟩
    | succ len =>
      rw [mCopymLoop] at hn
      split_ifs at hn with hall
      cases hn
      exact ⟨[], by rw [clCopyLoop, if_pos (.inr hall)], .nil⟩
  | @cons b c ms cs hb h ih =>
    cases len with
    | zero => rw [mCopymLoop] at hn; cases hn; exact ⟨[], rfl, .nil⟩
    | succ len =>
      cases avail with
      | zero => cases hn
      | succ avail =>
        rw [mCopymLoop] at hn
        cases hext : b.mExt with
        | some k => rw [hext] at hn; cases hn
        | none =>
          rw [hext, if_neg (by simp)] at hn
          dsimp only at hn
          generalize hrest : mCopymLoop none ms 0 _ avail = rest at hn
          cases rest with
          | ok n' =>
            cases hn
            obtain ⟨ns, hloop, hns⟩ := ih (fun h => by cases h) hrest
            rw [clCopyLoop, hb.mLen]
            refine ⟨_, congrArg (fun r => (_ :: r.1, r.2)) hloop, .cons ⟨?_, ?_, ?_⟩ hns⟩
            · rw [hb.ext, hext]
            · cases hdr with
              | none => rfl
              | some f => exact ((isSome_map ..).trans (hhdr rfl b rfl)).symm
            · show min (len + 1) (b.mLen - off) = (List.take _ _).length
              rw [length_take, length_drop]
              exact (Nat.min_eq_left (Nat.min_le_right _ _)).symm
          | _ => cases hn

/-- **The two models of `m_copym` agree**: where the bytes are copied, so are the mbufs here, and no
count changes. -/
theorem clCopym_of_mCopym (h : Forall₂ ClMbuf.Of m cs) (hn : mCopym m off len avail = .ok n)
    (c : Mcl) : ∃ ns, clCopym cs off len avail c = some (ns, c) ∧ Forall₂ ClMbuf.Of n ns := by
  have hhead : cs.head?.any (·.pkthdr) = (m.head?.bind (·.mPkthdr)).isSome := by
    cases h with
    | nil => rfl
    | cons hb _ => exact hb.pkthdr
  rw [mCopym, if_neg (by omega), Int.toNat_natCast] at hn
  cases hskip : mSkip m off with
  | none => rw [hskip] at hn; cases hn
  | some r =>
    rw [hskip, Int.toNat_natCast] at hn
    obtain ⟨hdr, hsome, hn⟩ : ∃ hdr : Option (Int → Int),
        hdr.isSome = decide (off = 0 ∧ cs.head?.any (·.pkthdr)) ∧
          mCopymLoop hdr r.1 r.2 len avail = .ok n := by
      refine ⟨_, ?_, hn⟩
      split <;> simp_all
    obtain ⟨cs', hskip', h'⟩ := clSkip_of h hskip
    have hhdr (hc : hdr.isSome) (b : Mbuf) (hb : b ∈ r.1.head?) : b.mPkthdr.isSome := by
      rw [hsome, decide_eq_true_eq, hhead] at hc
      rw [hc.1, mSkip] at hskip
      cases hskip
      rw [hb] at hc
      exact hc.2
    obtain ⟨ns, hloop, hns⟩ := clCopyLoop_of h' hhdr hn
    rw [hsome] at hloop
    exact ⟨ns, by rw [clCopym, hskip']; dsimp only; rw [hloop], hns⟩

end

/-! ## Runs -/

/-- The mbufs `m_copym` takes copies of, as long as there is memory. -/
def clSources : List ClMbuf → Nat → Nat → List ClMbuf
  | [], _, _ => []
  | _ :: _, _, 0 => []
  | m :: ms, off, len + 1 =>
    m :: clSources ms 0
      (if len + 1 = mCopyall then len + 1 else len + 1 - min (len + 1) (m.mLen - off))

/-- No cluster comes to be shared: `m_copym` reaches no mbuf with a cluster before memory runs
out, `m_split` does not cut one in two. -/
def ShareCond (s : ClSys) : ClOp → Prop
  | .mcopym i off len avail =>
    ∀ r ∈ clSkip (s.chains.getD i []) off, ∀ m ∈ (clSources r.1 r.2 len).take avail, m.extBuf = none
  | .msplit i len avail =>
    ∀ r ∈ clSplitAt (s.chains.getD i []) len, r.2.1.extBuf = none ∨ avail = 0 ∨
        ((s.chains.getD i []).head?.any (·.pkthdr) = false ∧ r.2.1.mLen = r.2.2.2)
  | _ => True

instance (s : ClSys) (op : ClOp) : Decidable (ShareCond s op) :=
  match op with
  | .mcopym .. | .msplit .. => inferInstanceAs (Decidable (∀ r ∈ _, _))
  | .mget _ | .mclget _ _ | .mfree _ | .mfreem _ | .mclalloc _ _ | .relink _ | .slinit _
  | .slbtom _ _ | .slclose => .isTrue trivial

/-- A panic is the end: nothing changes any more. -/
def clNext (s : ClSys) (op : ClOp) : ClSys := (clStep s op).getD s

/-- States reached from the empty one (`mbinit` is the first `m_clalloc`). -/
def ClReach (C : ClSys → ClOp → Prop) : ClSys → Prop := Reach (· = {}) (By clNext C)

def extBufs (m : List ClMbuf) : List Nat := m.filterMap (·.extBuf)

theorem refs_set {i : Nat} {m : List ClMbuf} (h : s.chains[i]? = some m) :
    ∃ rest, s.refs.Perm (extBufs m ++ rest) ∧ ∀ m' mcl,
      ({ s with mcl, chains := s.chains.set i m' } : ClSys).refs.Perm (extBufs m' ++ rest) := by
  obtain ⟨a, b, heq, hset⟩ := Lists.exists_set_eq h
  have hperm (m' : List ClMbuf) : ((a ++ m' :: b).flatten.filterMap (·.extBuf) ++
      s.slBase.toList).Perm (extBufs m' ++ (a.flatten.filterMap (·.extBuf) ++
        b.flatten.filterMap (·.extBuf) ++ s.slBase.toList)) := by
    simp only [flatten_append, flatten_cons, filterMap_append, extBufs]
    grind
  refine ⟨a.flatten.filterMap (·.extBuf) ++ b.flatten.filterMap (·.extBuf) ++ s.slBase.toList,
    ?_, fun m' mcl => ?_⟩
  · rw [ClSys.refs, heq]
    exact hperm m
  · rw [ClSys.refs]
    rw [hset m']
    exact hperm m'

theorem counts_mFree {refs : List Nat} {m : ClMbuf} {c : Mcl}
    (h : c.Counts (extBufs [m] ++ refs)) : ∃ c', mFree m c = some c' ∧ c'.Counts refs := by
  cases hm : m.extBuf with
  | none =>
    refine ⟨c, by rw [mFree, hm], ?_⟩
    simpa [extBufs, hm] using h
  | some cl =>
    rw [mFree, hm]
    refine counts_mclFree ?_
    simpa [extBufs, hm] using h

theorem counts_mFreem {refs : List Nat} {ms : List ClMbuf} {c : Mcl}
    (h : c.Counts (extBufs ms ++ refs)) : ∃ c', mFreem ms c = some c' ∧ c'.Counts refs := by
  induction ms generalizing c with
  | nil => exact ⟨c, rfl, h⟩
  | cons m ms ih =>
    have happ : extBufs (m :: ms) ++ refs = extBufs [m] ++ (extBufs ms ++ refs) := by
      rw [extBufs, ← singleton_append, filterMap_append, append_assoc]
      rfl
    rw [happ] at h
    obtain ⟨c1, hfree, hc1⟩ := counts_mFree h
    obtain ⟨c2, hrest, hc2⟩ := ih hc1
    exact ⟨c2, by rw [mFreem, hfree]; exact hrest, hc2⟩

theorem extBufs_clCopyLoop {ms : List ClMbuf} (off len avail : Nat) (copyhdr : Bool)
    (h : ∀ m ∈ (clSources ms off len).take avail, m.extBuf = none) :
    extBufs (clCopyLoop ms off len avail copyhdr).1 = [] := by
  induction ms generalizing off len avail copyhdr with
  | nil => rw [clCopyLoop]; rfl
  | cons m ms ih =>
    match len, avail with
    | 0, _ => rw [clCopyLoop]; rfl
    | _ + 1, 0 => rw [clCopyLoop]; rfl
    | len + 1, avail + 1 =>
      rw [clSources, take_succ_cons, forall_mem_cons] at h
      have hrest := ih 0 _ avail false h.2
      exact (filterMap_cons_none (show ClMbuf.extBuf ⟨m.extBuf, _, _⟩ = none from h.1)).trans hrest

theorem refs_append (s : ClSys) (m : List ClMbuf) (mcl : Mcl) :
    ({ s with mcl, chains := s.chains ++ [m] } : ClSys).refs.Perm (extBufs m ++ s.refs) := by
  simp only [ClSys.refs, flatten_append, flatten_singleton, filterMap_append, extBufs]
  grind

theorem extBufs_clSplit {m0 : List ClMbuf} {len avail : Nat} {a b : List ClMbuf}
    (h : clSplit m0 len avail = some (a, b))
    (hc : ∀ r ∈ clSplitAt m0 len, r.2.1.extBuf = none ∨ avail = 0 ∨
      (m0.head?.any (·.pkthdr) = false ∧ r.2.1.mLen = r.2.2.2)) :
    extBufs a ++ extBufs b = extBufs m0 := by
  have hat {m0 : List ClMbuf} {len : Nat} {r : List ClMbuf × ClMbuf × List ClMbuf × Nat}
      (h : clSplitAt m0 len = some r) : m0 = r.1 ++ r.2.1 :: r.2.2.1 ∧ r.2.2.2 ≤ r.2.1.mLen := by
    fun_induction clSplitAt m0 len generalizing r with
    | case1 => cases h
    | case2 m ms len _ ih =>
      obtain ⟨r', hr', rfl⟩ := map_eq_some_iff.mp h
      obtain ⟨h1, h2⟩ := ih hr'
      exact ⟨congrArg (m :: ·) h1, h2⟩
    | case3 m ms len hlt =>
      cases h
      exact ⟨rfl, Nat.le_of_not_lt hlt⟩
  rw [clSplit] at h
  cases hs : clSplitAt m0 len with
  | none => rw [hs] at h; cases h
  | some r =>
    obtain ⟨front, m, rest, len'⟩ := r
    obtain ⟨heq, hle⟩ := hat hs
    have hcond := hc _ hs
    rw [hs] at h
    dsimp only at h heq hle hcond
    rw [heq]
    -- a new mbuf with a cluster is made only where `hcond` is against it
    split_ifs at h with hhdr h0 hext
    · rw [isSome_iff_ne_none] at hext
      rcases hcond with h1 | h1 | h1
      · exact absurd h1 hext
      · exact absurd h1 h0
      · rw [h1.1] at hhdr
        cases hhdr
    · cases h
      simp [extBufs, not_isSome_iff_eq_none.mp hext]
    · cases h
      simp [extBufs, not_isSome_iff_eq_none.mp hext]
    · cases h
      simp only [extBufs, filterMap_append, append_assoc, append_cancel_left_eq]
      exact filterMap_append.symm
    · next hrem h0 =>
      have hnone : m.extBuf = none := by
        rcases hcond with h1 | h1 | h1
        · exact h1
        · exact absurd h1 h0
        · rw [h1.2, Nat.sub_self] at hrem
          exact absurd rfl hrem
      cases h
      simp [extBufs, hnone]

def ClSys.Right (s : ClSys) : Prop := s.mcl.Counts s.refs

section

variable (h : s.Right)
include h

theorem right_mclget {i : Nat} {p : Option Nat} (ha : s.Allowed (.mclget i p)) :
    ∃ s', clDo s (.mclget i p) = some s' ∧ s'.Right := by
  rw [clDo]
  split
  · next m ms hi =>
    obtain ⟨rest, hrefs, hset⟩ := refs_set hi
    obtain ⟨c, cl, heq, hcounts, -⟩ := counts_mclalloc h ha.1
    have hm : m.extBuf = none := ha.2 m (by
      rw [getD_eq_getElem?_getD, hi]
      rfl)
    rw [mclget, heq]
    cases cl with
    | none => exact ⟨_, rfl, hcounts.perm (hrefs.trans (hset _ c).symm)⟩
    | some b =>
      refine ⟨_, rfl, hcounts.perm (Perm.trans ?_ (hset _ c).symm)⟩
      refine (Perm.append_left _ hrefs).trans ?_
      simp [extBufs, hm]
  · exact ⟨s, rfl, h⟩

theorem right_mfree (i : Nat) : ∃ s', clDo s (.mfree i) = some s' ∧ s'.Right := by
  rw [clDo]
  split
  · next m ms hi =>
    obtain ⟨rest, hrefs, hset⟩ := refs_set hi
    have hcounts : s.mcl.Counts (extBufs [m] ++ (extBufs ms ++ rest)) := by
      refine Mcl.Counts.perm h (hrefs.trans ?_)
      rw [← append_assoc, extBufs, extBufs, extBufs, ← filterMap_append]
      exact .refl _
    obtain ⟨c, heq, hc⟩ := counts_mFree hcounts
    rw [heq]
    exact ⟨_, rfl, hc.perm (hset ms c).symm⟩
  · exact ⟨s, rfl, h⟩

theorem right_mfreem (i : Nat) : ∃ s', clDo s (.mfreem i) = some s' ∧ s'.Right := by
  rw [clDo, getD_eq_getElem?_getD]
  cases hi : s.chains[i]? with
  | none =>
    have hset : s.chains.set i [] = s.chains := set_eq_of_length_le (getElem?_eq_none_iff.mp hi)
    rw [hset]
    exact ⟨s, rfl, h⟩
  | some ms =>
    obtain ⟨rest, hrefs, hset⟩ := refs_set hi
    obtain ⟨c, heq, hc⟩ := counts_mFreem (Mcl.Counts.perm h hrefs)
    rw [getD_some, heq]
    exact ⟨_, rfl, hc.perm (hset [] c).symm⟩

theorem right_mcopym {i off len avail : Nat} (hc : ShareCond s (.mcopym i off len avail)) {s' : ClSys}
    (hs' : clDo s (.mcopym i off len avail) = some s') : s'.Right := by
  rw [clDo, clCopym] at hs'
  cases hskip : clSkip (s.chains.getD i []) off with
  | none => rw [hskip] at hs'; cases hs'
  | some r =>
    have htop := extBufs_clCopyLoop r.2 len avail
      (decide (off = 0 ∧ (s.chains.getD i []).head?.any (·.pkthdr))) (hc r hskip)
    rw [hskip] at hs'
    dsimp only at hs'
    generalize clCopyLoop r.1 r.2 len avail _ = loop at htop hs'
    obtain ⟨top, fin⟩ := loop
    have hcounts : s.mcl.Counts (extBufs top ++ s.refs) := by
      rw [show extBufs top = [] from htop]
      exact h
    cases fin with
    | done =>
      cases hs'
      exact Mcl.Counts.perm hcounts (refs_append s top s.mcl).symm
    | nospace =>
      -- the copies made so far hold nothing
      obtain ⟨c, heq, hc'⟩ := counts_mFreem hcounts
      dsimp only at hs'
      rw [heq] at hs'
      cases hs'
      exact hc'.perm (refs_append s [] c).symm
    | panic => cases hs'

theorem right_msplit {i len avail : Nat} (hc : ShareCond s (.msplit i len avail)) :
    ∃ s', clDo s (.msplit i len avail) = some s' ∧ s'.Right := by
  rw [clDo]
  rw [ShareCond, getD_eq_getElem?_getD] at hc
  rw [getD_eq_getElem?_getD]
  cases hsplit : clSplit (s.chains[i]?.getD []) len avail with
  | none => exact ⟨s, rfl, h⟩
  | some r =>
    obtain ⟨a, b⟩ := r
    cases hi : s.chains[i]? with
    | none => rw [hi] at hsplit; cases hsplit
    | some ms =>
      rw [hi] at hsplit hc
      obtain ⟨rest, hrefs, hset⟩ := refs_set hi
      have hparts : extBufs a ++ extBufs b = extBufs ms := extBufs_clSplit hsplit hc
      refine ⟨_, rfl, Mcl.Counts.perm h (hrefs.trans ?_)⟩
      refine Perm.trans ?_ (refs_append { s with chains := s.chains.set i a } b s.mcl).symm
      refine Perm.trans ?_ (Perm.append_left _ (hset a s.mcl).symm)
      rw [← hparts, ← append_assoc]
      exact perm_append_comm.append_right _

theorem right_slinit {p : Option Nat} (ha : s.Allowed (.slinit p)) :
    ∃ s', clDo s (.slinit p) = some s' ∧ s'.Right := by
  rw [clDo]
  by_cases hsl : s.slBase = none
  · obtain ⟨c, cl, heq, hcounts, -⟩ := counts_mclalloc h ha
    rw [if_pos hsl, heq]
    refine ⟨_, rfl, hcounts.perm ?_⟩
    rw [ClSys.refs, hsl, toList_none, append_nil]
    exact perm_append_comm
  · rw [if_neg hsl]
    exact ⟨s, rfl, h⟩

theorem right_slbtom {scBuf : Nat} {p : Option Nat} (ha : s.Allowed (.slbtom scBuf p)) :
    ∃ s', clDo s (.slbtom scBuf p) = some s' ∧ s'.Right := by
  rw [clDo]
  cases hsl : s.slBase with
  | none => exact ⟨s, rfl, h⟩
  | some b =>
    obtain ⟨c, cl, heq, hcounts, -⟩ := counts_mclalloc h ha.1
    have hb : b ∈ s.refs := by
      rw [ClSys.refs, hsl]
      exact mem_append_right _ (mem_singleton_self b)
    -- clusters are aligned, so the mask finds the start of the buffer
    have hmask : scBuf / mclbytes * mclbytes = b := by
      obtain ⟨hle, hlt⟩ := ha.2 b hsl
      obtain ⟨k, rfl⟩ := Mcl.Counts.aligned h b (Mcl.Counts.known h b hb)
      have hdiv : scBuf / mclbytes = k := by
        rw [mclbytes] at hle hlt ⊢
        omega
      rw [hdiv, Nat.mul_comm]
    dsimp only
    rw [heq, hmask, ← hsl]
    cases cl with
    | none => exact ⟨_, rfl, hcounts⟩
    | some x =>
      refine ⟨_, rfl, hcounts.perm ?_⟩
      simp only [ClSys.refs, hsl, toList_some, flatten_append, filterMap_append]
      exact perm_append_comm

theorem right_slclose : ∃ s', clDo s .slclose = some s' ∧ s'.Right := by
  rw [clDo]
  cases hsl : s.slBase with
  | none => exact ⟨s, rfl, h⟩
  | some b =>
    have hcounts : s.mcl.Counts (b :: s.chains.flatten.filterMap (·.extBuf)) := by
      refine Mcl.Counts.perm h ?_
      rw [ClSys.refs, hsl]
      exact perm_append_comm
    obtain ⟨c, heq, hc⟩ := counts_mclFree hcounts
    dsimp only
    rw [heq]
    exact ⟨_, rfl, hc.perm (by simp [ClSys.refs])⟩

theorem right_clDo {op : ClOp} (ha : s.Allowed op) (hc : ShareCond s op) :
    (∀ s', clDo s op = some s' → s'.Right) ∧
      (clDo s op = none → ∃ i off len avail, op = .mcopym i off len avail) := by
  have hdone {P : Prop} (hr : ∃ s', clDo s op = some s' ∧ s'.Right) :
      (∀ s', clDo s op = some s' → s'.Right) ∧ (clDo s op = none → P) := by
    obtain ⟨s', hs', hr⟩ := hr
    rw [hs']
    exact ⟨fun s'' hs => Option.some.inj hs ▸ hr, nofun⟩
  cases op with
  | mget pkthdr =>
    exact hdone ⟨_, rfl, Mcl.Counts.perm h (refs_append s [{ pkthdr }] s.mcl).symm⟩
  | mclget i p => exact hdone (right_mclget h ha)
  | mfree i => exact hdone (right_mfree h i)
  | mfreem i => exact hdone (right_mfreem h i)
  | mcopym i off len avail => exact ⟨fun s' => right_mcopym h hc, fun _ => ⟨i, off, len, avail, rfl⟩⟩
  | msplit i len avail => exact hdone (right_msplit h hc)
  | mclalloc ncl p => exact hdone ⟨_, rfl, counts_mClalloc h ha⟩
  | relink chains => exact hdone ⟨_, rfl, Mcl.Counts.perm h (Perm.append_right _ ha).symm⟩
  | slinit p => exact hdone (right_slinit h ha)
  | slbtom scBuf p => exact hdone (right_slbtom h ha)
  | slclose => exact hdone (right_slclose h)

end

/-- **One operation.** -/
theorem right_clStep (h : s.Right) {op : ClOp} (hc : ShareCond s op) :
    (∀ s', clStep s op = some s' → s'.Right) ∧
      (clStep s op = none → ∃ i off len avail, op = .mcopym i off len avail) := by
  rw [clStep]
  split
  · next ha =>
    exact right_clDo h ha hc
  · exact ⟨fun s' hs => Option.some.inj hs ▸ h, nofun⟩

theorem right_empty : ({} : ClSys).Right where
  nodup := nodup_nil
  count := forall_mem_nil _
  known := forall_mem_nil _
  freeNodup := nodup_nil
  free cl := by simp [Mcl.bases]
  aligned := forall_mem_nil _

theorem right_of_reach (h : ClReach ShareCond s) : s.Right := by
  refine Reach.ops (I := ClSys.Right) ?_ ?_ h
  · rintro s rfl
    exact right_empty
  · intro s op hs hc
    rw [clNext]
    cases hop : clStep s op with
    | none => exact hs
    | some s' => exact (right_clStep hs hc).1 s' hop

/-- **Cluster reference counts.** In a run that never makes two mbufs share a cluster, each count is
the number of holders, the clusters without one are free, `MCLALLOC` hands out such a cluster, and
no operation but an `m_copym` beyond the end of its chain panics. -/
theorem cluster_counts {s : ClSys} (h : ClReach ShareCond s) :
    (∀ x ∈ s.mcl.clRcTbl, x.2.toNat = s.refs.count x.1) ∧
    (∀ cl, cl ∈ s.mcl.mclfree ↔ cl ∈ s.mcl.bases ∧ s.refs.count cl = 0) ∧
    (∀ cl ∈ s.refs, cl ∈ s.mcl.bases) ∧
    (∀ p m cl, s.mcl.Fresh 1 p → mclalloc p s.mcl = some (m, some cl) → s.refs.count cl = 0) ∧
    ∀ op, ShareCond s op → clStep s op = none → ∃ i off len avail, op = .mcopym i off len avail := by
  have hright := right_of_reach h
  refine ⟨hright.count, hright.free, hright.known, fun p m cl hf hm => ?_, fun op hc hnone => ?_⟩
  · obtain ⟨m', cl', heq, -, hzero⟩ := counts_mclalloc hright hf
    rw [hm] at heq
    cases heq
    exact hzero cl rfl
  · exact (right_clStep hright hc).2 hnone

theorem clReach_foldl {C : ClSys → ClOp → Prop} {l : List ClOp} (hl : MeetsAll clNext C {} l) :
    ClReach C (l.foldl clNext {}) := by
  have hstart : ClReach C {} := Reach.start rfl
  exact Reach.foldl hstart hl

/-- A packet in a cluster is read from the line and freed, after `m_split` and `m_copym` of an
mbuf without one. -/
def clOrderly : List ClOp :=
  [.mclalloc 1 (some 8192), .slinit none, .mget true, .mclget 0 none, .slbtom 10400 (some 16384),
    .mget false, .mcopym 2 0 mCopyall 1, .mfreem 1, .slclose]

theorem cluster_counts_orderly :
    ClReach ShareCond (clOrderly.foldl clNext {}) ∧ (clOrderly.foldl clNext {}).refs = [8192] ∧
      (∀ cl, cl ∈ (clOrderly.foldl clNext {}).mcl.mclfree ↔
        cl ∈ (clOrderly.foldl clNext {}).mcl.bases ∧
          (clOrderly.foldl clNext {}).refs.count cl = 0) := by
  have hreach : ClReach ShareCond (clOrderly.foldl clNext {}) := clReach_foldl (by decide +kernel)
  exact ⟨hreach, by decide +kernel, (cluster_counts hreach).2.1⟩

def clShared : List ClOp :=
  [.mclalloc 1 (some 8192), .mget false, .mclget 0 none, .mcopym 0 0 mCopyall 1, .mfree 0]

/-- The copy still holds the cluster, its count is 0, and it is the next one to be handed out. -/
theorem shared_cluster_freed :
    ClReach (fun _ _ => True) (clShared.foldl clNext {}) ∧
      (clShared.foldl clNext {}).refs = [10240] ∧
      (clShared.foldl clNext {}).mcl.clRcTbl = [(8192, 0), (10240, 0)] ∧
      (clShared.foldl clNext {}).mcl.mclfree = [10240, 8192] := by
  exact ⟨clReach_foldl (MeetsAll.trivial _ _), by decide +kernel, by decide +kernel,
    by decide +kernel⟩

end Anp
