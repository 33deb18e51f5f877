import Anp.Lib.Lists
import Anp.Net.Route
import Mathlib.Data.List.Count
import Mathlib.Data.List.Nodup

/-!
# RouteCounts — the reference counts of routing entries
-/

namespace Anp

open Runs Machine List Option

variable {α : Type}

variable {ext ext' : List Nat} {rt : Nat} {x : Option Nat} {s : RtSys α} {t t' : RtTable α}
  {e : Rtentry α}

/-! ## References

`ext` stands for the references from outside the table: of caches, of callers, and of the
functions above while they run. -/

def RtTable.gwroutes (t : RtTable α) : List Nat := t.rts.filterMap fun o => o.bind (·.rtGwroute)

def RtTable.holders (t : RtTable α) (ext : List Nat) (rt : Nat) : Nat :=
  (t.gwroutes ++ ext).count rt

/-- The table is right for the references `ext`; `x` is an entry on its way out, which may be down,
not referred to and with its gateway's route. -/
structure RtTable.Counts (t : RtTable α) (ext : List Nat) (x : Option Nat) : Prop where
  count : ∀ rt e, t.entry rt = some e → e.rtRefcnt = t.holders ext rt
  live : ∀ rt, 0 < t.holders ext rt → t.entry rt ≠ none
  tree : ∀ rt, rt ∈ t.tree ↔ ∃ e, t.entry rt = some e ∧ e.up = true
  nodup : t.tree.Nodup
  down : ∀ rt e, t.entry rt = some e → e.up = false → some rt ≠ x →
    0 < t.holders ext rt ∧ e.rtGwroute = none

def Rtentry.gwTo (e : Rtentry α) (rt : Nat) : Nat := e.rtGwroute.toList.count rt

theorem holders_cons (t : RtTable α) (ext : List Nat) (i rt : Nat) :
    t.holders (i :: ext) rt = t.holders ext rt + [i].count rt := by
  simp only [RtTable.holders, count_append, count_cons, count_nil]
  omega

theorem holders_self (t : RtTable α) (ext : List Nat) (rt : Nat) :
    t.holders (rt :: ext) rt = t.holders ext rt + 1 := by
  rw [holders_cons, count_singleton_self]

theorem holders_ne {j : Nat} (hj : j ≠ rt) : t.holders (rt :: ext) j = t.holders ext j := by
  rw [holders_cons, count_singleton, if_neg (by simpa using Ne.symm hj), Nat.add_zero]

section

variable (h : t.entry rt = some e)
include h

theorem upd_eq (f : Rtentry α → Rtentry α) : t.upd rt f = some (t.put rt (f e)) := by
  rw [RtTable.upd, h]
  rfl

theorem entry_lt :
    t.rts[rt]? = some (some e) := by
  rw [RtTable.entry, join_eq_some_iff] at h
  exact h

theorem entry_set (o : Option (Rtentry α)) (j : Nat) :
    ({ t with rts := t.rts.set rt o } : RtTable α).entry j = if j = rt then o else t.entry j := by
  obtain ⟨hlt, -⟩ := List.getElem?_eq_some_iff.mp (entry_lt h)
  rw [RtTable.entry, getElem?_set]
  by_cases hj : j = rt
  · rw [if_pos hj.symm, if_pos (hj ▸ hlt), if_pos hj]
    rfl
  · rw [if_neg (Ne.symm hj), if_neg hj]
    rfl

theorem entry_put (e' : Rtentry α) (j : Nat) :
    (t.put rt e').entry j = if j = rt then some e' else t.entry j :=
  entry_set h (some e') j

theorem entry_drop (j : Nat) :
    (t.drop rt).entry j = if j = rt then none else t.entry j :=
  entry_set h none j

theorem gwroutes_set (o : Option (Rtentry α)) (j : Nat) :
    (({ t with rts := t.rts.set rt o } : RtTable α).gwroutes).count j + e.gwTo j =
      t.gwroutes.count j + (o.bind (·.rtGwroute)).toList.count j := by
  obtain ⟨l1, l2, hl, hset⟩ := Lists.exists_set_eq (entry_lt h)
  have hcount (o : Option (Rtentry α)) (l1 l2 : List (Option (Rtentry α))) :
      ((l1 ++ o :: l2).filterMap fun o => o.bind (·.rtGwroute)).count j =
        (l1.filterMap fun o => o.bind (·.rtGwroute)).count j +
          (o.bind (·.rtGwroute)).toList.count j +
          (l2.filterMap fun o => o.bind (·.rtGwroute)).count j := by
    rw [filterMap_append, count_append, filterMap_cons]
    cases o.bind (·.rtGwroute) with
    | none => simp
    | some g =>
      simp only [toList_some, count_cons, count_nil]
      omega
  rw [RtTable.gwroutes, RtTable.gwroutes, hset, hcount, hl, hcount]
  show _ = _ + e.rtGwroute.toList.count j + _ + _
  rw [Rtentry.gwTo]
  omega

theorem holders_put (e' : Rtentry α) (ext : List Nat) (j : Nat) :
    (t.put rt e').holders ext j + e.gwTo j = t.holders ext j + e'.gwTo j := by
  have hset := gwroutes_set h (some e') j
  simp only [RtTable.holders, count_append]
  show _ + _ + _ = _ + _ + e'.rtGwroute.toList.count j
  rw [RtTable.put]
  have : (Option.bind (some e') (·.rtGwroute)) = e'.rtGwroute := rfl
  rw [this] at hset
  omega

theorem holders_drop (ext : List Nat) (j : Nat) :
    (t.drop rt).holders ext j + e.gwTo j = t.holders ext j := by
  have hset := gwroutes_set h none j
  simp only [RtTable.holders, count_append, RtTable.drop]
  simp only [bind_none, toList_none, count_nil] at hset
  omega

theorem holders_gwroute {g : Nat} (hgw : e.rtGwroute = some g)
    (ext : List Nat) : 0 < t.holders ext g := by
  have hd := holders_drop h ext g
  rw [Rtentry.gwTo, hgw, toList_some, count_singleton_self] at hd
  omega

end

theorem holders_of_no_entry (h : t.Counts ext x) (hrt : t.entry rt = none) :
    t.holders ext rt = 0 := by
  by_contra hne
  exact h.live rt (Nat.pos_of_ne_zero hne) hrt

theorem holders_perm (hp : ext.Perm ext') (rt : Nat) : t.holders ext' rt = t.holders ext rt :=
  (hp.append_left _).symm.count_eq rt

section

variable (h : t.Counts ext x)
include h

theorem RtTable.Counts.up_iff (he : t.entry rt = some e) :
    e.up = true ↔ rt ∈ t.tree := by
  rw [h.tree, he]
  exact ⟨fun hup => ⟨e, rfl, hup⟩, fun ⟨_, he', hup⟩ => Option.some.inj he' ▸ hup⟩

theorem RtTable.Counts.perm (hp : ext.Perm ext') : t.Counts ext' x := by
  have hsame := holders_perm (t := t) hp
  exact ⟨fun rt e he => (hsame rt).symm ▸ h.count rt e he,
    fun rt hrt => h.live rt (hsame rt ▸ hrt), h.tree, h.nodup,
    fun rt e he hup hx => (hsame rt).symm ▸ h.down rt e he hup hx⟩

variable {x' : Option Nat}

/-- **What changes concerns one entry**: the table is right if it is right for that one. -/
theorem RtTable.Counts.change (hent : ∀ j, j ≠ rt → t'.entry j = t.entry j)
    (hother : ∀ j, j ≠ rt → t'.holders ext' j = t.holders ext j)
    (htree : ∀ j, j ≠ rt → (j ∈ t'.tree ↔ j ∈ t.tree)) (hnodup : t'.tree.Nodup)
    (hx : ∀ j, j ≠ rt → some j ≠ x' → some j ≠ x)
    (hself : match t'.entry rt with
      | none => t'.holders ext' rt = 0 ∧ rt ∉ t'.tree
      | some e => e.rtRefcnt = t'.holders ext' rt ∧ (rt ∈ t'.tree ↔ e.up = true) ∧
        (e.up = false → some rt ≠ x' → 0 < t'.holders ext' rt ∧ e.rtGwroute = none)) :
    t'.Counts ext' x' := by
  refine ⟨fun j f hf => ?_, fun j hpos => ?_, fun j => ?_, hnodup, fun j f hf hup hjx => ?_⟩
  · by_cases hj : j = rt
    · subst hj
      rw [hf] at hself
      exact hself.1
    · rw [hent j hj] at hf
      rw [hother j hj]
      exact h.count j f hf
  · by_cases hj : j = rt
    · subst hj
      intro hnone
      rw [hnone] at hself
      exact Nat.ne_of_gt hpos hself.1
    · rw [hother j hj] at hpos
      rw [hent j hj]
      exact h.live j hpos
  · by_cases hj : j = rt
    · subst hj
      cases he : t'.entry j with
      | none =>
        rw [he] at hself
        simp [hself.2]
      | some e =>
        rw [he] at hself
        simp [hself.2.1]
    · rw [htree j hj, hent j hj, h.tree]
  · by_cases hj : j = rt
    · subst hj
      rw [hf] at hself
      exact hself.2.2 hup hjx
    · rw [hent j hj] at hf
      rw [hother j hj]
      exact h.down j f hf hup (hx j hj hjx)

/-- **One entry is changed**, and with it the references and the tree. -/
theorem RtTable.Counts.update {e' : Rtentry α} (tree' : List Nat) (he : t.entry rt = some e)
    (hcount : e'.rtRefcnt = (t.put rt e').holders ext' rt)
    (hother : ∀ j, j ≠ rt → (t.put rt e').holders ext' j = t.holders ext j)
    (htree : ∀ j, j ∈ tree' ↔ if j = rt then e'.up = true else j ∈ t.tree) (hnodup : tree'.Nodup)
    (hdown : e'.up = false → some rt ≠ x' → 0 < (t.put rt e').holders ext' rt ∧ e'.rtGwroute = none)
    (hx : ∀ j, j ≠ rt → some j ≠ x' → some j ≠ x) :
    ({ t.put rt e' with tree := tree' } : RtTable α).Counts ext' x' := by
  have hent (j : Nat) : ({ t.put rt e' with tree := tree' } : RtTable α).entry j =
      if j = rt then some e' else t.entry j := entry_put he e' j
  refine h.change (fun j hj => (hent j).trans (if_neg hj)) hother (fun j hj => ?_) hnodup hx ?_
  · have hj' := htree j
    rwa [if_neg hj] at hj'
  · rw [hent, if_pos rfl]
    refine ⟨hcount, (htree rt).trans ?_, hdown⟩
    rw [if_pos rfl]

theorem RtTable.Counts.mem_tree {up : Bool} (he : t.entry rt = some e)
    (hup : up = e.up) (j : Nat) : j ∈ t.tree ↔ if j = rt then up = true else j ∈ t.tree := by
  split
  · next hj => rw [hj, hup, h.up_iff he]
  · rfl

/-- **One entry that nobody refers to is freed.** -/
theorem RtTable.Counts.free (he : t.entry rt = some e) (hup : e.up = false)
    (hgw : e.rtGwroute = none) (hzero : t.holders ext' rt = 0)
    (hother : ∀ j, j ≠ rt → t.holders ext' j = t.holders ext j) :
    (t.drop rt).Counts ext' x := by
  have hholders (j : Nat) : (t.drop rt).holders ext' j = t.holders ext' j := by
    have hd := holders_drop he ext' j
    rw [Rtentry.gwTo, hgw] at hd
    exact hd
  refine h.change (fun j (hj : j ≠ rt) => (entry_drop he j).trans (if_neg hj))
    (fun j hj => (hholders j).trans (hother j hj)) (fun _ _ => Iff.rfl) h.nodup
    (fun _ _ hx => hx) ?_
  rw [entry_drop he, if_pos rfl]
  exact ⟨(hholders rt).trans hzero, fun hin => nomatch hup.symm.trans ((h.up_iff he).mpr hin)⟩

end

theorem RtTable.Counts.settle (h : t.Counts ext (some rt))
    (hrt : ∀ e, t.entry rt = some e → e.up = false →
      0 < t.holders ext rt ∧ e.rtGwroute = none) : t.Counts ext none := by
  refine ⟨h.count, h.live, h.tree, h.nodup, fun j e he hup _ => ?_⟩
  by_cases hj : j = rt
  · subst hj
    exact hrt e he hup
  · exact h.down j e he hup fun heq => hj (Option.some.inj heq)

/-- Entry `rt` is still there, and nothing but its count has changed. -/
def RtTable.Kept (t t' : RtTable α) (rt : Nat) : Prop :=
  ∀ e, t.entry rt = some e → ∃ c, t'.entry rt = some { e with rtRefcnt := c }

/-- No entry that is up is lost, and nothing but its count changes. -/
def RtTable.Keeps (t t' : RtTable α) : Prop :=
  ∀ j e, t.entry j = some e → e.up = true → ∃ c, t'.entry j = some { e with rtRefcnt := c }

theorem RtTable.Keeps.refl (t : RtTable α) : t.Keeps t := fun _ e he _ => ⟨e.rtRefcnt, he⟩

theorem RtTable.Keeps.trans {t'' : RtTable α} (h : t.Keeps t') (h' : t'.Keeps t'') :
    t.Keeps t'' := by
  intro j e he hup
  obtain ⟨c, he1⟩ := h j e he hup
  obtain ⟨c', he2⟩ := h' j _ he1 hup
  exact ⟨c', he2⟩

theorem kept_put (he : t.entry rt = some e) (c : Int) (j : Nat) :
    t.Kept (t.put rt { e with rtRefcnt := c }) j := by
  intro f hf
  rw [entry_put he]
  by_cases hj : j = rt
  · subst hj
    rw [he] at hf
    cases hf
    exact ⟨c, if_pos rfl⟩
  · exact ⟨f.rtRefcnt, (if_neg hj).trans hf⟩

theorem keeps_of_kept (h : ∀ j, t.Kept t' j) : t.Keeps t' := fun j e he _ => h j e he

theorem mem_tree_of_keeps (h : t.Counts ext x) (h' : t'.Counts ext' x')
    (hk : t.Keeps t') (hrt : rt ∈ t.tree) : rt ∈ t'.tree := by
  obtain ⟨e, he, hup⟩ := (h.tree rt).mp hrt
  obtain ⟨c, he'⟩ := hk rt e he hup
  exact (h'.tree rt).mpr ⟨_, he', hup⟩

/-- A change of the count and of fields that do not matter here, with the references to match. -/
theorem RtTable.Counts.recount (h : t.Counts ext x) (he : t.entry rt = some e) (e' : Rtentry α)
    (hup : e'.up = e.up) (hgw : e'.rtGwroute = e.rtGwroute) (hc : e'.rtRefcnt = t.holders ext' rt)
    (hother : ∀ j, j ≠ rt → t.holders ext' j = t.holders ext j)
    (hpos : e.up = false → some rt ≠ x → 0 < t.holders ext' rt) :
    (t.put rt e').Counts ext' x ∧ ∀ l j, (t.put rt e').holders l j = t.holders l j := by
  have hsame (l : List Nat) (j : Nat) : (t.put rt e').holders l j = t.holders l j := by
    have hp := holders_put he e' l j
    rw [Rtentry.gwTo, Rtentry.gwTo, hgw] at hp
    exact Nat.add_right_cancel hp
  refine ⟨?_, hsame⟩
  refine h.update t.tree he ?_ (fun j hj => ?_) (h.mem_tree he hup) h.nodup
    (fun hdn hx => ?_) fun j _ hx => hx
  · rw [hsame]
    exact hc
  · rw [hsame]
    exact hother j hj
  · rw [hsame]
    rw [hup] at hdn
    exact ⟨hpos hdn hx, hgw.trans (h.down rt e he hdn hx).2⟩

theorem RtTable.Counts.write (h : t.Counts ext x) (he : t.entry rt = some e) (e' : Rtentry α)
    (hup : e'.up = e.up) (hgw : e'.rtGwroute = e.rtGwroute) (hc : e'.rtRefcnt = e.rtRefcnt) :
    (t.put rt e').Counts ext x ∧ ∀ l j, (t.put rt e').holders l j = t.holders l j :=
  h.recount he e' hup hgw (hc.trans (h.count rt e he)) (fun _ _ => rfl)
    fun hdn hx => (h.down rt e he hdn hx).1

/-! ### Taking and dropping a reference -/

/-- **A reference is taken.** -/
theorem counts_refIncr (h : t.Counts ext x) (he : t.entry rt = some e)
    (hroom : t.holders ext rt < 32767) :
    ∃ t', refIncr t rt = some t' ∧ t'.Counts (rt :: ext) x ∧ (∀ j, t.Kept t' j) ∧
      ∀ l j, t'.holders l j = t.holders l j := by
  have hself := holders_self t ext rt
  have hc := h.count rt e he
  have hnew : int16 (e.rtRefcnt + 1) = t.holders (rt :: ext) rt := by
    rw [int16_of_range (by omega) (by omega), hself, hc]
    rfl
  obtain ⟨hcounts, hsame⟩ := h.recount he { e with rtRefcnt := int16 (e.rtRefcnt + 1) } rfl
    rfl hnew (fun _ => holders_ne) fun _ _ => by omega
  exact ⟨_, upd_eq he _, hcounts, kept_put he _, hsame⟩

section

variable (h : t.Counts (rt :: ext) x)
include h

theorem holders_pred (he : t.entry rt = some e) (hroom : t.holders (rt :: ext) rt ≤ 32767) :
    int16 (e.rtRefcnt - 1) = t.holders ext rt ∧
      ∀ j, j ≠ rt → t.holders ext j = t.holders (rt :: ext) j := by
  have hself := holders_self t ext rt
  have hc := h.count rt e he
  refine ⟨?_, fun _ hj => (holders_ne hj).symm⟩
  rw [int16_of_range (by omega) (by omega), hc, hself]
  omega

theorem entry_of_counts : ∃ e, t.entry rt = some e := by
  refine ne_none_iff_exists'.mp (h.live rt ?_)
  rw [holders_self]
  omega

theorem counts_refDecr (hrt : rt ∈ t.tree) (hroom : t.holders (rt :: ext) rt ≤ 32767) :
    ∃ t', refDecr t rt = some t' ∧ t'.Counts ext x ∧ t.Keeps t' ∧
      ∀ l j, t'.holders l j = t.holders l j := by
  obtain ⟨e, he, hup⟩ := (h.tree rt).mp hrt
  obtain ⟨hnew, hother⟩ := holders_pred h he hroom
  obtain ⟨hcounts, hsame⟩ := h.recount he { e with rtRefcnt := int16 (e.rtRefcnt - 1) } rfl
    rfl hnew hother fun hdn => nomatch hup.symm.trans hdn
  exact ⟨_, upd_eq he _, hcounts, keeps_of_kept (kept_put he _), hsame⟩

/-- **`rtfree`.** One reference less; the entry is freed if it is down and this was the last. -/
theorem counts_rtfree (hroom : t.holders (rt :: ext) rt ≤ 32767)
    (hx : ∀ e, t.entry rt = some e → some rt = x → e.up = false → e.rtGwroute = none) :
    ∃ t', rtfree t rt = some t' ∧ t'.Counts ext x ∧ t.Keeps t' ∧
      (∀ l j, t'.holders l j = t.holders l j) ∧
      (∀ j, j ≠ rt ∨ 0 < t.holders ext rt → t.Kept t' j) ∧
      ∀ e, t.entry rt = some e → e.up = false → t.holders ext rt = 0 → t'.entry rt = none := by
  obtain ⟨e, he⟩ := entry_of_counts h
  obtain ⟨hnew, hother⟩ := holders_pred h he hroom
  rw [rtfree, he]
  dsimp only
  by_cases hlast : int16 (e.rtRefcnt - 1) ≤ 0 ∧ e.up = false
  · have hzero : t.holders ext rt = 0 := by omega
    have hout : rt ∉ t.tree := fun hin => nomatch hlast.2.symm.trans ((h.up_iff he).mpr hin)
    have hgw : e.rtGwroute = none := by
      by_cases hrx : some rt = x
      · exact hx e he hrx hlast.2
      · exact (h.down rt e he hlast.2 hrx).2
    rw [if_pos hlast, if_neg hout, if_neg (by omega)]
    refine ⟨t.drop rt, rfl, h.free he hlast.2 hgw hzero hother, fun j f hf hup => ?_,
      fun l j => ?_, fun j hj f hf => ?_, fun _ _ _ _ => ?_⟩
    · have hj : j ≠ rt := by
        rintro rfl
        rw [he] at hf
        cases hf
        rw [hlast.2] at hup
        cases hup
      exact ⟨f.rtRefcnt, by rw [entry_drop he, if_neg hj, hf]⟩
    · have hd := holders_drop he l j
      rw [Rtentry.gwTo, hgw] at hd
      exact hd
    · have hj : j ≠ rt := hj.resolve_right (by omega)
      exact ⟨f.rtRefcnt, by rw [entry_drop he, if_neg hj, hf]⟩
    · rw [entry_drop he, if_pos rfl]
  · rw [if_neg hlast]
    obtain ⟨hcounts, hsame⟩ := h.recount he { e with rtRefcnt := int16 (e.rtRefcnt - 1) }
      rfl rfl hnew hother fun hdn _ => by
      have : ¬int16 (e.rtRefcnt - 1) ≤ 0 := fun hle => hlast ⟨hle, hdn⟩
      omega
    refine ⟨_, rfl, hcounts, keeps_of_kept (kept_put he _), hsame, fun j _ => kept_put he _ j,
      fun e' he' hdn hz => ?_⟩
    cases he'
    exact absurd ⟨by omega, hdn⟩ hlast

end

theorem counts_rtfree_none (h : t.Counts (rt :: ext) none)
    (hroom : t.holders (rt :: ext) rt ≤ 32767) :
    ∃ t', rtfree t rt = some t' ∧ t'.Counts ext none := by
  obtain ⟨t', ht', hcounts, -⟩ := counts_rtfree h hroom fun _ _ hx => nomatch hx
  exact ⟨t', ht', hcounts⟩

theorem rtFREE_eq (he : t.entry rt = some e) (hroom : e.rtRefcnt ≤ 32767) :
    rtFREE t rt = rtfree t rt := by
  rw [rtFREE, he]
  dsimp only
  by_cases hone : e.rtRefcnt ≤ 1
  · rw [if_pos hone]
  · rw [if_neg hone, rtfree, refDecr, RtTable.upd, he]
    dsimp only
    rw [if_neg (by rw [int16_of_range (by omega) (by omega)]; omega)]
    rfl

/-! ### The functions -/

theorem put_put (t : RtTable α) (rt : Nat) (e e' : Rtentry α) :
    (t.put rt e).put rt e' = t.put rt e' := by
  rw [RtTable.put, RtTable.put, set_set]
  rfl

theorem rtfree_put {g : Nat} (he : t.entry rt = some e) (f : Rtentry α → Rtentry α)
    (hcount : ∀ e c, f { e with rtRefcnt := c } =
      { f e with rtRefcnt := c }) (hf : (f e).rtRefcnt = e.rtRefcnt)
    (hself : g = rt → 1 < e.rtRefcnt ∧ e.rtRefcnt ≤ 32767) :
    (rtfree t g).bind (fun t => t.upd rt f) = rtfree (t.put rt (f e)) g := by
  by_cases hg : g = rt
  · subst hg
    have hkept : ¬int16 (e.rtRefcnt - 1) ≤ 0 := by
      rw [int16_of_range (by omega) (by omega)]
      omega
    rw [rtfree, rtfree, he, entry_put he, if_pos rfl]
    dsimp only
    rw [hf, if_neg fun h => hkept h.1, if_neg fun h => hkept h.1, bind_some, RtTable.upd,
      entry_put he, if_pos rfl, map_some, put_put, put_put, hcount]
  · have hent (o : Option (Rtentry α)) :
        ({ t with rts := t.rts.set g o } : RtTable α).entry rt = some e := by
      rw [RtTable.entry, getElem?_set_ne hg]
      exact he
    have hcomm (o : Option (Rtentry α)) :
        ({ t with rts := t.rts.set g o } : RtTable α).upd rt f =
          some { t.put rt (f e) with rts := (t.put rt (f e)).rts.set g o } := by
      rw [RtTable.upd, hent, map_some, RtTable.put, RtTable.put]
      rw [set_comm _ _ hg]
    rw [rtfree, rtfree, entry_put he, if_neg hg]
    cases hge : t.entry g with
    | none => rfl
    | some eg =>
      dsimp only
      show Option.bind _ _ = if _ then if g ∈ t.tree then _ else _ else _
      split_ifs with h1 h2 h3
      · rfl
      · exact hcomm _
      · exact hcomm _
      · exact hcomm _

/-- **The gateway's route is released.** The entry itself must not go with it. -/
theorem counts_dropGwroute (h : t.Counts ext x) (he : t.entry rt = some e)
    (hx : ∀ j, x = some j → j = rt) (hroom : ∀ j, t.holders ext j ≤ 32767)
    (hself : e.rtGwroute = some rt → 1 < t.holders ext rt) :
    ∃ t' e', dropGwroute t rt = some t' ∧ t'.Counts ext x ∧ t'.entry rt = some e' ∧
      (e'.rtGwroute = none ∧ e'.up = e.up ∧ e'.rtFlags = e.rtFlags) ∧
      ∀ j, t'.holders ext j ≤ t.holders ext j := by
  rw [dropGwroute, he]
  dsimp only
  cases hgw : e.rtGwroute with
  | none =>
    exact ⟨t, e, rfl, h, he, ⟨hgw, rfl, rfl⟩, fun j => Nat.le_refl _⟩
  | some g =>
    -- the state in which the pointer is gone and the reference is in our hands
    have hholders (l : List Nat) (j : Nat) :
        (t.put rt { e with rtGwroute := none }).holders (g :: l) j = t.holders l j := by
      have hp := holders_put he { e with rtGwroute := none } (g :: l) j
      rw [holders_cons t, Rtentry.gwTo, hgw, Rtentry.gwTo] at hp
      simp only [toList_some, toList_none, count_nil] at hp
      omega
    have h2 : (t.put rt { e with rtGwroute := none }).Counts (g :: ext) x := by
      refine h.update t.tree he ?_ (fun j _ => hholders ext j) (h.mem_tree he rfl) h.nodup ?_
        fun j _ hx => hx
      · rw [hholders]
        exact h.count rt e he
      · intro hup hx
        rw [hholders]
        exact ⟨(h.down rt e he hup hx).1, rfl⟩
    obtain ⟨eg, heg⟩ := ne_none_iff_exists'.mp (h.live g (holders_gwroute he hgw ext))
    have hcg := h.count g eg heg
    have hc := h.count rt e he
    obtain ⟨t', hfree, hcounts, -, hsame, hkept, -⟩ := counts_rtfree h2 (by
      rw [hholders]
      exact hroom g) (fun e' he' hgx _ => by
        rw [entry_put he, if_pos (hx g hgx.symm)] at he'
        cases he'
        rfl)
    have hcode : (rtFREE t g).bind (fun t => t.upd rt fun e => { e with rtGwroute := none }) =
        some t' := by
      rw [rtFREE_eq heg (by have := hroom g; omega), rtfree_put he _ (fun _ _ => rfl) rfl, hfree]
      intro hg
      have := hself (hg ▸ hgw)
      have := hroom rt
      omega
    have hlive : rt ≠ g ∨ 0 < (t.put rt { e with rtGwroute := none }).holders ext g := by
      by_cases hg : rt = g
      · subst hg
        have h1 := hself hgw
        rw [← hholders, holders_self] at h1
        omega
      · exact .inl hg
    obtain ⟨c, hent⟩ := hkept rt hlive _ ((entry_put he _ rt).trans (if_pos rfl))
    refine ⟨t', _, hcode, hcounts, hent, ⟨rfl, rfl, rfl⟩, fun j => ?_⟩
    rw [hsame, ← hholders, holders_cons]
    omega

theorem holders_append (t : RtTable α) (l ext : List Nat) (j : Nat) :
    t.holders (l ++ ext) j = t.holders ext j + l.count j := by
  simp only [RtTable.holders, count_append]
  omega

theorem counts_enter (h : t.Counts (e.rtGwroute.toList ++ ext) none) (hup : e.up = true)
    (hc : e.rtRefcnt = 0) :
    let t' : RtTable α := { rts := t.rts ++ [some e], tree := t.rts.length :: t.tree }
    t'.Counts ext none ∧ t.Keeps t' ∧ (∀ j, t'.holders ext j =
      t.holders (e.rtGwroute.toList ++ ext) j) ∧ t'.entry t.rts.length = some e := by
  intro t'
  have hfresh : t.entry t.rts.length = none := by
    rw [RtTable.entry, getElem?_eq_none (Nat.le_refl _)]
    rfl
  have hnew : t'.entry t.rts.length = some e := by
    rw [RtTable.entry, getElem?_append_right (Nat.le_refl _), Nat.sub_self]
    rfl
  have hent (j : Nat) (hj : j ≠ t.rts.length) : t'.entry j = t.entry j := by
    rw [RtTable.entry, RtTable.entry, getElem?_append]
    by_cases hjl : j < t.rts.length
    · rw [if_pos hjl]
    · rw [if_neg hjl, getElem?_eq_none (Nat.le_of_not_lt hjl),
        getElem?_eq_none (by simp only [length_singleton]; omega)]
  have hholders (j : Nat) : t'.holders ext j = t.holders (e.rtGwroute.toList ++ ext) j := by
    simp only [RtTable.holders, RtTable.gwroutes, filterMap_append,
      count_append, t', filterMap_cons, filterMap_nil, bind_some]
    cases e.rtGwroute with
    | none => simp
    | some g =>
      simp only [toList_some]
      omega
  have hold (j : Nat) {f : Rtentry α} (hf : t.entry j = some f) : j ≠ t.rts.length := by
    rintro rfl
    rw [hfresh] at hf
    cases hf
  have hout : t.rts.length ∉ t.tree := fun hin => by
    obtain ⟨f, hf, -⟩ := (h.tree _).mp hin
    exact hold _ hf rfl
  refine ⟨h.change hent (fun j _ => hholders j) (fun j hj => ?_)
    (List.nodup_cons.mpr ⟨hout, h.nodup⟩) (fun _ _ hx => hx) ?_,
    fun j f hf _ => ⟨f.rtRefcnt, (hent j (hold j hf)).trans hf⟩, hholders, hnew⟩
  · show j ∈ t.rts.length :: t.tree ↔ _
    rw [mem_cons]
    exact or_iff_right hj
  · rw [hnew, hholders, holders_of_no_entry h hfresh]
    refine ⟨hc, ⟨fun _ => hup, fun _ => mem_cons_self⟩, fun hdn => ?_⟩
    rw [hup] at hdn
    cases hdn

variable (rn : Rnh α) (mem : List Bool)

theorem counts_rtEnter (h : t.Counts (e.rtGwroute.toList ++ ext) none)
    (hup : e.up = true) (hc : e.rtRefcnt = 0)
    (hroom : ∀ j, t.holders (e.rtGwroute.toList ++ ext) j ≤ 32767) :
    ∃ t' new, rtEnter rn t e = some (t', new) ∧ t'.Counts ext none ∧ t.Keeps t' ∧
      (∀ j, t'.holders ext j ≤ t.holders (e.rtGwroute.toList ++ ext) j) ∧
      ∀ n ∈ new, n ∈ t'.tree ∧ t'.holders ext n = 0 := by
  rw [rtEnter]
  split
  · obtain ⟨hcounts, hkeeps, hholders, hnew⟩ := counts_enter h hup hc
    refine ⟨_, _, rfl, hcounts, hkeeps, fun j => (hholders j).le, ?_⟩
    rintro n ⟨⟩
    refine ⟨mem_cons_self, ?_⟩
    have := hcounts.count _ e hnew
    omega
  · cases hgw : e.rtGwroute with
    | none =>
      rw [hgw] at h
      refine ⟨t, none, rfl, h, .refl t, fun j => ?_, fun n hn => nomatch hn⟩
      exact Nat.le_refl _
    | some g =>
      rw [hgw] at h hroom
      obtain ⟨t', hfree, hcounts, hkeeps, hsame, -, -⟩ := counts_rtfree h (hroom g)
        fun _ _ hx => nomatch hx
      refine ⟨t', none, by dsimp only; rw [hfree]; rfl, hcounts, hkeeps, fun j => ?_,
        fun n hn => nomatch hn⟩
      rw [hsame, holders_append]
      exact Nat.le_add_right _ _

/-- What a lookup leaves: the table is right with the reference it returns, to an entry in the tree;
no entry in the tree is lost; and but for one, the references of an entry are paid for by the memory
taken. -/
structure RtTable.Looked (t : RtTable α) (ext : List Nat) (mem : List Bool) (t' : RtTable α)
    (mem' : List Bool) (r : Option Nat) : Prop where
  counts : t'.Counts (r.toList ++ ext) none
  keeps : t.Keeps t'
  room : ∀ j, t'.holders (r.toList ++ ext) j + mem'.length ≤ t.holders ext j + mem.length + 1
  found : ∀ n ∈ r, n ∈ t'.tree

theorem looked_none (h : t.Counts ext none) : t.Looked ext mem t mem none :=
  ⟨h, .refl t, fun _ => Nat.le_succ _, fun _ hn => nomatch hn⟩

theorem looked_refIncr {t1 : RtTable α} (mem mem' : List Bool) (h : t1.Counts ext none)
    (hk : t.Keeps t1) (hrt : rt ∈ t1.tree) (hroom : t1.holders ext rt < 32767)
    (hle : ∀ j, t1.holders ext j + mem'.length ≤ t.holders ext j + mem.length) :
    ∃ t' m r, (refIncr t1 rt).map (fun t => (t, mem', some rt)) = some (t', m, r) ∧
      t.Looked ext mem t' m r := by
  obtain ⟨e, he, -⟩ := (h.tree rt).mp hrt
  obtain ⟨t', hincr, hcounts, hkept, hsame⟩ := counts_refIncr h he hroom
  have hkeeps : t1.Keeps t' := keeps_of_kept hkept
  refine ⟨t', mem', some rt, by rw [hincr]; rfl, hcounts, hk.trans hkeeps, fun j => ?_, ?_⟩
  · rw [hsame, holders_append]
    have : [rt].count j ≤ 1 := count_le_length
    have := hle j
    dsimp only [toList_some]
    omega
  · rintro n ⟨⟩
    exact mem_tree_of_keeps h hcounts hkeeps hrt

/-- **`rtalloc1`.** -/
theorem looked_rtalloc1 (h : t.Counts ext none)
    (hroom : ∀ j, t.holders ext j + mem.length < 32767) (dst : α) (report : Bool) :
    ∃ t' mem' r, rtalloc1 rn mem t dst report = some (t', mem', r) ∧
      t.Looked ext mem t' mem' r := by
  induction hn : mem.length using Nat.strong_induction_on generalizing mem t ext dst report with
  | _ n ih =>
    rw [rtalloc1]
    cases hmatch : rn.matchaddr t.tree dst with
    | none =>
      exact ⟨t, mem, none, rfl, looked_none mem h⟩
    | some rt =>
      have hrt : rt ∈ t.tree := rn.match_mem t.tree dst rt hmatch
      obtain ⟨e, he, hup⟩ := (h.tree rt).mp hrt
      -- the entry itself is returned
      have hfound (mem' : List Bool) (hle : mem'.length ≤ mem.length) :
          ∃ t' m r, (refIncr t rt).map (fun t => (t, mem', some rt)) = some (t', m, r) ∧
            t.Looked ext mem t' m r :=
        looked_refIncr mem mem' h (.refl t) hrt (by have := hroom rt; omega) fun j => by omega
      simp only [he]
      split
      · match mem, hn, hroom, hfound with
        | [], _, _, hfound => exact hfound [] (Nat.le_refl _)
        | false :: mem, _, _, hfound => exact hfound mem (Nat.le_succ _)
        | [true], _, _, hfound => exact hfound [] (Nat.zero_le _)
        | true :: false :: mem, _, _, hfound =>
          exact hfound mem (by simp only [length_cons]; omega)
        | true :: true :: mem, hn, hroom, _ =>
          simp only [length_cons] at hn hroom
          -- the route of the gateway, if the new entry has one
          obtain ⟨t1, mem1, gw, hgw, hlook⟩ : ∃ t1 mem1 gw,
              (if e.rtFlags.gateway then rtalloc1 rn mem t e.rtGateway true
                else some (t, mem, none)) = some (t1, mem1, gw) ∧
                t.Looked ext mem t1 mem1 gw := by
            split
            · exact ih mem.length (by omega) mem h (fun j => by have := hroom j; omega) _ _ rfl
            · exact ⟨t, mem, none, rfl, looked_none mem h⟩
          dsimp only
          rw [hgw, bind_some]
          obtain ⟨t2, new, henter, hcounts, hkeeps, hle, hnew⟩ := counts_rtEnter rn
            (e := { rtKey := rn.ndst dst e.rtGenmask, rtMask := e.rtGenmask,
                    rtGateway := e.rtGateway, rtGwroute := gw, rtFlags := { e.rtFlags with
                      cloning := false, host := e.rtFlags.host || e.rtGenmask.isNone } })
            hlook.counts rfl rfl
            (fun j => by have := hlook.room j; have := hroom j; dsimp only; omega)
          rw [henter, bind_some]
          have hbound (j : Nat) : t2.holders ext j + mem1.length ≤
              t.holders ext j + (true :: true :: mem).length := by
            have := hle j
            have := hlook.room j
            simp only [length_cons] at *
            omega
          have hret {n : Nat} (hin : n ∈ t2.tree) :=
            looked_refIncr (true :: true :: mem) mem1 hcounts (hlook.keeps.trans hkeeps) hin
              (by have := hbound n; have := hroom n; simp only [length_cons] at *; omega) hbound
          cases new with
          | none => exact hret (mem_tree_of_keeps h hcounts (hlook.keeps.trans hkeeps) hrt)
          | some n => exact hret (hnew n rfl).1
      · exact hfound mem (Nat.le_refl _)

theorem counts_ifaIfwithroute (h : t.Counts ext none)
    (hroom : ∀ j, t.holders ext j < 32767) (dst : α) (direct : Bool) :
    ∃ t' ok, ifaIfwithroute rn t dst direct = some (t', ok) ∧ t'.Counts ext none ∧ t.Keeps t' ∧
      ∀ j, t'.holders ext j ≤ t.holders ext j + 1 := by
  rw [ifaIfwithroute]
  split
  · exact ⟨t, true, rfl, h, .refl t, fun j => Nat.le_succ _⟩
  · obtain ⟨t1, mem1, r, halloc, hlook⟩ := looked_rtalloc1 rn [] h hroom dst false
    rw [halloc, bind_some]
    have hle (j : Nat) : t1.holders (r.toList ++ ext) j ≤ t.holders ext j + 1 :=
      Nat.le_of_add_right_le (hlook.room j)
    cases r with
    | none => exact ⟨t1, false, rfl, hlook.counts, hlook.keeps, hle⟩
    | some rt =>
      obtain ⟨t2, hdecr, hcounts, hkeeps, hsame⟩ := counts_refDecr hlook.counts
        (hlook.found rt rfl) (Nat.le_trans (hle rt) (hroom rt))
      refine ⟨t2, true, by dsimp only; rw [hdecr]; rfl, hcounts, hlook.keeps.trans hkeeps,
        fun j => ?_⟩
      have := hle j
      rw [holders_append] at this
      rw [hsame]
      exact Nat.le_of_add_right_le this

/-- The table is right with the reference that is returned, if it is, to an entry in the tree. -/
structure RtTable.Added (t : RtTable α) (l ext : List Nat) (new : Option Nat) : Prop where
  counts : t.Counts (l ++ ext) none
  room : ∀ j, t.holders (l ++ ext) j ≤ 32767
  found : ∀ n ∈ new, n ∈ t.tree

/-- **`rtrequest(RTM_ADD, ..)`.** -/
theorem counts_rtrequestAdd (h : t.Counts ext none)
    (hroom : ∀ j, t.holders ext j + mem.length < 32767) (dst gateway : α) (netmask : Option α)
    (flags : RtFlags) (direct ret : Bool) :
    ∃ t' new, rtrequestAdd rn mem t dst gateway netmask flags direct ret = some (t', new) ∧
      t'.Added (if ret then new.toList else []) ext new := by
  rw [rtrequestAdd]
  obtain ⟨t1, ok, hifa, h1, -, hle1⟩ := counts_ifaIfwithroute rn h
    (fun j => Nat.lt_of_le_of_lt (Nat.le_add_right _ _) (hroom j)) dst direct
  rw [hifa, bind_some]
  dsimp only
  have hnone {t1 : RtTable α} (h1 : t1.Counts ext none) (hle : ∀ j, t1.holders ext j ≤ 32767) :
      ∃ t' new, some (t1, (none : Option Nat)) = some (t', new) ∧
        t'.Added (if ret then new.toList else []) ext new := by
    refine ⟨t1, none, rfl, ?_⟩
    rw [toList_none, ite_self]
    exact ⟨h1, hle, fun n hn => nomatch hn⟩
  have hsame := hnone h1 fun j => by have := hle1 j; have := hroom j; omega
  split
  · match mem, hroom with
    | [], _ | false :: _, _ | [true], _ | true :: false :: _, _ => exact hsame
    | true :: true :: mem, hroom =>
      simp only [length_cons] at hroom
      obtain ⟨t2, mem2, gw, hgw, hlook⟩ : ∃ t2 mem2 gw,
          (if flags.gateway then rtalloc1 rn mem t1 gateway true
            else some (t1, mem, none)) = some (t2, mem2, gw) ∧
            t1.Looked ext mem t2 mem2 gw := by
        split
        · exact looked_rtalloc1 rn mem h1 (fun j => by have := hroom j; have := hle1 j; omega) _ _
        · exact ⟨t1, mem, none, rfl, looked_none mem h1⟩
      dsimp only
      rw [hgw, bind_some]
      have hle2 (j : Nat) : t2.holders (gw.toList ++ ext) j ≤ 32766 := by
        have := hlook.room j
        have := hroom j
        have := hle1 j
        omega
      generalize (if flags.host = true then none else netmask) = nm
      obtain ⟨t3, new, henter, hcounts, -, hle3, hnew⟩ := counts_rtEnter rn
        (e := { rtKey := rn.ndst dst nm, rtMask := nm, rtGateway := gateway, rtGwroute := gw,
                rtFlags := flags })
        hlook.counts rfl rfl (fun j => Nat.le_succ_of_le (hle2 j))
      rw [henter, bind_some]
      have hle (j : Nat) : t3.holders ext j ≤ 32766 := Nat.le_trans (hle3 j) (hle2 j)
      cases new with
      | none => exact hnone hcounts fun j => Nat.le_succ_of_le (hle j)
      | some n =>
        obtain ⟨hin, hzero⟩ := hnew n rfl
        dsimp only
        cases ret with
        | false =>
          refine ⟨t3, some n, rfl, hcounts, fun j => Nat.le_succ_of_le (hle j), ?_⟩
          rintro _ ⟨⟩
          exact hin
        | true =>
          obtain ⟨e, he, -⟩ := (hcounts.tree n).mp hin
          obtain ⟨t4, hincr, h4, hkept, hsame⟩ := counts_refIncr hcounts he (by omega)
          refine ⟨t4, some n, by rw [if_pos rfl, hincr]; rfl, h4, fun j => ?_, ?_⟩
          · have hj := hle j
            rw [if_pos rfl, hsame, holders_append, toList_some]
            have : [n].count j ≤ 1 := count_le_length
            omega
          · rintro _ ⟨⟩
            exact mem_tree_of_keeps hcounts h4 (keeps_of_kept hkept) hin
  · exact hsame

/-- An entry that is its own gateway's route and has no other reference is not deleted. -/
def DelCond (t : RtTable α) (dst : α) (netmask : Option α) (flags : RtFlags) : Prop :=
  ∀ rt ∈ rn.deladdr t.tree dst (if flags.host then none else netmask),
    ∀ e ∈ t.entry rt, e.rtGwroute = some rt → 1 < e.rtRefcnt
deriving Decidable

/-- **`rtrequest(RTM_DELETE, ..)`**, of an entry that is not its own gateway's route without any
other reference: `RTFREE(rt->rt_gwroute)` would free it too early. -/
theorem counts_rtrequestDelete (h : t.Counts ext none)
    (hroom : ∀ j, t.holders ext j ≤ 32767) (dst : α) (netmask : Option α) (flags : RtFlags)
    (hself : DelCond rn t dst netmask flags) :
    ∃ t', rtrequestDelete rn t dst netmask flags = some t' ∧ t'.Counts ext none := by
  rw [rtrequestDelete]
  cases hdel : rn.deladdr t.tree dst (if flags.host then none else netmask) with
  | none => exact ⟨t, rfl, h⟩
  | some rt =>
    have hrt : rt ∈ t.tree := rn.del_mem _ _ _ _ hdel
    obtain ⟨e, he, hup⟩ := (h.tree rt).mp hrt
    have hc := h.count rt e he
    -- out of the tree and down
    let t1 : RtTable α := { t.put rt { e with up := false } with tree := t.tree.erase rt }
    have hholders (j : Nat) : t1.holders ext j = t.holders ext j :=
      Nat.add_right_cancel (holders_put he { e with up := false } ext j)
    have hent : t1.entry rt = some { e with up := false } := (entry_put he _ rt).trans (if_pos rfl)
    have h1 : t1.Counts ext (some rt) := by
      refine h.update (t.tree.erase rt) he ?_ (fun j _ => hholders j) (fun j => ?_)
        (h.nodup.erase rt) (fun _ hx => absurd rfl hx) fun j _ _ hx => nomatch hx
      · exact hc.trans (congrArg _ (hholders rt).symm)
      · rw [h.nodup.mem_erase_iff]
        by_cases hj : j = rt
        · simp [hj]
        · simp [hj]
    have hcode : ({ t with tree := t.tree.erase rt } : RtTable α).upd rt
        (fun e => { e with up := false }) = some t1 :=
      upd_eq (t := { t with tree := t.tree.erase rt }) he _
    obtain ⟨t2, e2, hdrop, h2, hent2, ⟨hgw2, hup2, -⟩, hle⟩ := counts_dropGwroute h1 hent
      (fun j hj => (Option.some.inj hj).symm) (fun j => (hholders j).symm ▸ hroom j)
      (fun hgw => by
        have := hself rt hdel e he hgw
        have := hholders rt
        omega)
    have hc2 := h2.count rt _ hent2
    dsimp only
    rw [hcode, bind_some, hdrop, bind_some, hent2]
    dsimp only
    split
    · obtain ⟨t3, hincr, h3, hkept, hsame⟩ := counts_refIncr h2 hent2 (by omega)
      obtain ⟨c3, hent3⟩ := hkept rt _ hent2
      have hlast : t3.holders ext rt = 0 := by
        rw [hsame]
        omega
      obtain ⟨t4, hfree, h4, -, -, -, hgone⟩ := counts_rtfree h3 (by
        rw [holders_self, hlast]
        decide) (fun e' he' _ _ => by
          rw [hent3] at he'
          cases he'
          exact hgw2)
      refine ⟨t4, by rw [hincr]; exact hfree, h4.settle fun e' he' _ => ?_⟩
      rw [hgone _ hent3 hup2 hlast] at he'
      cases he'
    · refine ⟨t2, rfl, h2.settle fun e' he' _ => ?_⟩
      rw [hent2] at he'
      cases he'
      exact ⟨by omega, hgw2⟩

/-- **`rt_setgate`** for an entry in the tree that the caller holds. -/
theorem counts_rtSetgate (h : t.Counts (rt :: ext) none)
    (hrt : rt ∈ t.tree) (hroom : ∀ j, t.holders (rt :: ext) j + mem.length < 32767) (gate : α)
    (grow : Bool) :
    ∃ t' ok, rtSetgate rn mem t rt gate grow = some (t', ok) ∧ t'.Counts (rt :: ext) none ∧
      rt ∈ t'.tree ∧
      ∀ j, t'.holders (rt :: ext) j ≤ t.holders (rt :: ext) j + mem.length + 1 := by
  rw [rtSetgate]
  cases (if grow then mem.head?.getD false else true) with
  | false =>
    exact ⟨t, false, rfl, h, hrt, fun j => by omega⟩
  | true =>
    obtain ⟨e, he, hup⟩ := (h.tree rt).mp hrt
    have hmem : (if grow then mem.tail else mem).length ≤ mem.length := by
      split
      · rw [length_tail]
        exact Nat.sub_le _ _
      · exact Nat.le_refl _
    generalize (if grow then mem.tail else mem) = mem' at hmem ⊢
    -- the new gateway
    have hent : (t.put rt { e with rtGateway := gate }).entry rt =
        some { e with rtGateway := gate } := (entry_put he _ rt).trans (if_pos rfl)
    obtain ⟨h1, hholders⟩ := h.write he { e with rtGateway := gate } rfl rfl rfl
    -- the old gateway's route; the caller's reference keeps the entry if it is its own
    obtain ⟨t2, e2, hdrop, h2, hent2, ⟨hgw2, hup2, -⟩, hle2⟩ := counts_dropGwroute h1 hent
      (fun j hj => nomatch hj) (fun j => by rw [hholders]; have := hroom j; omega)
      (fun hgw => by
        rw [holders_self]
        have := holders_gwroute hent hgw ext
        omega)
    rw [upd_eq he, bind_some, hdrop, bind_some, hent2]
    dsimp only
    have hle (j : Nat) : t2.holders (rt :: ext) j ≤ t.holders (rt :: ext) j := by
      rw [← hholders]
      exact hle2 j
    have hupr : e2.up = true := hup2.trans hup
    have hin2 : rt ∈ t2.tree := (h2.tree rt).mpr ⟨_, hent2, hupr⟩
    split
    · -- the route of the new one
      obtain ⟨t3, mem3, gw, halloc, hlook⟩ := looked_rtalloc1 rn mem' h2
        (fun j => by have := hle j; have := hroom j; omega) gate true
      obtain ⟨c3, hent3⟩ := hlook.keeps rt _ hent2 hupr
      rw [halloc, bind_some]
      rw [RtTable.upd, hent3]
      have hholders3 (j : Nat) :
          (t3.put rt { e2 with rtGwroute := gw, rtRefcnt := c3 }).holders (rt :: ext) j =
            t3.holders (gw.toList ++ (rt :: ext)) j := by
        have hp := holders_put hent3 { e2 with rtGwroute := gw, rtRefcnt := c3 } (rt :: ext) j
        simp only [Rtentry.gwTo, hgw2, toList_none, count_nil] at hp
        rw [holders_append]
        exact hp
      refine ⟨_, true, rfl, ?_, ?_, fun j => ?_⟩
      · refine hlook.counts.update t3.tree hent3 ?_ (fun j _ => hholders3 j)
          (hlook.counts.mem_tree hent3 rfl) hlook.counts.nodup
          (fun hdn _ => nomatch hupr.symm.trans hdn) fun j _ hx => hx
        have hc3 := hlook.counts.count rt _ hent3
        rw [hholders3]
        exact hc3
      · have hin3 := mem_tree_of_keeps h2 hlook.counts hlook.keeps hin2
        exact hin3
      · rw [hholders3]
        have := hlook.room j
        have := hle j
        omega
    · exact ⟨t2, true, rfl, h2, hin2, fun j => by have := hle j; omega⟩

/-! ## Steps -/

/-- `RTM_CHANGE` and `RTM_LOCK` are for the entry that the lookup gives. -/
def ChainCond (t : RtTable α) (m : RtMsg α) : Prop :=
  ∀ rt ∈ rn.matchaddr t.tree m.dst, ∀ e ∈ t.entry rt, rn.sameKey m.dst e.rtKey = true →
    ∀ rt' ∈ rn.dupedkey t.tree rt m.netmask, rt' = rt
deriving Decidable

def MsgCond (t : RtTable α) (m : RtMsg α) : Prop :=
  match m.rtmType with
  | .delete => DelCond rn t m.dst m.netmask m.rtmFlags
  | .change | .lock => ChainCond rn t m
  | .add | .get => True

instance (t : RtTable α) (m : RtMsg α) : Decidable (MsgCond rn t m) := by
  unfold MsgCond
  exact match m.rtmType with
    | .delete => inferInstance
    | .change | .lock => inferInstance
    | .add | .get => inferInstance

def RtSys.holders (s : RtSys α) (rt : Nat) : Nat := s.tbl.holders s.held rt

/-- The condition on a step. What one step can add to the references of an entry is bounded by the
memory it takes. -/
def RefCond (s : RtSys α) (st : RtStep α) : Prop :=
  (∀ rt ≤ s.tbl.rts.length, s.holders rt + st.mem.length + 3 ≤ 32767) ∧
  match st.op with
  | .rtdelete dst netmask flags => DelCond st.rn s.tbl dst netmask flags
  | .routeOutput m _ _ => MsgCond st.rn s.tbl m
  | .inLosing i => ∀ rt ∈ s.routes[i]?.join, ∀ e ∈ s.tbl.entry rt, e.rtFlags.dynamic = false
  | _ => True

instance (s : RtSys α) (st : RtStep α) : Decidable (RefCond s st) := by
  unfold RefCond
  exact match st.op with
    | .rtdelete .. | .routeOutput .. | .inLosing _ => inferInstance
    | .rtalloc1 .. | .rtfree _ | .rtadd .. | .rtsetgate .. | .inPcballoc | .rtalloc ..
    | .roflush _ | .inRtchange _ | .inPcbdetach _ => inferInstance

def RtSys.Right (s : RtSys α) : Prop := s.tbl.Counts s.held none

theorem counts_rtmChange (h : t.Counts (rt :: ext) none)
    (hrt : rt ∈ t.tree) (hroom : ∀ j, t.holders (rt :: ext) j + mem.length + 1 < 32767)
    (m : RtMsg α) (grow direct : Bool) :
    ∃ t', rtmChange rn mem t m rt grow direct = some t' ∧ t'.Counts (rt :: ext) none ∧
      ∀ j, t'.holders (rt :: ext) j ≤ 32767 := by
  obtain ⟨t1, ok, hset, h1, hrt1, hle1⟩ : ∃ t1 ok,
      rtmSetgate rn mem t m rt grow = some (t1, ok) ∧ t1.Counts (rt :: ext) none ∧
      rt ∈ t1.tree ∧
      ∀ j, t1.holders (rt :: ext) j ≤ t.holders (rt :: ext) j + mem.length + 1 := by
    rw [rtmSetgate]
    cases m.gate with
    | none => exact ⟨t, true, rfl, h, hrt, fun j => by omega⟩
    | some gate =>
      exact counts_rtSetgate rn mem h hrt (fun j => by have := hroom j; omega) gate grow
  rw [rtmChange, hset, bind_some]
  dsimp only
  by_cases hok : ok = true
  · obtain ⟨e, he, hup⟩ := (h1.tree rt).mp hrt1
    rw [if_pos hok, he]
    obtain ⟨t2, ok2, hifa, h2, hkeeps, hle2⟩ := counts_ifaIfwithroute rn h1
      (fun j => by have := hle1 j; have := hroom j; omega) e.rtKey direct
    obtain ⟨c, he2⟩ := hkeeps rt e he hup
    dsimp only
    rw [hifa, bind_some]
    have hroom2 (j : Nat) : t2.holders (rt :: ext) j ≤ 32767 := by
      have := hle2 j
      have := hle1 j
      have := hroom j
      omega
    cases m.genmask with
    | none => exact ⟨t2, rfl, h2, hroom2⟩
    | some genmask =>
      obtain ⟨h3, hsame⟩ := h2.write he2 { e with rtGenmask := some genmask, rtRefcnt := c }
        rfl rfl rfl
      exact ⟨_, upd_eq he2 _, h3, fun j => (hsame _ j).symm ▸ hroom2 j⟩
  · rw [if_neg hok]
    exact ⟨t1, rfl, h1, fun j => by have := hle1 j; have := hroom j; omega⟩

theorem refIncr_tree (h : refIncr t rt = some t') :
    t'.tree = t.tree := by
  rw [refIncr, RtTable.upd, map_eq_some_iff] at h
  obtain ⟨e, -, rfl⟩ := h
  rfl

theorem rtalloc1_noreport (t : RtTable α) {dst : α}
    (hm : rn.matchaddr t.tree dst = some rt) (he : t.entry rt = some e) :
    rtalloc1 rn mem t dst false = (refIncr t rt).map fun t => (t, mem, some rt) := by
  rw [rtalloc1, hm]
  dsimp only
  rw [he]
  dsimp only
  rw [if_neg fun hreport => Bool.noConfusion hreport.1]

theorem counts_rtmFound (h : t.Counts (rt :: ext) none)
    (hrt : rt ∈ t.tree) (hroom : ∀ j, t.holders (rt :: ext) j + mem.length + 1 < 32767)
    (m : RtMsg α)
    (hchain : m.rtmType ≠ .get → ∀ e, t.entry rt = some e → rn.sameKey m.dst e.rtKey = true →
      ∀ rt' ∈ rn.dupedkey t.tree rt m.netmask, rt' = rt) (grow direct : Bool) :
    ∃ t', rtmFound rn mem t m rt grow direct = some t' ∧ t'.Counts ext none := by
  have hfree : ∃ t', rtfree t rt = some t' ∧ t'.Counts ext none :=
    counts_rtfree_none h (by have := hroom rt; omega)
  rw [rtmFound]
  by_cases hget : m.rtmType = .get
  · rw [if_pos hget]
    exact hfree
  · obtain ⟨e, he, -⟩ := (h.tree rt).mp hrt
    rw [if_neg hget, he]
    dsimp only
    split
    · next hkey =>
      cases hdup : rn.dupedkey t.tree rt m.netmask with
      | none => exact hfree
      | some rt' =>
        obtain rfl : rt' = rt := hchain hget e he hkey rt' hdup
        dsimp only
        by_cases hchange : m.rtmType = .change
        · obtain ⟨t', ht', hcounts, hle⟩ := counts_rtmChange rn mem h hrt hroom m grow direct
          rw [if_pos hchange, ht']
          exact counts_rtfree_none hcounts (hle _)
        · rw [if_neg hchange]
          exact hfree
    · exact hfree

/-- `route_output` where it looks the route up first. -/
def routeLookup (rn : Rnh α) (mem : List Bool) (t : RtTable α) (m : RtMsg α)
    (grow direct : Bool) : Option (RtTable α) :=
  (rtalloc1 rn [] t m.dst false).bind fun (t, _, rt) =>
  match rt with
  | none => some t
  | some rt => rtmFound rn mem t m rt grow direct

/-- **`route_output`.** -/
theorem counts_routeOutput (h : t.Counts ext none)
    (hroom : ∀ j, t.holders ext j + mem.length + 3 ≤ 32767) (m : RtMsg α) (hc : MsgCond rn t m)
    (grow direct : Bool) :
    ∃ t', routeOutput rn mem t m grow direct = some t' ∧ t'.Counts ext none := by
  have hlookup (hchain : m.rtmType ≠ .get → ChainCond rn t m) : ∃ t',
      routeLookup rn mem t m grow direct = some t' ∧ t'.Counts ext none := by
    rw [routeLookup]
    cases hm : rn.matchaddr t.tree m.dst with
    | none =>
      rw [rtalloc1, hm]
      exact ⟨t, rfl, h⟩
    | some rt =>
      have hrt := rn.match_mem _ _ _ hm
      obtain ⟨e, he, hup⟩ := (h.tree rt).mp hrt
      obtain ⟨t1, hincr, h1, hkept, hsame⟩ := counts_refIncr h he (by have := hroom rt; omega)
      rw [rtalloc1_noreport rn [] t hm he, hincr]
      have htree := refIncr_tree hincr
      refine counts_rtmFound rn mem h1 (htree ▸ hrt) (fun j => ?_) m (fun hget e1 he1 hkey => ?_)
        grow direct
      · rw [hsame, holders_cons]
        have : [rt].count j ≤ 1 := count_le_length
        have := hroom j
        omega
      · obtain ⟨c, hc1⟩ := hkept rt e he
        rw [hc1] at he1
        cases he1
        rw [htree]
        exact hchain hget rt hm e he hkey
  rw [routeOutput]
  rw [MsgCond] at hc
  cases htype : m.rtmType with
  | add =>
    cases m.gate with
    | none => exact ⟨t, rfl, h⟩
    | some gate =>
      obtain ⟨t1, new, hadd, h1, hle, hnew⟩ := counts_rtrequestAdd rn mem h
        (fun j => by have := hroom j; omega) m.dst gate m.netmask m.rtmFlags direct true
      dsimp only
      rw [hadd, bind_some]
      cases new with
      | none => exact ⟨t1, rfl, h1⟩
      | some n =>
        have hin := hnew n rfl
        obtain ⟨e, he, hup⟩ := (h1.tree n).mp hin
        obtain ⟨t2, hdecr, h2, hkeeps, -⟩ := counts_refDecr h1 hin (hle n)
        obtain ⟨c, he2⟩ := hkeeps n e he hup
        obtain ⟨h3, -⟩ := h2.write he2 { e with rtGenmask := m.genmask, rtRefcnt := c } rfl rfl rfl
        refine ⟨_, ?_, h3⟩
        dsimp only
        rw [hdecr, bind_some]
        exact upd_eq he2 _
  | delete =>
    rw [htype] at hc
    exact counts_rtrequestDelete rn h (fun j => by have := hroom j; omega) _ _ _ hc
  | get => exact hlookup (absurd htype)
  | change | lock =>
    rw [htype] at hc
    exact hlookup fun _ => hc

/-! ## Runs -/

theorem held_set {i : Nat} {o : Option Nat} (h : s.routes[i]? = some o) :
    ∃ rest, s.held.Perm (o.toList ++ rest) ∧ ∀ o' tbl,
      ({ s with tbl, routes := s.routes.set i o' } : RtSys α).held.Perm (o'.toList ++ rest) := by
  obtain ⟨a, b, heq, hset⟩ := Lists.exists_set_eq h
  have hperm (o : Option Nat) : ((a ++ o :: b).filterMap id ++ s.callers).Perm
      (o.toList ++ (a.filterMap id ++ b.filterMap id ++ s.callers)) := by
    rw [filterMap_append, filterMap_cons]
    cases o with
    | none => simp
    | some r =>
      simp only [id_eq, toList_some, append_assoc, cons_append, nil_append]
      exact perm_middle
  refine ⟨a.filterMap id ++ b.filterMap id ++ s.callers, ?_, fun o' tbl => ?_⟩
  · rw [RtSys.held, heq]
    exact hperm o
  · rw [RtSys.held]
    rw [hset]
    exact hperm o'

theorem right_leave (h : s.Right) (i : Nat) {f : RtTable α → Nat → Option (RtTable α)}
    (hf : ∀ rt ext, s.routes[i]? = some (some rt) → s.tbl.Counts (rt :: ext) none →
      (∀ j, s.tbl.holders (rt :: ext) j = s.holders j) →
      ∃ t', f s.tbl rt = some t' ∧ t'.Counts ext none) :
    ∃ s', s.leave i f = some s' ∧ s'.Right := by
  rw [RtSys.leave]
  split
  · next rt hi =>
    obtain ⟨rest, hperm, hset⟩ := held_set hi
    obtain ⟨t', ht', hcounts⟩ := hf rt rest hi (RtTable.Counts.perm h hperm) (holders_perm hperm)
    exact ⟨{ s with tbl := t', routes := s.routes.set i none }, by rw [ht']; rfl,
      hcounts.perm (hset none t').symm⟩
  · exact ⟨s, rfl, h⟩

theorem holders_room (h : s.Right) {n : Nat}
    (hsome : ∀ j ≤ s.tbl.rts.length, s.tbl.holders s.held j + n + 3 ≤ 32767) (j : Nat) :
    s.tbl.holders s.held j + n + 3 ≤ 32767 := by
  by_cases hj : j ≤ s.tbl.rts.length
  · exact hsome j hj
  · have hnone : s.tbl.entry j = none := by
      rw [RtTable.entry, getElem?_eq_none (Nat.le_of_not_le hj)]
      rfl
    have := hsome _ (Nat.le_refl _)
    rw [holders_of_no_entry h hnone]
    omega

theorem held_caller {rt : Nat} (hm : rt ∈ s.callers) :
    s.held.Perm (rt :: (s.routes.filterMap id ++ s.callers.erase rt)) :=
  (Perm.append_left _ (perm_cons_erase hm)).trans perm_middle

theorem right_rtDo (h : s.Right) {st : RtStep α} (ha : s.Allowed st.op) (hc : RefCond s st) :
    ∃ s', rtDo s st = some s' ∧ s'.Right := by
  obtain ⟨hsome, hc⟩ := hc
  have hroom := holders_room h hsome
  have hle {rt : Nat} {ext : List Nat}
      (hsame : ∀ j, s.tbl.holders (rt :: ext) j = s.tbl.holders s.held j) :
      s.tbl.holders (rt :: ext) rt ≤ 32767 := by
    have := hroom rt
    rw [hsame]
    omega
  have hfree {i : Nat} : ∃ s', s.leave i rtfree = some s' ∧ s'.Right :=
    right_leave h i fun rt ext _ hcounts hsame => counts_rtfree_none hcounts (hle hsame)
  rw [rtDo]
  cases hop : st.op with
  | rtalloc1 dst report =>
    obtain ⟨t', mem', r, halloc, hlook⟩ := looked_rtalloc1 st.rn st.mem h
      (fun j => by have := hroom j; omega) dst report
    dsimp only
    rw [halloc]
    refine ⟨_, rfl, hlook.counts.perm ?_⟩
    show (r.toList ++ (s.routes.filterMap id ++ s.callers)).Perm
      (s.routes.filterMap id ++ (r.toList ++ s.callers))
    grind
  | rtfree rt =>
    rw [hop] at ha
    have hperm := held_caller ha
    obtain ⟨t', ht', h'⟩ := counts_rtfree_none (RtTable.Counts.perm h hperm)
      (hle (holders_perm hperm))
    dsimp only
    rw [ht']
    exact ⟨_, rfl, h'⟩
  | rtadd dst gateway netmask flags direct ret =>
    obtain ⟨t', new, hadd, h', -, -⟩ := counts_rtrequestAdd st.rn st.mem h
      (fun j => by have := hroom j; omega) dst gateway netmask flags direct ret
    dsimp only
    rw [hadd]
    refine ⟨_, rfl, h'.perm ?_⟩
    show ((if ret then new.toList else []) ++ (s.routes.filterMap id ++ s.callers)).Perm
      (s.routes.filterMap id ++ ((if ret then new.toList else []) ++ s.callers))
    grind
  | rtdelete dst netmask flags =>
    rw [hop] at hc
    obtain ⟨t', ht', h'⟩ := counts_rtrequestDelete st.rn h
      (fun j => by have := hroom j; omega) dst netmask flags hc
    exact ⟨{ s with tbl := t' }, by dsimp only; rw [ht']; rfl, h'⟩
  | rtsetgate rt gate grow =>
    rw [hop] at ha
    have hperm := held_caller ha.1
    obtain ⟨t', ok, hset, h', -⟩ := counts_rtSetgate st.rn st.mem (RtTable.Counts.perm h hperm) ha.2
      (fun j => by have := hroom j; rw [holders_perm hperm]; omega) gate grow
    exact ⟨{ s with tbl := t' }, by dsimp only; rw [hset]; rfl, h'.perm hperm.symm⟩
  | inPcballoc =>
    refine ⟨_, rfl, ?_⟩
    have hheld : ({ s with routes := s.routes ++ [none] } : RtSys α).held = s.held := by
      simp [RtSys.held]
    rw [RtSys.Right, hheld]
    exact h
  | rtalloc i dst =>
    rw [hop] at ha
    have hi : s.routes[i]? = some none := ha
    obtain ⟨rest, hperm, hset⟩ := held_set hi
    obtain ⟨t', mem', r, halloc, hlook⟩ := looked_rtalloc1 st.rn st.mem h
      (fun j => by have := hroom j; omega) dst true
    dsimp only
    rw [hi, halloc]
    exact ⟨_, rfl, hlook.counts.perm ((Perm.append_left _ hperm).trans (hset r t').symm)⟩
  | roflush i =>
    refine right_leave h i fun rt ext _ hcounts hsame => ?_
    obtain ⟨e, he⟩ := entry_of_counts hcounts
    have hcount := hcounts.count rt e he
    have hroom := hle hsame
    obtain ⟨t', ht', h'⟩ := counts_rtfree_none hcounts hroom
    exact ⟨t', (rtFREE_eq he (by omega)).trans ht', h'⟩
  | inLosing i =>
    rw [hop] at hc
    refine right_leave h i fun rt ext hi hcounts hsame => ?_
    obtain ⟨e, he⟩ := entry_of_counts hcounts
    have hstatic : e.rtFlags.dynamic = false := hc rt (by rw [hi]; rfl) e he
    obtain ⟨t', ht', h'⟩ := counts_rtfree_none hcounts (hle hsame)
    refine ⟨t', ?_, h'⟩
    rw [inLosing, he]
    dsimp only
    rw [hstatic, if_neg Bool.false_ne_true, ht']
  | inRtchange i => exact hfree
  | inPcbdetach i => exact hfree
  | routeOutput m grow direct =>
    rw [hop] at hc
    obtain ⟨t', ht', h'⟩ := counts_routeOutput st.rn st.mem h hroom m hc grow direct
    exact ⟨{ s with tbl := t' }, by dsimp only; rw [ht']; rfl, h'⟩

theorem right_rtStep (h : s.Right) {st : RtStep α} (hc : RefCond s st) :
    ∃ s', rtStep s st = some s' ∧ s'.Right := by
  rw [rtStep]
  split
  · next ha => exact right_rtDo h ha hc
  · exact ⟨s, rfl, h⟩

theorem right_of_rtReach (h : RtReach RefCond s) : s.Right := by
  refine Reach.ops ?_ (fun s st hs hc => ?_) h
  · rintro s rfl
    refine ⟨fun rt e he => ?_, fun rt hrt => absurd hrt (Nat.lt_irrefl 0), fun rt => ?_,
      nodup_nil, fun rt e he => ?_⟩
    · cases he
    · constructor
      · intro hin
        cases hin
      · rintro ⟨e, he, -⟩
        cases he
    · cases he
  · obtain ⟨s', hstep, hs'⟩ := right_rtStep hs hc
    rw [rtNext, hstep]
    exact hs'

/-- **Reference counts of routes.** In every run that meets the condition `rt_refcnt` is the number
of holders; an entry is freed exactly when it is out of the tree, that is not `RTF_UP`, and without
a holder; what is held is there; and no operation panics or uses a freed entry. -/
theorem route_refcounts {s : RtSys α} (h : RtReach RefCond s) :
    (∀ rt e, s.tbl.entry rt = some e →
      e.rtRefcnt = s.holders rt ∧ (e.up = true ↔ rt ∈ s.tbl.tree)) ∧
    (∀ rt < s.tbl.rts.length, s.tbl.entry rt = none ↔ rt ∉ s.tbl.tree ∧ s.holders rt = 0) ∧
    (∀ rt, 0 < s.holders rt → rt < s.tbl.rts.length) ∧
    ∀ st, RefCond s st → (rtStep s st).isSome = true := by
  have hs := right_of_rtReach h
  refine ⟨fun rt e he => ⟨hs.count rt e he, hs.up_iff he⟩, fun rt hrt => ⟨fun hnone => ⟨fun hin => ?_,
    holders_of_no_entry hs hnone⟩, fun ⟨hout, hzero⟩ => ?_⟩, fun rt hrt => ?_, fun st hc => ?_⟩
  · obtain ⟨e, he, -⟩ := (hs.tree rt).mp hin
    rw [hnone] at he
    cases he
  · by_contra hne
    obtain ⟨e, he⟩ := ne_none_iff_exists'.mp hne
    have hdown : e.up = false := Bool.eq_false_iff.mpr fun hu => hout ((hs.up_iff he).mp hu)
    have hpos := (hs.down rt e he hdown (some_ne_none _)).1
    rw [RtSys.holders] at hzero
    omega
  · obtain ⟨e, he⟩ := ne_none_iff_exists'.mp (hs.live rt hrt)
    exact (List.getElem?_eq_some_iff.mp (entry_lt he)).1
  · obtain ⟨s', hstep, -⟩ := right_rtStep hs hc
    rw [hstep]
    rfl

/-- A tree for addresses that are the numbers of their entries; `chain` is the entry that the walk
over `rn_dupedkey` ends at. -/
def plainRnh (chain : Nat → Nat) : Rnh Nat where
  matchaddr tree a := tree.find? (· == a)
  addaddr _ _ _ := true
  deladdr tree a _ := tree.find? (· == a)
  dupedkey tree rt _ := tree.find? (· == chain rt)
  maskedcopy a _ := a
  sameKey a b := a == b
  match_mem _ _ _ h := mem_of_find?_eq_some h
  del_mem _ _ _ _ h := mem_of_find?_eq_some h
  dup_mem _ _ _ _ h := mem_of_find?_eq_some h

def plainStep (op : RtOp Nat) : RtStep Nat := { rn := plainRnh id, mem := [true, true], op }

/-- Route 1 goes through route 0. A connection uses it, its gateway is set again, and it is deleted
and then left by the connection. -/
def gatewayRun : List (RtStep Nat) := [plainStep (.rtadd 0 0 (some 8) {} true false),
    plainStep (.routeOutput { rtmType := .add, dst := 1, gate := some 0,
                              rtmFlags := { gateway := true } } false true),
    plainStep .inPcballoc, plainStep (.rtalloc 1 1),
    plainStep (.routeOutput { rtmType := .change, dst := 1, gate := some 0 } true false),
    plainStep (.routeOutput { rtmType := .delete, dst := 1 } false true),
    plainStep (.inRtchange 1)]

theorem route_refcounts_gateway :
    RtReach RefCond (gatewayRun.foldl rtNext {}) ∧
      ((gatewayRun.foldl rtNext {}).tbl.entry 1 = none ↔
        1 ∉ (gatewayRun.foldl rtNext {}).tbl.tree ∧ (gatewayRun.foldl rtNext {}).holders 1 = 0) := by
  have h : RtReach RefCond (gatewayRun.foldl rtNext {}) := rtReach_foldl (by decide)
  exact ⟨h, (route_refcounts h).2.1 1 (by decide)⟩

/-- A route made by a redirect is cached by a connection, which then loses it. -/
def losingRun : List (RtStep Nat) :=
  [plainStep (.rtadd 0 5 none { dynamic := true, host := true } true false),
    plainStep .inPcballoc, plainStep (.rtalloc 1 0), plainStep (.inLosing 1)]

/-- The entry is down, nobody holds it, and it is not freed. -/
theorem dynamic_route_leaked :
    ∃ s : RtSys Nat, RtReach (fun _ _ => True) s ∧ ∃ e, s.tbl.entry 0 = some e ∧
      e.up = false ∧ e.rtRefcnt = 1 ∧ s.holders 0 = 0 := by
  refine ⟨losingRun.foldl rtNext {}, rtReach_foldl (MeetsAll.trivial _ _),
    { rtKey := 0, rtMask := none, rtGateway := 5, rtFlags := { dynamic := true, host := true },
      up := false, rtRefcnt := 1 }, ?_⟩
  decide

-- `RTM_LOCK` for entry 1 of a chain that starts with entry 0: the reference taken to 0 is dropped
-- from 1.
example : (([plainStep (.rtadd 0 0 none {} true false), plainStep (.rtadd 0 0 (some 8) {} true false),
    { rn := plainRnh fun _ => 1, op := .routeOutput { rtmType := .lock, dst := 0 } false true }]
      ).foldl rtNext {}).tbl.rts.map (fun o => o.map (·.rtRefcnt)) = [some 1, some (-1)] := by
  decide

-- An entry that has become its own gateway's route by `RTM_CHANGE` is used after it was freed.
example : rtStep (([plainStep (.rtadd 0 0 none { gateway := true } true false),
    plainStep (.routeOutput { rtmType := .change, dst := 0, gate := some 0 } false true)]
      ).foldl rtNext {}) (plainStep (.rtdelete 0 none {})) = none := by
  decide

end Anp
