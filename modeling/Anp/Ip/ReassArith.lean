import Anp.Ip.Reass
import Mathlib.Data.List.Chain

/-!
# ReassArith — the `short` fields of the reassembly queues

`ip_off` holds the offset in bytes, up to 65528, and `ip_len` the payload length of a fragment or
of the whole datagram, both in a `short`. The code is compared here with the same code on
unbounded integers (`unbounded`).

`ip_off <<= 3` makes an offset from 32768 on negative; `beyond_short` has a run in which such a
fragment is put in front of the one it belongs behind.
-/

namespace Anp

open Machine Runs List

variable {n : Int} {ip : IpFrag} {qs : List IpFrag} {l : List Ipq}

/-! ## Fragments below 32768 -/

/-- The fragment lies in the first 32767 bytes of its datagram. -/
structure IpFrag.Fits (f : IpFrag) : Prop where
  off_nonneg : 0 ≤ f.off
  len_nonneg : 0 ≤ f.len
  end_le : f.off + f.len ≤ 32767

theorem cShort_store {z : Int} (h0 : 0 ≤ z) (h : z ≤ 32767) :
    cShort.store z = unbounded.store z := by
  have hz : int16 z = z := int16_of_range (by omega) (by omega)
  simp only [cShort, hz]
  rfl

theorem cShort_shl3 {off : Nat} (h : 8 * (off % 8192) ≤ 32767) :
    cShort.shl3 off = unbounded.shl3 off := by
  simp only [cShort, unbounded, int16, Int.bmod]
  split <;> omega

/-- The bytes a predecessor or successor provides can be cut off without leaving the range. -/
theorem IpFrag.Fits.trim {q : IpFrag} (hq : q.Fits) {i : Int} (h0 : 0 < i) (hi : i < q.len) :
    q.trim cShort i = q.trim unbounded i ∧ (q.trim unbounded i).Fits := by
  have hoff := hq.off_nonneg
  have hend := hq.end_le
  constructor
  · simp only [IpFrag.trim]
    rw [cShort_store (by omega) (by omega), cShort_store (by omega) (by omega)]
  · constructor
    · show 0 ≤ q.off + i
      omega
    · show 0 ≤ q.len - i
      omega
    · show q.off + i + (q.len - i) ≤ 32767
      omega

theorem fragPred_exact (before : List IpFrag) (hip : ip.Fits) :
    fragPred cShort before ip = fragPred unbounded before ip ∧
      ∀ ip' ∈ fragPred unbounded before ip, ip'.Fits := by
  rw [fragPred, fragPred]
  split
  · exact ⟨rfl, by simpa using hip⟩
  · next q _ =>
    dsimp only
    split
    · next h0 =>
      split
      · exact ⟨rfl, by simp⟩
      · next hi =>
        obtain ⟨he, hf⟩ := hip.trim h0 (by omega)
        exact ⟨by rw [he], by simpa using hf⟩
    · exact ⟨rfl, by simpa using hip⟩

theorem fragSucc_exact (hqs : ∀ q ∈ qs, q.Fits) :
    fragSucc cShort ip qs = fragSucc unbounded ip qs ∧ ∀ q ∈ fragSucc unbounded ip qs, q.Fits := by
  induction qs with
  | nil => exact ⟨rfl, hqs⟩
  | cons q qs ih =>
    rw [forall_mem_cons] at hqs
    rw [fragSucc, fragSucc]
    split
    · next hover =>
      dsimp only
      split
      · next hi =>
        obtain ⟨he, hf⟩ := hqs.1.trim (i := ip.off + ip.len - q.off) (by omega) hi
        rw [he]
        exact ⟨rfl, forall_mem_cons.mpr ⟨hf, hqs.2⟩⟩
      · exact ih hqs.2
    · exact ⟨rfl, forall_mem_cons.mpr hqs⟩

theorem fragInsert_exact (hqs : ∀ q ∈ qs, q.Fits) (hip : ip.Fits) :
    fragInsert cShort qs ip = fragInsert unbounded qs ip ∧
      ∀ qs' ∈ fragInsert unbounded qs ip, ∀ q ∈ qs', q.Fits := by
  rw [fragInsert, fragInsert]
  have hbefore : ∀ q ∈ qs.takeWhile fun q => decide (q.off ≤ ip.off), q.Fits :=
    fun q hq => hqs q (takeWhile_subset _ hq)
  have hafter : ∀ q ∈ qs.dropWhile fun q => decide (q.off ≤ ip.off), q.Fits :=
    fun q hq => hqs q (dropWhile_subset _ hq)
  generalize qs.takeWhile (fun q => decide (q.off ≤ ip.off)) = before at *
  obtain ⟨he, hf⟩ := fragPred_exact before hip
  rw [he]
  constructor
  · apply Option.map_congr
    intro ip' _
    rw [(fragSucc_exact hafter).1]
  · intro qs' hqs'
    obtain ⟨ip', hip', rfl⟩ := Option.mem_map.mp hqs'
    intro q hq
    rcases mem_append.mp hq with hq | hq
    · exact hbefore q hq
    · rcases mem_cons.mp hq with rfl | hq
      · exact hf q hip'
      · exact (fragSucc_exact hafter).2 q hq

/-! ## The length of a datagram -/

theorem fragNext_sum {next : Int} (h : fragNext next qs = some n) :
    n = next + (qs.map (·.len)).sum := by
  induction qs generalizing next with
  | nil =>
    cases h
    simp
  | cons q qs ih =>
    rw [fragNext] at h
    split at h
    · cases h
    · rw [ih h, map_cons, sum_cons]
      omega

theorem fragNext_le {next : Int} (hqs : ∀ q ∈ qs, q.Fits) (h0 : 0 ≤ next) (hle : next ≤ 32767)
    (h : fragNext next qs = some n) : 0 ≤ n ∧ n ≤ 32767 := by
  induction qs generalizing next with
  | nil =>
    cases h
    exact ⟨h0, hle⟩
  | cons q qs ih =>
    rw [forall_mem_cons] at hqs
    have hlen := hqs.1.len_nonneg
    have hend := hqs.1.end_le
    rw [fragNext] at h
    split at h
    · cases h
    · next hoff => exact ih hqs.2 (by omega) (by omega) h

theorem fragDone_some (h : fragDone qs = some n) :
    fragNext 0 qs = some n := by
  rw [fragDone] at h
  split at h
  · cases h
  · exact h

/-! ## `ip_reass` and `ipintr` -/

theorem IpPkt.Ok.frag_exact {k : IpPkt} (hk : k.Ok)
    (hfit : 8 * ((k.off % 8192 : Nat) : Int) + (k.len - 4 * k.hl) ≤ 32767) (m : List Mbuf) :
    k.frag cShort m = k.frag unbounded m ∧ (k.frag unbounded m).Fits := by
  have hhdr := hk.hdr_le
  constructor
  · simp only [IpPkt.frag]
    rw [cShort_store (by omega) (by omega), cShort_shl3 (by omega)]
  · constructor
    · show (0 : Int) ≤ 8 * ((k.off % 8192 : Nat) : Int)
      omega
    · show 0 ≤ k.len - 4 * k.hl
      omega
    · exact hfit

/-- Every fragment of every queue ends at or before byte 32767. -/
def AllFit (l : List Ipq) : Prop := ∀ q ∈ l, ∀ f ∈ q.frags, f.Fits

theorem AllFit.find (hl : AllFit l) (k : IpKey) :
    ∀ f ∈ (ipqFind l k).getD [], f.Fits := by
  cases hfind : ipqFind l k with
  | none => simp
  | some qs =>
    obtain ⟨q, hq, rfl⟩ := ipqFind_mem hfind
    exact hl q hq

theorem fragDone_store (hqs : ∀ q ∈ qs, q.Fits) (h : fragDone qs = some n) :
    cShort.store n = unbounded.store n := by
  obtain ⟨h0, hle⟩ := fragNext_le hqs (by decide) (by decide) (fragDone_some h)
  exact cShort_store h0 hle

/-- On such fragments `ip_reass` takes every branch as `unbounded` does. -/
theorem ipReass_exact {mget : Bool} {k : IpKey} (hl : AllFit l) (hip : ip.Fits) :
    ipReass cShort mget l k ip = ipReass unbounded mget l k ip := by
  have hqs := hl.find k
  rw [ipReass, ipReass]
  cases hfind : ipqFind l k with
  | none =>
    cases hdone : fragDone [ip] with
    | none => rfl
    | some n => simp only [fragDone_store (by simpa using hip) hdone]
  | some qs =>
    rw [hfind, Option.getD_some] at hqs
    obtain ⟨he, hf⟩ := fragInsert_exact hqs hip
    dsimp only
    rw [he]
    cases hins : fragInsert unbounded qs ip with
    | none => rfl
    | some qs' =>
      dsimp only
      cases hdone : fragDone qs' with
      | none => rfl
      | some n => simp only [fragDone_store (hf qs' hins) hdone]

/-- The packet ends at or before byte 32767 of its datagram. A packet that is not a fragment
always does. -/
def FitCond (_ : List Ipq) (op : IpOp) : Prop :=
  ∀ r ∈ op.ours, 8 * ((r.2.off % 8192 : Nat) : Int) + (r.2.len - 4 * r.2.hl) ≤ 32767

theorem ipOurs_exact {a : IpAlloc} {k : IpPkt} (hl : AllFit l) (hk : k.Ok)
    (hfit : 8 * ((k.off % 8192 : Nat) : Int) + (k.len - 4 * k.hl) ≤ 32767) :
    ipOurs cShort a l k = ipOurs unbounded a l k := by
  have hhdr := hk.hdr_le
  have hstore : cShort.store (k.len - (4 * k.hl : Nat))
      = unbounded.store (k.len - (4 * k.hl : Nat)) := cShort_store (by omega) (by omega)
  simp only [ipOurs, (hk.frag_exact hfit _).1, ipReass_exact hl (hk.frag_exact hfit _).2, hstore]

theorem ipStep_exact {op : IpOp} (hl : AllFit l) (hop : FitCond l op) :
    ipStep cShort l op = ipStep unbounded l op := by
  rw [ipStep.eq_def, ipStep.eq_def unbounded]
  cases hours : op.ours with
  | none => rfl
  | some r => exact ipOurs_exact hl (IpOp.ours_ok hours) (hop r hours)

theorem AllFit.step {op : IpOp} (hl : AllFit l) (hop : FitCond l op) :
    AllFit (ipNext cShort l op) := by
  apply ipStep_queues (P := fun fs => ∀ f ∈ fs, f.Fits) hl
  intro a k ip hours hpass qs hqs
  obtain ⟨m, -, rfl⟩ := ipPassed_frag hpass
  obtain ⟨he, hf⟩ := (IpOp.ours_ok hours).frag_exact (hop _ hours) m
  rw [he] at hqs
  obtain ⟨hins, hall⟩ := fragInsert_exact (hl.find k.key) hf
  rw [hins] at hqs
  exact hall qs hqs

theorem AllFit.run {l : List Ipq} {ops : List IpOp} (hl : AllFit l)
    (h : MeetsAll (ipNext cShort) FitCond l ops) :
    AllFit (ops.foldl (ipNext cShort) l) ∧
      ops.foldl (ipNext cShort) l = ops.foldl (ipNext unbounded) l := by
  induction ops generalizing l with
  | nil => exact ⟨hl, by simp only [foldl_nil]⟩
  | cons op ops ih =>
    have hnext : ipNext cShort l op = ipNext unbounded l op := by
      rw [ipNext, ipNext, ipStep_exact hl h.1]
    obtain ⟨hfit, he⟩ := ih (hl.step h.1) h.2
    refine ⟨hfit, ?_⟩
    rw [foldl_cons, foldl_cons, he, hnext]

/-- **The arithmetic of reassembly.** In a run in which every fragment ends at or before byte 32767,
offsets, lengths and steps are those of the run on unbounded integers, the fields compared are the
true ones, and `ip_len` of a datagram is the sum of its fragments, with room for its header. -/
theorem reass_arith (ops : List IpOp) (op : IpOp) (h : MeetsAll (ipNext cShort) FitCond [] ops)
    (hop : FitCond (ops.foldl (ipNext cShort) []) op) :
    ops.foldl (ipNext cShort) [] = ops.foldl (ipNext unbounded) [] ∧
      ipStep cShort (ops.foldl (ipNext cShort) []) op
        = ipStep unbounded (ops.foldl (ipNext unbounded) []) op ∧
      ∀ a k ip, op.ours = some (a, k) → ipPassed cShort a k = some ip →
        ip.off = 8 * ((k.off % 8192 : Nat) : Int) ∧ ip.len = k.len - 4 * k.hl ∧
          ∀ c n, (ipReass cShort a.gQueue (ops.foldl (ipNext cShort) []) k.key ip).2 = some (c, n) →
            ∃ parts, fragInsert unbounded
                  ((ipqFind (ops.foldl (ipNext unbounded) []) k.key).getD []) ip = some parts ∧
                c = fragJoin parts ∧ n = (parts.map (·.len)).sum ∧
                4 * (frontHl c : Int) + n ≤ 65535 := by
  have hnil : AllFit [] := by simp [AllFit]
  obtain ⟨hfit, hrun⟩ := hnil.run h
  refine ⟨hrun, ?_, ?_⟩
  · rw [ipStep_exact hfit hop, hrun]
  intro a k ip hours hpass
  obtain ⟨m, -, rfl⟩ := ipPassed_frag hpass
  obtain ⟨he, hf⟩ := (IpOp.ours_ok hours).frag_exact (hop _ hours) m
  rw [he]
  refine ⟨rfl, rfl, ?_⟩
  intro c n hc
  rw [ipReass_exact hfit hf] at hc
  obtain ⟨parts, next, hins, hdone, rfl, rfl⟩ := ipReass_some hc
  have hparts := (fragInsert_exact (hfit.find k.key) hf).2 parts hins
  have hnext := fragDone_some hdone
  have hle := (fragNext_le hparts (by decide) (by decide) hnext).2
  refine ⟨parts, ?_, rfl, ?_, ?_⟩
  · rw [← hrun, hins]
  · rw [fragNext_sum hnext, Int.zero_add]
  · have hhl : frontHl (fragJoin parts) < 16 := Nat.mod_lt _ (by decide)
    omega

instance (l : List Ipq) : DecidablePred (FitCond l) := fun op =>
  inferInstanceAs (Decidable (∀ r ∈ op.ours, _))

/-- A packet of the datagram 7 from 10.0.0.1 to 10.0.0.2, in one plain mbuf. -/
def dgramSeven (off : Nat) (data : List Byte) : IpOp := .packet (IpHdr.plain
      { hl := 5, len := 20 + data.length, id := 7, off := off, p := 17, src := 0x0a000001,
        dst := 0x0a000002 } data)
    {} (some 0x0a000002)

theorem reass_arith_two :
    ipStep cShort (ipNext cShort [] (dgramSeven 0x2000 [1, 2, 3, 4, 5, 6, 7, 8]))
        (dgramSeven 1 [9, 10])
      = ipStep unbounded (ipNext unbounded [] (dgramSeven 0x2000 [1, 2, 3, 4, 5, 6, 7, 8]))
          (dgramSeven 1 [9, 10]) :=
  (reass_arith [dgramSeven 0x2000 [1, 2, 3, 4, 5, 6, 7, 8]] (dgramSeven 1 [9, 10])
    (by decide +kernel) (by decide +kernel)).2.1

/-- **Beyond byte 32767.** The fragment at byte 32768 is stored with the offset -32768, so the first
fragment, which arrives after it, is put behind it. -/
theorem beyond_short :
    ([dgramSeven 4096 [9, 10], dgramSeven 0x2000 [1, 2, 3, 4, 5, 6, 7, 8]].foldl
        (ipNext cShort) []).map (fun q => q.frags.map (·.off)) = [[-32768, 0]] ∧
      ([dgramSeven 4096 [9, 10], dgramSeven 0x2000 [1, 2, 3, 4, 5, 6, 7, 8]].foldl
        (ipNext unbounded) []).map (fun q => q.frags.map (·.off)) = [[0, 32768]] := by
  decide +kernel

/-! ## Fragments that overlap -/

/-- No fragment reaches into the next. -/
def Apart (qs : List IpFrag) : Prop := qs.IsChain fun a b => a.off + a.len ≤ b.off

theorem fragPred_apart {before : List IpFrag} {ip' : IpFrag}
    (h : fragPred unbounded before ip = some ip') :
    ∀ q ∈ before.getLast?, q.off + q.len ≤ ip'.off := by
  intro q hq
  rw [fragPred, hq] at h
  dsimp only at h
  split_ifs at h <;> cases h
  · show _ ≤ ip.off + _
    omega
  · omega

theorem fragSucc_apart (h : Apart qs) : Apart (ip :: fragSucc unbounded ip qs) := by
  induction qs with
  | nil => exact .singleton ip
  | cons q qs ih =>
    rw [fragSucc]
    dsimp only
    split_ifs
    · -- the front of `q` is cut off, its end stays
      refine .cons_cons ?_ (h.imp_head fun {r} hr => ?_)
      · show _ ≤ q.off + _
        omega
      · show q.off + _ + (q.len - _) ≤ r.off
        omega
    · exact ih h.of_cons
    · exact .cons_cons (by omega) h

theorem Apart.insert {qs' : List IpFrag} (h : Apart qs)
    (hins : fragInsert unbounded qs ip = some qs') : Apart qs' := by
  obtain ⟨ip', hpred, rfl⟩ := Option.map_eq_some_iff.mp hins
  rw [← takeWhile_append_dropWhile (p := fun q => decide (q.off ≤ ip.off)) (l := qs)] at h
  obtain ⟨hb, ha, -⟩ := isChain_append.mp h
  refine isChain_append.mpr ⟨hb, fragSucc_apart ha, ?_⟩
  rintro q hq _ ⟨rfl⟩
  exact fragPred_apart hpred q hq

/-- **No overlap.** Whatever fragments arrive, as long as each ends at or before byte 32767, no
fragment of a queue reaches into the next. -/
theorem reass_apart (h : IpReach FitCond l) : ∀ q ∈ l, Apart q.frags := by
  refine (Reach.ops (I := fun l => AllFit l ∧ ∀ q ∈ l, Apart q.frags) ?_ ?_ h).2
  · rintro l rfl
    simp [AllFit]
  rintro l op ⟨hfit, hl⟩ hop
  refine ⟨hfit.step hop, ipStep_queues hl ?_⟩
  intro a k ip hours hpass qs hqs
  obtain ⟨m, -, rfl⟩ := ipPassed_frag hpass
  obtain ⟨he, hf⟩ := (IpOp.ours_ok hours).frag_exact (hop _ hours) m
  rw [he, (fragInsert_exact (hfit.find k.key) hf).1] at hqs
  refine Apart.insert ?_ hqs
  cases hfind : ipqFind l k.key with
  | none => exact .nil
  | some fs =>
    obtain ⟨q, hq, rfl⟩ := ipqFind_mem hfind
    exact hl q hq

theorem reass_apart_overlap : ∃ q ∈ [dgramSeven 0x2000 [1], dgramSeven 0x2000 [1, 2]].foldl
    (ipNext cShort) [], Apart q.frags := by
  refine (exists_mem_of_ne_nil _ ?_).imp fun q hq =>
    ⟨hq, reass_apart (Reach.foldl (Reach.start rfl) ?_) q hq⟩ <;> decide +kernel

end Anp
