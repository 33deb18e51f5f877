import Mathlib.Data.List.Nodup
import Anp.Ip.OutputWf

/-!
# OutputOwn — what becomes of the mbufs of `ip_output`
-/

namespace Anp

open Machine List

variable {loops : Bool} {hlen : Int} {ip : IpHdr} {payload : List Byte} {m : List Mbuf}
  {ids : List MbufId} {len : Nat} {err : Option OutErr} {rest : OutRes}

/-! ## Accounting -/

def OutEvent.gain : OutEvent → List MbufId
  | .alloc ids => ids
  | _ => []

def OutEvent.loss : OutEvent → List MbufId
  | .alloc _ => []
  | .output ids _ => ids
  | .free ids => ids

/-- The mbufs a run gets from the allocator. -/
def allocated (l : List OutEvent) : List MbufId := l.flatMap OutEvent.gain

/-- The mbufs a run hands to `if_output` or frees. -/
def released (l : List OutEvent) : List MbufId := l.flatMap OutEvent.loss

theorem allocated_append (l l' : List OutEvent) :
    allocated (l ++ l') = allocated l ++ allocated l' := flatMap_append

theorem released_append (l l' : List OutEvent) :
    released (l ++ l') = released l ++ released l' := flatMap_append

/-- The mbufs `ids` and the ones allocated are released, and no others. -/
def Balanced (ids : List MbufId) (l : List OutEvent) : Prop :=
  (released l).Perm (ids ++ allocated l)

theorem Balanced.append {ids' : List MbufId} {l l' : List OutEvent} (h : Balanced ids l)
    (h' : Balanced ids' l') : Balanced (ids ++ ids') (l ++ l') := by
  rw [Balanced, released_append, allocated_append]
  refine (Perm.append h h').trans ?_
  rw [append_assoc, append_assoc]
  refine Perm.append_left ids ?_
  rw [← append_assoc, ← append_assoc]
  exact perm_append_comm.append_right _

def pktIds (ps : List OutPkt) : List MbufId := ps.flatMap (·.ids)

theorem released_free (ps : List OutPkt) :
    released (ps.map fun q => .free q.ids) = pktIds ps := by
  rw [released, pktIds, flatMap_map]
  rfl

theorem allocated_free (ps : List OutPkt) : allocated (ps.map fun q => .free q.ids) = [] := by
  rw [allocated, flatMap_map]
  exact flatMap_eq_nil_iff.mpr fun _ _ => rfl

theorem sendAll_spec (ifError : Nat → Bool) (i : Nat) (ps : List OutPkt) :
    released (sendAll ifError i ps).1 = pktIds ps ∧ allocated (sendAll ifError i ps).1 = [] := by
  induction ps generalizing i with
  | nil => exact ⟨rfl, rfl⟩
  | cons p ps ih =>
    rw [sendAll]
    split
    · constructor
      · show p.ids ++ released (ps.map fun q => .free q.ids) = p.ids ++ pktIds ps
        rw [released_free]
      · exact allocated_free ps
    · obtain ⟨hr, ha⟩ := ih (i + 1)
      constructor
      · show p.ids ++ released (sendAll ifError (i + 1) ps).1 = p.ids ++ pktIds ps
        rw [hr]
      · exact ha

/-! ## The fragments -/

/-- What the loop has allocated it has linked to the list or freed. -/
theorem outFragLoop_accounts (a : FragAlloc) (hlen : Int) (ip : IpHdr) (m : List Mbuf)
    (len k : Nat) (off : Int) (hfin : (outFragLoop a hlen ip m len k off).fin = .all ∨
      (outFragLoop a hlen ip m len k off).fin = .enobufs) :
    (released (outFragLoop a hlen ip m len k off).events ++
      pktIds (outFragLoop a hlen ip m len k off).pkts).Perm
      (allocated (outFragLoop a hlen ip m len k off).events) := by
  fun_induction outFragLoop a hlen ip m len k off
  case case3 | case4 | case5 => rcases hfin with h | h <;> cases h
  case case6 off _ _ _ _ _ _ _ _ ids =>
    -- the header is freed after the mbufs of the copy
    show (ids ++ ([MbufId.hdr off] ++ []) ++ []).Perm ([MbufId.hdr off] ++ (ids ++ []))
    rw [append_nil, append_nil, append_nil]
    exact perm_append_comm
  case case7 p r ih =>
    show (released r.events ++ (p.ids ++ pktIds r.pkts)).Perm (p.ids ++ allocated r.events)
    rw [← append_assoc]
    refine (perm_append_comm.append_right _).trans ?_
    rw [append_assoc]
    exact (ih hfin).append_left p.ids
  all_goals exact Perm.refl _

/-- The fragments are sent or freed with the first one; nothing is allocated for it. -/
theorem outFragSend_events (e : IpEnv) (hlen : Int) (ip : IpHdr) (ids : List MbufId)
    (m : List Mbuf) (len : Nat) {r : FragRun}
    (hr : outFragLoop e.frag hlen ip m len ip.len (hlen + len) = r) :
    ∃ l, (outFragSend e hlen ip ids m len).events = r.events ++ l ∧ allocated l = [] ∧
      ∀ err, (outFragSend e hlen ip ids m len).ret = .done err →
        released l = ids ++ pktIds r.pkts ∧ (r.fin = .all ∨ r.fin = .enobufs) := by
  rw [outFragSend, hr]
  cases r.fin with
  | panic | fault | stuck => exact ⟨[], (append_nil _).symm, rfl, by simp⟩
  | enobufs =>
    refine ⟨_, rfl, allocated_free r.pkts, fun _ _ => ⟨?_, by simp⟩⟩
    show ids ++ released (r.pkts.map fun q => .free q.ids) = _
    rw [released_free]
  | all =>
    obtain ⟨hrel, ha⟩ := sendAll_spec e.ifError 0 (⟨ids, outFragFirst hlen ip m len⟩ :: r.pkts)
    exact ⟨_, rfl, ha, fun _ _ => ⟨hrel, by simp⟩⟩

theorem outFragSend_balanced {e : IpEnv} (h : (outFragSend e hlen ip ids m len).ret = .done err) :
    Balanced ids (outFragSend e hlen ip ids m len).events := by
  obtain ⟨l, hev, ha, hdone⟩ := outFragSend_events e hlen ip ids m len rfl
  obtain ⟨hr, hfin⟩ := hdone err h
  have hacc := outFragLoop_accounts e.frag hlen ip m len ip.len (hlen + len) hfin
  rw [hev, Balanced, released_append, allocated_append, hr, ha, append_nil, ← append_assoc]
  refine (perm_append_comm.append_right _).trans ?_
  rw [append_assoc]
  exact hacc.append_left ids

/-! ## The exits -/

theorem ipMloopback_balanced (avail : Nat) (ip : IpHdr) (m : List Mbuf) :
    Balanced [] (ipMloopback avail ip m).1 := by
  rw [ipMloopback]
  split <;> exact Perm.refl _

section

variable {e : IpEnv} {c : IpCall}

/-- The packet goes on if the call returns. -/
theorem withLoop_done (h : (withLoop e loops ip m rest).ret = .done err) :
    withLoop e loops ip m rest =
      ⟨(if loops then (ipMloopback e.loopAvail ip m).1 else []) ++ rest.events, rest.ret⟩ := by
  rcases withLoop_cases e loops ip m rest with hl | ⟨hf, -⟩
  · exact withLoop_eq rest hl
  · rw [hf] at h
    cases h

theorem withLoop_balanced (h : (withLoop e loops ip m rest).ret = .done err)
    (hb : Balanced ids rest.events) : Balanced ids (withLoop e loops ip m rest).events := by
  rw [withLoop_done h]
  split
  · exact (ipMloopback_balanced _ _ _).append hb
  · exact hb

/-- `goto bad`: no route, no broadcast, or a packet that is too large and cannot be fragmented. -/
def Refused (e : IpEnv) (c : IpCall) : Bool :=
  match ipRoute e c (c.filled e).1 with
  | .bad _ => true
  | .gone _ _ => false
  | .send ip ifp _ => decide (ip.len > ifp.mtu) && cantFrag ifp.mtu (c.filled e).2 ip

/-- At the label `bad` the chain passed in is freed. -/
theorem route_refused (h : (c.route e).ret = .done err) (hr : Refused e c = true) :
    Balanced c.ids (c.route e).events := by
  rw [IpCall.route] at h ⊢
  rw [Refused] at hr
  have hbad (x : OutErr) : Balanced c.ids (c.bad x).events := Perm.refl _
  cases hroute : ipRoute e c (c.filled e).1 with
  | bad x => exact hbad x
  | gone ip loops =>
    rw [hroute] at hr
    cases hr
  | send ip ifp loops =>
    rw [hroute] at h hr
    obtain ⟨hbig, hcant⟩ := Bool.and_eq_true_iff.mp hr
    have hnot : ¬ ip.len ≤ ifp.mtu := Nat.not_le_of_lt (of_decide_eq_true hbig)
    have hsend : outSendit e ifp (c.filled e).2 ip (c.inserted e).ids (c.inserted e).m c.bad
        = c.bad .emsgsize := by
      rw [outSendit, if_neg hnot, outFragment, if_pos hcant]
    dsimp only at h ⊢
    rw [hsend] at h ⊢
    exact withLoop_balanced h (hbad _)

/-- The packet that `ip_insertoptions` has made is handed over or freed. -/
theorem route_balanced (h : (c.route e).ret = .done err) (hr : Refused e c = false) :
    Balanced (c.inserted e).ids (c.route e).events := by
  rw [IpCall.route] at h ⊢
  rw [Refused] at hr
  cases hroute : ipRoute e c (c.filled e).1 with
  | bad x =>
    rw [hroute] at hr
    cases hr
  | gone ip loops =>
    rw [hroute] at h
    exact withLoop_balanced h (Perm.refl _)
  | send ip ifp loops =>
    rw [hroute] at h hr
    refine withLoop_balanced h ?_
    dsimp only at h
    rw [withLoop_done h, outSendit] at h
    rw [outSendit]
    split
    · have hs := sendAll_spec e.ifError 0
        [⟨(c.inserted e).ids, { hdr := ip, m := sumHdr ip (c.filled e).2 (c.inserted e).m }⟩]
      show Perm (released (sendAll _ _ _).1) (_ ++ allocated (sendAll _ _ _).1)
      rw [hs.1, hs.2]
      exact Perm.refl _
    next hbig =>
      have hcan : ¬ cantFrag ifp.mtu (c.filled e).2 ip = true := by
        intro hcant
        have hgt : ip.len > ifp.mtu := Nat.lt_of_not_le hbig
        dsimp only at hr
        rw [decide_eq_true hgt, hcant] at hr
        cases hr
      rw [if_neg hbig, outFragment, if_neg hcan] at h
      rw [outFragment, if_neg hcan]
      exact outFragSend_balanced h

/-- `ip_insertoptions` puts a new mbuf before the chain. -/
def IpCall.prepends (mgethdr : Bool) (c : IpCall) : Bool :=
  c.opt.any fun p => decide (p.list.length + c.ip.len ≤ ipMaxpacket) &&
    c.m0.head?.any (optNeedsMbuf p.list.length) && mgethdr

theorem inserted_ids : (c.inserted e).ids = if c.prepends e.optHdr then .opt :: c.ids else c.ids := by
  rw [IpCall.inserted, IpCall.prepends]
  cases hp : c.opt with
  | none => rfl
  | some p =>
    rw [Option.any_some]
    dsimp only
    rw [ipInsertoptions.eq_def]
    cases hm : c.m0 with
    | nil =>
      rw [head?_nil, Option.any_none, Bool.and_false, Bool.false_and]
      rfl
    | cons m ms =>
      rw [head?_cons, Option.any_some]
      by_cases hbig : p.list.length + c.ip.len > ipMaxpacket
      · have hno : decide (p.list.length + c.ip.len ≤ ipMaxpacket) = false :=
          decide_eq_false (Nat.not_le_of_lt hbig)
        dsimp only
        rw [if_pos hbig, hno, Bool.false_and, Bool.false_and]
        rfl
      · have hyes : decide (p.list.length + c.ip.len ≤ ipMaxpacket) = true :=
          decide_eq_true (Nat.le_of_not_lt hbig)
        dsimp only
        rw [if_neg hbig, hyes, Bool.true_and]
        cases optNeedsMbuf p.list.length m <;> cases e.optHdr <;> rfl

end

/-! ## Names -/

theorem copyIds_nodup {f : Nat → MbufId} (hf : ∀ i j, f i = f j → i = j) (n : Nat) :
    (copyIds f n).Nodup := Nodup.map (fun i j h => hf i j h) nodup_range

theorem mem_copyIds {f : Nat → MbufId} {n : Nat} {id : MbufId} (h : id ∈ copyIds f n) :
    ∃ i, id = f i := by
  obtain ⟨i, -, rfl⟩ := mem_map.mp h
  exact ⟨i, rfl⟩

/-- An mbuf of a fragment at `off` or after it. -/
def FragFrom (off : Int) (id : MbufId) : Prop := ∃ o, off ≤ o ∧ (id = .hdr o ∨ ∃ i, id = .copy o i)

theorem fragIds_spec (off : Int) (n : Nat) :
    (.hdr off :: copyIds (.copy off) n : List MbufId).Nodup ∧
      ∀ id ∈ (.hdr off :: copyIds (.copy off) n : List MbufId),
        id = .hdr off ∨ ∃ i, id = .copy off i := by
  constructor
  · rw [List.nodup_cons]
    refine ⟨?_, copyIds_nodup (fun i j h => by cases h; rfl) n⟩
    intro hmem
    obtain ⟨i, hi⟩ := mem_copyIds hmem
    cases hi
  · intro id hid
    rcases mem_cons.mp hid with rfl | hid
    · exact .inl rfl
    · exact .inr (mem_copyIds hid)

theorem fragIds_from (off : Int) (n : Nat) {l : List MbufId}
    (hl : l = .hdr off :: copyIds (.copy off) n) : l.Nodup ∧ ∀ id ∈ l, FragFrom off id := by
  obtain ⟨hnd, hmem⟩ := fragIds_spec off n
  rw [hl]
  exact ⟨hnd, fun id hid => ⟨off, Int.le_refl _, hmem id hid⟩⟩

theorem outFragLoop_fresh (a : FragAlloc) (hlen : Int) (ip : IpHdr) (m : List Mbuf) (hpos : 0 < len)
    (k : Nat) (off : Int) :
    (allocated (outFragLoop a hlen ip m len k off).events).Nodup ∧
      ∀ id ∈ allocated (outFragLoop a hlen ip m len k off).events, FragFrom off id := by
  have hnil (off : Int) : (allocated []).Nodup ∧ ∀ id ∈ allocated [], FragFrom off id := by
    simp [allocated]
  fun_induction outFragLoop a hlen ip m len k off
  case case3 | case4 | case5 => exact fragIds_from _ 0 rfl
  case case6 off _ _ _ _ _ _ avail _ ids =>
    apply fragIds_from off avail
    show [MbufId.hdr off] ++ (ids ++ []) = _
    rw [append_nil]
    rfl
  case case7 off hlt _ _ _ last l _ n _ p r ih =>
    have hl : l = if last then (ip.len - off).toNat else len := rfl
    have hl0 : 0 < l := by
      split at hl <;> omega
    obtain ⟨hnd, hmem⟩ := fragIds_spec off n.length
    obtain ⟨hnd', hmem'⟩ := ih
    constructor
    · refine nodup_append.mpr ⟨hnd, hnd', ?_⟩
      rintro id hid id' hid' rfl
      obtain ⟨o, ho, hcase⟩ := hmem' id hid'
      rcases hmem id hid with rfl | ⟨i, rfl⟩
      · rcases hcase with h | ⟨j, h⟩
        · cases h
          omega
        · cases h
      · rcases hcase with h | ⟨j, h⟩
        · cases h
        · cases h
          omega
    · intro id hid
      rcases mem_append.mp hid with hid | hid
      · exact ⟨off, Int.le_refl _, hmem id hid⟩
      · obtain ⟨o, ho, hcase⟩ := hmem' id hid
        exact ⟨o, by omega, hcase⟩
  all_goals exact hnil _

theorem outSendit_fresh (e : IpEnv) (ifp : IpIf) (hlen : Int) (ip : IpHdr) (ids : List MbufId)
    (m : List Mbuf) (c : IpCall) :
    (allocated (outSendit e ifp hlen ip ids m c.bad).events).Nodup ∧
      ∀ id ∈ allocated (outSendit e ifp hlen ip ids m c.bad).events, ∃ off, FragFrom off id := by
  rw [outSendit]
  split
  · rw [(sendAll_spec _ _ _).2]
    simp
  rw [outFragment]
  split
  · simp [IpCall.bad, allocated, OutEvent.gain]
  next hcan =>
    rw [cantFrag, Bool.or_eq_true, not_or, decide_eq_true_eq, decide_eq_true_eq] at hcan
    have hpos : 0 < (outFragLen ifp.mtu hlen).toNat := by omega
    obtain ⟨hnd, hmem⟩ := outFragLoop_fresh e.frag hlen ip m hpos ip.len
      (hlen + (outFragLen ifp.mtu hlen).toNat)
    obtain ⟨l, hev, ha, -⟩ := outFragSend_events e hlen ip ids m (outFragLen ifp.mtu hlen).toNat rfl
    rw [hev, allocated_append, ha, append_nil]
    exact ⟨hnd, fun id hid => ⟨_, hmem id hid⟩⟩

theorem allocated_ipMloopback (avail : Nat) (ip : IpHdr) (m : List Mbuf) :
    ∃ n, allocated (ipMloopback avail ip m).1 = copyIds .loop n := by
  rw [ipMloopback]
  split
  next n _ => exact ⟨n.length, append_nil _⟩
  · exact ⟨avail, append_nil _⟩
  all_goals exact ⟨0, rfl⟩

theorem withLoop_fresh {e : IpEnv} (hr : (allocated rest.events).Nodup ∧
      ∀ id ∈ allocated rest.events, ∃ off, FragFrom off id) :
    (allocated (withLoop e loops ip m rest).events).Nodup ∧
      ∀ id ∈ allocated (withLoop e loops ip m rest).events,
        (∃ i, id = .loop i) ∨ ∃ off, FragFrom off id := by
  obtain ⟨n, hn⟩ : ∃ n, allocated (if loops then (ipMloopback e.loopAvail ip m).1 else []) =
      copyIds .loop n := by
    split
    · exact allocated_ipMloopback _ _ _
    · exact ⟨0, rfl⟩
  rcases withLoop_cases e loops ip m rest with hl | ⟨hf, -⟩
  case inr => simp [hf, allocated]
  rw [withLoop_eq rest hl, allocated_append, hn]
  constructor
  · refine nodup_append.mpr ⟨copyIds_nodup (fun i j h => by cases h; rfl) n, hr.1, ?_⟩
    rintro id hid id' hid' rfl
    obtain ⟨i, rfl⟩ := mem_copyIds hid
    obtain ⟨_, _, _, h | ⟨_, h⟩⟩ := hr.2 _ hid' <;> cases h
  · exact forall_mem_append.mpr
      ⟨fun id hid => .inl (mem_copyIds hid), fun id hid => .inr (hr.2 id hid)⟩

section

variable {e : IpEnv} {c : IpCall}

theorem route_fresh : (allocated (c.route e).events).Nodup ∧
    ∀ id ∈ allocated (c.route e).events, (∃ i, id = .loop i) ∨ ∃ off, FragFrom off id := by
  rw [IpCall.route]
  cases hr : ipRoute e c (c.filled e).1 with
  | bad x => simp [IpCall.bad, allocated, OutEvent.gain]
  | gone ip loops => exact withLoop_fresh (by simp [allocated, OutEvent.gain])
  | send ip ifp loops => exact withLoop_fresh (outSendit_fresh _ _ _ _ _ _ _)

/-- The mbufs of a call, those passed in and those allocated, have different names. -/
theorem allocated_nodup : (c.ids ++ allocated (ipOutput e c).events).Nodup := by
  obtain ⟨hnd, hmem⟩ := route_fresh (e := e) (c := c)
  have hgiven : c.ids.Nodup := copyIds_nodup (fun i j h => by cases h; rfl) _
  have hopt : allocated (c.optEvents e) = [] ∨ allocated (c.optEvents e) = [.opt] := by
    rw [IpCall.optEvents]
    split
    · exact .inr rfl
    · exact .inl rfl
  have hroute (id : MbufId) (hid : id ∈ allocated (c.route e).events) :
      id ≠ .opt ∧ ∀ i, id ≠ .given i := by
    rcases hmem id hid with ⟨i, rfl⟩ | ⟨_, _, _, rfl | ⟨_, rfl⟩⟩ <;> simp
  show (c.ids ++ allocated (c.optEvents e ++ (c.route e).events)).Nodup
  rw [allocated_append]
  refine nodup_append.mpr ⟨hgiven, nodup_append.mpr ⟨?_, hnd, ?_⟩, ?_⟩
  · rcases hopt with h | h <;> simp [h]
  · rintro id hid id' hid' rfl
    rcases hopt with h | h
    · rw [h] at hid
      cases hid
    · rw [h] at hid
      exact (hroute id hid').1 (mem_singleton.mp hid)
  · rintro id hid id' hid' rfl
    obtain ⟨i, rfl⟩ := mem_copyIds hid
    rcases mem_append.mp hid' with hid' | hid'
    · rcases hopt with h | h <;> simp [h] at hid'
    · exact (hroute _ hid').2 i rfl

/-! ## The whole call -/

/-- Every mbuf of the packet passed in, and every one allocated, is handed over or freed exactly
once. -/
def ConsumedOnce (c : IpCall) (l : List OutEvent) : Prop :=
  ∀ id ∈ c.ids ++ allocated l, (released l).count id = 1

theorem Balanced.consumedOnce (h : Balanced c.ids (ipOutput e c).events) :
    ConsumedOnce c (ipOutput e c).events := by
  intro id hid
  rw [h.count_eq]
  exact count_eq_one_of_mem allocated_nodup hid

theorem opt_mem_inserted : .opt ∈ (c.inserted e).ids ↔ c.prepends e.optHdr = true := by
  have hgiven : MbufId.opt ∉ c.ids := by
    intro h
    obtain ⟨i, hi⟩ := mem_copyIds h
    cases hi
  rw [inserted_ids]
  split
  next h => simp [h]
  next h => simp [h, hgiven]

theorem ipOutput_consumedOnce (h : (ipOutput e c).ret = .done err) :
    ConsumedOnce c (ipOutput e c).events ↔ ¬ (c.prepends e.optHdr = true ∧ Refused e c = true) := by
  have hret : (c.route e).ret = .done err := h
  have hevents : (ipOutput e c).events = c.optEvents e ++ (c.route e).events := rfl
  have hno : released (c.optEvents e) = [] := by
    rw [IpCall.optEvents]
    split <;> rfl
  by_cases hpre : c.prepends e.optHdr = true
  · have hopt : c.optEvents e = [.alloc [.opt]] := by
      rw [IpCall.optEvents, if_pos (opt_mem_inserted.mpr hpre)]
    cases hr : Refused e c with
    | true =>
      -- the new mbuf is in none of the chains that are freed
      have hb := route_refused hret hr
      obtain ⟨-, hmem⟩ := route_fresh (e := e) (c := c)
      refine iff_of_false ?_ (by simp [hpre])
      intro hc
      have hone := hc .opt (mem_append_right _ (by
        rw [hevents, hopt]
        exact mem_cons_self))
      have hin : MbufId.opt ∈ released (ipOutput e c).events := count_pos_iff.mp (by omega)
      rw [hevents, released_append, hno, nil_append, Perm.mem_iff hb] at hin
      rcases mem_append.mp hin with h | h
      · obtain ⟨i, hi⟩ := mem_copyIds h
        cases hi
      · rcases hmem _ h with ⟨_, h⟩ | ⟨_, _, _, h | ⟨_, h⟩⟩ <;> cases h
    | false =>
      have hb := route_balanced hret hr
      rw [inserted_ids, if_pos hpre] at hb
      refine iff_of_true (Balanced.consumedOnce ?_) (by simp)
      rw [Balanced, hevents, released_append, allocated_append, hno, nil_append, hopt]
      exact (show Perm _ _ from hb).trans (perm_middle.symm)
  · have hnot : MbufId.opt ∉ (c.inserted e).ids := fun h => hpre (opt_mem_inserted.mp h)
    have hopt : c.optEvents e = [] := by
      rw [IpCall.optEvents, if_neg hnot]
    refine iff_of_true (Balanced.consumedOnce ?_) (fun h => hpre h.1)
    rw [hevents, hopt, nil_append]
    cases hr : Refused e c with
    | true => exact route_refused hret hr
    | false =>
      have hb := route_balanced hret hr
      rwa [inserted_ids, if_neg hpre] at hb

end

/-! ## A valid call returns -/

section

variable (h : Ready ip hlen m payload) (hv : OptsValid ip.opts)
  (hin : 20 + ip.opts.length ≤ headLen m)
include h hv hin

theorem outFragHdr_some : ∃ g, outFragHdr hlen ip m = some g := by
  rw [outFragHdr]
  split
  · have hdrop : (headBytes m).drop ipHdrLen
        = ip.opts ++ (headBytes m).drop (20 + ip.opts.length) := by
      obtain ⟨b, hb, hm⟩ := h.hdrChain.chain
      have htake := take_headBytes hin
      have hlen : (b ++ ip.opts).length = 20 + ip.opts.length := by
        rw [length_append, hb]
      rw [hm, ← append_assoc, take_left' hlen] at htake
      conv_lhs => rw [← take_append_drop (20 + ip.opts.length) (headBytes m)]
      rw [htake, append_assoc]
      exact drop_left' hb
    have hcnt : 4 * ip.hl - ipHdrLen = ip.opts.length := by
      have hl := h.hl
      have h20 : ipHdrLen = 20 := rfl
      omega
    obtain ⟨r, hr, -⟩ := hv.copied ((headBytes m).drop (20 + ip.opts.length)) (Nat.le_refl _)
    rw [hdrop, hcnt, ipOptcopy, hr]
    exact ⟨_, rfl⟩
  · exact ⟨_, rfl⟩

theorem outFragLoop_returns (hplain : Plain m) (a : FragAlloc) (hpos : 0 < len)
    {k : Nat} {off : Int} (hoff : hlen ≤ off) (hk : (ip.len : Int) - off ≤ k) :
    (outFragLoop a hlen ip m len k off).fin = .all ∨
      (outFragLoop a hlen ip m len k off).fin = .enobufs := by
  have hcl := h.chainLen_eq
  have hlt16 := h.len_lt
  have hhlen := h.hlen
  have hall : mCopyall = 1000000000 := rfl
  fun_induction outFragLoop a hlen ip m len k off
  case case1 => exact .inl (if_neg (by omega))
  case case3 hno =>
    obtain ⟨g, hg⟩ := outFragHdr_some h hv hin
    rw [hg] at hno
    cases hno
  case case4 off hlt _ _ _ last l avail hc | case5 off hlt _ _ _ last l avail hc =>
    have hl : l = if last then (ip.len - off).toNat else len := rfl
    have hl0 : 0 < l ∧ off + l ≤ ip.len := by
      split at hl <;> omega
    obtain ⟨o, rfl⟩ := Int.eq_ofNat_of_zero_le (by omega : 0 ≤ off)
    rcases mCopym_spec m o l avail (by omega) (by omega) with ⟨hc', -⟩ | ⟨-, hext⟩ | ⟨n, hc', -⟩
    · rw [hc'] at hc
      cases hc
    · exact absurd (fun b hb => hplain b ((copySource_suffix m o).subset hb)) hext
    · rw [hc'] at hc
      cases hc
  case case7 off hlt _ _ _ last l _ _ _ _ _ ih =>
    have hl : l = if last then (ip.len - off).toNat else len := rfl
    have hl0 : 0 < l := by
      split at hl <;> omega
    exact ih (by omega) (by omega)
  case case8 => exact .inl rfl
  all_goals exact .inr rfl

theorem outFragSend_returns (hplain : Plain m) (e : IpEnv) (ids : List MbufId)
    (hpos : 0 < len) :
    ∃ err, (outFragSend e hlen ip ids m len).ret = .done err := by
  have hhlen := h.hlen
  have hfin := outFragLoop_returns h hv hin hplain e.frag hpos (k := ip.len)
    (show hlen ≤ hlen + len by omega) (by omega)
  rw [outFragSend]
  rcases hfin with hfin | hfin <;> simp only [hfin] <;> exact ⟨_, rfl⟩

end

section

variable {e : IpEnv} {c : IpCall}

theorem inserted_opts (hc : c.Valid) (hk : c.HlenKnown e.optHdr) (hv : OptsValid c.ip.opts) :
    OptsValid (c.inserted e).ip.opts ∧
      20 + (c.inserted e).ip.opts.length ≤ headLen (c.inserted e).m := by
  cases hp : c.opt with
  | none =>
    simp only [IpCall.inserted, hp]
    exact ⟨hv, hc.first⟩
  | some p =>
    cases hd : c.declines e.optHdr p with
    | true =>
      obtain ⟨dst, hins⟩ := inserted_declined hc hp hd
      rw [hins]
      exact ⟨hv, hc.first⟩
    | false =>
      obtain ⟨-, ⟨dst, hip⟩, -, hin, -⟩ := inserted_done hc hp hd
      obtain ⟨m, hm⟩ := hc.opt p hp
      have hown := hc.own ((hk p hp).symm.trans hd)
      have hopts : (c.inserted e).ip.opts = p.list := by
        rw [hip]
        rw [hown, append_nil]
      rw [hopts]
      exact ⟨(ipPcbopts_spec hm).1, hin⟩

theorem filled_opts : (c.filled e).1.opts = (c.inserted e).ip.opts := by
  rw [IpCall.filled]
  split <;> rfl

theorem withLoop_ret (h : loops = true → Plain m) :
    (withLoop e loops ip m rest).ret = rest.ret := by
  rcases withLoop_cases e loops ip m rest with hl | ⟨-, hl, hext⟩
  · rw [withLoop_eq rest hl]
  · exact absurd (h hl) hext

theorem plain_inserted (h : Plain c.m0) : Plain (c.inserted e).m := by
  unfold IpCall.inserted
  split
  · exact h
  unfold ipInsertoptions
  split
  · exact forall_mem_nil _
  next m ms hm =>
    rw [hm] at h
    have hms := forall_mem_cons.mp h
    dsimp only
    split
    · exact h
    split
    · split
      · exact h
      · exact forall_mem_cons.mpr ⟨rfl, forall_mem_cons.mpr ⟨hms.1, hms.2⟩⟩
    · exact forall_mem_cons.mpr ⟨hms.1, hms.2⟩

/-- `m_copym` is called: for a multicast that is looped back, or for fragments. -/
def IpCall.copies (e : IpEnv) (c : IpCall) : Bool :=
  match ipRoute e c (c.filled e).1 with
  | .bad _ => false
  | .gone _ loops => loops
  | .send ip ifp loops => loops || decide (ifp.mtu < ip.len)

theorem ipOutput_returns (hc : c.Valid) (hraw : c.rawoutput = false)
    (hk : c.HlenKnown e.optHdr) (hv : OptsValid c.ip.opts) (hp : c.copies e = true → Plain c.m0) :
    ∃ err, (ipOutput e c).ret = .done err := by
  have hready := ready_filled hc hraw hk
  obtain ⟨hopts, hin⟩ := inserted_opts hc hk hv
  rw [← filled_opts] at hopts hin
  show ∃ err, (c.route e).ret = .done err
  rw [IpCall.route]
  cases hr : ipRoute e c (c.filled e).1 with
  | bad x => exact ⟨_, rfl⟩
  | gone ip loops =>
    rw [IpCall.copies, hr] at hp
    rw [withLoop_ret fun hl => plain_inserted (hp hl)]
    exact ⟨_, rfl⟩
  | send ip ifp loops =>
    have hsame : SameBut (c.filled e).1 ip := ipRoute_same (by rw [hr]; rfl)
    have hready' := hsame.ready hready
    rw [IpCall.copies, hr] at hp
    rw [Bool.or_eq_true, decide_eq_true_eq] at hp
    obtain ⟨ttl, src, rfl⟩ := hsame
    rw [withLoop_ret fun hl => plain_inserted (hp (.inl hl)), outSendit]
    split
    · exact ⟨_, rfl⟩
    next hbig =>
    have hplain := plain_inserted (e := e) (hp (.inr (Nat.lt_of_not_le hbig)))
    rw [outFragment]
    split
    · exact ⟨_, rfl⟩
    next hcan =>
      rw [cantFrag, Bool.or_eq_true, not_or, decide_eq_true_eq, decide_eq_true_eq] at hcan
      exact outFragSend_returns hready' hopts hin hplain e _ (by omega)

end

/-- The packet with four options on a network without a route. -/
def nowhere : IpEnv := { rtalloc := fun _ => none }

end Anp
