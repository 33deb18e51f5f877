import Anp.Tcp.Options

/-!
# OptionBounds — which bytes the options of a segment are read from

`tcp_dooptions` tests only how many bytes are left before it looks at an option, not whether the
option ends within them. Here the memory behind the options is a second argument: the result of
the routine does not depend on it, or an option whose value is used is cut off by the end of the
header.
-/

namespace Anp

open Machine List

variable {opt : Byte} {cp : List Byte} {i n v : Nat}

/-- The length at which `tcp_dooptions` uses the value of an option, if it ever does. -/
def optValueLen (syn : Bool) (opt : Byte) : Option Nat :=
  if opt = tcpoptTimestamp then some 10
  else if syn ∧ opt = tcpoptMaxseg then some 4
  else if syn ∧ opt = tcpoptWindow then some 3
  else none

/-- The option at the front of `cp` is cut off, and its value is used all the same: its length byte
asks for it or is missing too. -/
def optCut (syn : Bool) (cp : List Byte) : Bool :=
  match optValueLen syn (cp.getD 0 0) with
  | none => false
  | some n => decide (cp.length < n) && (decide (cp.length = 1) || decide ((cp.getD 1 0).toNat = n))

/-- No option whose value is used is cut off. -/
def optsWhole (syn : Bool) : Nat → List Byte → Bool
  | 0, _ => true
  | n + 1, cp =>
    if cp = [] ∨ cp.getD 0 0 = tcpoptEol then true
    else if optCut syn cp then false
    else if optLen cp = 0 then true
    else optsWhole syn n (cp.drop (optLen cp))

/-! ## One option -/

variable {s : Sys} {ts : Option Tstamp} {syn : Bool}

theorem optValueLen_nop : optValueLen syn tcpoptNop = none := by
  cases syn <;> decide

theorem optValueLen_cases (h : optValueLen syn opt = some v) :
    (opt = tcpoptTimestamp ∧ v = 10) ∨ (syn = true ∧ opt = tcpoptMaxseg ∧ v = 4) ∨
      (syn = true ∧ opt = tcpoptWindow ∧ v = 3) := by
  unfold optValueLen at h
  split at h
  · next h1 => cases h; exact .inl ⟨h1, rfl⟩
  · split at h
    · next h1 => cases h; exact .inr (.inl ⟨h1.1, h1.2, rfl⟩)
    · split at h
      · next h1 => cases h; exact .inr (.inr ⟨h1.1, h1.2, rfl⟩)
      · cases h

theorem three_le_optValueLen (h : optValueLen syn opt = some n) : 3 ≤ n := by
  rcases optValueLen_cases h with ⟨-, rfl⟩ | ⟨-, -, rfl⟩ | ⟨-, -, rfl⟩ <;> decide

theorem le_length_of_not_cut (hcut : optCut syn cp = false)
    (h : optValueLen syn (cp.getD 0 0) = some (optLen cp)) : optLen cp ≤ cp.length := by
  have hnop : cp.getD 0 0 ≠ tcpoptNop := by
    intro h1
    rw [h1, optValueLen_nop] at h
    cases h
  have hl : optLen cp = (cp.getD 1 0).toNat := by rw [optLen, if_neg hnop]
  unfold optCut at hcut
  rw [h] at hcut
  simp only [Bool.and_eq_false_iff, decide_eq_false_iff_not, Bool.or_eq_false_iff] at hcut
  omega

theorem unused_of_not_cut (hcut : optCut syn [opt] = false) :
    optValueLen syn opt = none := by
  cases hv : optValueLen syn opt with
  | none => rfl
  | some v =>
    have h3 := three_le_optValueLen hv
    unfold optCut at hcut
    simp only [getD_cons_zero, hv, length_singleton, decide_true, Bool.true_or,
      Bool.and_true, decide_eq_false_iff_not] at hcut
    omega

theorem dooption_unused {optlen : Nat} (h : optValueLen syn opt ≠ some optlen) :
    dooption s ts cp opt optlen syn = some (s, ts) := by
  unfold dooption
  rw [if_neg, if_neg, if_neg]
  · rintro ⟨rfl, rfl⟩
    exact h rfl
  · rintro ⟨rfl, rfl, rfl⟩
    exact h rfl
  · rintro ⟨rfl, rfl, rfl⟩
    exact h rfl

theorem getD_append_mem (mem : List Byte) (h : i < cp.length) :
    (cp ++ mem).getD i 0 = cp.getD i 0 := by
  rw [getD_eq_getElem?_getD, getD_eq_getElem?_getD, getElem?_append_left h]

theorem getU16_append_mem (mem : List Byte) (h : i + 1 < cp.length) :
    getU16 (cp ++ mem) i = getU16 cp i := by
  unfold getU16
  rw [getD_append_mem mem h, getD_append_mem mem (by omega)]

theorem getU32_append_mem (mem : List Byte) (h : i + 3 < cp.length) :
    getU32 (cp ++ mem) i = getU32 cp i := by
  unfold getU32
  rw [getU16_append_mem mem (by omega), getU16_append_mem mem (by omega)]

theorem dooption_within (mem : List Byte) {optlen : Nat}
    (h : optValueLen syn opt = some optlen → optlen ≤ cp.length) :
    dooption s ts (cp ++ mem) opt optlen syn = dooption s ts cp opt optlen syn := by
  by_cases hv : optValueLen syn opt = some optlen
  · have hlen := h hv
    unfold dooption
    split
    · next h1 => rw [getU16_append_mem mem (by omega)]
    · split
      · next h2 => rw [getD_append_mem mem (by omega)]
      · split
        · next h3 => rw [getU32_append_mem mem (by omega), getU32_append_mem mem (by omega)]
        · rfl
  · rw [dooption_unused hv, dooption_unused hv]

theorem optLen_append (mem : List Byte) (hne : cp ≠ [])
    (hcp : 2 ≤ cp.length ∨ cp.getD 0 0 = tcpoptNop) : optLen (cp ++ mem) = optLen cp := by
  unfold optLen
  rw [getD_append_mem mem (length_pos_iff.mpr hne)]
  split
  · rfl
  · next hnop => rw [getD_append_mem mem (hcp.resolve_right hnop)]

/-! ## The loop -/

theorem dooptionsLoop_nonpos (n : Nat) (cp : List Byte) {cnt : Int} (h : cnt ≤ 0) :
    dooptionsLoop syn n s ts cp cnt = some (s, ts) := by
  cases n with
  | zero => rfl
  | succ n => rw [dooptionsLoop, if_pos (Or.inl h)]

theorem dooptionsLoop_eol (n : Nat) (mem : List Byte) (h : cp = [] ∨ cp.getD 0 0 = tcpoptEol) :
    dooptionsLoop syn n s ts (cp ++ mem) cp.length = some (s, ts) := by
  cases cp with
  | nil => exact dooptionsLoop_nonpos n _ (le_refl _)
  | cons k rest =>
    cases n with
    | zero => rfl
    | succ n =>
      have hk : (k :: rest ++ mem).getD 0 0 = tcpoptEol := h.resolve_left (cons_ne_nil k rest)
      rw [dooptionsLoop, if_pos (.inr (Or.inl hk))]

section Next

variable {n : Nat} {cp : List Byte} (mem : List Byte) (hne : cp ≠ [])
  (hcp : 2 ≤ cp.length ∨ cp.getD 0 0 = tcpoptNop)

include hne hcp

theorem dooptionsLoop_len_zero (hlen : optLen cp = 0) :
    dooptionsLoop syn (n + 1) s ts (cp ++ mem) cp.length = some (s, ts) := by
  rw [dooptionsLoop, optLen_append mem hne hcp, if_pos (.inr (Or.inr hlen))]

/-- An option that is not cut off ends the header or is followed by the rest of it. -/
theorem dooptionsLoop_option (heol : cp.getD 0 0 ≠ tcpoptEol) (hlen : optLen cp ≠ 0)
    (hcut : optCut syn cp = false) :
    dooptionsLoop syn (n + 1) s ts (cp ++ mem) cp.length =
      (dooption s ts cp (cp.getD 0 0) (optLen cp) syn).bind fun r =>
        if optLen cp ≤ cp.length then
          dooptionsLoop syn n r.1 r.2 (cp.drop (optLen cp) ++ mem) (cp.drop (optLen cp)).length
        else some r := by
  have hpos : 0 < cp.length := length_pos_iff.mpr hne
  rw [dooptionsLoop, optLen_append mem hne hcp, getD_append_mem mem hpos,
    dooption_within mem (le_length_of_not_cut hcut), if_neg]
  · congr 1
    funext r
    split
    · next hle =>
      rw [drop_append_of_le_length hle, length_drop]
      congr 1
      omega
    · exact dooptionsLoop_nonpos n _ (by omega)
  · rintro (h | h | h)
    · omega
    · exact heol h
    · exact hlen h

end Next

/-- The last byte of the header as an option that is not used: whatever length the memory behind
gives it, the loop ends. -/
theorem dooptionsLoop_last (mem : List Byte) (hv : optValueLen syn opt = none) :
    dooptionsLoop syn (n + 1) s ts ([opt] ++ mem) [opt].length = some (s, ts) := by
  rw [dooptionsLoop]
  split
  · rfl
  · next h =>
    have hd : (([opt] ++ mem).getD 0 0) = opt := rfl
    rw [hd, dooption_unused (by rw [hv]; simp), Option.bind_some]
    exact dooptionsLoop_nonpos n _ (by simp only [length_singleton]; omega)

/-- **Whole options are read from the header alone.** -/
theorem dooptionsLoop_mem (h : optsWhole syn n cp = true) (mem mem' : List Byte) :
    dooptionsLoop syn n s ts (cp ++ mem) cp.length =
      dooptionsLoop syn n s ts (cp ++ mem') cp.length := by
  fun_induction optsWhole syn n cp generalizing s ts with
  | case1 => rfl
  | case2 n cp hend => rw [dooptionsLoop_eol _ mem hend, dooptionsLoop_eol _ mem' hend]
  | case3 => cases h
  | case4 n cp hend hcut hl | case5 n cp hend hcut hl ih =>
    obtain ⟨hne, heol⟩ := not_or.mp hend
    have hcut : optCut syn cp = false := Bool.eq_false_of_not_eq_true hcut
    by_cases hcp : 2 ≤ cp.length ∨ cp.getD 0 0 = tcpoptNop
    · first
      | rw [dooptionsLoop_len_zero mem hne hcp hl, dooptionsLoop_len_zero mem' hne hcp hl]
      | rw [dooptionsLoop_option mem hne hcp heol hl hcut,
          dooptionsLoop_option mem' hne hcp heol hl hcut]
        congr 1
        funext r
        split
        · exact ih h
        · rfl
    · -- one byte is left, and it is not a NOP: its length is not in the header
      obtain ⟨hlt, -⟩ := not_or.mp hcp
      match cp, hne, hlt, hcut with
      | [k], _, _, hcut =>
        rw [dooptionsLoop_last mem (unused_of_not_cut hcut),
          dooptionsLoop_last mem' (unused_of_not_cut hcut)]
      | _ :: _ :: _, _, hlt, _ => simp at hlt

/-! ## An option that is cut off -/

/-- What `tcp_dooptions` hands back: the timestamps it stored for its caller, and the fields of
the control block it sets. -/
structure OptResult where
  ts : Option Tstamp
  tMaxseg : Nat
  requestedSScale : Nat
  tfRcvdScale : Bool
  tfRcvdTstmp : Bool
  tsRecent : Nat
  deriving DecidableEq, Repr

def optResult (r : Option (Sys × Option Tstamp)) : Option OptResult := r.map fun r =>
    { ts := r.2
      tMaxseg := r.1.tp.tMaxseg
      requestedSScale := r.1.tp.requestedSScale
      tfRcvdScale := r.1.tp.tfRcvdScale
      tfRcvdTstmp := r.1.tp.tfRcvdTstmp
      tsRecent := r.1.tp.tsRecent }

def wideRoute : Route := { rmxMtu := 70000, rmxSendpipe := 65535, rmxRecvpipe := 1 }

theorem mssBuffers_wide {mss : Nat} (hm : 32 ≤ mss) (tp : Tcpcb) (so : Socket) :
    ∃ so', mssBuffers wideRoute mss tp so =
      some (min 65535 mss, { tp with tMaxseg := min 65535 mss % 65536 }, so') := by
  have hs : (if wideRoute.rmxSendpipe = 0 then so.soSnd.sbHiwat else wideRoute.rmxSendpipe) =
      65535 := rfl
  have hr : (if wideRoute.rmxRecvpipe = 0 then so.soRcv.sbHiwat else wideRoute.rmxRecvpipe) =
      1 := rfl
  unfold mssBuffers
  rw [if_pos (by omega)]
  exact ⟨_, rfl⟩

theorem tcpMss_wide (h : s.w.route = some wideRoute) (offer : Nat) :
    ∃ r, tcpMss s offer = some r ∧ r.2.w = s.w ∧
      (32 ≤ offer → offer ≤ 65535 → r.2.tp.tMaxseg = offer) := by
  have hmss : mssRoute wideRoute offer = max (if offer ≠ 0 then min 69960 offer else 69960) 32 := rfl
  unfold tcpMss
  rw [h]
  simp only
  by_cases hc : int32 (mssRoute wideRoute offer) < (mssRtt s.tp wideRoute).tMaxseg ∨ offer ≠ 0
  · obtain ⟨so', hso⟩ := mssBuffers_wide (show 32 ≤ mssRoute wideRoute offer by
      rw [hmss]; exact le_max_right _ _) (mssRtt s.tp wideRoute) s.so
    rw [if_pos hc, hso]
    refine ⟨_, rfl, rfl, ?_⟩
    intro hlo hhi
    show min 65535 (mssRoute wideRoute offer) % 65536 = offer
    rw [hmss, if_pos (by omega)]
    omega
  · rw [if_neg hc]
    refine ⟨_, rfl, rfl, ?_⟩
    intro hlo
    exact absurd (.inr (by omega)) hc

theorem dooption_wide (h : s.w.route = some wideRoute) (ts : Option Tstamp) (syn : Bool)
    (cp : List Byte) (opt : Byte) (optlen : Nat) :
    ∃ r, dooption s ts cp opt optlen syn = some r ∧ r.1.w.route = some wideRoute := by
  unfold dooption
  split
  · obtain ⟨r, hr, hw, -⟩ := tcpMss_wide h (getU16 cp 2)
    rw [hr]
    exact ⟨_, rfl, by rw [hw]; exact h⟩
  · split
    · exact ⟨_, rfl, h⟩
    · split
      · refine ⟨_, rfl, ?_⟩
        split <;> exact h
      · exact ⟨_, rfl, h⟩

/-- The memory behind the first bytes of an option of length `n` that makes it end in `b`. -/
def optRest (n : Nat) (b : Byte) (cp : List Byte) : List Byte :=
  ([0, UInt8.ofNat n] ++ List.replicate (n - 3) 0 ++ [b]).drop cp.length

theorem getD_drop_append (cp x : List Byte) (i : Nat) :
    (cp ++ x.drop cp.length).getD i 0 = if i < cp.length then cp.getD i 0 else x.getD i 0 := by
  split
  · next h => exact getD_append_mem _ h
  · next h =>
    rw [getD_eq_getElem?_getD, getD_eq_getElem?_getD,
      getElem?_append_right (by omega), getElem?_drop]
    congr 2
    omega

theorem dooptionsLoop_cut (b : Byte) (hne : cp ≠ []) (hcut : optCut syn cp = true)
    (hv : optValueLen syn (cp.getD 0 0) = some v) :
    dooptionsLoop syn (n + 1) s ts (cp ++ optRest v b cp) cp.length =
      dooption s ts (cp ++ optRest v b cp) (cp.getD 0 0) v syn := by
  have hpos : 0 < cp.length := length_pos_iff.mpr hne
  have hk : cp.getD 0 0 ≠ tcpoptEol ∧ cp.getD 0 0 ≠ tcpoptNop := by
    constructor <;> intro hk <;> rw [hk] at hv <;> cases syn <;> cases hv
  have hcut' : cp.length < v ∧ (cp.length = 1 ∨ (cp.getD 1 0).toNat = v) := by
    unfold optCut at hcut
    rw [hv] at hcut
    simpa using hcut
  have hl : optLen (cp ++ optRest v b cp) = v := by
    unfold optLen optRest
    rw [getD_append_mem _ hpos, if_neg hk.2, getD_drop_append]
    split
    · next h1 => exact hcut'.2.resolve_left (by omega)
    · rcases optValueLen_cases hv with ⟨-, rfl⟩ | ⟨-, -, rfl⟩ | ⟨-, -, rfl⟩ <;> rfl
  rw [dooptionsLoop, hl, getD_append_mem _ hpos, if_neg]
  · cases hd : dooption s ts (cp ++ optRest v b cp) (cp.getD 0 0) v syn with
    | none => rfl
    | some r =>
      rw [Option.bind_some, dooptionsLoop_nonpos n _ (by omega)]
  · rintro (h | h | h)
    · omega
    · exact hk.1 h
    · omega

theorem optRest_last (b : Byte) (hv : 3 ≤ v) (h : cp.length < v) :
    (cp ++ optRest v b cp).getD (v - 1) 0 = b := by
  rw [optRest, getD_drop_append, if_neg (by omega)]
  have hl : ([0, UInt8.ofNat v] ++ List.replicate (v - 3) (0 : Byte)).length = v - 1 := by
    simp only [length_append, length_cons, length_nil, length_replicate]
    omega
  rw [getD_eq_getElem?_getD, getElem?_append_right (by omega), hl, Nat.sub_self]
  rfl

theorem optRest_init (b b' : Byte) (hv : 3 ≤ v) (hi : i < v - 1) :
    (cp ++ optRest v b cp).getD i 0 = (cp ++ optRest v b' cp).getD i 0 := by
  have hl : ([0, UInt8.ofNat v] ++ List.replicate (v - 3) (0 : Byte)).length = v - 1 := by
    simp only [length_append, length_cons, length_nil, length_replicate]
    omega
  have hx : ∀ b : Byte, ([0, UInt8.ofNat v] ++ List.replicate (v - 3) (0 : Byte) ++ [b]).getD i 0 =
      ([0, UInt8.ofNat v] ++ List.replicate (v - 3) (0 : Byte)).getD i 0 :=
    fun b => getD_append_mem [b] (by omega)
  rw [optRest, optRest, getD_drop_append, getD_drop_append, hx b, hx b']

/-- **Two pieces of memory behind an option that is cut off give different results.** -/
theorem dooption_cut_differs (ts : Option Tstamp) (h : s.w.route = some wideRoute)
    (hv : optValueLen syn (cp.getD 0 0) = some v) (hlt : cp.length < v) :
    ∃ b b', optResult (dooption s ts (cp ++ optRest v b cp) (cp.getD 0 0) v syn) ≠
      optResult (dooption s ts (cp ++ optRest v b' cp) (cp.getD 0 0) v syn) := by
  have h3 := three_le_optValueLen hv
  rcases optValueLen_cases hv with ⟨hk, rfl⟩ | ⟨rfl, hk, rfl⟩ | ⟨rfl, hk, rfl⟩
  · -- the last byte of the echoed timestamp
    have hopt : ∀ b, optResult (dooption s ts (cp ++ optRest 10 b cp) (cp.getD 0 0) 10 syn) =
        optResult (some (if syn then { s with tp := { s.tp with
            tfRcvdTstmp := true, tsRecent := getU32 (cp ++ optRest 10 b cp) 2,
            tsRecentAge := s.w.now } } else s,
          some (getU32 (cp ++ optRest 10 b cp) 2, getU32 (cp ++ optRest 10 b cp) 6))) := by
      intro b
      rw [hk]
      rfl
    refine ⟨0, 1, fun he => ?_⟩
    rw [hopt, hopt] at he
    have hts := congrArg (fun r : Option OptResult => r.bind OptResult.ts) he
    have hecr : getU32 (cp ++ optRest 10 0 cp) 6 = getU32 (cp ++ optRest 10 1 cp) 6 :=
      (Prod.mk.inj (Option.some.inj hts)).2
    unfold getU32 getU16 at hecr
    have h9 := fun b => optRest_last b h3 hlt
    rw [optRest_init 0 1 h3 (by decide), optRest_init 0 1 h3 (by decide),
      optRest_init 0 1 h3 (by decide)] at hecr
    have hb0 := h9 0
    have hb1 := h9 1
    rw [hb0, hb1] at hecr
    simp at hecr
  · -- the low byte of the segment size
    have hopt : ∀ b, dooption s ts (cp ++ optRest 4 b cp) (cp.getD 0 0) 4 true =
        (tcpMss s (getU16 (cp ++ optRest 4 b cp) 2)).map fun r => (r.2, ts) := by
      intro b
      rw [hk]
      rfl
    have hoff : ∀ b : Byte, getU16 (cp ++ optRest 4 b cp) 2 =
        ((cp ++ optRest 4 0 cp).getD 2 0).toNat * 256 + b.toNat := by
      intro b
      have hb := optRest_last b h3 hlt
      unfold getU16
      rw [optRest_init b 0 h3 (by decide)]
      rw [hb]
    have hhi := ((cp ++ optRest 4 0 cp).getD 2 0).toNat_lt
    refine ⟨100, 200, fun he => ?_⟩
    rw [hopt, hopt, hoff, hoff] at he
    obtain ⟨r, hr, -, hmax⟩ := tcpMss_wide h
      (((cp ++ optRest 4 0 cp).getD 2 0).toNat * 256 + (100 : Byte).toNat)
    obtain ⟨r', hr', -, hmax'⟩ := tcpMss_wide h
      (((cp ++ optRest 4 0 cp).getD 2 0).toNat * 256 + (200 : Byte).toNat)
    rw [hr, hr'] at he
    have hm : r.2.tp.tMaxseg = r'.2.tp.tMaxseg :=
      congrArg OptResult.tMaxseg (Option.some.inj he)
    have h1 : (100 : Byte).toNat = 100 := rfl
    have h2 : (200 : Byte).toNat = 200 := rfl
    omega
  · -- the shift count
    have hopt : ∀ b, dooption s ts (cp ++ optRest 3 b cp) (cp.getD 0 0) 3 true =
        some ({ s with tp := { s.tp with
          tfRcvdScale := true,
          requestedSScale := min ((cp ++ optRest 3 b cp).getD 2 0).toNat 14 } }, ts) := by
      intro b
      rw [hk]
      rfl
    refine ⟨0, 1, fun he => ?_⟩
    rw [hopt, hopt, optRest_last 0 h3 hlt, optRest_last 1 h3 hlt] at he
    have hm : min (0 : Byte).toNat 14 = min (1 : Byte).toNat 14 :=
      congrArg OptResult.requestedSScale (Option.some.inj he)
    exact absurd hm (by decide)

theorem dooptionsLoop_differs (ts : Option Tstamp) (h : s.w.route = some wideRoute)
    (hw : optsWhole syn n cp = false) :
    ∃ mem mem', optResult (dooptionsLoop syn n s ts (cp ++ mem) cp.length) ≠
      optResult (dooptionsLoop syn n s ts (cp ++ mem') cp.length) := by
  fun_induction optsWhole syn n cp generalizing s ts with
  | case1 | case2 | case4 => cases hw
  | case3 n cp hend hcut =>
    obtain ⟨v, hv, hlt⟩ : ∃ v, optValueLen syn (cp.getD 0 0) = some v ∧ cp.length < v := by
      unfold optCut at hcut
      split at hcut
      · cases hcut
      · next v hv =>
        simp only [Bool.and_eq_true, decide_eq_true_eq] at hcut
        exact ⟨v, hv, hcut.1⟩
    obtain ⟨hne, -⟩ := not_or.mp hend
    obtain ⟨b, b', hb⟩ := dooption_cut_differs ts h hv hlt
    refine ⟨optRest v b cp, optRest v b' cp, ?_⟩
    rw [dooptionsLoop_cut b hne hcut hv, dooptionsLoop_cut b' hne hcut hv]
    exact hb
  | case5 n cp hend hcut hlen ih =>
    obtain ⟨hne, heol⟩ := not_or.mp hend
    have hcut : optCut syn cp = false := Bool.eq_false_of_not_eq_true hcut
    -- the option is all there, so the one that is cut off comes after it
    have hcp : 2 ≤ cp.length ∨ cp.getD 0 0 = tcpoptNop := by
      by_contra hc
      obtain ⟨hlt, hnop⟩ := not_or.mp hc
      apply hlen
      rw [optLen, if_neg hnop, getD_eq_getElem?_getD, getElem?_eq_none (by omega)]
      rfl
    have hle : optLen cp ≤ cp.length := by
      by_contra hlt
      rw [drop_eq_nil_of_le (by omega)] at hw
      cases n <;> cases hw
    obtain ⟨r, hr, hroute⟩ := dooption_wide h ts syn cp (cp.getD 0 0) (optLen cp)
    obtain ⟨mem, mem', hd⟩ := ih r.2 hroute hw
    refine ⟨mem, mem', ?_⟩
    rw [dooptionsLoop_option mem hne hcp heol hlen hcut,
      dooptionsLoop_option mem' hne hcp heol hlen hcut, hr, Option.bind_some, Option.bind_some,
      if_pos hle, if_pos hle]
    exact hd

/-! ## Results -/

/-- The bytes behind the options do not matter, to `tcp_dooptions` nor to the quick retrieval of a
timestamp. -/
structure SelfContained (syn : Bool) (opts : List Byte) : Prop where
  dooptions : ∀ (s : Sys) (ts : Option Tstamp) (mem mem' : List Byte),
    optResult (tcpDooptions s ts (opts ++ mem) opts.length syn) =
      optResult (tcpDooptions s ts (opts ++ mem') opts.length syn)
  quick : ∀ mem mem' : List Byte, quickTstamp (opts ++ mem) opts.length syn =
    quickTstamp (opts ++ mem') opts.length syn

theorem quickTstamp_mem (opts mem : List Byte) :
    quickTstamp (opts ++ mem) opts.length syn = quickTstamp opts opts.length syn := by
  unfold quickTstamp
  by_cases hlen : 12 ≤ opts.length
  · rw [getU32_append_mem mem (by omega), getU32_append_mem mem (by omega),
      getU32_append_mem mem (by omega)]
    by_cases h12 : 12 < opts.length
    · rw [getD_append_mem mem h12]
    · have h0 : ¬ 12 < opts.length := h12
      simp only [h0, false_and]
  · rw [if_neg, if_neg] <;> rintro ⟨h1, -⟩ <;> omega

/-- **Options are self-contained exactly when no used option is cut off by the end of the
header.** -/
theorem dooptions_self_contained_iff (syn : Bool) (opts : List Byte) :
    SelfContained syn opts ↔ optsWhole syn opts.length opts = true := by
  constructor
  · intro h
    by_contra hw
    obtain ⟨mem, mem', hd⟩ := dooptionsLoop_differs (s := { w := { route := some wideRoute } }) none rfl
      (Bool.eq_false_of_not_eq_true hw)
    exact hd (h.dooptions _ none mem mem')
  · intro h
    refine ⟨?_, ?_⟩
    · intro s ts mem mem'
      unfold tcpDooptions
      rw [dooptionsLoop_mem h mem mem']
    · intro mem mem'
      rw [quickTstamp_mem, quickTstamp_mem]

/-- A SYN whose options end in the first half of a segment size option: the size is taken from
what follows. -/
theorem truncated_mss_reads_payload :
    optResult (tcpDooptions { w := { route := some wideRoute } } none ([1, 1, 2, 4] ++ [1, 0]) 4 true) ≠
      optResult (tcpDooptions { w := { route := some wideRoute } } none ([1, 1, 2, 4] ++ [2, 0]) 4 true) := by
  decide +kernel

end Anp
