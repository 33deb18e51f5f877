import Anp.Lib.Machine

/-!
# Timeo — timeouts set and read back

`sosetopt` and `sogetopt` with `SO_SNDTIMEO` and `SO_RCVTIMEO`, and `bpfioctl` with `BIOCSRTIMEOUT`
and `BIOCGRTIMEOUT`. A timeout is kept in ticks of `tick` microseconds.
-/

namespace Anp

open Machine

structure Timeval where
  tvSec : Nat
  tvUsec : Nat
  deriving DecidableEq, Repr

variable {hz tick : Nat} {tv : Timeval}

def Timeval.total (tv : Timeval) : Int := 1000000 * tv.tvSec + tv.tvUsec

inductive TimeoOpt where
  | snd | rcv

/-- `so_snd.sb_timeo` and `so_rcv.sb_timeo`. -/
structure SoTimeo where
  snd : Int := 0
  rcv : Int := 0

/-- `none` is `EDOM`. -/
def sosetTimeo (hz tick : Nat) (opt : TimeoOpt) (so : SoTimeo) (tv : Timeval) : Option SoTimeo :=
  if (32767 / hz : Nat) - (hz : Int) < tv.tvSec then none
  else
    let val := int16 (tv.tvSec * hz + tv.tvUsec / tick : Nat)
    match opt with
    | .snd => some { so with snd := val }
    | .rcv => some { so with rcv := val }

/-- The ticks of a part of a second are divided by `tick`. -/
def sogetTimeo (hz tick : Nat) (opt : TimeoOpt) (so : SoTimeo) : Timeval :=
  let val := match opt with
    | .snd => so.snd
    | .rcv => so.rcv
  ⟨(val.tdiv hz).toNat, ((val.tmod hz).tdiv tick).toNat⟩

def Timeval.msec (tv : Timeval) : Nat := u32 (tv.tvSec * 1000 + tv.tvUsec / 1000 : Nat)

/-- `bd_rtout`; a division by 0 where a tick has no millisecond. -/
def biocsrtimeout (tick : Nat) (tv : Timeval) : Option Nat :=
  if tick / 1000 = 0 then none else some (tv.msec / (tick / 1000))

/-- Milliseconds are returned as microseconds. -/
def biocgrtimeout (tick rtout : Nat) : Timeval :=
  let msec := u32 (rtout * (tick / 1000) : Nat)
  ⟨msec / 1000, msec % 1000⟩

/-- What is read is a time, and less than a tick from what was set. -/
def TimeNear (tick : Nat) (tv got : Timeval) : Prop :=
  got.tvUsec < 1000000 ∧ |tv.total - got.total| < tick

/-- Rounded down to ticks, and with the milliseconds beyond the second taken for microseconds, it
is still less than a tick off. -/
def MsecCond (tick : Nat) (tv : Timeval) : Prop :=
  1000 ≤ tick ∧ 1000 * (tv.msec % (tick / 1000)) + tv.tvUsec % 1000 +
    999 * ((tv.msec - tv.msec % (tick / 1000)) % 1000) < tick

/-- A clock slow enough for a timeout to be accepted has a second of whole ticks. -/
theorem ticks_of_slow (hslow : hz < 182) (h0 : 0 < hz) (hdvd : 1000000 / hz ∣ 1000000) :
    hz * (1000000 / hz) = 1000000 ∧ hz ≤ 1000000 / hz := by
  have hall : ∀ n : Fin 182, 0 < n.val → 1000000 / n.val ∣ 1000000 →
      n.val * (1000000 / n.val) = 1000000 ∧ n.val ≤ 1000000 / n.val := by
    decide +kernel
  exact hall ⟨hz, hslow⟩ h0 hdvd

theorem sogetTimeo_set (h0 : 0 < hz) (htick : tick = 1000000 / hz) (hdvd : tick ∣ 1000000)
    (hv : tv.tvUsec < 1000000) {opt : TimeoOpt} {so so' : SoTimeo}
    (hset : sosetTimeo hz tick opt so tv = some so') :
    sogetTimeo hz tick opt so' = ⟨tv.tvSec, 0⟩ := by
  rw [sosetTimeo] at hset
  split_ifs at hset with hdom
  have hsum : (tv.tvSec + hz) * hz ≤ 32767 := (Nat.le_div_iff_mul_le h0).mp (by omega)
  have hsq : hz ≤ hz * hz := Nat.le_mul_of_pos_left hz h0
  have hslow : hz < 182 := by
    by_contra hge
    have := Nat.mul_le_mul (not_lt.mp hge) (not_lt.mp hge)
    rw [Nat.add_mul] at hsum
    omega
  obtain ⟨hsec, hle⟩ := ticks_of_slow hslow h0 (htick ▸ hdvd)
  rw [← htick] at hsec hle
  have hq : tv.tvUsec / tick < hz := Nat.div_lt_of_lt_mul (by rw [Nat.mul_comm, hsec]; exact hv)
  -- the ticks fit a `short`
  generalize hn : tv.tvSec * hz + tv.tvUsec / tick = n at hset
  have hval : int16 (n : Int) = n := by
    rw [Nat.add_mul] at hsum
    exact int16_of_range (by omega) (by omega)
  have hget : sogetTimeo hz tick opt so' =
      ⟨(Int.tdiv n hz).toNat, ((Int.tmod n hz).tdiv tick).toNat⟩ := by
    rw [hval] at hset
    cases opt <;> cases hset <;> rfl
  rw [hget, ← Int.ofNat_tmod, ← Int.ofNat_tdiv, ← Int.ofNat_tdiv, Int.toNat_natCast,
    Int.toNat_natCast, ← hn, Nat.add_comm, Nat.add_mul_div_right _ _ h0, Nat.add_mul_mod_self_right,
    Nat.div_eq_of_lt hq, Nat.mod_eq_of_lt hq, Nat.div_eq_of_lt (hq.trans_le hle), Nat.zero_add]

theorem biocgrtimeout_biocsrtimeout (hms : tick / 1000 ≠ 0) (hmax : tv.tvSec ≤ 1000000)
    (hv : tv.tvUsec < 1000000) :
    TimeNear tick tv (biocgrtimeout tick (tv.msec / (tick / 1000))) ↔ MsecCond tick tv := by
  have hmsec : tv.msec = tv.tvSec * 1000 + tv.tvUsec / 1000 := by
    rw [Timeval.msec, u32_of_range (by omega) (by omega), Int.toNat_natCast]
  have hle := Nat.mod_le tv.msec (tick / 1000)
  have hget : biocgrtimeout tick (tv.msec / (tick / 1000)) =
      ⟨(tv.msec - tv.msec % (tick / 1000)) / 1000, (tv.msec - tv.msec % (tick / 1000)) % 1000⟩ := by
    rw [biocgrtimeout, Nat.div_mul_self_eq_mod_sub_self, u32_of_range (by omega) (by omega),
      Int.toNat_natCast]
  rw [hget, TimeNear, MsecCond, Timeval.total, Timeval.total]
  dsimp only
  rw [abs_of_nonneg (by omega)]
  omega

/-- **Timeouts**, for every clock whose tick divides a second and every time. -/
theorem timeo_round_trip (h0 : 0 < hz) (htick : tick = 1000000 / hz) (hdvd : tick ∣ 1000000)
    (hv : tv.tvUsec < 1000000) :
    (∀ opt so so', sosetTimeo hz tick opt so tv = some so' →
      (TimeNear tick tv (sogetTimeo hz tick opt so') ↔ tv.tvUsec < tick)) ∧
    (tv.tvSec ≤ 1000000 →
      ((∃ rtout, biocsrtimeout tick tv = some rtout ∧ TimeNear tick tv (biocgrtimeout tick rtout)) ↔
        MsecCond tick tv)) := by
  constructor
  · intro opt so so' hset
    rw [sogetTimeo_set h0 htick hdvd hv hset, TimeNear, Timeval.total, Timeval.total]
    dsimp only
    rw [show (1000000 * tv.tvSec + tv.tvUsec : Int) - (1000000 * tv.tvSec + (0 : Nat)) =
      tv.tvUsec by omega, abs_of_nonneg (Int.natCast_nonneg _)]
    omega
  · intro hmax
    rw [biocsrtimeout]
    split_ifs with hms
    · refine iff_of_false (by simp) fun h => ?_
      have := h.1
      omega
    · rw [← biocgrtimeout_biocsrtimeout hms hmax hv]
      simp

/-- Two seconds and a few microseconds, with a clock of 100 ticks a second. -/
theorem timeo_round_trip_seconds :
    TimeNear 10000 ⟨2, 7⟩ (sogetTimeo 100 10000 .snd { snd := 200 }) ∧
      ∃ rtout, biocsrtimeout 10000 ⟨2, 7⟩ = some rtout ∧
        TimeNear 10000 ⟨2, 7⟩ (biocgrtimeout 10000 rtout) := by
  obtain ⟨hso, hbpf⟩ := @timeo_round_trip 100 10000 ⟨2, 7⟩ (by decide) rfl (by decide) (by decide)
  exact ⟨(hso .snd {} _ rfl).mpr (by decide), (hbpf (by decide)).mpr ⟨by decide, by decide⟩⟩

/-- A second and a half comes back as a second from a socket, and as a second and 500 microseconds
from `bpf`. -/
theorem timeo_half_lost :
    (sosetTimeo 100 10000 .rcv {} ⟨1, 500000⟩).map (sogetTimeo 100 10000 .rcv) = some ⟨1, 0⟩ ∧
      (biocsrtimeout 10000 ⟨1, 500000⟩).map (biocgrtimeout 10000) = some ⟨1, 500⟩ := by
  decide

end Anp
