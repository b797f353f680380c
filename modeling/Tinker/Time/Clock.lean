import Tinker.Time.Deadline

/-!
# Times and the clock

`tinker_api_time.c`, and how `bcm2835_timer.c` reads its counter of 64 bits. A time is a number of
seconds and one of nanoseconds. If it is normalised it stands for a number of nanoseconds: sums, the
order and the units are those of numbers. `tinker_time_sub` has no borrow: if `r` has more
nanoseconds than `l`, the nanoseconds of the difference are negative.
-/

namespace Tinker

open Tinker.Lib

/-! ## Times as numbers of nanoseconds -/

namespace TinkerTime

def Normalised (t : TinkerTime) : Prop :=
  0 ≤ t.nanoseconds.toInt ∧ t.nanoseconds.toInt < 1000000000

deriving instance Decidable for Normalised

end TinkerTime

/-- The result of a signed operation, unless it overflows. -/
def checked (x : ℤ) : Option Int32 :=
  if -2 ^ 31 ≤ x ∧ x < 2 ^ 31 then some (Int32.ofInt x) else none

/-- `tinker_time_add`, which stops at the first operation that overflows. -/
def tinkerTimeAddChecked (l r : TinkerTime) : Option TinkerTime := do
  let seconds ← checked (l.seconds.toInt + r.seconds.toInt)
  let nanoseconds ← checked (l.nanoseconds.toInt + r.nanoseconds.toInt)
  if nanoseconds ≥ oneSecondAsNanoseconds then
    let s ← checked (nanoseconds.toInt.tdiv oneSecondAsNanoseconds.toInt)
    let seconds ← checked (seconds.toInt + s.toInt)
    let whole ← checked (s.toInt * oneSecondAsNanoseconds.toInt)
    let nanoseconds ← checked (nanoseconds.toInt - whole.toInt)
    some ⟨seconds, nanoseconds⟩
  else
    some ⟨seconds, nanoseconds⟩

def tinkerTimeSub (l r : TinkerTime) : TinkerTime :=
  let seconds := l.seconds - r.seconds
  let nanoseconds := l.nanoseconds - r.nanoseconds
  if nanoseconds ≥ oneSecondAsNanoseconds then
    let s := nanoseconds / oneSecondAsNanoseconds
    ⟨seconds + s, nanoseconds - s * oneSecondAsNanoseconds⟩
  else
    ⟨seconds, nanoseconds⟩

def tinkerTimeGt (l r : TinkerTime) : Bool :=
  l.seconds > r.seconds ∨ (l.seconds = r.seconds ∧ l.nanoseconds > r.nanoseconds)

def tinkerTimeEq (l r : TinkerTime) : Bool :=
  l.seconds = r.seconds ∧ l.nanoseconds = r.nanoseconds

section Times

variable {l m r t : TinkerTime} {x : ℤ}

theorem bmod_of_fits (hlow : -2 ^ 31 ≤ x) (hhigh : x < 2 ^ 31) : x.bmod (2 ^ 32) = x :=
  Int.bmod_eq_of_le (by norm_num; omega) (by norm_num; omega)

theorem checked_of_fits {z : Int32} (hlow : -2 ^ 31 ≤ x) (hhigh : x < 2 ^ 31)
    (hz : z.toInt = x.bmod (2 ^ 32)) : checked x = some z ∧ z.toInt = x := by
  have hx : z.toInt = x := hz.trans (bmod_of_fits hlow hhigh)
  refine ⟨?_, hx⟩
  rw [checked, if_pos ⟨hlow, hhigh⟩, ← hx, Int32.ofInt_toInt]

theorem tinkerTimeLt_iff_toNs (hl : l.Normalised) (hr : r.Normalised) :
    tinkerTimeLt l r = true ↔ l.toNs < r.toNs := by
  simp only [tinkerTimeLt_iff, TinkerTime.toNs, Int32.lt_iff_toInt_lt, ← Int32.toInt_inj]
  obtain ⟨hl, hl'⟩ := hl
  obtain ⟨hr, hr'⟩ := hr
  omega

theorem tinkerTimeGt_eq : tinkerTimeGt l r = tinkerTimeLt r l := by
  simp only [tinkerTimeGt, tinkerTimeLt, eq_comm, gt_iff_lt]

theorem tinkerTimeEq_iff_toNs (hl : l.Normalised) (hr : r.Normalised) :
    tinkerTimeEq l r = true ↔ l.toNs = r.toNs := by
  simp only [tinkerTimeEq, decide_eq_true_eq, TinkerTime.toNs, ← Int32.toInt_inj]
  obtain ⟨hl, hl'⟩ := hl
  obtain ⟨hr, hr'⟩ := hr
  omega

theorem div_oneSecond {n : Int32} (hlow : 1000000000 ≤ n.toInt) (hhigh : n.toInt < 2000000000) :
    n.toInt.tdiv oneSecondAsNanoseconds.toInt = 1 ∧ n / oneSecondAsNanoseconds = 1 := by
  have hone : n.toInt.tdiv oneSecondAsNanoseconds.toInt = 1 := by
    rw [show oneSecondAsNanoseconds.toInt = 1000000000 from rfl, Int.tdiv_eq_ediv_of_nonneg] <;>
      omega
  refine ⟨hone, ?_⟩
  rw [← Int32.toInt_inj, Int32.toInt_div, hone]
  rfl

theorem oneSecond_le_iff {n : Int32} : n ≥ oneSecondAsNanoseconds ↔ 1000000000 ≤ n.toInt :=
  Int32.le_iff_toInt_le

/-- No operation of the sum of two normalised times overflows. The seconds have to fit before
the carry as well as after it. -/
theorem tinkerTimeAdd_spec (hl : l.Normalised) (hr : r.Normalised)
    (hlow : -2 ^ 31 ≤ l.seconds.toInt + r.seconds.toInt)
    (hhigh : l.seconds.toInt + r.seconds.toInt + 1 < 2 ^ 31) :
    tinkerTimeAddChecked l r = some (tinkerTimeAdd l r) ∧
      (tinkerTimeAdd l r).Normalised ∧ (tinkerTimeAdd l r).toNs = l.toNs + r.toNs := by
  obtain ⟨hl, hl'⟩ := hl
  obtain ⟨hr, hr'⟩ := hr
  obtain ⟨hcheckS, hs⟩ := checked_of_fits hlow (by omega) (Int32.toInt_add l.seconds r.seconds)
  obtain ⟨hcheckN, hn⟩ := checked_of_fits (by omega) (by omega)
    (Int32.toInt_add l.nanoseconds r.nanoseconds)
  simp only [tinkerTimeAddChecked, tinkerTimeAdd, hcheckS, hcheckN, Option.bind_eq_bind,
    Option.bind_some, TinkerTime.Normalised, TinkerTime.toNs]
  generalize l.seconds + r.seconds = s at *
  generalize l.nanoseconds + r.nanoseconds = n at *
  by_cases hcarry : n ≥ oneSecondAsNanoseconds
  · have hbig := oneSecond_le_iff.mp hcarry
    obtain ⟨hdiv, hone⟩ := div_oneSecond hbig (by omega)
    have hcheckOne : checked 1 = some 1 := rfl
    have hwhole : checked ((1 : Int32).toInt * oneSecondAsNanoseconds.toInt) =
      some (1 * oneSecondAsNanoseconds) := rfl
    have hunit : (1 : Int32).toInt = 1 := rfl
    have hsecond : (1 * oneSecondAsNanoseconds).toInt = 1000000000 := rfl
    obtain ⟨hcheckS', hs'⟩ := checked_of_fits (by omega) (by omega) (Int32.toInt_add s 1)
    obtain ⟨hcheckN', hn'⟩ := checked_of_fits (by omega) (by omega)
      (Int32.toInt_sub n (1 * oneSecondAsNanoseconds))
    simp only [hcarry, if_true, hdiv, hcheckOne, Option.bind_some, hcheckS', hwhole, hcheckN',
      hone, hs', hn', true_and]
    omega
  have hsmall := mt oneSecond_le_iff.mpr hcarry
  simp only [hcarry, if_false, hs, hn, true_and]
  omega

/-- The sum of two normalised times is that of their nanoseconds, and the comparisons are those of
the nanoseconds; so the same timeout added to two times leaves them in their order. -/
theorem tinkerTime_nanoseconds :
    (∀ l r : TinkerTime, l.Normalised → r.Normalised →
      -2 ^ 31 ≤ l.seconds.toInt + r.seconds.toInt →
      l.seconds.toInt + r.seconds.toInt + 1 < 2 ^ 31 →
      tinkerTimeAddChecked l r = some (tinkerTimeAdd l r) ∧
        (tinkerTimeAdd l r).Normalised ∧ (tinkerTimeAdd l r).toNs = l.toNs + r.toNs) ∧
    (∀ l r : TinkerTime, l.Normalised → r.Normalised →
      (tinkerTimeLt l r = true ↔ l.toNs < r.toNs) ∧
      (tinkerTimeGt l r = true ↔ l.toNs > r.toNs) ∧
      (tinkerTimeEq l r = true ↔ l.toNs = r.toNs)) ∧
    (∀ l m r : TinkerTime, l.Normalised → m.Normalised → r.Normalised →
      -2 ^ 31 ≤ l.seconds.toInt + r.seconds.toInt →
      l.seconds.toInt + r.seconds.toInt + 1 < 2 ^ 31 →
      -2 ^ 31 ≤ m.seconds.toInt + r.seconds.toInt →
      m.seconds.toInt + r.seconds.toInt + 1 < 2 ^ 31 →
      tinkerTimeLt (tinkerTimeAdd l r) (tinkerTimeAdd m r) = tinkerTimeLt l m) := by
  refine ⟨fun l r hl hr => tinkerTimeAdd_spec hl hr, fun l r hl hr => ?_,
    fun l m r hl hm hr hlow hhigh hlow' hhigh' => ?_⟩
  · refine ⟨tinkerTimeLt_iff_toNs hl hr, ?_, tinkerTimeEq_iff_toNs hl hr⟩
    rw [tinkerTimeGt_eq]
    exact tinkerTimeLt_iff_toNs hr hl
  · obtain ⟨-, hnorm, hsum⟩ := tinkerTimeAdd_spec hl hr hlow hhigh
    obtain ⟨-, hnorm', hsum'⟩ := tinkerTimeAdd_spec hm hr hlow' hhigh'
    rw [Bool.eq_iff_iff, tinkerTimeLt_iff_toNs hnorm hnorm', tinkerTimeLt_iff_toNs hl hm, hsum,
      hsum']
    omega

/-- The seconds have to fit before the carry too: here they overflow although one more second
would fit. -/
theorem tinkerTimeAdd_overflows : ∃ l r : TinkerTime, l.Normalised ∧ r.Normalised ∧
    -2 ^ 31 ≤ l.seconds.toInt + r.seconds.toInt + 1 ∧
    l.seconds.toInt + r.seconds.toInt + 1 < 2 ^ 31 ∧
    tinkerTimeAddChecked l r = none ∧ (tinkerTimeAdd l r).toNs ≠ l.toNs + r.toNs :=
  ⟨⟨-2147483648, 0⟩, ⟨-1, 0⟩, by decide⟩

/-- A difference is normalised, and the nanoseconds of it are right, unless there is a borrow. -/
theorem tinkerTimeSub_iff (hl : l.Normalised) (hr : r.Normalised) (hle : r.toNs ≤ l.toNs)
    (hseconds : 0 ≤ l.seconds.toInt) (hseconds' : 0 ≤ r.seconds.toInt) :
    ((tinkerTimeSub l r).Normalised ∧ 0 ≤ (tinkerTimeSub l r).seconds.toInt ∧
      (tinkerTimeSub l r).toNs = l.toNs - r.toNs ∧
      ∀ t : TinkerTime, t.Normalised →
        (tinkerTimeLt (tinkerTimeSub l r) t = true ↔ l.toNs - r.toNs < t.toNs)) ↔
    r.nanoseconds.toInt ≤ l.nanoseconds.toInt := by
  have hltl := Int32.toInt_lt l.seconds
  have hltr := Int32.toInt_lt r.seconds
  obtain ⟨hl, hl'⟩ := hl
  obtain ⟨hr, hr'⟩ := hr
  have hs := (Int32.toInt_sub l.seconds r.seconds).trans (bmod_of_fits (by omega) (by omega))
  have hn := (Int32.toInt_sub l.nanoseconds r.nanoseconds).trans
    (bmod_of_fits (by omega) (by omega))
  have hsub : tinkerTimeSub l r = ⟨l.seconds - r.seconds, l.nanoseconds - r.nanoseconds⟩ :=
    if_neg (mt oneSecond_le_iff.mp (by omega))
  simp only [TinkerTime.toNs] at hle ⊢
  constructor
  · rintro ⟨⟨hnonneg, -⟩, -⟩
    rw [hsub, hn] at hnonneg
    omega
  · intro hborrow
    have hnorm : (tinkerTimeSub l r).Normalised := by
      rw [hsub, TinkerTime.Normalised, hn]
      omega
    refine ⟨hnorm, ?_, ?_, fun t ht => ?_⟩
    · rw [hsub, hs]
      omega
    · rw [hsub, hs, hn]
      ring
    · rw [tinkerTimeLt_iff_toNs hnorm ht, hsub, TinkerTime.toNs, hs, hn, TinkerTime.toNs]
      omega

theorem tinkerTimeSub_iff_half :
    (tinkerTimeSub ⟨2, 500000000⟩ ⟨1, 0⟩).Normalised ∧
      0 ≤ (tinkerTimeSub ⟨2, 500000000⟩ ⟨1, 0⟩).seconds.toInt ∧
      (tinkerTimeSub ⟨2, 500000000⟩ ⟨1, 0⟩).toNs =
        TinkerTime.toNs ⟨2, 500000000⟩ - TinkerTime.toNs ⟨1, 0⟩ := by
  have hright := (tinkerTimeSub_iff (l := ⟨2, 500000000⟩) (r := ⟨1, 0⟩) (by decide) (by decide)
    (by decide) (by decide) (by decide)).mpr (by decide)
  exact ⟨hright.1, hright.2.1, hright.2.2.1⟩

/-- One second less one nanosecond. -/
theorem tinkerTimeSub_borrows : ∃ l r : TinkerTime, l.Normalised ∧ r.Normalised ∧
    r.toNs ≤ l.toNs ∧ 0 ≤ l.seconds.toInt ∧ 0 ≤ r.seconds.toInt ∧
    tinkerTimeSub l r = ⟨1, -1⟩ ∧ ¬ (tinkerTimeSub l r).Normalised :=
  ⟨⟨1, 0⟩, ⟨0, 1⟩, by decide, by decide, by decide, by decide, by decide, rfl, by decide⟩

end Times

/-! ## Units -/

/-- The time of `n` units, of which so many make a second. The product is a signed one. -/
def tinkerTimeOfUnits (perSecond : Int32) (asNanoseconds n : UInt32) : TinkerTime :=
  let seconds := (n / perSecond.toUInt32).toInt32
  ⟨seconds, ((n - (seconds * perSecond).toUInt32) * asNanoseconds).toInt32⟩

def oneMsAsNanoseconds : UInt32 := 1000000
def oneUsAsNanoseconds : UInt32 := 1000

def tinkerTimeMilliseconds (milliseconds : UInt32) : TinkerTime :=
  tinkerTimeOfUnits 1000 oneMsAsNanoseconds milliseconds

def tinkerTimeMicroseconds (microseconds : UInt32) : TinkerTime :=
  tinkerTimeOfUnits 1000000 oneUsAsNanoseconds microseconds

/-- The product is one of 32 bits, and only then a number of 64 bits. -/
def tinkerTimeNanoseconds (nanoseconds : UInt64) : TinkerTime :=
  let seconds := (nanoseconds / 1000000000).toUInt32.toInt32
  ⟨seconds, (nanoseconds - (seconds * oneSecondAsNanoseconds).toInt64.toUInt64).toUInt32.toInt32⟩

section Units

variable {t : TinkerTime}

theorem toInt_toInt32 {x : UInt32} {n : ℤ} (h : (x.toNat : ℤ) ≡ n [ZMOD 2 ^ 32]) (hnonneg : 0 ≤ n)
    (hlt : n < 2 ^ 31) : x.toInt32.toInt = n := by
  have hbmod : x.toInt32.toInt = (x.toNat : ℤ).bmod (2 ^ 32) := BitVec.toInt_eq_toNat_bmod _
  rw [hbmod]
  exact bmod_eq_of_modEq h hnonneg hlt

theorem toNat_sub_modEq (x y : UInt32) :
    ((x - y).toNat : ℤ) ≡ x.toNat - y.toNat [ZMOD 2 ^ 32] := by
  have hy := UInt32.toNat_lt y
  rw [UInt32.toNat_sub]
  exact (show (_ % _ : ℤ) = _ % _ by omega)

theorem tinkerTimeOfUnits_spec {perSecond : Int32} {asNanoseconds : UInt32}
    (hper : 2 ≤ perSecond.toInt) (hunit : perSecond.toInt * asNanoseconds.toNat = 1000000000)
    (n : UInt32) : (tinkerTimeOfUnits perSecond asNanoseconds n).Normalised ∧
      (tinkerTimeOfUnits perSecond asNanoseconds n).toNs = n.toNat * asNanoseconds.toNat := by
  have hltn := UInt32.toNat_lt n
  have hltp := Int32.toInt_lt perSecond
  have hper' : (perSecond.toUInt32.toNat : ℤ) = perSecond.toInt := by
    have hmod : (_ % _ : ℤ) = _ % _ := toNat_toUInt32_modEq perSecond
    have hlt := UInt32.toNat_lt perSecond.toUInt32
    omega
  have hseconds : (n / perSecond.toUInt32).toInt32.toInt = (n.toNat / perSecond.toInt : ℤ) := by
    refine toInt_toInt32 ?_ (Int.ediv_nonneg (by omega) (by omega))
      (Int.ediv_lt_of_lt_mul (by omega) (by omega))
    rw [UInt32.toNat_div, Int.natCast_ediv, hper']
  have hsplit := Int.emod_def n.toNat perSecond.toInt
  have hrest := Int.emod_nonneg n.toNat (by omega : perSecond.toInt ≠ 0)
  have hrest' := Int.emod_lt_of_pos n.toNat (by omega : 0 < perSecond.toInt)
  have hmul : (n.toNat % perSecond.toInt) * asNanoseconds.toNat < 1000000000 := by
    rw [← hunit]
    exact mul_lt_mul_of_pos_right hrest' (by nlinarith)
  have hnano : ((n - ((n / perSecond.toUInt32).toInt32 * perSecond).toUInt32) *
      asNanoseconds).toInt32.toInt = (n.toNat % perSecond.toInt) * asNanoseconds.toNat := by
    refine toInt_toInt32 ?_ (by positivity) (by omega)
    rw [UInt32.toNat_mul, hsplit, ← hseconds]
    push_cast
    refine (Int.mod_modEq ..).trans (Int.ModEq.mul_right _ ?_)
    exact (toNat_sub_modEq _ _).trans ((Int.ModEq.refl _).sub
      ((toNat_toUInt32_modEq _).trans ((toInt_mul_modEq _ _).trans (by rw [mul_comm]))))
  simp only [TinkerTime.Normalised, TinkerTime.toNs, tinkerTimeOfUnits, hseconds, hnano]
  refine ⟨⟨by positivity, hmul⟩, ?_⟩
  rw [← hunit, hsplit]
  ring

theorem tinkerTimeNanoseconds_spec {n : UInt64} (hn : n.toNat < 2 ^ 31 * 1000000000) :
    (tinkerTimeNanoseconds n).seconds.toInt = (n.toNat / 1000000000 : ℕ) ∧
      (tinkerTimeNanoseconds n).nanoseconds.toInt = (n.toNat % 1000000000 : ℕ) := by
  have hseconds : (n / 1000000000).toUInt32.toInt32.toInt = (n.toNat / 1000000000 : ℕ) := by
    refine toInt_toInt32 ?_ (by omega) (by omega)
    rw [UInt64.toNat_toUInt32, UInt64.toNat_div, Int.natCast_emod]
    exact Int.mod_modEq ..
  refine ⟨hseconds, toInt_toInt32 ?_ (by omega) (by omega)⟩
  generalize (n / 1000000000).toUInt32.toInt32 = seconds at hseconds
  generalize hwhole : seconds * oneSecondAsNanoseconds = whole
  -- the product may have overflowed, but it is right modulo `2 ^ 32`
  have hproduct : (_ % _ : ℤ) = _ % _ := toInt_mul_modEq seconds oneSecondAsNanoseconds
  have hwide : (whole.toInt64.toUInt64.toNat : ℤ) % 2 ^ 64 = whole.toInt % 2 ^ 64 := by
    rw [← Int32.toInt_toInt64, ← Int64.toNat_toBitVec, ← Int64.toInt_toBitVec,
      BitVec.toInt_eq_toNat_bmod]
    exact (Int.bmod_emod ..).symm
  have hlt := UInt64.toNat_lt whole.toInt64.toUInt64
  rw [hwhole, hseconds, show oneSecondAsNanoseconds.toInt = 1000000000 from rfl] at hproduct
  rw [UInt64.toNat_toUInt32, UInt64.toNat_sub]
  exact (show (_ % _ : ℤ) = _ % _ by omega)

theorem timeGetSystemTime_eq {n : UInt64} (hn : n.toNat < 2 ^ 31 * 1000000000) :
    timeGetSystemTime n = tinkerTimeNanoseconds n := by
  obtain ⟨hseconds, hnano⟩ := tinkerTimeNanoseconds_spec hn
  have hseconds' : (Int32.ofInt (n.toNat / 1000000000)).toInt = (n.toNat / 1000000000 : ℕ) := by
    rw [Int32.toInt_ofInt]
    exact bmod_of_fits (by omega) (by omega)
  generalize tinkerTimeNanoseconds n = t at *
  refine congrArg₂ TinkerTime.mk (Int32.toInt_inj.mp (hseconds'.trans hseconds.symm))
    (Int32.toInt_inj.mp (Eq.trans ?_ hnano.symm))
  rw [Int32.toInt_ofInt]
  exact (bmod_of_fits (by omega) (by omega)).trans (by omega)

theorem tinkerTimerGetMicroseconds_eq (ht : t.Normalised) :
    ((tinkerTimerGetMicroseconds t).toNat : ℤ) = t.toNs / 1000 % 2 ^ 32 := by
  have hmod : (_ % _ : ℤ) = _ % _ := tinkerTimerGetMicroseconds_modEq t
  have hlt := UInt32.toNat_lt (tinkerTimerGetMicroseconds t)
  obtain ⟨hnonneg, -⟩ := ht
  rw [Int.tdiv_eq_ediv_of_nonneg hnonneg] at hmod
  rw [TinkerTime.toNs]
  omega

/-- The conversions are exact, although their products of 32 bits overflow. -/
theorem tinkerTime_units :
    (∀ m : UInt32, (tinkerTimeMilliseconds m).Normalised ∧
      (tinkerTimeMilliseconds m).toNs = m.toNat * 1000000) ∧
    (∀ u : UInt32, (tinkerTimeMicroseconds u).Normalised ∧
      (tinkerTimeMicroseconds u).toNs = u.toNat * 1000) ∧
    (∀ n : UInt64, n.toNat < 2 ^ 31 * 1000000000 →
      (tinkerTimeNanoseconds n).Normalised ∧ (tinkerTimeNanoseconds n).toNs = n.toNat ∧
        timeGetSystemTime n = tinkerTimeNanoseconds n) ∧
    (∀ t : TinkerTime, t.Normalised → 0 ≤ t.seconds.toInt →
      ((tinkerTimerGetMicroseconds t).toNat : ℤ) = t.toNs / 1000 % 2 ^ 32) ∧
    ∀ u : UInt32, tinkerTimerGetMicroseconds (tinkerTimeMicroseconds u) = u := by
  have hmicro : ∀ u : UInt32, (tinkerTimeMicroseconds u).Normalised ∧
      (tinkerTimeMicroseconds u).toNs = u.toNat * 1000 :=
    tinkerTimeOfUnits_spec (by decide) rfl
  refine ⟨tinkerTimeOfUnits_spec (by decide) rfl, hmicro, fun n hn => ?_,
    fun t ht _ => tinkerTimerGetMicroseconds_eq ht, fun u => ?_⟩
  · obtain ⟨hseconds, hnano⟩ := tinkerTimeNanoseconds_spec hn
    rw [TinkerTime.Normalised, TinkerTime.toNs, hseconds, hnano]
    exact ⟨by omega, by omega, timeGetSystemTime_eq hn⟩
  · obtain ⟨hnorm, hns⟩ := hmicro u
    have heq := tinkerTimerGetMicroseconds_eq hnorm
    have hlt := UInt32.toNat_lt u
    exact UInt32.toNat_inj.mp (by omega)

end Units

/-! ## Reading the clock -/

/-- `bcm2835_get_time`, from the `read`-th read of a register on. At the `n`-th one the counter is
`counts n`. With the time comes the number of the next read. -/
def bcm2835ReadTime (counts : ℕ → ℕ) : (fuel read : ℕ) → Option (UInt64 × ℕ)
  | 0, _ => none
  | fuel + 1, read =>
    let timerUpper1 := UInt32.ofNat (counts read / 2 ^ 32)
    let timerLower := UInt32.ofNat (counts (read + 1))
    let timerUpper2 := UInt32.ofNat (counts (read + 2) / 2 ^ 32)
    if timerUpper1 ≠ timerUpper2 then
      bcm2835ReadTime counts fuel (read + 3)
    else
      some (((timerUpper1.toUInt64 <<< 32) + timerLower.toUInt64) * 1000, read + 3)

section Clock

variable {counts : ℕ → ℕ} {fuel first after : ℕ} {time : UInt64}

/-- If the upper halves before and after are the same, the counter had it in between, too. -/
theorem join_halves {a b c : ℕ} (hab : a ≤ b) (hbc : b ≤ c) (hc : c < 2 ^ 64)
    (hupper : UInt32.ofNat (a / 2 ^ 32) = UInt32.ofNat (c / 2 ^ 32)) :
    ((UInt32.ofNat (a / 2 ^ 32)).toUInt64 <<< 32) + (UInt32.ofNat b).toUInt64 = UInt64.ofNat b := by
  rw [← UInt32.toNat_inj] at hupper
  rw [← UInt64.toNat_inj]
  simp only [UInt32.toNat_ofNat', UInt64.toNat_add, UInt64.toNat_shiftLeft, UInt32.toNat_toUInt64,
    UInt64.toNat_ofNat', Nat.shiftLeft_eq] at hupper ⊢
  have hshift : (32 : UInt64).toNat % 64 = 32 := rfl
  rw [hshift]
  omega

theorem exists_count_of_readTime (hcounts : Monotone counts) (hfits : counts (after - 1) < 2 ^ 64)
    (h : bcm2835ReadTime counts fuel first = some (time, after)) :
    ∃ n, first ≤ n ∧ n < after ∧ time = bcm2835GetTime (counts n) := by
  induction fuel generalizing first with
  | zero => cases h
  | succ fuel ih =>
    rw [bcm2835ReadTime] at h
    split at h
    · obtain ⟨n, hle, hlt, htime⟩ := ih h
      exact ⟨n, by omega, hlt, htime⟩
    next hupper =>
      cases h
      refine ⟨first + 1, by omega, by omega, ?_⟩
      rw [bcm2835GetTime, join_halves (hcounts (by omega)) (hcounts (by omega)) hfits
        (not_not.mp hupper)]

/-- The counter does not go back, and each read comes later than the one before. A time that is
read was that of the counter during the call, so of two calls the later one gives a time that
is not earlier as long as the nanoseconds fit. -/
theorem bcm2835ReadTime_not_torn {τ : Type} [LinearOrder τ] {counter : τ → ℕ}
    {instants : ℕ → τ} (hcounter : Monotone counter) (hinstants : StrictMono instants) :
    (∀ fuel first time after,
      bcm2835ReadTime (counter ∘ instants) fuel first = some (time, after) →
      counter (instants (after - 1)) < 2 ^ 64 →
      ∃ t, instants first ≤ t ∧ t ≤ instants (after - 1) ∧ time = bcm2835GetTime (counter t)) ∧
    ∀ fuel first time after fuel' first' time' after',
      bcm2835ReadTime (counter ∘ instants) fuel first = some (time, after) →
      bcm2835ReadTime (counter ∘ instants) fuel' first' = some (time', after') →
      after ≤ first' → counter (instants (after' - 1)) * 1000 < 2 ^ 64 → time ≤ time' := by
  have hcounts : Monotone (counter ∘ instants) := hcounter.comp hinstants.monotone
  constructor
  · intro fuel first time after h hfits
    obtain ⟨n, hle, hlt, htime⟩ := exists_count_of_readTime hcounts hfits h
    exact ⟨instants n, hinstants.monotone hle, hinstants.monotone (by omega), htime⟩
  · intro fuel first time after fuel' first' time' after' h h' hafter hfits
    have hfits' : counter (instants (after' - 1)) < 2 ^ 64 := by omega
    obtain ⟨m, hle, hlt', rfl⟩ := exists_count_of_readTime hcounts hfits' h'
    have hbefore : counter (instants (after - 1)) < 2 ^ 64 :=
      (hcounts (by omega : after - 1 ≤ after' - 1)).trans_lt hfits'
    obtain ⟨n, -, hlt, rfl⟩ := exists_count_of_readTime hcounts hbefore h
    have hnm : (counter ∘ instants) n ≤ (counter ∘ instants) m := hcounts (by omega)
    have hlast : (counter ∘ instants) m ≤ counter (instants (after' - 1)) := hcounts (by omega)
    rw [UInt64.le_iff_toNat_le, toNat_bcm2835GetTime (by omega), toNat_bcm2835GetTime (by omega)]
    omega

/-- The counter reaches `2 ^ 32` between the first two reads, and the first round is read again. -/
theorem bcm2835ReadTime_not_torn_carry :
    bcm2835ReadTime ((4294967295 + ·) ∘ id) 2 0 = some (4294967299000, 6) ∧
      ∃ t : ℕ, 0 ≤ t ∧ t ≤ 5 ∧ 4294967299000 = bcm2835GetTime (4294967295 + t) := by
  have hread : bcm2835ReadTime ((4294967295 + ·) ∘ id) 2 0 = some (4294967299000, 6) := by rfl
  refine ⟨hread, ?_⟩
  exact (bcm2835ReadTime_not_torn (fun _ _ hle => Nat.add_le_add_left hle _) strictMono_id).1
    2 0 _ 6 hread (by decide)

end Clock

end Tinker
