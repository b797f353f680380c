import Mathlib.Data.Int.ModEq
import Tinker.Time.Armed

/-!
# When alarms fire

The BCM2835 timer behind the alarm manager: a counter of microseconds, which is also the system
clock, and a compare register that the low 32 bits of the counter are compared with.

An alarm does not fire too early as long as its timeout is a whole number of microseconds and less
than `2 ^ 32` of them. If the nanoseconds of the timeout and of the clock overflow, the alarm is set
4.29 seconds too early; if that is before the present, it fires more than an hour late.
-/

namespace Tinker

open Tinker.Lib Function Armed

/-! ## The clock and the compare register -/

def bcm2835GetTime (counter : ℕ) : UInt64 := UInt64.ofNat counter * 1000

/-- The results are taken modulo `2 ^ 32`, so it does not matter that the difference is one of 64
bits. -/
def timeGetSystemTime (timeNs : UInt64) : TinkerTime :=
  let seconds := Int32.ofInt (timeNs.toNat / 1000000000)
  ⟨seconds, Int32.ofInt (timeNs.toNat - seconds.toInt * 1000000000)⟩

def tinkerTimerGetMicroseconds (t : TinkerTime) : UInt32 :=
  (t.seconds * 1000000).toUInt32 + (t.nanoseconds / 1000).toUInt32

def TinkerTime.toNs (t : TinkerTime) : ℤ := t.seconds.toInt * 1000000000 + t.nanoseconds.toInt

/-- The compare register after the timer has been set up with `t` matches the counter. -/
def Matches (t : TinkerTime) (counter : ℕ) : Prop :=
  counter % 2 ^ 32 = (tinkerTimerGetMicroseconds t).toNat

deriving instance Decidable for Matches

/-- A timeout that is set at `counter` is not cut short. As long as the nanoseconds do not
overflow it is a whole number of microseconds, and there are less than `2 ^ 32` of them. -/
def TimelyAt (counter : ℕ) (timeout : TinkerTime) : Prop :=
  ((counter % 1000000 * 1000 : ℕ) + timeout.nanoseconds.toInt < 2 ^ 31 →
    timeout.nanoseconds.toInt % 1000 = 0 ∧ timeout.toNs < 2 ^ 32 * 1000) ∧
  (2 ^ 31 ≤ (counter % 1000000 * 1000 : ℕ) + timeout.nanoseconds.toInt →
    timeout.toNs + 1000 ≤ 2 ^ 32)

deriving instance Decidable for TimelyAt

section Arithmetic

variable {x y : Int32} {counter : ℕ} {timeout : TinkerTime}

theorem toNat_toUInt32_modEq (x : Int32) : (x.toUInt32.toNat : ℤ) ≡ x.toInt [ZMOD 2 ^ 32] := by
  have hbmod : x.toInt = (x.toUInt32.toNat : ℤ).bmod (2 ^ 32) := by
    rw [← Int32.toNat_toBitVec]
    exact BitVec.toInt_eq_toNat_bmod _
  rw [hbmod]
  exact (Int.bmod_emod ..).symm

theorem toInt_add_modEq (x y : Int32) : (x + y).toInt ≡ x.toInt + y.toInt [ZMOD 2 ^ 32] := by
  rw [Int32.toInt_add]
  exact Int.bmod_emod ..

theorem toInt_mul_modEq (x y : Int32) : (x * y).toInt ≡ x.toInt * y.toInt [ZMOD 2 ^ 32] := by
  rw [Int32.toInt_mul]
  exact Int.bmod_emod ..

theorem tinkerTimerGetMicroseconds_modEq (t : TinkerTime) :
    ((tinkerTimerGetMicroseconds t).toNat : ℤ) ≡
      t.seconds.toInt * 1000000 + t.nanoseconds.toInt.tdiv 1000 [ZMOD 2 ^ 32] := by
  have hns : (t.nanoseconds / 1000).toInt ≡ t.nanoseconds.toInt.tdiv 1000 [ZMOD 2 ^ 32] := by
    rw [Int32.toInt_div]
    exact Int.bmod_emod ..
  have hsum : ((tinkerTimerGetMicroseconds t).toNat : ℤ) ≡
      (t.seconds * 1000000).toUInt32.toNat + (t.nanoseconds / 1000).toUInt32.toNat
        [ZMOD 2 ^ 32] := by
    rw [tinkerTimerGetMicroseconds, UInt32.toNat_add]
    push_cast
    exact Int.mod_modEq ..
  refine hsum.trans (Int.ModEq.add ?_ ?_)
  · exact (toNat_toUInt32_modEq _).trans (toInt_mul_modEq _ _)
  · exact (toNat_toUInt32_modEq _).trans hns

theorem bmod_eq_of_modEq {a b : ℤ} (h : a ≡ b [ZMOD 2 ^ 32]) (hnonneg : 0 ≤ b) (hlt : b < 2 ^ 31) :
    a.bmod (2 ^ 32) = b := by
  have hmod : a % 2 ^ 32 = b := Eq.trans h (Int.emod_eq_of_lt hnonneg (by omega))
  rw [Int.bmod_def]
  omega

theorem toNat_bcm2835GetTime (hclock : 1000 * counter < 2 ^ 64) :
    (bcm2835GetTime counter).toNat = 1000 * counter := by
  have hthousand : (1000 : UInt64).toNat = 1000 := rfl
  rw [bcm2835GetTime, UInt64.toNat_mul, UInt64.toNat_ofNat', hthousand,
    Nat.mod_eq_of_lt (by omega : counter < 2 ^ 64)]
  omega

theorem timeGetSystemTime_bcm2835 (hclock : 1000 * counter < 2 ^ 64) :
    (timeGetSystemTime (bcm2835GetTime counter)).seconds.toInt ≡ (counter / 1000000 : ℕ)
        [ZMOD 2 ^ 32] ∧
      (timeGetSystemTime (bcm2835GetTime counter)).nanoseconds.toInt =
        (counter % 1000000 * 1000 : ℕ) := by
  have hns := toNat_bcm2835GetTime hclock
  have hseconds : (timeGetSystemTime (bcm2835GetTime counter)).seconds.toInt ≡
      (counter / 1000000 : ℕ) [ZMOD 2 ^ 32] := by
    have hdiv : ((1000 * counter : ℕ) : ℤ) / 1000000000 = (counter / 1000000 : ℕ) := by omega
    simp only [timeGetSystemTime, hns, Int32.toInt_ofInt, hdiv]
    exact Int.bmod_emod ..
  refine ⟨hseconds, ?_⟩
  generalize hs : (timeGetSystemTime (bcm2835GetTime counter)).seconds = seconds at hseconds
  have hnano : (timeGetSystemTime (bcm2835GetTime counter)).nanoseconds =
      Int32.ofInt ((1000 * counter : ℕ) - seconds.toInt * 1000000000) := by
    rw [← hs, ← hns]
    rfl
  rw [hnano, Int32.toInt_ofInt]
  refine bmod_eq_of_modEq ?_ (by omega) (by omega)
  -- the whole seconds are taken away, up to a multiple of `2 ^ 32` of them
  have hsplit : ((counter % 1000000 * 1000 : ℕ) : ℤ) =
      (1000 * counter : ℕ) - (counter / 1000000 : ℕ) * 1000000000 := by omega
  rw [hsplit]
  exact (Int.ModEq.refl _).sub (hseconds.mul_right _)

theorem microseconds_add {l r : TinkerTime}
    (hnonneg : 0 ≤ l.nanoseconds.toInt + r.nanoseconds.toInt)
    (hlt : l.nanoseconds.toInt + r.nanoseconds.toInt < 2 ^ 31) :
    ((tinkerTimerGetMicroseconds (tinkerTimeAdd l r)).toNat : ℤ) ≡
      (l.seconds.toInt + r.seconds.toInt) * 1000000 +
        (l.nanoseconds.toInt + r.nanoseconds.toInt) / 1000 [ZMOD 2 ^ 32] := by
  refine (tinkerTimerGetMicroseconds_modEq _).trans ?_
  have hsum : (l.nanoseconds + r.nanoseconds).toInt =
      l.nanoseconds.toInt + r.nanoseconds.toInt := by
    rw [Int32.toInt_add]
    exact bmod_eq_of_modEq rfl hnonneg hlt
  generalize l.nanoseconds.toInt + r.nanoseconds.toInt = n at *
  have hseconds := toInt_add_modEq l.seconds r.seconds
  simp only [tinkerTimeAdd]
  split
  next hge =>
    -- the whole seconds of the nanoseconds are carried over
    have hcarry : ((l.nanoseconds + r.nanoseconds) / oneSecondAsNanoseconds).toInt =
        n / 1000000000 := by
      rw [Int32.toInt_div, hsum]
      rw [Int.tdiv_eq_ediv_of_nonneg hnonneg]
      exact bmod_eq_of_modEq rfl (by omega) (by omega)
    generalize (l.nanoseconds + r.nanoseconds) / oneSecondAsNanoseconds = s at *
    have hmul : (s * oneSecondAsNanoseconds).toInt = n / 1000000000 * 1000000000 := by
      rw [Int32.toInt_mul, hcarry]
      exact bmod_eq_of_modEq rfl (by omega) (by omega)
    have hleft : (l.nanoseconds + r.nanoseconds - s * oneSecondAsNanoseconds).toInt =
        n - n / 1000000000 * 1000000000 := by
      rw [Int32.toInt_sub, hsum, hmul]
      exact bmod_eq_of_modEq rfl (by omega) (by omega)
    rw [hleft, Int.tdiv_eq_ediv_of_nonneg (by omega)]
    have hcarried := (toInt_add_modEq (l.seconds + r.seconds) s).trans (hseconds.add_right _)
    rw [hcarry] at hcarried
    refine ((hcarried.mul_right 1000000).add_right _).trans ?_
    have hsame : (l.seconds.toInt + r.seconds.toInt + n / 1000000000) * 1000000 +
        (n - n / 1000000000 * 1000000000) / 1000 =
        (l.seconds.toInt + r.seconds.toInt) * 1000000 + n / 1000 := by omega
    rw [hsame]
  rw [hsum, Int.tdiv_eq_ediv_of_nonneg hnonneg]
  exact (hseconds.mul_right _).add_right _

/-- If the nanoseconds overflow, they are negative afterwards and nothing is carried over. -/
theorem microseconds_add_of_overflow {l r : TinkerTime}
    (hge : 2 ^ 31 ≤ l.nanoseconds.toInt + r.nanoseconds.toInt) :
    ((tinkerTimerGetMicroseconds (tinkerTimeAdd l r)).toNat : ℤ) ≡
      (l.seconds.toInt + r.seconds.toInt) * 1000000 -
        (2 ^ 32 - (l.nanoseconds.toInt + r.nanoseconds.toInt)) / 1000 [ZMOD 2 ^ 32] := by
  refine (tinkerTimerGetMicroseconds_modEq _).trans ?_
  have hl := Int32.toInt_lt l.nanoseconds
  have hr := Int32.toInt_lt r.nanoseconds
  have hsum : (l.nanoseconds + r.nanoseconds).toInt =
      l.nanoseconds.toInt + r.nanoseconds.toInt - 2 ^ 32 := by
    rw [Int32.toInt_add, Int.bmod_def]
    omega
  have hlt : l.nanoseconds.toInt + r.nanoseconds.toInt < 2 ^ 32 := by omega
  generalize l.nanoseconds.toInt + r.nanoseconds.toInt = n at *
  have hsmall : ¬ (l.nanoseconds + r.nanoseconds ≥ oneSecondAsNanoseconds) := by
    rw [ge_iff_le, Int32.le_iff_toInt_le, hsum]
    show ¬ (1000000000 ≤ n - 2 ^ 32)
    omega
  simp only [tinkerTimeAdd, if_neg hsmall]
  have hdiv : (n - 2 ^ 32).tdiv 1000 = - ((2 ^ 32 - n) / 1000) := by
    rw [← neg_sub, Int.neg_tdiv, Int.tdiv_eq_ediv_of_nonneg (by omega)]
  rw [hsum, hdiv]
  exact ((toInt_add_modEq l.seconds r.seconds).mul_right _).add_right _

theorem forall_matches_iff {t : TinkerTime} {d n : ℤ}
    (h : ((tinkerTimerGetMicroseconds t).toNat : ℤ) ≡ counter + d [ZMOD 2 ^ 32]) :
    (∀ c, counter ≤ c → Matches t c → 1000 * (counter : ℤ) + n ≤ 1000 * c) ↔
      n ≤ 1000 * (d % 2 ^ 32) := by
  have hlt := UInt32.toNat_lt (tinkerTimerGetMicroseconds t)
  have h : ((tinkerTimerGetMicroseconds t).toNat : ℤ) % 2 ^ 32 = (counter + d) % 2 ^ 32 := h
  unfold Matches
  generalize (tinkerTimerGetMicroseconds t).toNat = m at *
  constructor
  · intro hall
    have hfirst := hall (counter + (d % 2 ^ 32).toNat) (Nat.le_add_right ..) (by omega)
    omega
  intro hle c hc hmatch
  omega

/-- A timeout is never cut short exactly if it is a timely one. -/
theorem timelyAt_iff (hclock : 1000 * counter < 2 ^ 64) (hseconds : 0 ≤ timeout.seconds.toInt)
    (hnano : 0 ≤ timeout.nanoseconds.toInt) :
    (∀ c, counter ≤ c →
      Matches (tinkerTimeAdd (timeGetSystemTime (bcm2835GetTime counter)) timeout) c →
        1000 * (counter : ℤ) + timeout.toNs ≤ 1000 * c) ↔ TimelyAt counter timeout := by
  obtain ⟨hs, hn⟩ := timeGetSystemTime_bcm2835 hclock
  -- whole microseconds of the clock
  by_cases hover : (counter % 1000000 * 1000 : ℕ) + timeout.nanoseconds.toInt < 2 ^ 31
  · have hadd := microseconds_add (r := timeout) (by rw [hn]; omega) (by rw [hn]; exact hover)
    rw [hn, add_mul] at hadd
    have hreg := hadd.trans (((hs.mul_right 1000000).add_right _).add_right _)
    have hd : ((counter / 1000000 : ℕ) : ℤ) * 1000000 + timeout.seconds.toInt * 1000000 +
        ((counter % 1000000 * 1000 : ℕ) + timeout.nanoseconds.toInt) / 1000 =
        counter + (timeout.seconds.toInt * 1000000 + timeout.nanoseconds.toInt / 1000) := by
      omega
    rw [hd] at hreg
    rw [forall_matches_iff hreg]
    simp only [TimelyAt, TinkerTime.toNs]
    omega
  have hadd := microseconds_add_of_overflow (r := timeout) (by rw [hn]; omega)
  rw [hn, add_mul] at hadd
  have hreg := hadd.trans (((hs.mul_right 1000000).add_right _).sub_right _)
  have hd : ((counter / 1000000 : ℕ) : ℤ) * 1000000 + timeout.seconds.toInt * 1000000 -
      (2 ^ 32 - ((counter % 1000000 * 1000 : ℕ) + timeout.nanoseconds.toInt)) / 1000 =
      counter + (timeout.seconds.toInt * 1000000 -
        (2 ^ 32 - timeout.nanoseconds.toInt) / 1000) := by
    omega
  rw [hd] at hreg
  rw [forall_matches_iff hreg]
  simp only [TimelyAt, TinkerTime.toNs]
  omega

end Arithmetic

/-! ## The alarm clock -/

variable {β : Type}

structure AlarmClock (β : Type) extends Armed β where
  /-- The microseconds that the counter has counted. -/
  counter : ℕ
  /-- When an alarm, which is known by its address, is due: its timeout after the time at which
  it was set, in nanoseconds. The kernel does not look at this record. -/
  due : ℕ → ℤ

inductive ClockEvent (β : Type)
  | pass (microseconds : ℕ)
  | compare
  | interrupt (cancels : Bool)
  | setAlarm (timeout : TinkerTime) (usrData : β) (room : Bool)
  | unsetAlarm (alarmId : ℕ)

namespace ClockEvent

/-- One step. An interrupt comes only if the timer has expired. -/
def step (k : AlarmClock β) : ClockEvent β → Exec (AlarmClock β)
  | pass microseconds => .ok { k with counter := k.counter + microseconds }
  | compare =>
    match k.setup with
    | some t => .ok { k with expired := k.expired || Matches t k.counter }
    | none => .ok k
  | interrupt cancels =>
    if k.expired then
      .ok { k with toArmed := { k.toArmed with expired := false }.handleTimerTimeout cancels }
    else .ok k
  | setAlarm timeout usrData room =>
    let now := timeGetSystemTime (bcm2835GetTime k.counter)
    .ok { k with
      toArmed := k.toArmed.setAlarm now timeout usrData room
      due := update k.due k.alarmBrk (1000 * k.counter + timeout.toNs) }
  | unsetAlarm alarmId => .ok { k with toArmed := k.toArmed.unsetAlarm alarmId }

/-- A timeout has no negative part. It is set while the clock still fits into its 64 bits, and it
is a timely one. -/
def Timely (k : AlarmClock β) : ClockEvent β → Prop
  | setAlarm timeout _ _ => (0 ≤ timeout.seconds.toInt ∧ 0 ≤ timeout.nanoseconds.toInt) ∧
      1000 * k.counter < 2 ^ 64 ∧ TimelyAt k.counter timeout
  | pass _ | compare | interrupt _ | unsetAlarm _ => True

end ClockEvent

namespace AlarmClock

def start (counter : ℕ) : AlarmClock β := ⟨initialse, counter, fun _ => 0⟩

/-- The interrupt that is pending calls an alarm back before it is due. -/
def Early (k : AlarmClock β) : Prop :=
  k.expired = true ∧ ∃ a ∈ k.nextAlarm, 1000 * (k.counter : ℤ) < k.due a.address

end AlarmClock

/-! ## What keeps an alarm from firing early -/

section Expired

variable {am : Armed β} {now timeout : TinkerTime} {usrData : β} {room : Bool} {alarmId : ℕ}

theorem Armed.setAlarm_cases (am : Armed β) (now timeout : TinkerTime) (usrData : β)
    (room : Bool) :
    am.setAlarm now timeout usrData room = am ∨
      ((am.setAlarm now timeout usrData room).expired = false ∧
        (am.setAlarm now timeout usrData room).alarmList =
          am.alarmList ++ [⟨am.alarmBrk, 0, usrData, tinkerTimeAdd now timeout⟩]) := by
  rcases alarmSetAlarm_cases am.toAlarmManager now timeout usrData room with
    ⟨-, -, am', hset, hlist, -, -, hnext⟩ | ⟨-, hset⟩
  · refine .inr ⟨?_, by rw [setAlarm_toAlarmManager, hset, hlist]⟩
    obtain ⟨next, hnext⟩ := Option.ne_none_iff_exists'.mp hnext
    simp [setAlarm, hset, alarmEnableTimer, hnext]
  left
  simp [setAlarm, hset]

theorem Armed.setAlarm_of_nil (am : Armed β) (hnil : am.alarmList = [])
    (hnone : am.nextAlarm = none) (now timeout : TinkerTime) (usrData : β) :
    (am.setAlarm now timeout usrData true).nextAlarm =
        some ⟨am.alarmBrk, 0, usrData, tinkerTimeAdd now timeout⟩ ∧
      (am.setAlarm now timeout usrData true).setup = some (tinkerTimeAdd now timeout) ∧
      (am.setAlarm now timeout usrData true).expired = false := by
  simp [setAlarm, alarmSetAlarm, hnil, hnone, maxAlarms, newAlarmId_eq_zero,
    alarmCalculateNextAlarm, alarmEnableTimer]

theorem alarmEnableTimer_expired (h : am.expired = false) :
    (alarmEnableTimer am).expired = false := by
  unfold alarmEnableTimer
  split
  · rfl
  · exact h

theorem Armed.calculateNextAlarm_expired (h : am.expired = false) :
    am.calculateNextAlarm.expired = false := by
  unfold calculateNextAlarm
  split
  · exact h
  · exact alarmEnableTimer_expired h

/-- An interrupt is still pending after a cancellation only if another alarm was cancelled than
the next one. -/
theorem Armed.unsetAlarm_expired (h : (am.unsetAlarm alarmId).expired = true) :
    am.expired = true ∧ (am.unsetAlarm alarmId).nextAlarm = am.nextAlarm := by
  unfold unsetAlarm at h ⊢
  cases hget : am.alarmList[alarmId]? with
  | none =>
    simp only [hget] at h
    exact ⟨h, rfl⟩
  | some alarm =>
    simp only [hget] at h ⊢
    split at h
    · have hfalse : (alarmEnableTimer (alarmDisableTimer { am with
          alarmList := am.alarmList.eraseP (·.address = alarm.address)
          nextAlarm := none }).calculateNextAlarm).expired = false :=
        alarmEnableTimer_expired (calculateNextAlarm_expired rfl)
      rw [hfalse] at h
      cases h
    next hother =>
      rw [if_neg hother]
      exact ⟨h, rfl⟩

theorem Armed.handleTimerTimeout_expired {cancels : Bool} (h : am.expired = false) :
    (am.handleTimerTimeout cancels).expired = false := by
  unfold handleTimerTimeout
  split
  · refine calculateNextAlarm_expired ?_
    split
    · rw [Bool.eq_false_iff]
      intro htrue
      rw [(unsetAlarm_expired htrue).1] at h
      cases h
    · exact h
  · exact h

theorem ArmedOk.mem_of_mem_expire {cancels : Bool} {a : Alarm β} (ok : ArmedOk am)
    (ha : a ∈ (am.handleTimerTimeout cancels).alarmList) : a ∈ am.alarmList := by
  by_cases hnext : am.nextAlarm = none
  · simpa [handleTimerTimeout, hnext] using ha
  rw [(ok.expire_next cancels hnext).2] at ha
  split at ha
  · exact List.mem_of_mem_tail ha
  · exact ha

theorem Armed.mem_of_mem_unset {a : Alarm β} (ha : a ∈ (am.unsetAlarm alarmId).alarmList) :
    a ∈ am.alarmList := by
  rw [unsetAlarm_toAlarmManager] at ha
  rcases alarmUnsetAlarm_cases am.toAlarmManager alarmId with
    ⟨b, -, am', hunset, hlist, -⟩ | ⟨-, hunset⟩
  · rw [hunset] at ha
    exact List.mem_of_mem_eraseP (hlist ▸ ha)
  · rwa [hunset] at ha

end Expired

/-- No alarm fires before it is due, neither when its time is in the register and is matched, nor
through an interrupt that is already pending. -/
structure Punctual (k : AlarmClock β) : Prop where
  armed : ArmedOk k.toArmed
  matched : ∀ a ∈ k.alarmList, ∀ c : ℕ, k.counter ≤ c → Matches a.alarmTime c →
    k.due a.address ≤ 1000 * c
  pending : k.expired = true → ∀ a ∈ k.nextAlarm, k.due a.address ≤ 1000 * k.counter

namespace Punctual

variable {k : AlarmClock β} {timeout : TinkerTime} {usrData : β}

theorem start (counter : ℕ) : Punctual (AlarmClock.start counter : AlarmClock β) :=
  ⟨.initialse, nofun, nofun⟩

theorem notEarly (punctual : Punctual k) : ¬ k.Early := by
  rintro ⟨hexpired, a, ha, hlt⟩
  have hdue := punctual.pending hexpired a ha
  omega

theorem compare (punctual : Punctual k) {t : TinkerTime} (hsetup : k.setup = some t) :
    Punctual { k with expired := k.expired || Matches t k.counter } := by
  refine ⟨⟨punctual.armed.alarms, punctual.armed.setup⟩, punctual.matched, fun hexpired a ha => ?_⟩
  rcases (Bool.or_eq_true ..).mp hexpired with hpending | hmatch
  · exact punctual.pending hpending a ha
  -- the register holds the time of the next alarm
  have htime := punctual.armed.setup a ha
  rw [hsetup, Option.some.injEq] at htime
  exact punctual.matched a (punctual.armed.alarms.next a ha) _ le_rfl
    (htime ▸ of_decide_eq_true hmatch)

theorem interrupt (punctual : Punctual k) (cancels : Bool) :
    Punctual { k with
      toArmed := { k.toArmed with expired := false }.handleTimerTimeout cancels } := by
  have armed : ArmedOk { k.toArmed with expired := false } :=
    ⟨punctual.armed.alarms, punctual.armed.setup⟩
  refine ⟨armed.expire, fun a ha => punctual.matched a (armed.mem_of_mem_expire ha), ?_⟩
  intro hexpired
  rw [handleTimerTimeout_expired rfl] at hexpired
  cases hexpired

theorem due_update (punctual : Punctual k) {a : Alarm β} (ha : a ∈ k.alarmList) (due : ℤ) :
    update k.due k.alarmBrk due a.address = k.due a.address :=
  update_of_ne (punctual.armed.alarms.bound a ha).ne due k.due

theorem setAlarm {room : Bool} (punctual : Punctual k)
    (timely : (ClockEvent.setAlarm timeout usrData room).Timely k) :
    Punctual { k with
      toArmed := k.toArmed.setAlarm (timeGetSystemTime (bcm2835GetTime k.counter)) timeout
        usrData room
      due := update k.due k.alarmBrk (1000 * k.counter + timeout.toNs) } := by
  obtain ⟨⟨hseconds, hnanoseconds⟩, hclock, htimely⟩ := timely
  refine ⟨punctual.armed.set, ?_, ?_⟩ <;> dsimp only
  · intro a ha c hc hmatch
    by_cases hold : a ∈ k.alarmList
    · rw [punctual.due_update hold]
      exact punctual.matched a hold c hc hmatch
    rcases setAlarm_cases k.toArmed (timeGetSystemTime (bcm2835GetTime k.counter)) timeout
      usrData room with hsame | ⟨-, hlist⟩
    · exact absurd (hsame ▸ ha) hold
    rw [hlist, List.mem_append, List.mem_singleton, or_iff_right hold] at ha
    subst ha
    rw [update_self]
    exact (timelyAt_iff hclock hseconds hnanoseconds).mpr htimely c hc hmatch
  intro hexpired a ha
  rcases setAlarm_cases k.toArmed (timeGetSystemTime (bcm2835GetTime k.counter)) timeout
    usrData room with hsame | ⟨hfalse, -⟩
  · rw [hsame] at hexpired ha
    rw [punctual.due_update (punctual.armed.alarms.next a ha)]
    exact punctual.pending hexpired a ha
  rw [hfalse] at hexpired
  cases hexpired

theorem unsetAlarm (punctual : Punctual k) (alarmId : ℕ) :
    Punctual { k with toArmed := k.toArmed.unsetAlarm alarmId } := by
  refine ⟨punctual.armed.unset, fun a ha => punctual.matched a (mem_of_mem_unset ha), ?_⟩
  intro hexpired a ha
  obtain ⟨hpending, hnext⟩ := unsetAlarm_expired hexpired
  exact punctual.pending hpending a (hnext ▸ ha)

theorem step {e : ClockEvent β} {k' : AlarmClock β} (punctual : Punctual k) (timely : e.Timely k)
    (h : e.step k = .ok k') : Punctual k' := by
  cases e with
  | pass microseconds =>
    cases h
    refine ⟨punctual.armed, fun a ha c hc => ?_, fun hexpired a ha => ?_⟩
    · exact punctual.matched a ha c (Nat.le_of_add_right_le hc)
    have hdue := punctual.pending hexpired a ha
    dsimp only
    omega
  | compare =>
    unfold ClockEvent.step at h
    dsimp only at h
    split at h
    next t hsetup =>
      cases h
      exact punctual.compare hsetup
    cases h
    exact punctual
  | interrupt cancels =>
    unfold ClockEvent.step at h
    dsimp only at h
    split at h
    · cases h
      exact punctual.interrupt cancels
    cases h
    exact punctual
  | setAlarm timeout usrData room =>
    cases h
    exact punctual.setAlarm timely
  | unsetAlarm alarmId =>
    cases h
    exact punctual.unsetAlarm alarmId

/-- With one alarm only, the interrupt is early if the register is matched before its due time. -/
theorem early_iff (punctual : Punctual k) (hnil : k.alarmList = []) (n : ℕ) :
    (∀ k', Run ClockEvent.step (fun _ _ => True) k
        [.setAlarm timeout usrData true, .pass n, .compare] k' → ¬ k'.Early) ↔
      (Matches (tinkerTimeAdd (timeGetSystemTime (bcm2835GetTime k.counter)) timeout)
        (k.counter + n) → 1000 * (k.counter : ℤ) + timeout.toNs ≤ 1000 * (k.counter + n : ℕ)) := by
  have hnone : k.nextAlarm = none := by
    by_contra hne
    obtain ⟨a, ha⟩ := Option.ne_none_iff_exists'.mp hne
    have hmem := punctual.armed.alarms.next a ha
    rw [hnil] at hmem
    cases hmem
  obtain ⟨hnext, hsetup, hexpired⟩ := k.toArmed.setAlarm_of_nil hnil hnone
    (timeGetSystemTime (bcm2835GetTime k.counter)) timeout usrData
  constructor
  · intro h hmatch
    by_contra hlt
    let set : AlarmClock β := { k with
      toArmed := k.toArmed.setAlarm (timeGetSystemTime (bcm2835GetTime k.counter)) timeout
        usrData true
      due := update k.due k.alarmBrk (1000 * k.counter + timeout.toNs) }
    have hcompare : ClockEvent.compare.step { set with counter := k.counter + n } =
        .ok { set with counter := k.counter + n, expired := true } := by
      simp [set, ClockEvent.step, hsetup, hmatch]
    refine h _ (.cons trivial rfl (.cons trivial rfl (.cons trivial hcompare (.nil _))))
      ⟨rfl, _, hnext, ?_⟩
    simpa [set, update_self] using hlt
  rintro h k' (_ | ⟨-, hset, _ | ⟨-, hpass, _ | ⟨-, hcompare, _ | _⟩⟩⟩) ⟨hfires, a, ha, hlt⟩
  cases hset
  cases hpass
  simp only [ClockEvent.step, hsetup] at hcompare
  cases hcompare
  simp only [hexpired, Bool.false_or, decide_eq_true_eq] at hfires
  simp only [hnext, Option.mem_some_iff] at ha
  subst ha
  simp only [update_self] at hlt
  exact absurd (h hfires) (by omega)

end Punctual

/-! ## Runs -/

/-- Let alarms be set and cancelled, time pass and the timer interrupt in any order. As long as
the timeouts are timely no alarm is called back before it is due. Where there is no other alarm, a
timeout has to be timely for that. -/
theorem notEarly_of_run {counter : ℕ} {events : List (ClockEvent β)} {k : AlarmClock β}
    (run : Run ClockEvent.step ClockEvent.Timely (AlarmClock.start counter) events k) :
    ¬ k.Early ∧ ∀ timeout usrData, 0 ≤ timeout.seconds.toInt → 0 ≤ timeout.nanoseconds.toInt →
      1000 * k.counter < 2 ^ 64 → k.alarmList = [] →
      ((∀ n k', Run ClockEvent.step (fun _ _ => True) k
          [.setAlarm timeout usrData true, .pass n, .compare] k' → ¬ k'.Early) ↔
        TimelyAt k.counter timeout) := by
  have punctual : Punctual k := run.invariant (.start counter) fun _ _ _ => Punctual.step
  refine ⟨punctual.notEarly, fun timeout usrData hseconds hnanoseconds hclock hnone => ?_⟩
  rw [← timelyAt_iff hclock hseconds hnanoseconds]
  refine ⟨fun h c hc => ?_, fun h n => (punctual.early_iff hnone n).mpr (h _ (by omega))⟩
  obtain ⟨n, rfl⟩ := Nat.exists_eq_add_of_le hc
  exact (punctual.early_iff hnone n).mp (h n)

/-- One second after the start an alarm is set for 10 seconds later. The timer expires then, and
the callback is not early. -/
theorem notEarly_of_run_ten_seconds : ∃ k : AlarmClock Unit,
    Run ClockEvent.step ClockEvent.Timely (AlarmClock.start 1000000)
      [.setAlarm ⟨10, 0⟩ () true, .pass 10000000, .compare] k ∧
    k.expired = true ∧ ¬ k.Early := by
  obtain ⟨k, run, hexpired⟩ : ∃ k : AlarmClock Unit,
      Run ClockEvent.step ClockEvent.Timely (AlarmClock.start 1000000)
        [.setAlarm ⟨10, 0⟩ () true, .pass 10000000, .compare] k ∧ k.expired = true := by
    refine ⟨_, .cons ⟨by decide, by decide, by decide⟩ rfl (.cons trivial rfl
      (.cons trivial rfl (.nil _))), by decide +kernel⟩
  exact ⟨k, run, hexpired, (notEarly_of_run run).1⟩

/-- An alarm for 4295 seconds later is called back after 32704 microseconds. -/
theorem early_of_long_timeout : ∃ k : AlarmClock Unit,
    Run ClockEvent.step (fun _ _ => True) (AlarmClock.start 0)
      [.setAlarm ⟨4295, 0⟩ () true, .pass 32704, .compare] k ∧
    k.counter = 32704 ∧ k.due 0 = 4295000000000 ∧ k.Early := by
  refine ⟨_, .cons trivial rfl (.cons trivial rfl (.cons trivial rfl (.nil _))), rfl, rfl,
    by decide +kernel, ⟨0, 0, (), ⟨4295, 0⟩⟩, rfl, by decide⟩

end Tinker
