import Tinker.Objects.Timer

/-!
# The alarm that the timer is set up for

The alarm manager with the hardware timer behind it. Setting, cancelling and firing alarms set
the timer up for `next_alarm`, so the timer always knows the time of that alarm. Which alarm it
is depends on the operation: a new alarm is compared with the one before, but when an alarm goes
the first one of the list takes its place, whether or not it is the earliest.
-/

namespace Tinker

open Tinker.Lib

variable {β : Type}

structure Armed (β : Type) extends AlarmManager β where
  /-- What `timer_setup` was last called with. -/
  setup : Option TinkerTime
  /-- The timer has expired, and the interrupt has not been acknowledged. -/
  expired : Bool

open Armed

/-- Setting the timer up acknowledges an interrupt. -/
def alarmEnableTimer (am : Armed β) : Armed β :=
  match am.nextAlarm with
  | some next => { am with setup := some next.alarmTime, expired := false }
  | none => am

/-- The timer still has what it was set up with. -/
def alarmDisableTimer (am : Armed β) : Armed β := { am with expired := false }

namespace Armed

/-- The manager of `alarm_initialse`, once it has been given a timer. -/
def initialse : Armed β := ⟨alarmInitialse, none, false⟩

/-- `alarm_calculate_next_alarm` without a new alarm. -/
def calculateNextAlarm (am : Armed β) : Armed β :=
  match am.alarmList with
  | [] => am
  | _ :: _ =>
    alarmEnableTimer { am with toAlarmManager := alarmCalculateNextAlarm am.toAlarmManager none }

def setAlarm (am : Armed β) (now timeout : TinkerTime) (usrData : β) (room : Bool) : Armed β :=
  let (ret, _, manager) := alarmSetAlarm am.toAlarmManager now timeout usrData room
  let am := { am with toAlarmManager := manager }
  if ret = .noError then alarmEnableTimer am else am

def unsetAlarm (am : Armed β) (alarmId : ℕ) : Armed β :=
  match am.alarmList[alarmId]? with
  | some alarm =>
    let left := { am with alarmList := am.alarmList.eraseP (·.address = alarm.address) }
    if am.nextAlarm.map Alarm.address = some alarm.address then
      alarmEnableTimer (alarmDisableTimer { left with nextAlarm := none }).calculateNextAlarm
    else
      left
  | none => am

/-- `alarm_handle_timer_timeout`. A callback cancels the alarm by its identifier, unless it does
not recognise it. -/
def handleTimerTimeout (am : Armed β) (cancels : Bool) : Armed β :=
  match am.nextAlarm with
  | some next => (if cancels then am.unsetAlarm next.id else am).calculateNextAlarm
  | none => am

end Armed

/-! ## The manager without its timer -/

section Manager

variable {am : Armed β} {now timeout : TinkerTime} {usrData : β} {room : Bool} {alarmId : ℕ}

@[simp] theorem alarmEnableTimer_toAlarmManager :
    (alarmEnableTimer am).toAlarmManager = am.toAlarmManager := by
  unfold alarmEnableTimer
  split <;> rfl

theorem Armed.calculateNextAlarm_toAlarmManager :
    am.calculateNextAlarm.toAlarmManager = alarmCalculateNextAlarm am.toAlarmManager none := by
  unfold calculateNextAlarm
  split
  next hnil => simp [alarmCalculateNextAlarm, hnil]
  · rw [alarmEnableTimer_toAlarmManager]

theorem Armed.setAlarm_toAlarmManager : (am.setAlarm now timeout usrData room).toAlarmManager =
    (alarmSetAlarm am.toAlarmManager now timeout usrData room).2.2 := by
  simp only [setAlarm]
  split
  · rw [alarmEnableTimer_toAlarmManager]
  · rfl

theorem Armed.unsetAlarm_toAlarmManager :
    (am.unsetAlarm alarmId).toAlarmManager = (alarmUnsetAlarm am.toAlarmManager alarmId).2 := by
  unfold unsetAlarm alarmUnsetAlarm
  cases am.alarmList[alarmId]? with
  | none => rfl
  | some alarm =>
    dsimp only
    split
    · rw [alarmEnableTimer_toAlarmManager, calculateNextAlarm_toAlarmManager]
      rfl
    · rfl

end Manager

/-! ## The order of times -/

section Order

variable {l m r : TinkerTime}

theorem tinkerTimeLt_iff : tinkerTimeLt l r = true ↔
    l.seconds < r.seconds ∨ (l.seconds = r.seconds ∧ l.nanoseconds < r.nanoseconds) := by
  simp [tinkerTimeLt]

theorem tinkerTimeLt_self : tinkerTimeLt l l = false := by
  simp [tinkerTimeLt]

theorem tinkerTimeLt_trans (h : tinkerTimeLt l m = true) (h' : tinkerTimeLt m r = true) :
    tinkerTimeLt l r = true := by
  simp only [tinkerTimeLt_iff, Int32.lt_iff_toInt_lt, ← Int32.toInt_inj] at *
  omega

end Order

/-! ## The earliest alarm -/

def FirstEarliest (alarms : List (Alarm β)) : Prop :=
  ∀ a ∈ alarms.head?, ∀ b ∈ alarms, tinkerTimeLt b.alarmTime a.alarmTime = false

/-- The next alarm is an outstanding one that is not later than any other, and the timer is set
up with its time. -/
structure EarliestArmed (am : Armed β) : Prop where
  none_iff : am.nextAlarm = none ↔ am.alarmList = []
  mem : ∀ a ∈ am.nextAlarm, a ∈ am.alarmList
  earliest : ∀ a ∈ am.nextAlarm, ∀ b ∈ am.alarmList, tinkerTimeLt b.alarmTime a.alarmTime = false
  setup : ∀ a ∈ am.nextAlarm, am.setup = some a.alarmTime

/-- A call of the alarm manager, or the expiry of its timer. -/
inductive ArmedCall (β : Type)
  | setAlarm (now timeout : TinkerTime) (usrData : β) (room : Bool)
  | unsetAlarm (alarmId : ℕ)
  | expire (cancels : Bool)

namespace ArmedCall

def step (am : Armed β) : ArmedCall β → Exec (Armed β)
  | setAlarm now timeout usrData room => .ok (am.setAlarm now timeout usrData room)
  | unsetAlarm alarmId => .ok (am.unsetAlarm alarmId)
  | expire cancels => .ok (am.handleTimerTimeout cancels)

/-- If the next alarm is cancelled, the first one of the others is the earliest of them. When an
alarm fires, the first one of the list is the earliest, once the one in front has been taken away
if the callback cancels. -/
def KeepsEarliest (am : Armed β) : ArmedCall β → Prop
  | setAlarm _ _ _ _ => True
  | unsetAlarm alarmId => ∀ a ∈ am.alarmList[alarmId]?, a ∈ am.nextAlarm →
      FirstEarliest (am.alarmList.eraseIdx alarmId)
  | expire cancels => FirstEarliest (if cancels then am.alarmList.tail else am.alarmList)

end ArmedCall

/-- What holds of every manager: there is a next alarm as long as there is one at all, and the
timer is set up with its time. -/
structure ArmedOk (am : Armed β) : Prop where
  alarms : AlarmsOk am.toAlarmManager
  setup : ∀ a ∈ am.nextAlarm, am.setup = some a.alarmTime

section Steps

variable {am am' : Armed β} {now timeout : TinkerTime} {usrData : β} {room : Bool} {alarmId : ℕ}
  {cancels : Bool}

theorem armedOk_enableTimer (ok : AlarmsOk am.toAlarmManager) :
    ArmedOk (alarmEnableTimer am) := by
  refine ⟨by rwa [alarmEnableTimer_toAlarmManager], fun a ha => ?_⟩
  rw [alarmEnableTimer_toAlarmManager] at ha
  simp [alarmEnableTimer, Option.mem_def.mp ha]

namespace ArmedOk

theorem initialse : ArmedOk (initialse : Armed β) := ⟨alarmsOk_initialse, nofun⟩

section

variable (ok : ArmedOk am)
include ok

theorem calculate : ArmedOk am.calculateNextAlarm := by
  unfold calculateNextAlarm
  split
  · exact ok
  · exact armedOk_enableTimer ok.alarms.calculate

theorem set : ArmedOk (am.setAlarm now timeout usrData room) := by
  have halarms := ok.alarms.set now timeout usrData room
  simp only [setAlarm]
  split
  · exact armedOk_enableTimer halarms
  next hfull =>
    -- an alarm that finds no room leaves everything as it is
    rcases alarmSetAlarm_cases am.toAlarmManager now timeout usrData room with
      ⟨-, -, am', hset, -⟩ | ⟨-, hset⟩
    · rw [hset] at hfull
      exact absurd rfl hfull
    rw [hset]
    exact ok

theorem unset : ArmedOk (am.unsetAlarm alarmId) := by
  have halarms := ok.alarms.unset alarmId
  rw [← unsetAlarm_toAlarmManager] at halarms
  refine ⟨halarms, ?_⟩
  unfold unsetAlarm at halarms ⊢
  cases hget : am.alarmList[alarmId]? with
  | none => exact ok.setup
  | some alarm =>
    simp only [hget] at halarms ⊢
    split
    next hnext =>
      rw [if_pos hnext, alarmEnableTimer_toAlarmManager] at halarms
      exact (armedOk_enableTimer halarms).setup
    · exact ok.setup

theorem expire : ArmedOk (am.handleTimerTimeout cancels) := by
  unfold handleTimerTimeout
  split
  · cases cancels with
    | false => exact ok.calculate
    | true => exact ok.unset.calculate
  · exact ok

theorem step {c : ArmedCall β} (h : c.step am = .ok am') : ArmedOk am' := by
  cases c with
  | setAlarm now timeout usrData room =>
    cases h
    exact ok.set
  | unsetAlarm alarmId =>
    cases h
    exact ok.unset
  | expire cancels =>
    cases h
    exact ok.expire

theorem earliestArmed (earliest : ∀ a ∈ am.nextAlarm, ∀ b ∈ am.alarmList,
    tinkerTimeLt b.alarmTime a.alarmTime = false) : EarliestArmed am := by
  refine ⟨⟨fun hnone => ?_, fun hnil => ?_⟩, ok.alarms.next, earliest, ok.setup⟩
  · by_contra hne
    exact ok.alarms.armed hne hnone
  by_contra hne
  obtain ⟨a, ha⟩ := Option.ne_none_iff_exists'.mp hne
  have hmem := ok.alarms.next a ha
  rw [hnil] at hmem
  cases hmem

theorem earliestArmed_of_head (hhead : am.nextAlarm = am.alarmList.head?) :
    EarliestArmed am ↔ FirstEarliest am.alarmList := by
  unfold FirstEarliest
  rw [← hhead]
  exact ⟨fun h => h.earliest, ok.earliestArmed⟩

end

end ArmedOk

theorem EarliestArmed.set (ok : ArmedOk am) (earliest : EarliestArmed am) :
    EarliestArmed (am.setAlarm now timeout usrData room) := by
  refine ok.set.earliestArmed ?_
  rw [setAlarm_toAlarmManager]
  by_cases hroom : am.alarmList.length < maxAlarms ∧ room = true
  · simp only [alarmSetAlarm, hroom, and_self, if_true, alarmCalculateNextAlarm_alarmList]
    generalize hnew : Alarm.mk am.alarmBrk _ usrData _ = new
    intro a ha b hb
    rw [List.mem_append, List.mem_singleton] at hb
    cases hnext : am.nextAlarm with
    | none =>
      -- there was no alarm, and the new one is compared with itself only
      have hnil := earliest.none_iff.mp hnext
      simp only [alarmCalculateNextAlarm, hnext, Option.mem_some_iff] at ha
      subst ha
      rcases hb with hb | rfl
      · rw [hnil] at hb
        cases hb
      · exact tinkerTimeLt_self
    | some next =>
      have hold := earliest.earliest next hnext
      simp only [alarmCalculateNextAlarm, hnext] at ha
      split at ha
      next hlt =>
        obtain rfl : new = a := Option.some.inj ha
        rcases hb with hb | rfl
        · rw [Bool.eq_false_iff]
          intro hlt'
          exact Bool.eq_false_iff.mp (hold b hb) (tinkerTimeLt_trans hlt' hlt)
        · exact tinkerTimeLt_self
      next hge =>
        obtain rfl : next = a := Option.some.inj ha
        rcases hb with hb | rfl
        · exact hold b hb
        · exact Bool.eq_false_iff.mpr hge
  rw [alarmSetAlarm, if_neg hroom]
  exact earliest.earliest

theorem AlarmsOk.eraseP_getElem? {am : AlarmManager β} {a : Alarm β} (ok : AlarmsOk am)
    (hget : am.alarmList[alarmId]? = some a) :
    am.alarmList.eraseP (·.address = a.address) = am.alarmList.eraseIdx alarmId := by
  obtain ⟨hlt, hat⟩ := List.getElem?_eq_some_iff.mp hget
  have hfind : am.alarmList.findIdx? (·.address = a.address) = some alarmId := by
    refine List.findIdx?_eq_some_iff_getElem.mpr ⟨hlt, by simp [hat], fun j hj hsame => ?_⟩
    -- no address is handed out twice
    have haddress : (am.alarmList.map Alarm.address)[j]? =
        (am.alarmList.map Alarm.address)[alarmId]? := by
      rw [List.getElem?_map, List.getElem?_map, hget, List.getElem?_eq_getElem (hj.trans hlt)]
      exact congrArg some (of_decide_eq_true hsame)
    exact Nat.ne_of_lt hj ((List.getElem?_inj (by simpa using hj.trans hlt) ok.nodup).mp haddress)
  rw [List.eraseP_eq_eraseIdx, hfind]

theorem AlarmsOk.calculate_next {am : AlarmManager β} (ok : AlarmsOk am) :
    (alarmCalculateNextAlarm am none).nextAlarm = am.alarmList.head? := by
  cases hlist : am.alarmList with
  | cons first rest => simp [alarmCalculateNextAlarm, hlist]
  | nil =>
    simp only [alarmCalculateNextAlarm, hlist, List.head?_nil]
    by_contra hne
    obtain ⟨a, ha⟩ := Option.ne_none_iff_exists'.mp hne
    have hmem := ok.next a ha
    rw [hlist] at hmem
    cases hmem

/-- Cancelling keeps the earliest alarm armed unless it was the one that is cancelled; then the
first of the others has to be the earliest. -/
theorem EarliestArmed.unset_iff (ok : ArmedOk am) (earliest : EarliestArmed am) :
    EarliestArmed (am.unsetAlarm alarmId) ↔ (ArmedCall.unsetAlarm alarmId).KeepsEarliest am := by
  have hmanager : (am.unsetAlarm alarmId).toAlarmManager =
      (alarmUnsetAlarm am.toAlarmManager alarmId).2 := unsetAlarm_toAlarmManager
  rcases alarmUnsetAlarm_cases am.toAlarmManager alarmId with
    ⟨a, hget, am', hunset, hlist, -, hnext⟩ | ⟨hget, hunset⟩
  · rw [hunset] at hmanager
    have hmem : a ∈ am.alarmList := List.mem_of_getElem? hget
    rw [ok.alarms.eraseP_getElem? hget] at hlist
    by_cases hsame : am.nextAlarm = some a
    · rw [if_pos (by rw [hsame]; rfl)] at hnext
      rw [ok.unset.earliestArmed_of_head (by rw [hmanager, hnext]), hmanager, hlist]
      simp [ArmedCall.KeepsEarliest, hget, hsame]
    rw [if_neg] at hnext
    · refine iff_of_true (ok.unset.earliestArmed ?_) ?_
      · rw [hmanager, hnext, hlist]
        exact fun b hb c hc => earliest.earliest b hb c (List.mem_of_mem_eraseIdx hc)
      · simp [ArmedCall.KeepsEarliest, hget, hsame]
    intro haddress
    obtain ⟨next, hn, haddress⟩ := Option.map_eq_some_iff.mp haddress
    have heq := ok.alarms.eq_of_address (ok.alarms.next next hn) hmem haddress
    exact hsame (heq ▸ hn)
  rw [hunset] at hmanager
  refine iff_of_true (ok.unset.earliestArmed ?_) ?_
  · rw [hmanager]
    exact earliest.earliest
  · simp [ArmedCall.KeepsEarliest, hget]

theorem ArmedOk.expire_next (ok : ArmedOk am) (cancels : Bool) (hnext : am.nextAlarm ≠ none) :
    (am.handleTimerTimeout cancels).nextAlarm = (am.handleTimerTimeout cancels).alarmList.head? ∧
      (am.handleTimerTimeout cancels).alarmList =
        if cancels then am.alarmList.tail else am.alarmList := by
  obtain ⟨next, hnext⟩ := Option.ne_none_iff_exists'.mp hnext
  have hmem := ok.alarms.next next hnext
  simp only [handleTimerTimeout, hnext, calculateNextAlarm_toAlarmManager,
    alarmCalculateNextAlarm_alarmList]
  cases cancels with
  | false => exact ⟨ok.alarms.calculate_next, rfl⟩
  | true =>
    -- every alarm has the identifier 0, so the first one is cancelled
    refine ⟨ok.unset.alarms.calculate_next, ?_⟩
    simp only [if_true, unsetAlarm_toAlarmManager, ok.alarms.id_eq_zero next hmem]
    rcases alarmUnsetAlarm_cases am.toAlarmManager 0 with ⟨a, hget, am', hunset, hlist, -⟩ |
      ⟨hget, -⟩
    · rw [hunset]
      rw [hlist, ok.alarms.eraseP_getElem? hget, List.eraseIdx_zero]
    rw [List.getElem?_eq_none_iff, Nat.le_zero, List.length_eq_zero_iff] at hget
    rw [hget] at hmem
    cases hmem

theorem EarliestArmed.expire_iff (ok : ArmedOk am) (earliest : EarliestArmed am) :
    EarliestArmed (am.handleTimerTimeout cancels) ↔
      (ArmedCall.expire cancels).KeepsEarliest am := by
  by_cases hnext : am.nextAlarm = none
  · have hsame : am.handleTimerTimeout cancels = am := by simp [handleTimerTimeout, hnext]
    have hnil := earliest.none_iff.mp hnext
    rw [hsame]
    refine iff_of_true earliest ?_
    cases cancels <;> simp [ArmedCall.KeepsEarliest, FirstEarliest, hnil]
  obtain ⟨hhead, hlist⟩ := ok.expire_next cancels hnext
  rw [ok.expire.earliestArmed_of_head hhead, hlist]
  rfl

/-- A call leaves the earliest alarm armed exactly if it is of the kind described. -/
theorem ArmedOk.earliestArmed_iff {c : ArmedCall β} (ok : ArmedOk am) (earliest : EarliestArmed am)
    (h : c.step am = .ok am') : EarliestArmed am' ↔ c.KeepsEarliest am := by
  cases c with
  | setAlarm now timeout usrData room =>
    cases h
    exact iff_of_true (earliest.set ok) trivial
  | unsetAlarm alarmId =>
    cases h
    exact earliest.unset_iff ok
  | expire cancels =>
    cases h
    exact earliest.expire_iff ok

end Steps

/-! ## Runs -/

structure RightlyArmed (am : Armed β) : Prop where
  ok : ArmedOk am
  earliest : EarliestArmed am

/-- Let alarms be set, cancelled and fired in any order. As long as each call is of the kind
described, the timer is set up for the earliest alarm; and the first call of another kind ends
that. -/
theorem earliestArmed_of_run {calls : List (ArmedCall β)} {am : Armed β}
    (run : Run ArmedCall.step ArmedCall.KeepsEarliest Armed.initialse calls am) :
    EarliestArmed am ∧ ∀ c am', ArmedCall.step am c = .ok am' →
      (EarliestArmed am' ↔ c.KeepsEarliest am) := by
  have armed : RightlyArmed am := by
    refine run.invariant ⟨.initialse, ⟨?_, nofun, nofun, nofun⟩⟩ fun am c am' armed hkeeps h => ?_
    · simp [Armed.initialse, alarmInitialse]
    exact ⟨armed.ok.step h, (armed.ok.earliestArmed_iff armed.earliest h).mpr hkeeps⟩
  exact ⟨armed.earliest, fun c am' => armed.ok.earliestArmed_iff armed.earliest⟩

/-- Three sleeps of 10, 20 and 30 seconds; the first alarm fires, and the second one is armed. -/
theorem earliestArmed_of_run_three : ∃ am : Armed ℕ,
    Run ArmedCall.step ArmedCall.KeepsEarliest Armed.initialse
      [.setAlarm ⟨0, 0⟩ ⟨10, 0⟩ 1 true, .setAlarm ⟨0, 0⟩ ⟨20, 0⟩ 2 true,
        .setAlarm ⟨0, 0⟩ ⟨30, 0⟩ 3 true, .expire true] am ∧
    am.setup = some ⟨20, 0⟩ ∧ EarliestArmed am := by
  obtain ⟨am, run, hsetup⟩ : ∃ am : Armed ℕ,
      Run ArmedCall.step ArmedCall.KeepsEarliest Armed.initialse
        [.setAlarm ⟨0, 0⟩ ⟨10, 0⟩ 1 true, .setAlarm ⟨0, 0⟩ ⟨20, 0⟩ 2 true,
          .setAlarm ⟨0, 0⟩ ⟨30, 0⟩ 3 true, .expire true] am ∧ am.setup = some ⟨20, 0⟩ := by
    refine ⟨_, .cons trivial rfl (.cons trivial rfl (.cons trivial rfl (.cons ?_ rfl (.nil _)))),
      rfl⟩
    show FirstEarliest [⟨1, 0, 2, ⟨20, 0⟩⟩, ⟨2, 0, 3, ⟨30, 0⟩⟩]
    simp only [FirstEarliest, List.head?_cons, Option.mem_some_iff, forall_eq',
      List.forall_mem_cons]
    decide
  exact ⟨am, run, hsetup, (earliestArmed_of_run run).1⟩

/-- Three sleeps of 10, 30 and 20 seconds. When the first alarm has fired the timer is set up
for the second one, although the third one is earlier. -/
theorem not_earliestArmed : ∃ am : Armed ℕ,
    Run ArmedCall.step (fun _ _ => True) Armed.initialse
      [.setAlarm ⟨0, 0⟩ ⟨10, 0⟩ 1 true, .setAlarm ⟨0, 0⟩ ⟨30, 0⟩ 2 true,
        .setAlarm ⟨0, 0⟩ ⟨20, 0⟩ 3 true, .expire true] am ∧
    am.setup = some ⟨30, 0⟩ ∧ am.alarmList.map Alarm.alarmTime = [⟨30, 0⟩, ⟨20, 0⟩] ∧
    ¬ EarliestArmed am := by
  refine ⟨_, .cons trivial rfl (.cons trivial rfl (.cons trivial rfl (.cons trivial rfl (.nil _)))),
    rfl, rfl, fun earliest => ?_⟩
  have h := earliest.earliest _ rfl ⟨2, 0, 3, ⟨20, 0⟩⟩ (by decide)
  exact absurd h (by decide)

end Tinker
