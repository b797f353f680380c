import Mathlib.Data.List.Nodup
import Tinker.Errors
import Tinker.Lib.Run

/-!
# The alarm manager

`alarm_manager.c`. The manager keeps the alarms in the order in which they were set, and the one
that is to fire next. It looks for an identifier that is not in use by asking which place of the
list has no alarm; there is none, so every alarm gets the identifier 0. An alarm is cancelled by
its place in the list: what is cancelled is the first alarm, whichever was meant.

What an alarm carries is a type variable. The timer behind the manager may expire at any time.
-/

namespace Tinker

open Tinker.Lib

/-! ## Time -/

structure TinkerTime where
  seconds : Int32
  nanoseconds : Int32
  deriving DecidableEq

def oneSecondAsNanoseconds : Int32 := 1000000000

def tinkerTimeAdd (l r : TinkerTime) : TinkerTime :=
  let seconds := l.seconds + r.seconds
  let nanoseconds := l.nanoseconds + r.nanoseconds
  if nanoseconds ≥ oneSecondAsNanoseconds then
    let s := nanoseconds / oneSecondAsNanoseconds
    ⟨seconds + s, nanoseconds - s * oneSecondAsNanoseconds⟩
  else
    ⟨seconds, nanoseconds⟩

def tinkerTimeLt (l r : TinkerTime) : Bool :=
  l.seconds < r.seconds ∨ (l.seconds = r.seconds ∧ l.nanoseconds < r.nanoseconds)

/-! ## The operations -/

def maxAlarms : ℕ := 256

structure Alarm (β : Type) where
  address : ℕ
  id : ℕ
  /-- What the callback gets; it also says which callback it is. -/
  usrData : β
  alarmTime : TinkerTime
  deriving DecidableEq

structure AlarmManager (β : Type) where
  alarmList : List (Alarm β)
  nextAlarm : Option (Alarm β)
  /-- The address of the alarm that is allocated next. -/
  alarmBrk : ℕ
  deriving DecidableEq

variable {β σ : Type}

def alarmInitialse : AlarmManager β := ⟨[], none, 0⟩

/-- The search of `alarm_set_alarm` for an identifier that is not in use: the first place of
the list, among those it has, that has no alarm. -/
def newAlarmId (alarmList : List (Alarm β)) : ℕ :=
  ((List.range alarmList.length).find? fun i => (alarmList[i]?).isNone).getD 0

/-- Without a new alarm it is the first one of the list, not the earliest one. -/
def alarmCalculateNextAlarm (am : AlarmManager β) (newAlarm : Option (Alarm β)) :
    AlarmManager β :=
  match newAlarm with
  | some new =>
    match am.nextAlarm with
    | none => { am with nextAlarm := some new }
    | some next =>
      if tinkerTimeLt new.alarmTime next.alarmTime then { am with nextAlarm := some new } else am
  | none =>
    match am.alarmList with
    | first :: _ => { am with nextAlarm := some first }
    | [] => am

/-- `alarm_set_alarm`; the second result is what is written to `alarm_id`. `room` says whether
the memory for the alarm can be had. -/
def alarmSetAlarm (am : AlarmManager β) (now timeout : TinkerTime) (usrData : β) (room : Bool) :
    ReturnT × Option ℕ × AlarmManager β :=
  if am.alarmList.length < maxAlarms ∧ room then
    let alarm := ⟨am.alarmBrk, newAlarmId am.alarmList, usrData, tinkerTimeAdd now timeout⟩
    let am := { am with alarmList := am.alarmList ++ [alarm], alarmBrk := am.alarmBrk + 1 }
    (.noError, some alarm.id, alarmCalculateNextAlarm am (some alarm))
  else
    (.outOfMemory, none, am)

/-- The identifier is taken for a place in the list. -/
def alarmUnsetAlarm (am : AlarmManager β) (alarmId : ℕ) : ReturnT × AlarmManager β :=
  match am.alarmList[alarmId]? with
  | some alarm =>
    let am := { am with alarmList := am.alarmList.eraseP (·.address = alarm.address) }
    if am.nextAlarm.map Alarm.address = some alarm.address then
      (.noError, alarmCalculateNextAlarm { am with nextAlarm := none } none)
    else
      (.noError, am)
  | none => (.alarmIdUnknown, am)

/-- `alarm_handle_timer_timeout`, with `alarm_fire_callback`. The callback gets the identifier
of the alarm and what the alarm carries. -/
def alarmHandleTimerTimeout (callBack : σ → AlarmManager β → ℕ → β → Exec (σ × AlarmManager β))
    (k : σ) (am : AlarmManager β) : Exec (σ × AlarmManager β) :=
  match am.nextAlarm with
  | some next => do
    let (k, am) ← callBack k am next.id next.usrData
    return (k, alarmCalculateNextAlarm am none)
  | none => return (k, am)

/-! ## What they do -/

variable {am am' : AlarmManager β} {now timeout : TinkerTime} {usrData : β} {room : Bool}

theorem newAlarmId_eq_zero (alarmList : List (Alarm β)) : newAlarmId alarmList = 0 := by
  unfold newAlarmId
  have hnone : (List.range alarmList.length).find? (fun i => (alarmList[i]?).isNone) = none := by
    rw [List.find?_eq_none]
    intro i hi
    simp [List.mem_range.mp hi]
  rw [hnone, Option.getD_none]

@[simp] theorem alarmCalculateNextAlarm_alarmList (new : Option (Alarm β)) :
    (alarmCalculateNextAlarm am new).alarmList = am.alarmList := by
  unfold alarmCalculateNextAlarm
  split
  · split
    · rfl
    · split <;> rfl
  · split <;> rfl

@[simp] theorem alarmCalculateNextAlarm_alarmBrk (new : Option (Alarm β)) :
    (alarmCalculateNextAlarm am new).alarmBrk = am.alarmBrk := by
  unfold alarmCalculateNextAlarm
  split
  · split
    · rfl
    · split <;> rfl
  · split <;> rfl

theorem alarmCalculateNextAlarm_new (am : AlarmManager β) (new : Alarm β) :
    (alarmCalculateNextAlarm am (some new)).nextAlarm = some new ∨
      (am.nextAlarm ≠ none ∧
        (alarmCalculateNextAlarm am (some new)).nextAlarm = am.nextAlarm) := by
  unfold alarmCalculateNextAlarm
  cases hnext : am.nextAlarm with
  | none => exact .inl rfl
  | some next =>
    dsimp only
    split
    · exact .inl rfl
    · exact .inr ⟨by simp, hnext⟩

theorem alarmSetAlarm_cases (am : AlarmManager β) (now timeout : TinkerTime) (usrData : β)
    (room : Bool) :
    (am.alarmList.length < maxAlarms ∧ room = true ∧ ∃ am',
        alarmSetAlarm am now timeout usrData room = (.noError, some 0, am') ∧
        am'.alarmList = am.alarmList ++ [⟨am.alarmBrk, 0, usrData, tinkerTimeAdd now timeout⟩] ∧
        am'.alarmBrk = am.alarmBrk + 1 ∧
        (am'.nextAlarm = am.nextAlarm ∨ am'.nextAlarm =
          some ⟨am.alarmBrk, 0, usrData, tinkerTimeAdd now timeout⟩) ∧
        am'.nextAlarm ≠ none) ∨
      (¬ (am.alarmList.length < maxAlarms ∧ room = true) ∧
        alarmSetAlarm am now timeout usrData room = (.outOfMemory, none, am)) := by
  by_cases hroom : am.alarmList.length < maxAlarms ∧ room = true
  · let new : Alarm β := ⟨am.alarmBrk, 0, usrData, tinkerTimeAdd now timeout⟩
    let longer : AlarmManager β :=
      { am with alarmList := am.alarmList ++ [new], alarmBrk := am.alarmBrk + 1 }
    refine .inl ⟨hroom.1, hroom.2, alarmCalculateNextAlarm longer (some new), ?_,
      alarmCalculateNextAlarm_alarmList _, alarmCalculateNextAlarm_alarmBrk _, ?_⟩
    · simp only [alarmSetAlarm, hroom, and_self, if_true, newAlarmId_eq_zero]
      rfl
    rcases alarmCalculateNextAlarm_new longer new with hnew | ⟨hsome, hold⟩
    · exact ⟨.inr hnew, by simp [hnew]⟩
    · exact ⟨.inl hold, by rwa [hold]⟩
  · exact .inr ⟨hroom, if_neg hroom⟩

/-- The addresses of the alarms are different, and the alarm that fires next is one of the
list. -/
structure AlarmsOk (am : AlarmManager β) : Prop where
  bound : ∀ a ∈ am.alarmList, a.address < am.alarmBrk
  nodup : (am.alarmList.map Alarm.address).Nodup
  next : ∀ a ∈ am.nextAlarm, a ∈ am.alarmList
  /-- There is a next alarm as long as there is one at all. -/
  armed : am.alarmList ≠ [] → am.nextAlarm ≠ none
  /-- Every alarm has the same identifier. -/
  id_eq_zero : ∀ a ∈ am.alarmList, a.id = 0

theorem alarmsOk_initialse : AlarmsOk (alarmInitialse : AlarmManager β) :=
  ⟨by simp [alarmInitialse], by simp [alarmInitialse], by simp [alarmInitialse],
    by simp [alarmInitialse], by simp [alarmInitialse]⟩

namespace AlarmsOk

theorem eq_of_address (ok : AlarmsOk am) {a b : Alarm β} (ha : a ∈ am.alarmList)
    (hb : b ∈ am.alarmList) (h : a.address = b.address) : a = b :=
  List.inj_on_of_nodup_map ok.nodup ha hb h

theorem set (ok : AlarmsOk am) (now timeout : TinkerTime) (usrData : β) (room : Bool) :
    AlarmsOk (alarmSetAlarm am now timeout usrData room).2.2 := by
  rcases alarmSetAlarm_cases am now timeout usrData room with
    ⟨-, -, am', hset, hlist, hbrk, hnext, harmed⟩ | ⟨-, hset⟩
  · rw [hset]
    refine ⟨fun a ha => ?_, ?_, fun a ha => ?_, fun _ => harmed, fun a ha => ?_⟩
    · rw [hbrk]
      rw [hlist, List.mem_append, List.mem_singleton] at ha
      rcases ha with ha | rfl
      · exact Nat.lt_succ_of_lt (ok.bound a ha)
      · exact Nat.lt_succ_self _
    · rw [hlist, List.map_append]
      refine List.Nodup.append ok.nodup (List.nodup_singleton _) ?_
      -- the new address has not been handed out before
      simp only [List.map_cons, List.map_nil, List.disjoint_singleton, List.mem_map]
      rintro ⟨a, ha, haddress⟩
      exact Nat.ne_of_lt (ok.bound a ha) haddress
    · rw [hlist, List.mem_append, List.mem_singleton]
      rcases hnext with hold | hnew
      · exact .inl (ok.next a (hold ▸ ha))
      · exact .inr (Option.some.inj (ha.symm.trans hnew))
    rw [hlist, List.mem_append, List.mem_singleton] at ha
    rcases ha with ha | rfl
    · exact ok.id_eq_zero a ha
    · rfl
  rw [hset]
  exact ok

theorem eraseP_address (ok : AlarmsOk am) {a : Alarm β} (ha : a ∈ am.alarmList) :
    ∀ b, b ∈ am.alarmList.eraseP (·.address = a.address) ↔ b ∈ am.alarmList ∧ b ≠ a := by
  intro b
  obtain ⟨pre, post, hlist⟩ := List.append_of_mem ha
  have hpre : ∀ c ∈ pre, ¬ (decide (c.address = a.address) = true) := by
    intro c hc hsame
    have hnodup := ok.nodup
    rw [hlist, List.map_append, List.map_cons] at hnodup
    have hdisj := List.disjoint_of_nodup_append hnodup
    refine hdisj (List.mem_map_of_mem hc) ?_
    rw [of_decide_eq_true hsame]
    exact List.mem_cons_self
  have hpost : a ∉ post := by
    intro hmem
    have hnodup := ok.nodup
    rw [hlist, List.map_append, List.map_cons] at hnodup
    have hcons := (List.nodup_append.mp hnodup).2.1
    exact (List.nodup_cons.mp hcons).1 (List.mem_map_of_mem hmem)
  rw [hlist, List.eraseP_append_right _ hpre, List.eraseP_cons_of_pos (by simp)]
  simp only [List.mem_append, List.mem_cons]
  constructor
  · rintro (hb | hb)
    · refine ⟨.inl hb, ?_⟩
      rintro rfl
      exact hpre b hb (by simp)
    refine ⟨.inr (.inr hb), ?_⟩
    rintro rfl
    exact hpost hb
  rintro ⟨hb | rfl | hb, hne⟩
  · exact .inl hb
  · exact absurd rfl hne
  · exact .inr hb

theorem calculate (ok : AlarmsOk am) : AlarmsOk (alarmCalculateNextAlarm am none) := by
  cases hlist : am.alarmList with
  | nil =>
    have hsame : alarmCalculateNextAlarm am none = am := by simp [alarmCalculateNextAlarm, hlist]
    rwa [hsame]
  | cons first rest =>
    have hnext : alarmCalculateNextAlarm am none = { am with nextAlarm := some first } := by
      simp [alarmCalculateNextAlarm, hlist]
    rw [hnext]
    refine ⟨ok.bound, ok.nodup, fun a ha => ?_, fun _ => by simp, ok.id_eq_zero⟩
    cases ha
    exact hlist ▸ List.mem_cons_self

end AlarmsOk

/-- Cancelling removes the alarm at the place that the identifier is taken for. If it was to
fire next, the first alarm of those that are left is. -/
theorem alarmUnsetAlarm_cases (am : AlarmManager β) (alarmId : ℕ) :
    (∃ a, am.alarmList[alarmId]? = some a ∧ ∃ am',
        alarmUnsetAlarm am alarmId = (.noError, am') ∧
        am'.alarmList = am.alarmList.eraseP (·.address = a.address) ∧
        am'.alarmBrk = am.alarmBrk ∧
        am'.nextAlarm = if am.nextAlarm.map Alarm.address = some a.address then
          am'.alarmList.head? else am.nextAlarm) ∨
      (am.alarmList[alarmId]? = none ∧
        alarmUnsetAlarm am alarmId = (.alarmIdUnknown, am)) := by
  unfold alarmUnsetAlarm
  cases hget : am.alarmList[alarmId]? with
  | none => exact .inr ⟨rfl, rfl⟩
  | some a =>
    refine .inl ⟨a, rfl, ?_⟩
    dsimp only
    split
    · refine ⟨_, rfl, by simp, by simp, ?_⟩
      cases am.alarmList.eraseP (·.address = a.address) with
      | nil => simp [alarmCalculateNextAlarm]
      | cons first rest => simp [alarmCalculateNextAlarm]
    · exact ⟨_, rfl, rfl, rfl, rfl⟩

theorem AlarmsOk.unset (ok : AlarmsOk am) (alarmId : ℕ) :
    AlarmsOk (alarmUnsetAlarm am alarmId).2 := by
  rcases alarmUnsetAlarm_cases am alarmId with
    ⟨a, hget, am', hunset, hlist, hbrk, hnext⟩ | ⟨-, hunset⟩
  · rw [hunset]
    have ha : a ∈ am.alarmList := List.mem_of_getElem? hget
    have hmem : ∀ b, b ∈ am'.alarmList ↔ b ∈ am.alarmList ∧ b ≠ a := by
      rw [hlist]
      exact ok.eraseP_address ha
    refine ⟨fun b hb => ?_, ?_, fun b hb => ?_, fun hne => ?_, fun b hb => ?_⟩
    · rw [hbrk]
      exact ok.bound b ((hmem b).mp hb).1
    · rw [hlist]
      exact ok.nodup.sublist (List.Sublist.map _ List.eraseP_sublist)
    · rw [hnext] at hb
      split at hb
      · exact List.mem_of_mem_head? hb
      next hother =>
        refine (hmem b).mpr ⟨ok.next b hb, ?_⟩
        rintro rfl
        exact hother (by rw [Option.mem_def.mp hb]; rfl)
    · rw [hnext]
      split
      · simpa using hne
      refine ok.armed fun hnil => ?_
      rw [hnil] at ha
      cases ha
    · exact ok.id_eq_zero b ((hmem b).mp hb).1
  rw [hunset]
  exact ok

/-! ## Identifiers -/

inductive AlarmCall (β : Type)
  | setAlarm (now timeout : TinkerTime) (usrData : β) (room : Bool)
  | unsetAlarm (alarmId : ℕ)

namespace AlarmCall

def step (am : AlarmManager β) : AlarmCall β → Exec (AlarmManager β)
  | setAlarm now timeout usrData room => .ok (alarmSetAlarm am now timeout usrData room).2.2
  | unsetAlarm alarmId => .ok (alarmUnsetAlarm am alarmId).2

/-- An alarm is set only when no other one is outstanding. -/
def SetOk (am : AlarmManager β) : AlarmCall β → Prop
  | setAlarm _ _ _ room => am.alarmList.length < maxAlarms → room = true → am.alarmList = []
  | unsetAlarm _ => True

end AlarmCall

/-- The identifiers name the outstanding alarms: they are distinct, an alarm gets the one that
is returned for it, and cancelling removes the alarm with the identifier and no other. -/
structure IdsName (am : AlarmManager β) : Prop where
  distinct : (am.alarmList.map Alarm.id).Nodup
  returned : ∀ now timeout usrData room,
    (alarmSetAlarm am now timeout usrData room).1 = .noError →
      ∃ a, (alarmSetAlarm am now timeout usrData room).2.1 = some a.id ∧ a.usrData = usrData ∧
        (alarmSetAlarm am now timeout usrData room).2.2.alarmList = am.alarmList ++ [a]
  removed : ∀ a ∈ am.alarmList, (alarmUnsetAlarm am a.id).1 = .noError ∧
    (alarmUnsetAlarm am a.id).2.alarmList = am.alarmList.filter (·.id ≠ a.id)
  unknown : ∀ alarmId, (∀ a ∈ am.alarmList, a.id ≠ alarmId) →
    alarmUnsetAlarm am alarmId = (.alarmIdUnknown, am)

/-- The identifiers name the alarms as long as there is at most one. -/
theorem AlarmsOk.idsName_iff (ok : AlarmsOk am) : IdsName am ↔ am.alarmList.length ≤ 1 := by
  constructor
  · -- all alarms have the same identifier
    rintro ⟨distinct, -, -, -⟩
    have hsame : am.alarmList.map Alarm.id = List.replicate am.alarmList.length 0 := by
      rw [List.eq_replicate_iff, List.length_map]
      refine ⟨rfl, fun n hn => ?_⟩
      obtain ⟨a, ha, rfl⟩ := List.mem_map.mp hn
      exact ok.id_eq_zero a ha
    rw [hsame] at distinct
    exact List.nodup_replicate.mp distinct
  intro hone
  refine ⟨?_, fun now timeout usrData room hset => ?_, fun a ha => ?_, fun alarmId hnone => ?_⟩
  · match hlist : am.alarmList with
    | [] => simp
    | [a] => simp
    | _ :: _ :: _ => simp [hlist] at hone
  · rcases alarmSetAlarm_cases am now timeout usrData room with
      ⟨-, -, am', heq, hlist, -⟩ | ⟨-, heq⟩
    · rw [heq]
      exact ⟨_, rfl, rfl, hlist⟩
    rw [heq] at hset
    cases hset
  · obtain ⟨b, hb⟩ : ∃ b, am.alarmList = [b] :=
      List.length_eq_one_iff.mp (Nat.le_antisymm hone (List.length_pos_of_mem ha))
    obtain rfl : a = b := by simpa [hb] using ha
    rcases alarmUnsetAlarm_cases am a.id with ⟨c, hget, am', heq, hlist, -⟩ | ⟨hget, -⟩
    · rw [heq]
      obtain rfl : a = c := by simpa [hb, ok.id_eq_zero a ha] using hget
      exact ⟨rfl, by simp [hlist, hb]⟩
    · simp [hb, ok.id_eq_zero a ha] at hget
  rcases alarmUnsetAlarm_cases am alarmId with ⟨a, hget, -⟩ | ⟨-, heq⟩
  · -- an alarm at the place would be the only one, and have the identifier
    have ha : a ∈ am.alarmList := List.mem_of_getElem? hget
    have hplace : alarmId < am.alarmList.length := (List.getElem?_eq_some_iff.mp hget).1
    have hzero := ok.id_eq_zero a ha
    exact absurd (hzero.trans (by omega)) (hnone a ha)
  · exact heq

theorem AlarmsOk.step {c : AlarmCall β} (ok : AlarmsOk am) (h : c.step am = .ok am') :
    AlarmsOk am' := by
  cases c with
  | setAlarm now timeout usrData room =>
    cases h
    exact ok.set now timeout usrData room
  | unsetAlarm alarmId =>
    cases h
    exact ok.unset alarmId

/-- With at most one alarm outstanding, a call leaves at most one exactly if it meets
`SetOk`. -/
theorem AlarmCall.length_le_one_iff {c : AlarmCall β} (hone : am.alarmList.length ≤ 1)
    (h : c.step am = .ok am') : am'.alarmList.length ≤ 1 ↔ c.SetOk am := by
  cases c with
  | setAlarm now timeout usrData room =>
    cases h
    rcases alarmSetAlarm_cases am now timeout usrData room with
      ⟨hroom, hmemory, am', heq, hlist, -⟩ | ⟨hfull, heq⟩
    · rw [heq]
      simp [SetOk, hlist, hroom, hmemory]
    rw [heq]
    exact iff_of_true hone fun hroom hmemory => absurd ⟨hroom, hmemory⟩ hfull
  | unsetAlarm alarmId =>
    cases h
    refine iff_of_true ?_ trivial
    rcases alarmUnsetAlarm_cases am alarmId with ⟨a, -, am', heq, hlist, -⟩ | ⟨-, heq⟩
    · rw [heq]
      rw [hlist]
      exact Nat.le_trans List.length_eraseP_le hone
    rw [heq]
    exact hone

structure AtMostOne (am : AlarmManager β) : Prop where
  ok : AlarmsOk am
  one : am.alarmList.length ≤ 1

/-- In every run that sets an alarm only when no other one is outstanding, the identifiers
name the alarms; and in each state of such a run a further call keeps that exactly if it does
the same. -/
theorem idsName_of_run {calls : List (AlarmCall β)}
    (run : Run AlarmCall.step AlarmCall.SetOk alarmInitialse calls am) :
    IdsName am ∧ ∀ c am', AlarmCall.step am c = .ok am' → (IdsName am' ↔ c.SetOk am) := by
  obtain ⟨ok, hone⟩ : AtMostOne am := by
    refine run.invariant ⟨alarmsOk_initialse, by simp [alarmInitialse]⟩
      fun am c am' h hset hstep => ?_
    exact ⟨h.ok.step hstep, (AlarmCall.length_le_one_iff h.one hstep).mpr hset⟩
  refine ⟨ok.idsName_iff.mpr hone, fun c am' hstep => ?_⟩
  rw [(ok.step hstep).idsName_iff]
  exact AlarmCall.length_le_one_iff hone hstep

/-- An alarm is set, cancelled, and another one set. -/
theorem idsName_of_run_again : ∃ am : AlarmManager ℕ,
    Run AlarmCall.step AlarmCall.SetOk alarmInitialse
      [.setAlarm ⟨0, 0⟩ ⟨1, 0⟩ 7 true, .unsetAlarm 0, .setAlarm ⟨0, 0⟩ ⟨2, 0⟩ 8 true] am ∧
    am.alarmList.map Alarm.usrData = [8] ∧ IdsName am := by
  have run : Run AlarmCall.step AlarmCall.SetOk (alarmInitialse : AlarmManager ℕ)
      [.setAlarm ⟨0, 0⟩ ⟨1, 0⟩ 7 true, .unsetAlarm 0, .setAlarm ⟨0, 0⟩ ⟨2, 0⟩ 8 true] _ :=
    .cons (fun _ _ => rfl) rfl (.cons trivial rfl (.cons (fun _ _ => rfl) rfl (.nil _)))
  exact ⟨_, run, rfl, (idsName_of_run run).1⟩

/-- Two alarms are set. Both have the identifier 0. -/
theorem not_idsName : ∃ (calls : List (AlarmCall ℕ)) (am : AlarmManager ℕ),
    Run AlarmCall.step (fun _ _ => True) alarmInitialse calls am ∧
      am.alarmList.map Alarm.id = [0, 0] ∧ ¬ IdsName am := by
  refine ⟨[.setAlarm ⟨0, 0⟩ ⟨1, 0⟩ 7 true, .setAlarm ⟨0, 0⟩ ⟨2, 0⟩ 8 true], _,
    .cons trivial rfl (.cons trivial rfl (.nil _)), by decide, fun ids => ?_⟩
  exact absurd ids.distinct (by decide)

end Tinker
