import Tinker.Objects.Timer

/-!
# Sleeping threads and their alarms

A thread that sleeps should have one alarm, its own, and be woken by it. A callback that cancels
"its" alarm removes the first one of the list, which is the alarm that fired as long as alarms fire
in the order in which they were set; a shorter sleep that begins later is enough to break it.

Beside the system we keep a record of who is asleep.
-/

namespace Tinker

open Tinker.Lib Function Exec AlarmManager AlarmSys

structure Sleepers extends AlarmSys where
  asleep : ℕ → Bool

open Sleepers

def AlarmManager.outstanding (am : AlarmManager AlarmUser) (user : AlarmUser) : ℕ :=
  am.alarmList.countP fun a => a.usrData = user

/-- The thread that its own callback readies if the alarm timer expires now. -/
def AlarmSys.rouses (k : AlarmSys) : Option ℕ :=
  match k.alarms.nextAlarm with
  | some next =>
    match next.usrData with
    | .sleeper t => if (k.objThreads t).alarmId = next.id then some t else none
    | .timer _ => none
  | none => none

/-- A call that sets or cancels alarms, or the expiry of the alarm timer. -/
inductive SleepCall
  | sleep (o : Option ℕ) (now : TinkerTime) (duration : Option TinkerTime) (room : Bool)
  | createTimer (new : NewThread) (now timeout : TinkerTime) (callback : Option (BitVec 32))
      (parameter : BitVec 32) (room : Bool) (uninitialised : ℕ)
  | cancelTimer (timer : Option ℕ)
  | deleteTimer (timer : Option ℕ)
  | timeout

namespace Sleepers

/-- The record after a thread has gone to sleep. -/
def putToSleep (k : Sleepers) (o : Option ℕ) (duration : Option TinkerTime) : ℕ → Bool :=
  match o, duration with
  | some t, some _ => update k.asleep t true
  | _, _ => k.asleep

def roused (k : Sleepers) : ℕ → Bool :=
  match k.toAlarmSys.rouses with
  | some t => update k.asleep t false
  | none => k.asleep

def step (k : Sleepers) : SleepCall → Exec Sleepers
  | .sleep o now duration room => do
    let (_, sys) ← objThreadSleep k.toAlarmSys o now duration room
    return ⟨sys, k.putToSleep o duration⟩
  | .createTimer new now timeout callback parameter room uninitialised => do
    let (_, sys) ← objCreateTimer k.toAlarmSys new now timeout callback parameter room uninitialised
    return ⟨sys, k.asleep⟩
  | .cancelTimer timer => do
    let (_, sys) ← objCancelTimer k.toAlarmSys timer
    return ⟨sys, k.asleep⟩
  | .deleteTimer timer => do
    let (_, sys) ← objDeleteTimer k.toAlarmSys timer
    return ⟨sys, k.asleep⟩
  | .timeout => do
    let sys ← alarmTimeout k.toAlarmSys
    return ⟨sys, k.roused⟩

structure Awake (k : Sleepers) : Prop where
  alarms : k.alarms = alarmInitialse
  timers : ∀ id, k.timers id = none
  asleep : ∀ t, k.asleep t = false

end Sleepers

namespace SleepCall

/-- A thread that goes to sleep is running, and memory that a new thread is given does not
belong to a living one. -/
def Called (k : Sleepers) : SleepCall → Prop
  | sleep (some t) _ _ _ => (k.threads t).state.Runnable
  | createTimer new _ _ _ _ _ _ =>
    (k.threads new.thread).state = .notCreated ∨ (k.threads new.thread).state = .terminated
  | sleep none _ _ _ | cancelTimer _ | deleteTimer _ | timeout => True

/-- The alarm in the place of the list that a timer's identifier is taken for. -/
def OwnAlarm (k : Sleepers) (id : ℕ) : Prop :=
  ∀ timer ∈ k.timers id, timer.callback.isSome = true →
    ∀ a ∈ k.alarms.alarmList[timer.alarmId]?, a.usrData = .timer id

/-- There is room for the alarm of a sleeper. A timer that is ended while it is pending has its
own alarm in the place that its identifier is taken for, or there is none in that place. The
alarm that fires is the first one of the list. -/
def InOrder (k : Sleepers) : SleepCall → Prop
  | sleep (some _) _ (some _) room => k.alarms.alarmList.length < maxAlarms ∧ room = true
  | cancelTimer (some id) | deleteTimer (some id) => OwnAlarm k id
  | timeout => k.alarms.nextAlarm = k.alarms.alarmList.head?
  | sleep _ _ _ _ | createTimer _ _ _ _ _ _ _ | cancelTimer none | deleteTimer none => True

end SleepCall

/-! ## Setting and cancelling -/

section Alarms

variable {a : Alarm AlarmUser}

variable {am : AlarmManager AlarmUser} {now timeout : TinkerTime} {user : AlarmUser} {room : Bool}

theorem alarmSetAlarm_id (hroom : am.alarmList.length < maxAlarms ∧ room = true) :
    (alarmSetAlarm am now timeout user room).2.1 = some 0 := by
  rcases alarmSetAlarm_cases am now timeout user room with ⟨-, -, am', hset, -⟩ | ⟨hfull, -⟩
  · rw [hset]
  · exact absurd hroom hfull

theorem outstanding_set (hroom : am.alarmList.length < maxAlarms ∧ room = true)
    (user' : AlarmUser) :
    (alarmSetAlarm am now timeout user room).2.2.outstanding user' =
      am.outstanding user' + if user = user' then 1 else 0 := by
  rcases alarmSetAlarm_cases am now timeout user room with
    ⟨-, -, am', hset, hlist, -⟩ | ⟨hfull, -⟩
  · rw [hset]
    simp [outstanding, hlist, List.countP_append, List.countP_singleton]
  · exact absurd hroom hfull

theorem alarmSetAlarm_of_full (hfull : ¬ (am.alarmList.length < maxAlarms ∧ room = true)) :
    alarmSetAlarm am now timeout user room = (.outOfMemory, none, am) :=
  if_neg hfull

/-- Cancelling the identifier 0 removes the first alarm, whichever it is. -/
theorem alarmUnsetAlarm_zero {rest : List (Alarm AlarmUser)} (hlist : am.alarmList = a :: rest) :
    (alarmUnsetAlarm am 0).2.alarmList = rest := by
  rcases alarmUnsetAlarm_cases am 0 with ⟨b, hget, am', hunset, hlist', -⟩ | ⟨hnone, -⟩
  · obtain rfl : a = b := by simpa [hlist] using hget
    rw [hunset, hlist', hlist, List.eraseP_cons_of_pos (by simp)]
  · simp [hlist] at hnone

theorem outstanding_cons {rest : List (Alarm AlarmUser)} (hlist : am.alarmList = a :: rest) :
    am.outstanding user = rest.countP (fun b => b.usrData = user) +
      if a.usrData = user then 1 else 0 := by
  simp [outstanding, hlist, List.countP_cons]

theorem outstanding_pos_of_mem (ha : a ∈ am.alarmList) :
    0 < am.outstanding a.usrData :=
  List.countP_pos_iff.mpr ⟨a, ha, by simp⟩

end Alarms

/-! ## What holds as long as the calls are in order -/

def AlarmSys.Pending (k : AlarmSys) (id : ℕ) (timer : Timer) : Prop :=
  k.timers id = some timer ∧ timer.callback.isSome = true

/-- Sleepers, timers and alarms fit together. -/
structure Watched (k : Sleepers) : Prop where
  alarms : AlarmsOk k.alarms
  /-- A sleeper has one alarm, and nobody else has one. -/
  sleeper : ∀ t, k.alarms.outstanding (.sleeper t) = if k.asleep t then 1 else 0
  waiting : ∀ t, k.asleep t = true →
    (k.threads t).state = .waiting ∧ (k.objThreads t).alarmId = 0
  timer : ∀ id, k.alarms.outstanding (.timer id) ≤ 1
  /-- A timer with an alarm is pending, and knows the identifier. -/
  armed : ∀ id, 0 < k.alarms.outstanding (.timer id) →
    ∃ timer, k.Pending id timer ∧ timer.alarmId = 0
  /-- The thread of a pending timer is blocked, but not asleep. -/
  pending : ∀ id timer, k.Pending id timer →
    (k.threads timer.callbackThread).state = .waiting ∧ k.asleep timer.callbackThread = false ∧
      ∀ t ∈ timer.threadObj, t = timer.callbackThread
  distinct : ∀ id id' timer timer', k.Pending id timer → k.Pending id' timer' →
    timer.callbackThread = timer'.callbackThread → id = id'
  fresh : ∀ id, k.timerBrk ≤ id → k.timers id = none

variable {k k' : Sleepers} {t u id : ℕ} {timer : Timer}

namespace Watched

variable {o : Option ℕ}

section

variable (inv : Watched k)
include inv

theorem unused (h : (k.threads u).state = .notCreated ∨ (k.threads u).state = .terminated) :
    k.asleep u = false ∧ ∀ id timer, k.Pending id timer → timer.callbackThread ≠ u := by
  have hne : (k.threads u).state ≠ .waiting := by
    rcases h with h | h <;> rw [h] <;> decide
  constructor
  · exact Bool.eq_false_iff.mpr fun hasleep => hne (inv.waiting u hasleep).1
  rintro id timer hpending rfl
  exact hne (inv.pending id timer hpending).1

/-- If no timer changes and no alarm of one, what is left to show is about sleepers, and that the
threads of pending timers stay blocked and awake. -/
theorem of_sameTimers (htimers : k'.timers = k.timers) (hbrk : k.timerBrk ≤ k'.timerBrk)
    (halarms : AlarmsOk k'.alarms)
    (hcount : ∀ id, k'.alarms.outstanding (.timer id) = k.alarms.outstanding (.timer id))
    (sleeper : ∀ t, k'.alarms.outstanding (.sleeper t) = if k'.asleep t then 1 else 0)
    (waiting : ∀ t, k'.asleep t = true →
      (k'.threads t).state = .waiting ∧ (k'.objThreads t).alarmId = 0)
    (kept : ∀ id timer, k.Pending id timer →
      (k'.threads timer.callbackThread).state = .waiting ∧
        k'.asleep timer.callbackThread = false) : Watched k' := by
  have hpending : ∀ id timer, k'.Pending id timer ↔ k.Pending id timer := fun id timer => by
    simp only [Pending, htimers]
  refine ⟨halarms, sleeper, waiting, fun id => ?_, fun id hid => ?_, fun id timer h => ?_,
    fun id id' timer timer' h h' => ?_, fun id hid => ?_⟩
  · rw [hcount]
    exact inv.timer id
  · rw [hcount] at hid
    obtain ⟨timer, h, hzero⟩ := inv.armed id hid
    exact ⟨timer, (hpending id timer).mpr h, hzero⟩
  · have h := (hpending id timer).mp h
    exact ⟨(kept id timer h).1, (kept id timer h).2, (inv.pending id timer h).2.2⟩
  · exact inv.distinct id id' timer timer' ((hpending _ _).mp h) ((hpending _ _).mp h')
  rw [htimers]
  exact inv.fresh id (hbrk.trans hid)

/-- A thread that is neither asleep nor that of a pending timer may change as it likes. -/
theorem of_unused (hu : k.asleep u = false)
    (hother : ∀ id timer, k.Pending id timer → timer.callbackThread ≠ u)
    (hthreads : ∀ t, t ≠ u → k'.threads t = k.threads t)
    (hobjs : ∀ t, t ≠ u → k'.objThreads t = k.objThreads t) (halarms : k'.alarms = k.alarms)
    (htimers : k'.timers = k.timers) (hasleep : k'.asleep = k.asleep)
    (hbrk : k.timerBrk ≤ k'.timerBrk) : Watched k' := by
  refine inv.of_sameTimers htimers hbrk (halarms ▸ inv.alarms) (fun id => by rw [halarms])
    (fun t => ?_) (fun t ht => ?_) fun id timer h => ?_
  · rw [halarms, hasleep]
    exact inv.sleeper t
  · rw [hasleep] at ht
    have hne : t ≠ u := by
      rintro rfl
      simp [hu] at ht
    rw [hthreads t hne, hobjs t hne]
    exact inv.waiting t ht
  obtain ⟨hwait, hawake, -⟩ := inv.pending id timer h
  rw [hthreads _ (hother id timer h), hasleep]
  exact ⟨hwait, hawake⟩

/-- A pending timer that stops being so leaves no alarm behind; its thread may change as it
likes. -/
theorem endTimer {left : Option Timer} (hpend : k.Pending id timer)
    (hthreads : ∀ t, t ≠ timer.callbackThread → k'.threads t = k.threads t)
    (hobjs : k'.objThreads = k.objThreads) (halarms : AlarmsOk k'.alarms)
    (hcount : ∀ user, k'.alarms.outstanding user =
      if user = .timer id then 0 else k.alarms.outstanding user)
    (htimers : k'.timers = update k.timers id left) (hleft : ∀ timer ∈ left, timer.callback = none)
    (hasleep : k'.asleep = k.asleep) (hbrk : k'.timerBrk = k.timerBrk) : Watched k' := by
  have hpending : ∀ id' timer', k'.Pending id' timer' → id' ≠ id ∧ k.Pending id' timer' := by
    rintro id' timer' ⟨hload, hsome⟩
    rw [htimers] at hload
    by_cases hid : id' = id
    · subst hid
      rw [update_self] at hload
      rw [hleft timer' hload] at hsome
      cases hsome
    rw [update_of_ne hid] at hload
    exact ⟨hid, hload, hsome⟩
  refine ⟨halarms, fun t => ?_, fun t ht => ?_, fun id' => ?_, fun id' hid => ?_,
    fun id' timer' h => ?_, fun id₁ id₂ timer₁ timer₂ h₁ h₂ => ?_, fun id' hid => ?_⟩
  · rw [hcount, if_neg (by simp), hasleep]
    exact inv.sleeper t
  · rw [hasleep] at ht
    have hne : t ≠ timer.callbackThread := by
      rintro rfl
      simp [(inv.pending id timer hpend).2.1] at ht
    rw [hthreads t hne, hobjs]
    exact inv.waiting t ht
  · rw [hcount]
    split
    · exact Nat.zero_le 1
    · exact inv.timer id'
  · rw [hcount] at hid
    split at hid
    · cases hid
    next hne =>
      obtain ⟨timer', ⟨hload, hsome⟩, hzero⟩ := inv.armed id' hid
      refine ⟨timer', ⟨?_, hsome⟩, hzero⟩
      rw [htimers, update_of_ne fun e => hne (by rw [e]), hload]
  · obtain ⟨hne, h⟩ := hpending id' timer' h
    have hother : timer'.callbackThread ≠ timer.callbackThread := fun e =>
      hne (inv.distinct id' id timer' timer h hpend e)
    rw [hthreads _ hother, hasleep]
    exact inv.pending id' timer' h
  · exact inv.distinct id₁ id₂ timer₁ timer₂ (hpending _ _ h₁).2 (hpending _ _ h₂).2
  rw [hbrk] at hid
  have hne : id' ≠ id := by
    rintro rfl
    have hnone := inv.fresh id' hid
    rw [hpend.1] at hnone
    cases hnone
  rw [htimers, update_of_ne hne]
  exact inv.fresh id' hid

theorem sleep {now : TinkerTime} {duration : Option TinkerTime} {room : Bool}
    (called : (SleepCall.sleep o now duration room).Called k)
    (order : (SleepCall.sleep o now duration room).InOrder k)
    (h : k.step (.sleep o now duration room) = .ok k') : Watched k' := by
  obtain ⟨⟨r, sys⟩, hsleep, h⟩ := of_bind h
  cases h
  obtain ⟨hnull, -, rfl⟩ | ⟨t, d, rfl, rfl, -, hthreads, -, hobjs, halarms, htimers, hbrk⟩ :=
    objThreadSleep_cases hsleep
  · have hsame : k.putToSleep o duration = k.asleep := by
      rcases hnull with rfl | rfl
      · rfl
      · cases o <;> rfl
    rwa [hsame]
  -- the caller is running, so it is not asleep and waits for no timer
  have hne : (k.threads t).state ≠ .waiting := called.ne_waiting
  have hawake : k.asleep t = false :=
    Bool.eq_false_iff.mpr fun ht => hne (inv.waiting t ht).1
  have hset : ∀ user, sys.alarms.outstanding user =
      k.alarms.outstanding user + if AlarmUser.sleeper t = user then 1 else 0 := fun user => by
    rw [halarms, outstanding_set order]
  refine inv.of_sameTimers htimers hbrk.ge ?_ (fun id => ?_) (fun u => ?_) (fun u hu => ?_)
    fun id timer h => ?_
  · rw [halarms]
    exact inv.alarms.set now d _ room
  · simp [hset]
  · dsimp only [putToSleep]
    rw [hset, inv.sleeper]
    by_cases hut : u = t
    · subst hut
      simp [hawake]
    · simp [hut, Ne.symm hut]
  · dsimp only [putToSleep] at hu ⊢
    by_cases hut : u = t
    · subst hut
      simp [hthreads, hobjs, alarmSetAlarm_id order]
    rw [update_of_ne hut] at hu
    simpa [hthreads, hobjs, hut] using inv.waiting u hu
  obtain ⟨hwait, hnot, -⟩ := inv.pending id timer h
  have hut : timer.callbackThread ≠ t := fun e => hne (e ▸ hwait)
  simpa [putToSleep, hthreads, hut] using ⟨hwait, hnot⟩

theorem addTimer {now timeout : TinkerTime} {room : Bool} (hnone : k.timers id = none)
    (hbrk : id < k'.timerBrk) (hwait : (k.threads timer.callbackThread).state = .waiting)
    (hnot : k.asleep timer.callbackThread = false)
    (hobj : ∀ t ∈ timer.threadObj, t = timer.callbackThread)
    (hother : ∀ id timer', k.Pending id timer' → timer'.callbackThread ≠ timer.callbackThread)
    (hsome : timer.callback.isSome = true)
    (hid : ∀ alarmId ∈ (alarmSetAlarm k.alarms now timeout (.timer id) room).2.1,
      timer.alarmId = alarmId) (hsys : k'.toThreadSys = k.toThreadSys)
    (halarms : k'.alarms = (alarmSetAlarm k.alarms now timeout (.timer id) room).2.2)
    (htimers : k'.timers = update k.timers id (some timer)) (hasleep : k'.asleep = k.asleep)
    (hbrk' : k'.timerBrk = k.timerBrk) : Watched k' := by
  have hpending : ∀ id' timer', k'.Pending id' timer' →
      (id' = id ∧ timer' = timer) ∨ k.Pending id' timer' := by
    rintro id' timer' ⟨hload, hcallback⟩
    rw [htimers] at hload
    by_cases he : id' = id
    · subst he
      rw [update_self] at hload
      exact .inl ⟨rfl, (Option.some.inj hload).symm⟩
    rw [update_of_ne he] at hload
    exact .inr ⟨hload, hcallback⟩
  -- the timer had no alarm before, since it was not there
  have hzero : k.alarms.outstanding (.timer id) = 0 := by
    by_contra hpos
    obtain ⟨timer', ⟨hload, -⟩, -⟩ := inv.armed id (Nat.pos_of_ne_zero hpos)
    rw [hnone] at hload
    cases hload
  have hcount : ∀ user, user ≠ .timer id →
      k'.alarms.outstanding user = k.alarms.outstanding user := by
    intro user hne
    rw [halarms]
    by_cases hroom : k.alarms.alarmList.length < maxAlarms ∧ room = true
    · rw [outstanding_set hroom, if_neg (Ne.symm hne), Nat.add_zero]
    · rw [alarmSetAlarm_of_full hroom]
  refine ⟨halarms ▸ inv.alarms.set now timeout _ room, fun t => ?_, fun t ht => ?_, fun id' => ?_,
    fun id' hpos => ?_, fun id' timer' h => ?_, fun id₁ id₂ timer₁ timer₂ h₁ h₂ hsame => ?_,
    fun id' hid' => ?_⟩
  · rw [hcount _ (by simp), hasleep]
    exact inv.sleeper t
  · rw [hasleep] at ht
    rw [hsys]
    exact inv.waiting t ht
  · by_cases he : id' = id
    · subst he
      rw [halarms]
      by_cases hroom : k.alarms.alarmList.length < maxAlarms ∧ room = true
      · simp [outstanding_set hroom, hzero]
      · simp [alarmSetAlarm_of_full hroom, hzero]
    rw [hcount _ (by simpa using he)]
    exact inv.timer id'
  · by_cases he : id' = id
    · subst he
      refine ⟨timer, ⟨by rw [htimers, update_self], hsome⟩, ?_⟩
      by_cases hroom : k.alarms.alarmList.length < maxAlarms ∧ room = true
      · exact hid 0 (alarmSetAlarm_id hroom)
      · simp [halarms, alarmSetAlarm_of_full hroom, hzero] at hpos
    rw [hcount _ (by simpa using he)] at hpos
    obtain ⟨timer', ⟨hload, hcallback⟩, halarm⟩ := inv.armed id' hpos
    exact ⟨timer', ⟨by rw [htimers, update_of_ne he, hload], hcallback⟩, halarm⟩
  · rw [hsys, hasleep]
    rcases hpending id' timer' h with ⟨rfl, rfl⟩ | h
    · exact ⟨hwait, hnot, hobj⟩
    · exact inv.pending id' timer' h
  · rcases hpending id₁ timer₁ h₁ with ⟨rfl, rfl⟩ | h₁ <;>
      rcases hpending id₂ timer₂ h₂ with ⟨rfl, rfl⟩ | h₂
    · rfl
    · exact absurd hsame.symm (hother id₂ timer₂ h₂)
    · exact absurd hsame (hother id₁ timer₁ h₁)
    · exact inv.distinct id₁ id₂ timer₁ timer₂ h₁ h₂ hsame
  have hne : id' ≠ id := by
    rintro rfl
    exact Nat.not_lt.mpr hid' hbrk
  rw [htimers, update_of_ne hne]
  exact inv.fresh id' (hbrk' ▸ hid')

theorem createTimer {new : NewThread} {now timeout : TinkerTime} {callback : Option (BitVec 32)}
    {parameter : BitVec 32} {room : Bool} {uninitialised : ℕ}
    (called : (k.threads new.thread).state = .notCreated ∨
      (k.threads new.thread).state = .terminated)
    (h : k.step (.createTimer new now timeout callback parameter room uninitialised) = .ok k') :
    Watched k' := by
  obtain ⟨⟨r, sys⟩, hcreate, h⟩ := of_bind h
  cases h
  obtain ⟨hnot, hother⟩ := inv.unused called
  obtain ⟨-, rfl⟩ | ⟨⟨-, hcallback⟩, r₁, created, sys₁, hthread, hcases⟩ :=
    objCreateTimer_cases hcreate
  · exact inv
  -- whatever came of the thread, no other one has changed
  have hsame : ∀ t, t ≠ new.thread →
      sys₁.threads t = k.threads t ∧ sys₁.objThreads t = k.objThreads t := by
    intro t ht
    rcases procCreateThread_cases hthread with ⟨-, -, -, rfl⟩ | ⟨-, hthreads, -, -, hobjs⟩
    · exact ⟨rfl, rfl⟩
    refine ⟨by simp [hthreads, ht], ?_⟩
    rcases hobjs with ⟨-, -, -, hobjs⟩ | ⟨-, -, hobjs⟩
    · simp [hobjs, ht]
    · rw [hobjs]
  rcases hcases with ⟨-, rfl⟩ | ⟨-, -, hthreads, -, hobjs, halarms, htimers, hbrk⟩
  · exact inv.of_unused hnot hother (fun t ht => (hsame t ht).1) (fun t ht => (hsame t ht).2)
      rfl rfl rfl (Nat.le_succ _)
  have inv₁ : Watched { k with toThreadSys := sys.toThreadSys, timerBrk := k.timerBrk + 1 } := by
    refine inv.of_unused hnot hother (fun t ht => ?_) (fun t ht => ?_) rfl rfl rfl (Nat.le_succ _)
    · simpa [hthreads, ht] using (hsame t ht).1
    · simpa [hobjs] using (hsame t ht).2
  refine inv₁.addTimer (inv.fresh _ (Nat.le_refl _)) ?_ ?_ ?_ ?_ ?_ ?_ ?_ rfl halarms htimers rfl
    hbrk
  · exact hbrk ▸ Nat.lt_succ_self _
  · simp [hthreads]
  · exact hnot
  · intro t ht
    unfold NewThread.object? at ht
    split at ht
    · exact (Option.some.inj ht).symm
    · cases ht
  · exact hother
  · exact hcallback
  intro alarmId hid
  simp [Option.mem_def.mp hid]

theorem outstanding_unset (hpend : k.Pending id timer) (own : SleepCall.OwnAlarm k id)
    (user : AlarmUser) :
    (alarmUnsetAlarm k.alarms timer.alarmId).2.outstanding user =
      if user = .timer id then 0 else k.alarms.outstanding user := by
  -- a timer that has an alarm has the identifier 0
  have hzero : 0 < k.alarms.outstanding (.timer id) → timer.alarmId = 0 := by
    intro hpos
    obtain ⟨timer', ⟨hload, -⟩, hzero⟩ := inv.armed id hpos
    obtain rfl : timer = timer' := Option.some.inj (hpend.1.symm.trans hload)
    exact hzero
  rcases alarmUnsetAlarm_cases k.alarms timer.alarmId with ⟨a, hget, -⟩ | ⟨hget, hunset⟩
  · have hown : a.usrData = .timer id := own timer hpend.1 hpend.2 a hget
    have hpos : 0 < k.alarms.outstanding (.timer id) :=
      hown ▸ outstanding_pos_of_mem (List.mem_of_getElem? hget)
    rw [hzero hpos] at hget ⊢
    obtain ⟨rest, hlist⟩ : ∃ rest, k.alarms.alarmList = a :: rest :=
      List.head?_eq_some_iff.mp (List.head?_eq_getElem? ▸ hget)
    have hcount : ∀ user, (alarmUnsetAlarm k.alarms 0).2.outstanding user =
        rest.countP fun b => b.usrData = user := fun user => by
      simp only [outstanding, alarmUnsetAlarm_zero hlist]
    have hold : ∀ user, k.alarms.outstanding user = rest.countP (fun b => b.usrData = user) +
        if a.usrData = user then 1 else 0 := fun _ => outstanding_cons hlist
    rw [hcount]
    split
    next huser =>
      subst huser
      have hone := inv.timer id
      rw [hold, if_pos hown] at hone
      omega
    next huser => rw [hold, if_neg fun e => huser (e.symm.trans hown), Nat.add_zero]
  rw [hunset]
  split
  next huser =>
    subst huser
    by_contra hpos
    rw [hzero (Nat.pos_of_ne_zero hpos), List.getElem?_eq_none_iff, Nat.le_zero,
      List.length_eq_zero_iff] at hget
    simp [outstanding, hget] at hpos
  · rfl

theorem endPending {left : Option Timer} {sys : AlarmSys} (own : SleepCall.OwnAlarm k id)
    (ended : TimerEnded k.toAlarmSys sys id timer left)
    (hleft : ∀ timer ∈ left, timer.callback = none) : Watched ⟨sys, k.asleep⟩ := by
  have hpend : k.Pending id timer := ⟨ended.load, ended.pending⟩
  obtain ⟨t, sched, hobj, hobjs, hthreads, -⟩ := objTimerDeleteThread_cases ended.threads
  obtain rfl := (inv.pending id timer hpend).2.2 t hobj
  refine inv.endTimer hpend (fun u hu => ?_) hobjs ?_ (fun user => ?_) ended.timers hleft rfl
    ended.timerBrk
  · rcases hthreads with hthreads | hthreads
    · simp [hthreads, threadSetState, hu]
    · rw [hthreads]
  · rw [ended.alarms]
    exact inv.alarms.unset _
  rw [ended.alarms]
  exact inv.outstanding_unset hpend own user

theorem cancelTimer (order : (SleepCall.cancelTimer o).InOrder k)
    (h : k.step (.cancelTimer o) = .ok k') : Watched k' := by
  obtain ⟨⟨r, sys⟩, hcancel, h⟩ := of_bind h
  cases h
  obtain rfl | ⟨id, timer, rfl, ended⟩ := objCancelTimer_cases hcancel
  · exact inv
  refine inv.endPending order ended fun timer' htimer => ?_
  cases htimer
  rfl

theorem deleteTimer (order : (SleepCall.deleteTimer o).InOrder k)
    (h : k.step (.deleteTimer o) = .ok k') : Watched k' := by
  obtain ⟨⟨r, sys⟩, hdelete, h⟩ := of_bind h
  cases h
  obtain rfl | ⟨id, timer, rfl, ended | ⟨hload, hnone, rfl⟩⟩ := objDeleteTimer_cases hdelete
  · exact inv
  · exact inv.endPending order ended fun timer' htimer => by cases htimer
  -- a timer that is not pending has no alarm
  have hpending : ∀ id' timer', Pending
      { k.toAlarmSys with timers := update k.timers id none } id' timer' ↔
      k.Pending id' timer' := by
    intro id' timer'
    unfold Pending
    by_cases he : id' = id
    · subst he
      simp only [update_self, hload]
      constructor
      · rintro ⟨hload', -⟩
        cases hload'
      rintro ⟨hload', hsome⟩
      cases hload'
      simp [hnone] at hsome
    · simp [he]
  refine ⟨inv.alarms, inv.sleeper, inv.waiting, inv.timer, fun id' hpos => ?_,
    fun id' timer' h => inv.pending id' timer' ((hpending _ _).mp h),
    fun id₁ id₂ timer₁ timer₂ h₁ h₂ => inv.distinct id₁ id₂ timer₁ timer₂
      ((hpending _ _).mp h₁) ((hpending _ _).mp h₂), fun id' hid => ?_⟩
  · obtain ⟨timer', h, hzero⟩ := inv.armed id' hpos
    exact ⟨timer', (hpending _ _).mpr h, hzero⟩
  have hfresh := inv.fresh id' hid
  by_cases he : id' = id
  · simp [he]
  · simpa [he] using hfresh

/-- If the alarm timer expires, the thread of the alarm that is next becomes ready, and the
first alarm of the list is gone. -/
theorem fires {a : Alarm AlarmUser} {sys : AlarmSys} (hnext : k.alarms.nextAlarm = some a)
    (h : alarmTimeout k.toAlarmSys = .ok sys) :
    sys.alarms.alarmList = k.alarms.alarmList.tail ∧ AlarmsOk sys.alarms ∧
      sys.objThreads = k.objThreads ∧ sys.timerBrk = k.timerBrk ∧
      ((∃ t, a.usrData = .sleeper t ∧ k.asleep t = true ∧ k.toAlarmSys.rouses = some t ∧
          sys.threads = update k.threads t { k.threads t with state := .ready } ∧
          sys.timers = k.timers) ∨
        ∃ id timer, a.usrData = .timer id ∧ k.Pending id timer ∧ k.toAlarmSys.rouses = none ∧
          sys.threads = update k.threads timer.callbackThread
            (timer.handed (k.threads timer.callbackThread)) ∧
          sys.timers = update k.timers id (some { timer with callback := none })) := by
  have ha : a ∈ k.alarms.alarmList := inv.alarms.next a hnext
  have hid : a.id = 0 := inv.alarms.id_eq_zero a ha
  obtain ⟨b, rest, hlist⟩ := List.exists_cons_of_ne_nil (List.ne_nil_of_mem ha)
  have hrest : (alarmUnsetAlarm k.alarms 0).2.alarmList = k.alarms.alarmList.tail := by
    rw [alarmUnsetAlarm_zero hlist, hlist, List.tail_cons]
  have hpos := outstanding_pos_of_mem ha
  obtain ⟨hnone, -⟩ | ⟨next, sys₁, hnext', hcall, rfl⟩ := alarmTimeout_cases h
  · rw [hnext] at hnone
    cases hnone
  cases hnext.symm.trans hnext'
  cases huser : a.usrData with
  | sleeper t =>
    rw [huser, inv.sleeper] at hpos
    have hasleep : k.asleep t = true := by
      by_contra hfalse
      simp [hfalse] at hpos
    have halarm := (inv.waiting t hasleep).2
    rw [huser, hid] at hcall
    obtain ⟨hne, -⟩ | ⟨-, hthreads, -, hobjs, halarms, htimers, hbrk⟩ :=
      objThreadSleepCallback_cases hcall
    · exact absurd halarm hne
    refine ⟨?_, ?_, hobjs, hbrk, .inl ⟨t, rfl, hasleep, ?_, hthreads, htimers⟩⟩
    · rw [alarmCalculateNextAlarm_alarmList, halarms, hrest]
    · exact (halarms ▸ inv.alarms.unset 0).calculate
    · simp [rouses, hnext, huser, halarm, hid]
  | timer id =>
    rw [huser] at hpos
    obtain ⟨timer, hpend, hzero⟩ := inv.armed id hpos
    rw [huser, hid] at hcall
    obtain ⟨timer', hload, ⟨hne, -⟩ | ⟨-, hthreads, -, hobjs, halarms, htimers, hbrk⟩⟩ :=
      objTimerTimeout_cases hcall
    · cases hpend.1.symm.trans hload
      exact absurd hzero.symm hne
    cases hpend.1.symm.trans hload
    refine ⟨?_, ?_, hobjs, hbrk, .inr ⟨id, timer, rfl, hpend, ?_, hthreads, htimers⟩⟩
    · rw [alarmCalculateNextAlarm_alarmList, halarms, hrest]
    · exact (halarms ▸ inv.alarms.unset 0).calculate
    · simp [rouses, hnext, huser]

theorem rouse (hasleep : k.asleep t = true)
    (hthreads : k'.threads = update k.threads t { k.threads t with state := .ready })
    (hobjs : k'.objThreads = k.objThreads) (halarms : AlarmsOk k'.alarms)
    (hcount : ∀ user, k.alarms.outstanding user =
      k'.alarms.outstanding user + if AlarmUser.sleeper t = user then 1 else 0)
    (htimers : k'.timers = k.timers) (hroused : k'.asleep = update k.asleep t false)
    (hbrk : k'.timerBrk = k.timerBrk) : Watched k' := by
  refine inv.of_sameTimers htimers hbrk.ge halarms (fun id => by simp [hcount]) (fun u => ?_)
    (fun u hu => ?_) fun id timer h => ?_
  · have hold := hcount (.sleeper u)
    rw [inv.sleeper] at hold
    rw [hroused]
    by_cases hut : u = t
    · subst hut
      rw [if_pos hasleep, if_pos rfl] at hold
      rw [update_self, if_neg Bool.false_ne_true]
      omega
    rw [if_neg fun e => hut (AlarmUser.sleeper.inj e).symm] at hold
    rw [update_of_ne hut]
    exact hold.symm
  · rw [hroused] at hu
    have hut : u ≠ t := by
      rintro rfl
      simp at hu
    rw [update_of_ne hut] at hu
    rw [hthreads, hobjs, update_of_ne hut]
    exact inv.waiting u hu
  obtain ⟨hwait, hnot, -⟩ := inv.pending id timer h
  have hut : timer.callbackThread ≠ t := by
    intro e
    rw [e, hasleep] at hnot
    cases hnot
  rw [hthreads, hroused, update_of_ne hut, update_of_ne hut]
  exact ⟨hwait, hnot⟩

theorem timeout (order : SleepCall.timeout.InOrder k) (h : k.step .timeout = .ok k') :
    Watched k' := by
  obtain ⟨sys, htimeout, h⟩ := of_bind h
  cases h
  cases hnext : k.alarms.nextAlarm with
  | none =>
    obtain ⟨-, rfl⟩ | ⟨next, -, hnext', -⟩ := alarmTimeout_cases htimeout
    · have hsame : k.roused = k.asleep := by simp [roused, rouses, hnext]
      rwa [hsame]
    rw [hnext] at hnext'
    cases hnext'
  | some a =>
    obtain ⟨rest, hlist⟩ : ∃ rest, k.alarms.alarmList = a :: rest :=
      List.head?_eq_some_iff.mp (order.symm.trans hnext)
    obtain ⟨hlist', halarms, hobjs, hbrk, hcases⟩ := inv.fires hnext htimeout
    have hcount : ∀ user, k.alarms.outstanding user =
        sys.alarms.outstanding user + if a.usrData = user then 1 else 0 := fun user => by
      rw [outstanding_cons hlist, outstanding, hlist', hlist, List.tail_cons]
    rcases hcases with
      ⟨t, huser, hasleep, hrouses, hthreads, htimers⟩ |
      ⟨id, timer, huser, hpend, hrouses, hthreads, htimers⟩
    · -- the alarm of the sleeper was its only one
      have hroused : k.roused = update k.asleep t false := by
        simp [roused, hrouses]
      rw [huser] at hcount
      exact inv.rouse hasleep hthreads hobjs halarms hcount htimers hroused hbrk
    have hsame : k.roused = k.asleep := by simp [roused, hrouses]
    refine inv.endTimer hpend (fun u hu => ?_) hobjs halarms (fun user => ?_) htimers
      (fun timer' htimer => ?_) hsame hbrk
    · simp [hthreads, hu]
    · have hold := hcount user
      rw [huser] at hold
      split
      next he =>
        subst he
        have hone := inv.timer id
        dsimp only
        rw [if_pos rfl] at hold
        omega
      next he =>
        rw [if_neg (Ne.symm he)] at hold
        exact hold.symm
    cases htimer
    rfl

theorem step {c : SleepCall} (called : c.Called k) (order : c.InOrder k) (h : k.step c = .ok k') :
    Watched k' := by
  cases c with
  | sleep o now duration room => exact inv.sleep called order h
  | createTimer new now timeout callback parameter room uninitialised =>
    exact inv.createTimer called h
  | cancelTimer o => exact inv.cancelTimer order h
  | deleteTimer o => exact inv.deleteTimer order h
  | timeout => exact inv.timeout order h

end

end Watched

theorem Sleepers.Awake.watched (awake : k.Awake) : Watched k := by
  have hcount : ∀ user, k.alarms.outstanding user = 0 := fun user => by
    simp [awake.alarms, outstanding, alarmInitialse]
  have hpending : ∀ id timer, ¬ k.Pending id timer := by
    rintro id timer ⟨hload, -⟩
    rw [awake.timers] at hload
    cases hload
  refine ⟨awake.alarms ▸ alarmsOk_initialse, fun t => ?_, fun t ht => ?_, fun id => ?_,
    fun id hid => ?_, fun id timer h => absurd h (hpending id timer),
    fun id id' timer timer' h => absurd h (hpending id timer), fun id _ => awake.timers id⟩
  · rw [hcount, awake.asleep, if_neg Bool.false_ne_true]
  · rw [awake.asleep] at ht
    cases ht
  · rw [hcount]
    exact Nat.zero_le 1
  rw [hcount] at hid
  cases hid

theorem tail_eq_erase_iff {α : Type} [DecidableEq α] {l : List α} {x : α} (nodup : l.Nodup)
    (hx : x ∈ l) : l.tail = l.erase x ↔ l.head? = some x := by
  cases l with
  | nil => cases hx
  | cons y rest =>
    rw [List.tail_cons, List.head?_cons]
    by_cases hyx : y = x
    · simp [hyx]
    refine iff_of_false (fun e => ?_) fun e => hyx (Option.some.inj e)
    rw [List.erase_cons_tail (by simpa using hyx)] at e
    exact (List.nodup_cons.mp nodup).1 (e ▸ List.mem_cons_self)

/-! ## Runs -/

/-- In every run in which the calls are in order, a thread that is asleep is blocked and has
exactly one alarm. If the alarm timer then expires, the alarm that fires is removed, and no
other one, exactly if it is the first one of the list; the thread it belongs to becomes
ready. -/
theorem outstanding_of_run {calls : List SleepCall} (awake : k.Awake)
    (run : Run Sleepers.step (fun k c => c.Called k ∧ c.InOrder k) k calls k') :
    (∀ t, k'.asleep t = true →
      (k'.threads t).state = .waiting ∧ k'.alarms.outstanding (.sleeper t) = 1) ∧
    ∀ a k'', k'.alarms.nextAlarm = some a → k'.step .timeout = .ok k'' →
      (k''.alarms.alarmList = k'.alarms.alarmList.erase a ↔
        k'.alarms.alarmList.head? = some a) ∧
      ∀ t, a.usrData = .sleeper t → k'.asleep t = true ∧ k''.asleep t = false ∧
        (k''.threads t).state = .ready := by
  have inv : Watched k' := run.invariant awake.watched fun _ _ _ inv ⟨called, order⟩ hstep =>
    inv.step called order hstep
  refine ⟨fun t ht => ⟨(inv.waiting t ht).1, by rw [inv.sleeper, if_pos ht]⟩, ?_⟩
  intro a k'' hnext h
  obtain ⟨sys, htimeout, h⟩ := of_bind h
  cases h
  obtain ⟨hlist, -, -, -, hcases⟩ := inv.fires hnext htimeout
  refine ⟨?_, fun t huser => ?_⟩
  · rw [hlist]
    exact tail_eq_erase_iff (.of_map _ inv.alarms.nodup) (inv.alarms.next a hnext)
  · rcases hcases with ⟨t', huser', hasleep, hrouses, hthreads, -⟩ | ⟨id, timer, huser', -⟩
    · obtain rfl : t = t' := AlarmUser.sleeper.inj (huser.symm.trans huser')
      refine ⟨hasleep, ?_, ?_⟩
      · simp [Sleepers.roused, hrouses]
      · simp [hthreads]
    · rw [huser] at huser'
      cases huser'

/-- In every such run the threads of pending timers are blocked, awake and all different. If the
alarm of a timer fires, the timer is no longer pending, and its thread, and no other, becomes
ready with the callback and its parameter in the registers. -/
theorem timers_of_run {calls : List SleepCall} (awake : k.Awake)
    (run : Run Sleepers.step (fun k c => c.Called k ∧ c.InOrder k) k calls k') :
    (∀ id timer, k'.Pending id timer →
      (k'.threads timer.callbackThread).state = .waiting ∧
        k'.asleep timer.callbackThread = false ∧
        ∀ id' timer', k'.Pending id' timer' →
          timer.callbackThread = timer'.callbackThread → id = id') ∧
    ∀ a id k'', k'.alarms.nextAlarm = some a → a.usrData = .timer id →
      k'.step .timeout = .ok k'' → ∃ timer, k'.Pending id timer ∧
        k''.timers = update k'.timers id (some { timer with callback := none }) ∧
        k''.threads = update k'.threads timer.callbackThread
          (timer.handed (k'.threads timer.callbackThread)) := by
  have inv : Watched k' := run.invariant awake.watched fun _ _ _ inv ⟨called, order⟩ hstep =>
    inv.step called order hstep
  refine ⟨fun id timer hpend => ?_, fun a id k'' hnext huser h => ?_⟩
  · obtain ⟨hwaiting, hawake, -⟩ := inv.pending id timer hpend
    exact ⟨hwaiting, hawake, fun id' timer' => inv.distinct id id' timer timer' hpend⟩
  obtain ⟨sys, htimeout, h⟩ := of_bind h
  cases h
  obtain ⟨-, -, -, -, ⟨t, huser', -⟩ | ⟨id', timer, huser', hpend, -, hthreads, htimers⟩⟩ :=
    inv.fires hnext htimeout
  · cases huser.symm.trans huser'
  cases huser.symm.trans huser'
  exact ⟨timer, hpend, htimers, hthreads⟩

instance SleepCall.decidableCalled (k : Sleepers) (c : SleepCall) : Decidable (c.Called k) := by
  unfold Called
  split <;> infer_instance

deriving instance Decidable for SleepCall.OwnAlarm

instance SleepCall.decidableInOrder (k : Sleepers) (c : SleepCall) : Decidable (c.InOrder k) := by
  unfold InOrder
  split <;> infer_instance

/-- Two threads of one priority, and no alarm. -/
def Sleepers.boot : Exec Sleepers := do
  let sys ← ThreadSys.bootOnly (fun t => if t = 0 then 0 else 1) [1, 2]
  return ⟨⟨sys, alarmInitialse, fun _ => none, 0⟩, fun _ => false⟩

theorem Sleepers.awake_of_boot (start : boot = .ok k) : k.Awake := by
  cases start
  exact ⟨rfl, fun _ => rfl, fun _ => rfl⟩

/-- A timer is created behind two sleepers, the first of them is woken, and the timer is left
to its alarm. -/
theorem outstanding_of_run_two : ∃ k k' : Sleepers, Sleepers.boot = .ok k ∧
    Run Sleepers.step (fun k c => c.Called k ∧ c.InOrder k) k
      [.sleep (some 1) ⟨0, 0⟩ (some ⟨10, 0⟩) true, .sleep (some 2) ⟨0, 0⟩ (some ⟨20, 0⟩) true,
        .createTimer ⟨3, 0, 2, 0x8000, 0x100, 0x200, 0x300, true, true, true, true⟩ ⟨0, 0⟩ ⟨30, 0⟩
          (some 0x400) 7 true 0,
        .timeout] k' ∧
    k'.asleep 2 = true ∧ k'.alarms.outstanding (.sleeper 2) = 1 := by
  refine exists_run_from_and (fun k => k.asleep 2 = true) (by decide +kernel)
    fun k k' start run hasleep => ?_
  have sleepers := (outstanding_of_run (Sleepers.awake_of_boot start) run).1
  exact ⟨hasleep, (sleepers 2 hasleep).2⟩

/-- The alarm of a timer is the next one after that of a sleeper, and its thread becomes ready. -/
theorem timers_of_run_fires : ∃ k k' : Sleepers, Sleepers.boot = .ok k ∧
    Run Sleepers.step (fun k c => c.Called k ∧ c.InOrder k) k
      [.sleep (some 1) ⟨0, 0⟩ (some ⟨10, 0⟩) true,
        .createTimer ⟨3, 0, 2, 0x8000, 0x100, 0x200, 0x300, true, true, true, true⟩ ⟨0, 0⟩ ⟨30, 0⟩
          (some 0x400) 7 true 0,
        .timeout] k' ∧
    ∃ k'' timer, k'.step .timeout = .ok k'' ∧ k'.Pending 0 timer ∧
      (k'.threads timer.callbackThread).state = .waiting ∧
      (k''.threads timer.callbackThread).state = .ready := by
  refine exists_run_from_and (fun k => (k.alarms.nextAlarm.any (·.usrData = .timer 0)) = true ∧
    (k.step .timeout).toOption.isSome = true) (by decide +kernel)
    fun k k' start run ⟨hnext, hstep⟩ => ?_
  obtain ⟨a, ha, huser⟩ := (Option.any_eq_true _ _).mp hnext
  obtain ⟨k'', hstep⟩ : ∃ k'', k'.step .timeout = .ok k'' := by
    cases h : k'.step .timeout with
    | error e =>
      rw [h] at hstep
      cases hstep
    | ok k'' => exact ⟨k'', rfl⟩
  obtain ⟨hpending, hfires⟩ := timers_of_run (Sleepers.awake_of_boot start) run
  obtain ⟨timer, pending, -, hthreads⟩ := hfires a 0 k'' ha (of_decide_eq_true huser) hstep
  refine ⟨k'', timer, hstep, pending, (hpending 0 timer pending).1, ?_⟩
  simp [hthreads, Timer.handed]

/-- Thread 1 sleeps for ten seconds and thread 2 for one. The alarm of thread 2 fires, and the
one that is removed is that of thread 1, which nothing is left to wake. -/
theorem not_outstanding : ∃ k k' : Sleepers, Sleepers.boot = .ok k ∧
    Run Sleepers.step (fun k c => c.Called k) k
      [.sleep (some 1) ⟨0, 0⟩ (some ⟨10, 0⟩) true, .sleep (some 2) ⟨0, 0⟩ (some ⟨1, 0⟩) true,
        .timeout] k' ∧
    k'.asleep 1 = true ∧ (k'.threads 1).state = .waiting ∧
    k'.alarms.outstanding (.sleeper 1) = 0 ∧ k'.alarms.outstanding (.sleeper 2) = 1 := by
  exact exists_run_from_and _ (by decide +kernel) fun _ _ _ _ => id

end Tinker
