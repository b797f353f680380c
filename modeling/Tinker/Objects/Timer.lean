import Tinker.Process.Create
import Tinker.Time.Alarm

/-!
# Sleeping threads and timers

The parts of `obj_thread.c` and `obj_timer.c` that set alarms: a thread sleeps until its alarm
readies it, and a timer keeps a thread of its own blocked until its alarm hands that thread the
callback to call.

The callback of an alarm is known by who set it. If no alarm could be set for a timer, the field
for its identifier keeps what was in memory before, an argument of `objCreateTimer`.
-/

namespace Tinker

open Tinker.Lib Function Exec

inductive AlarmUser
  | sleeper (t : ℕ)
  | timer (id : ℕ)
  deriving DecidableEq, Repr

structure Timer where
  callback : Option (BitVec 32)
  parameter : BitVec 32
  alarmId : ℕ
  callbackThread : ℕ
  threadObj : Option ℕ
  deriving DecidableEq

structure AlarmSys extends ThreadSys where
  alarms : AlarmManager AlarmUser
  timers : ℕ → Option Timer
  timerBrk : ℕ

open AlarmSys

namespace AlarmSys

def load (k : AlarmSys) (id : ℕ) : Exec Timer :=
  match k.timers id with
  | some timer => .ok timer
  | none => .error .badPointer

def setTimer (k : AlarmSys) (id : ℕ) (timer : Timer) : AlarmSys :=
  { k with timers := update k.timers id (some timer) }

def unset (k : AlarmSys) (alarmId : ℕ) : AlarmSys :=
  { k with alarms := (alarmUnsetAlarm k.alarms alarmId).2 }

end AlarmSys

/-! ## Sleeping -/

/-- The thread is blocked whether or not its alarm could be set. -/
def objThreadSleep (k : AlarmSys) (o : Option ℕ) (now : TinkerTime) (duration : Option TinkerTime)
    (room : Bool) : Exec (ReturnT × AlarmSys) :=
  match o, duration with
  | some t, some duration => do
    let (_, alarmId, alarms) := alarmSetAlarm k.alarms now duration (.sleeper t) room
    let obj := { k.objThreads t with alarmId := alarmId.getD (k.objThreads t).alarmId }
    let threads := threadSetWaitingOn (threadSetState k.threads t .waiting) t none
    let sched ← schNotifyPauseThread threads k.sched t
    return (.noError, { k with
      threads := threads
      sched := sched
      objThreads := update k.objThreads t obj
      alarms := alarms })
  | _, _ => return (.parametersNull, k)

/-- The thread is readied whatever its state. -/
def objThreadSleepCallback (k : AlarmSys) (alarmId : ℕ) (t : ℕ) : Exec AlarmSys :=
  if (k.objThreads t).alarmId = alarmId then do
    let threads := threadSetState k.threads t .ready
    let sched ← schNotifyResumeThread threads k.sched t
    return { k with threads := threads, sched := sched }.unset alarmId
  else
    return k

/-! ## Timers -/

def tgtSetContextParam (context : TgtContext) (index : ℕ) (parameter : BitVec 32) : TgtContext :=
  match index with
  | 0 => { context with gpr := update context.gpr 5 parameter }
  | 1 => { context with gpr := update context.gpr 6 parameter }
  | _ => context

/-- `thread_set_context_param` of a thread that is not null. -/
def threadSetContextParam (threads : Threads) (t : ℕ) (index : ℕ) (parameter : BitVec 32) :
    Threads :=
  update threads t
    { threads t with context := tgtSetContextParam (threads t).context index parameter }

/-- The thread of the timer is readied and finds the callback and its parameter in its registers. -/
def objTimerTimeout (k : AlarmSys) (alarmId : ℕ) (id : ℕ) : Exec AlarmSys := do
  let timer ← k.load id
  if alarmId = timer.alarmId then do
    let t := timer.callbackThread
    let threads := threadSetWaitingOn (threadSetState k.threads t .ready) t none
    let sched ← schNotifyResumeThread threads k.sched t
    let threads := threadSetContextParam threads t 0 (timer.callback.getD 0)
    let threads := threadSetContextParam threads t 1 timer.parameter
    return ({ k with threads := threads, sched := sched }.setTimer id
      { timer with callback := none }).unset alarmId
  else
    return k

/-- `obj_create_timer`, for a process and an object number that are not null. The timer's
thread is created ready and blocked at once. -/
def objCreateTimer (k : AlarmSys) (new : NewThread) (now timeout : TinkerTime)
    (callback : Option (BitVec 32)) (parameter : BitVec 32) (room : Bool) (uninitialised : ℕ) :
    Exec (ReturnT × AlarmSys) :=
  if (timeout.seconds ≠ 0 ∨ timeout.nanoseconds ≠ 0) ∧ callback.isSome then do
    let no := k.timerBrk
    let (result, thread, sys) ← procCreateThread k.toThreadSys new
    let k := { k with toThreadSys := sys, timerBrk := no + 1 }
    if result = .noError then
      match thread with
      | some t => do
        let threads := threadSetWaitingOn (threadSetState k.threads t .waiting) t (some (.timer no))
        let sched ← schNotifyPauseThread threads k.sched t
        let (result, alarmId, alarms) := alarmSetAlarm k.alarms now timeout (.timer no) room
        let timer := ⟨callback, parameter, alarmId.getD uninitialised, t, new.object?⟩
        return (result,
          { k with threads := threads, sched := sched, alarms := alarms }.setTimer no timer)
      -- the thread could not be allocated, and its pointer is not initialised
      | none => .error .badPointer
    else
      return (result, k)
  else
    return (.parametersInvalid, k)

/-- Without a thread object, `process_thread_exit` asserts. -/
def objTimerDeleteThread (k : ThreadSys) (timer : Timer) : Exec ThreadSys :=
  match timer.threadObj with
  | some t => do
    let state := threadGetState k.threads (some t)
    let sched ← (if state ≠ .terminated ∧ state ≠ .notCreated then
        schNotifyExitThread k.threads k.sched t
      else .ok k.sched : Exec Scheduler)
    let (_, k) ← objExitThread { k with sched := sched } (some t)
    return k
  | none => .error .halted

def objCancelTimer (k : AlarmSys) (timer : Option ℕ) : Exec (ReturnT × AlarmSys) :=
  match timer with
  | some id => do
    let timer ← k.load id
    if timer.callback.isSome then do
      let k := (k.unset timer.alarmId).setTimer id { timer with alarmId := 0, callback := none }
      let sys ← objTimerDeleteThread k.toThreadSys timer
      return (.noError, { k with toThreadSys := sys })
    else
      return (.alarmAlreadyCancelled, k)
  | none => return (.parametersNull, k)

def objDeleteTimer (k : AlarmSys) (timer : Option ℕ) : Exec (ReturnT × AlarmSys) :=
  match timer with
  | some id => do
    let timer ← k.load id
    if timer.callback.isSome then do
      let k := k.unset timer.alarmId
      let sys ← objTimerDeleteThread k.toThreadSys timer
      return (.noError, { k with toThreadSys := sys, timers := update k.timers id none })
    else
      return (.noError, { k with timers := update k.timers id none })
  | none => return (.parametersNull, k)

/-! ## The alarm timer -/

def AlarmUser.call (k : AlarmSys) (alarmId : ℕ) : AlarmUser → Exec AlarmSys
  | sleeper t => objThreadSleepCallback k alarmId t
  | timer id => objTimerTimeout k alarmId id

def alarmTimeout (k : AlarmSys) : Exec AlarmSys := do
  let callBack (k : AlarmSys) (am : AlarmManager AlarmUser) (alarmId : ℕ) (user : AlarmUser) :
      Exec (AlarmSys × AlarmManager AlarmUser) := do
    let k ← user.call { k with alarms := am } alarmId
    return (k, k.alarms)
  let (k, alarms) ← alarmHandleTimerTimeout callBack k k.alarms
  return { k with alarms := alarms }

/-! ## What they do -/

variable {k k' : AlarmSys} {t id : ℕ} {r : ReturnT} {now timeout : TinkerTime} {room : Bool}

theorem AlarmSys.load_eq_ok {timer : Timer} (h : k.load id = .ok timer) :
    k.timers id = some timer := by
  unfold load at h
  split at h
  next timer' htimer => rw [htimer, Except.ok.inj h]
  · cases h

/-- If the alarm timer expires, the callback of the alarm that is next gets its identifier, and
then the first alarm of those that are left is next. -/
theorem alarmTimeout_cases (h : alarmTimeout k = .ok k') :
    (k.alarms.nextAlarm = none ∧ k' = k) ∨
    ∃ next k₁, k.alarms.nextAlarm = some next ∧ next.usrData.call k next.id = .ok k₁ ∧
      k' = { k₁ with alarms := alarmCalculateNextAlarm k₁.alarms none } := by
  obtain ⟨⟨k₁, alarms⟩, hhandle, h⟩ := of_bind h
  cases h
  unfold alarmHandleTimerTimeout at hhandle
  split at hhandle
  next next hnext =>
    obtain ⟨⟨k₂, am⟩, hback, hhandle⟩ := of_bind hhandle
    obtain ⟨k₃, hcall, hret⟩ := of_bind hback
    obtain ⟨rfl, rfl⟩ := pair_inj hret
    obtain ⟨rfl, rfl⟩ := pair_inj hhandle
    exact .inr ⟨next, k₃, hnext, hcall, rfl⟩
  next hnext =>
    cases hhandle
    exact .inl ⟨hnext, rfl⟩

theorem objThreadSleep_cases {o : Option ℕ} {duration : Option TinkerTime}
    (h : objThreadSleep k o now duration room = .ok (r, k')) :
    ((o = none ∨ duration = none) ∧ r = .parametersNull ∧ k' = k) ∨
    ∃ t d, o = some t ∧ duration = some d ∧ r = .noError ∧
      k'.threads = update k.threads t { k.threads t with state := .waiting, waitingOn := none } ∧
      schNotifyPauseThread k'.threads k.sched t = .ok k'.sched ∧
      k'.objThreads = update k.objThreads t { k.objThreads t with
        alarmId := (alarmSetAlarm k.alarms now d (.sleeper t) room).2.1.getD
          (k.objThreads t).alarmId } ∧
      k'.alarms = (alarmSetAlarm k.alarms now d (.sleeper t) room).2.2 ∧
      k'.timers = k.timers ∧ k'.timerBrk = k.timerBrk := by
  unfold objThreadSleep at h
  split at h
  next t d =>
    obtain ⟨sched, hsched, h⟩ := of_bind h
    cases h
    refine .inr ⟨t, d, rfl, rfl, rfl, ?_, hsched, rfl, rfl, rfl, rfl⟩
    simp [threadSetWaitingOn, threadSetState]
  next hnull =>
    cases h
    refine .inl ⟨?_, rfl, rfl⟩
    cases o with
    | none => exact .inl rfl
    | some t => exact .inr (Option.eq_none_iff_forall_ne_some.mpr fun d hd => hnull t d rfl hd)

theorem objThreadSleepCallback_cases {alarmId : ℕ}
    (h : objThreadSleepCallback k alarmId t = .ok k') :
    ((k.objThreads t).alarmId ≠ alarmId ∧ k' = k) ∨
    ((k.objThreads t).alarmId = alarmId ∧
      k'.threads = update k.threads t { k.threads t with state := .ready } ∧
      schNotifyResumeThread k'.threads k.sched t = .ok k'.sched ∧
      k'.objThreads = k.objThreads ∧ k'.alarms = (alarmUnsetAlarm k.alarms alarmId).2 ∧
      k'.timers = k.timers ∧ k'.timerBrk = k.timerBrk) := by
  unfold objThreadSleepCallback at h
  split at h
  next hid =>
    obtain ⟨sched, hsched, h⟩ := of_bind h
    cases h
    exact .inr ⟨hid, rfl, hsched, rfl, rfl, rfl, rfl⟩
  next hid =>
    cases h
    exact .inl ⟨hid, rfl⟩

def Timer.handed (timer : Timer) (thread : Thread) : Thread :=
  { thread with
    state := .ready
    waitingOn := none
    context := tgtSetContextParam (tgtSetContextParam thread.context 0 (timer.callback.getD 0)) 1
      timer.parameter }

theorem objTimerTimeout_cases {alarmId : ℕ} (h : objTimerTimeout k alarmId id = .ok k') :
    ∃ timer, k.timers id = some timer ∧
      ((alarmId ≠ timer.alarmId ∧ k' = k) ∨
        (alarmId = timer.alarmId ∧
          k'.threads = update k.threads timer.callbackThread
            (timer.handed (k.threads timer.callbackThread)) ∧
          schNotifyResumeThread (threadSetWaitingOn (threadSetState k.threads
              timer.callbackThread .ready) timer.callbackThread none) k.sched
            timer.callbackThread = .ok k'.sched ∧
          k'.objThreads = k.objThreads ∧ k'.alarms = (alarmUnsetAlarm k.alarms alarmId).2 ∧
          k'.timers = update k.timers id (some { timer with callback := none }) ∧
          k'.timerBrk = k.timerBrk)) := by
  obtain ⟨timer, hload, h⟩ := of_bind h
  refine ⟨timer, load_eq_ok hload, ?_⟩
  split at h
  next hid =>
    obtain ⟨sched, hsched, h⟩ := of_bind h
    cases h
    refine .inr ⟨hid, ?_, hsched, rfl, rfl, rfl, rfl⟩
    simp [unset, setTimer, threadSetContextParam, threadSetWaitingOn, threadSetState, Timer.handed]
  next hid =>
    cases h
    exact .inl ⟨hid, rfl⟩

theorem objTimerDeleteThread_cases {sys sys' : ThreadSys} {timer : Timer}
    (h : objTimerDeleteThread sys timer = .ok sys') :
    ∃ t sched, timer.threadObj = some t ∧ sys'.objThreads = sys.objThreads ∧
      (sys'.threads = threadSetState sys.threads t .terminated ∨ sys'.threads = sys.threads) ∧
      (schNotifyExitThread sys.threads sys.sched t = .ok sched ∨ sched = sys.sched) ∧
      ∃ r, objExitThread { sys with sched := sched } (some t) = .ok (r, sys') := by
  unfold objTimerDeleteThread at h
  split at h
  next t hobj =>
    obtain ⟨sched, hsched, h⟩ := of_bind h
    obtain ⟨⟨r, sys₁⟩, hexit, h⟩ := of_bind h
    cases h
    obtain ⟨hobjs, hthreads⟩ := objExitThread_threads hexit
    refine ⟨t, sched, hobj, hobjs, hthreads.imp_right And.left, ?_, r, hexit⟩
    split at hsched
    · exact .inl hsched
    · exact .inr (Except.ok.inj hsched).symm
  · cases h

/-- Creating a timer is refused, fails to create its thread, or leaves the thread blocked on
the timer, with an alarm if there is room for it. -/
theorem objCreateTimer_cases {new : NewThread} {callback : Option (BitVec 32)}
    {parameter : BitVec 32} {uninitialised : ℕ}
    (h : objCreateTimer k new now timeout callback parameter room uninitialised = .ok (r, k')) :
    (¬ ((timeout.seconds ≠ 0 ∨ timeout.nanoseconds ≠ 0) ∧ callback.isSome = true) ∧ k' = k) ∨
    ((timeout.seconds ≠ 0 ∨ timeout.nanoseconds ≠ 0) ∧ callback.isSome = true) ∧
      ∃ r₁ created sys, procCreateThread k.toThreadSys new = .ok (r₁, created, sys) ∧
      ((r₁ ≠ .noError ∧ k' = { k with toThreadSys := sys, timerBrk := k.timerBrk + 1 }) ∨
        (r₁ = .noError ∧ created = some new.thread ∧
          k'.threads = update sys.threads new.thread { sys.threads new.thread with
            state := .waiting, waitingOn := some (.timer k.timerBrk) } ∧
          schNotifyPauseThread k'.threads sys.sched new.thread = .ok k'.sched ∧
          k'.objThreads = sys.objThreads ∧
          k'.alarms = (alarmSetAlarm k.alarms now timeout (.timer k.timerBrk) room).2.2 ∧
          k'.timers = update k.timers k.timerBrk (some ⟨callback, parameter,
            (alarmSetAlarm k.alarms now timeout (.timer k.timerBrk) room).2.1.getD uninitialised,
            new.thread, new.object?⟩) ∧
          k'.timerBrk = k.timerBrk + 1)) := by
  unfold objCreateTimer at h
  split at h
  next hargs =>
    obtain ⟨⟨r₁, created, sys⟩, hcreate, h⟩ := of_bind h
    refine .inr ⟨hargs, r₁, created, sys, hcreate, ?_⟩
    dsimp only at h
    split at h
    next hok =>
      subst hok
      split at h
      next t =>
        obtain rfl : t = new.thread := by
          rcases procCreateThread_cases hcreate with ⟨-, -, hnone, -⟩ | ⟨-, -, hsome, -⟩
          · cases hnone
          · exact Option.some.inj hsome
        obtain ⟨sched, hsched, h⟩ := of_bind h
        cases h
        refine .inr ⟨rfl, rfl, ?_, hsched, rfl, rfl, rfl, rfl⟩
        simp [setTimer, threadSetWaitingOn, threadSetState]
      · cases h
    next hfail =>
      cases h
      exact .inl ⟨hfail, rfl⟩
  next hargs =>
    cases h
    exact .inl ⟨hargs, rfl⟩

/-- The pending timer `id` has been ended: an alarm has been cancelled for it, its thread is
deleted, and `left` is what is left of it. -/
structure TimerEnded (k k' : AlarmSys) (id : ℕ) (timer : Timer) (left : Option Timer) : Prop where
  load : k.timers id = some timer
  pending : timer.callback.isSome = true
  threads : objTimerDeleteThread k.toThreadSys timer = .ok k'.toThreadSys
  alarms : k'.alarms = (alarmUnsetAlarm k.alarms timer.alarmId).2
  timers : k'.timers = update k.timers id left
  timerBrk : k'.timerBrk = k.timerBrk

theorem objCancelTimer_cases {o : Option ℕ} (h : objCancelTimer k o = .ok (r, k')) :
    k' = k ∨ ∃ id timer, o = some id ∧
      TimerEnded k k' id timer (some { timer with alarmId := 0, callback := none }) := by
  unfold objCancelTimer at h
  split at h
  next id =>
    obtain ⟨timer, hload, h⟩ := of_bind h
    split at h
    next hpending =>
      obtain ⟨sys, hdelete, h⟩ := of_bind h
      cases h
      exact .inr ⟨id, timer, rfl, load_eq_ok hload, hpending, hdelete, rfl, rfl, rfl⟩
    cases h
    exact .inl rfl
  cases h
  exact .inl rfl

theorem objDeleteTimer_cases {o : Option ℕ} (h : objDeleteTimer k o = .ok (r, k')) :
    k' = k ∨ ∃ id timer, o = some id ∧
      (TimerEnded k k' id timer none ∨
        (k.timers id = some timer ∧ timer.callback = none ∧
          k' = { k with timers := update k.timers id none })) := by
  unfold objDeleteTimer at h
  split at h
  next id =>
    obtain ⟨timer, hload, h⟩ := of_bind h
    split at h
    next hpending =>
      obtain ⟨sys, hdelete, h⟩ := of_bind h
      cases h
      exact .inr ⟨id, timer, rfl, .inl ⟨load_eq_ok hload, hpending, hdelete, rfl, rfl,
        rfl⟩⟩
    next hnone =>
      cases h
      exact .inr ⟨id, timer, rfl, .inr ⟨load_eq_ok hload, by simpa using hnone, rfl⟩⟩
  cases h
  exact .inl rfl

end Tinker
