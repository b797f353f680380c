import Tinker.Kernel.Basic
import Tinker.Objects.PipeWakes
import Tinker.Objects.Sleepers

/-!
# What wakes a blocked thread

A thread that blocks is noted by the object it blocks on. The notes are not all taken back when the
thread goes on, and `obj_set_thread_ready` does not ask what a thread waits for. So a thread can be
woken by an object it has long left, and a thread that gets a semaphore wakes the owner whatever
the owner is blocked on.

This file follows why each thread is blocked, and asks that a thread stops being blocked only
through the event it is blocked on.
-/

namespace Tinker

open Tinker.Lib Function Exec SemaSys

/-! ## Calls and waits -/

inductive Wait
  | semaphore (id : ℕ)
  | receiving (r : ℕ)
  | sending (p : ℕ)
  | name (key : Name)
  | asleep (alarm : Option ℕ)
  deriving DecidableEq

/-- A call of an operation that blocks or wakes threads, or the expiry of the alarm timer. -/
inductive WaitCall
  | createSemaphore (name : Name) (initialCount : ℕ) (room : Bool)
  | openSemaphore (name : Name)
  | getSemaphore (thread : ℕ) (semaphore : Option ℕ)
  | releaseSemaphore (thread semaphore : Option ℕ)
  | deleteSemaphore (semaphore : Option ℕ)
  /-- A call of a pipe operation, or anything else that happens to the threads. -/
  | pipe (c : PipeCall)
  /-- The name of some other object is registered. -/
  | register (name : Name) (entry : ObjRef) (room : Bool)
  | unregister (name : Name)
  | sleep (thread : ℕ) (now : TinkerTime) (duration : Option TinkerTime) (room : Bool)
  | timeout

namespace WaitCall

def apply (k : Kernel) : WaitCall → Exec (ReturnT × Kernel)
  | createSemaphore name initialCount room =>
    k.onSemas (objCreateSemaphore · name initialCount room)
  | openSemaphore name => k.onSemas fun k => .ok (objOpenSemaphore k name)
  | getSemaphore thread semaphore => k.onSemas (objGetSemaphore · (some thread) semaphore)
  | releaseSemaphore thread semaphore => k.onSemas (objReleaseSemaphore · thread semaphore)
  | deleteSemaphore semaphore => k.onSemas (objectDeleteSemaphore · semaphore)
  | pipe c => k.onPipes c.apply
  | register name entry room => do
    let (r, sys, reg) ← regsiteryAdd k.toThreadSys k.reg name entry room
    return (r, { k with toThreadSys := sys, reg := reg })
  | unregister name =>
    let (r, reg) := registryRemove k.reg name
    return (r, { k with reg := reg })
  | sleep thread now duration room => k.onAlarms (objThreadSleep · (some thread) now duration room)
  | timeout => do
    let k ← k.alarmTimeout
    return (.noError, k)

def caller : WaitCall → Option ℕ
  | getSemaphore thread _ => some thread
  | pipe (.openPipe thread _ _ _ _ _ _) => some thread
  | pipe (.sendMessage _ thread _ _ _) => some thread
  | pipe (.receiveMessage _ thread _ _ _ _) => some thread
  | sleep thread _ _ _ => some thread
  | _ => none

def wait (k : Kernel) : WaitCall → Option (ℕ × Wait)
  | getSemaphore thread (some o) =>
    (k.semaSys.resolve o).toOption.map fun found => (thread, .semaphore found.1)
  | pipe (.openPipe thread name _ _ _ _ _) => some (thread, .name (registryKey name))
  | pipe (.sendMessage (some p) thread _ _ _) => some (thread, .sending p)
  | pipe (.receiveMessage (some r) thread _ _ _ _) => some (thread, .receiving r)
  | sleep thread _ _ room =>
    some (thread, .asleep (if k.alarms.alarmList.length < maxAlarms ∧ room then
      some k.alarms.alarmBrk else none))
  | _ => none

/-- The threads as the rest of the kernel leaves them. -/
def outside : WaitCall → Option ThreadSys
  | pipe (.elsewhere sys) => some sys
  | _ => none

def Releases (c : WaitCall) (k : Kernel) (id : ℕ) : Prop :=
  ∃ thread o, c = .releaseSemaphore thread (some o) ∧ k.semaSys.leadsTo o id = true

end WaitCall

/-- The call, which has led from `k` to `k'`, is what a thread was blocked on: a release of its
semaphore, a message for the pipe it receives on, a slot freed in a reader of the pipe it sends
on, the registration of its name, or the expiry of its own alarm. -/
def Wait.EndedBy (k : Kernel) (c : WaitCall) (k' : Kernel) : Wait → Prop
  | semaphore id => c.Releases k id
  | receiving r => MessageFor (eventsSince k.trace k'.trace) r
  | sending p => ∃ r ∈ k.pipeSys.readersOf p, SlotFreed (eventsSince k.trace k'.trace) r
  | name key => k.reg.registry key = none ∧ k'.reg.registry key ≠ none
  | asleep alarm => c = .timeout ∧ alarm ≠ none ∧ alarm = k.alarms.nextAlarm.map Alarm.address

/-- The kernel, with a record of why threads are blocked. -/
structure Waits where
  sys : Kernel
  why : ℕ → Option Wait

/-- The step wakes only threads that are blocked on what it does. -/
def Justified (w : Waits) (c : WaitCall) (k : Kernel) : Prop :=
  ∀ t, (w.sys.threads t).state = .waiting → (k.threads t).state ≠ .waiting →
    ∃ x, w.why t = some x ∧ x.EndedBy w.sys c k

namespace Waits

def after (w : Waits) (c : WaitCall) (k : Kernel) : Waits :=
  ⟨k, whyAfter w.why (c.wait w.sys) k.threads⟩

def step (w : Waits) (c : WaitCall) : Exec Waits := do
  let (_, k) ← c.apply w.sys
  return w.after c k

/-- The calls that can be made: the caller runs, and the rest of the kernel neither blocks nor
wakes anybody. -/
def Admitted (w : Waits) (c : WaitCall) : Prop :=
  (∀ t ∈ c.caller, (w.sys.threads t).state.Runnable) ∧
    ∀ sys ∈ c.outside, ∀ t,
      (sys.threads t).state = .waiting ↔ (w.sys.threads t).state = .waiting

/-- The thread is blocked sending on a pipe that has `r` as a reader. -/
def sendsTo (w : Waits) (t r : ℕ) : Bool :=
  match w.why t with
  | some (.sending p) => r ∈ w.sys.pipeSys.readersOf p
  | _ => false

/-- Every blocked thread that a slot freed in the pipe wakes waits for it. -/
def NotesOk (w : Waits) (r : ℕ) : Prop :=
  ∀ q ∈ w.sys.pipeSys.sendersOf r, ∀ t ∈ w.sys.pipeSys.sendingOf q,
    (w.sys.threads t).state = .waiting → w.sendsTo t r = true

/-- The calls that do not come across a thread that is blocked on something else. A get that
raises the first owner finds it not blocked. A slot is freed in a pipe only if the blocked threads
that the senders of the pipe remember are blocked sending to it. The thread whose sleep an
expiring alarm ends is not blocked, or is asleep on that alarm. -/
def WakeOk (w : Waits) : WaitCall → Prop
  | .getSemaphore thread (some o) =>
    ∀ found ∈ (w.sys.semaSys.resolve o).toOption,
      ∀ t ∈ found.2.lendsTo w.sys.toThreadSys thread, (w.sys.threads t).state ≠ .waiting
  | .pipe (.sendMessage (some p) _ sendKind _ _) =>
    ∀ r ∈ w.sys.pipeSys.receivers p sendKind, w.sys.pipeSys.handsOver r = true → w.NotesOk r
  | .pipe (.receiveMessage (some r) _ (some _) (some _) maxSize _) =>
    ∀ pipe ∈ w.sys.pipes r, pipeIsReceiver pipe = true →
      pipe.rxData.freeMessages < pipe.rxData.totalMessages →
      (∀ size ∈ (pipeReadSize pipe).toOption, size ≤ maxSize) → w.NotesOk r
  | .timeout =>
    ∀ t ∈ w.sys.toAlarmSys.rouses, (w.sys.threads t).state = .waiting →
      w.why t = some (.asleep (w.sys.alarms.nextAlarm.map Alarm.address))
  | _ => True

/-- Who is in a queue is blocked on the object that has the queue, and is in it once; and the
recorded receiver of a pipe is blocked receiving on it. -/
structure Queued (w : Waits) : Prop where
  blocked : ∀ t, w.why t ≠ none → (w.sys.threads t).state = .waiting
  listener : ∀ id t, t ∈ w.sys.semaSys.listenersOf id → w.why t = some (.semaphore id)
  once : ∀ id, (w.sys.semaSys.listenersOf id).Nodup
  waiter : ∀ key t, t ∈ w.sys.reg.waiters key → w.why t = some (.name key)
  receiver : ∀ r t, w.sys.pipeSys.ownerOf r = some t → w.why t = some (.receiving r)
  /-- There are no timers, so that alarms are those of sleepers. -/
  timers : ∀ id, w.sys.timers id = none

end Waits

/-- The step wakes only whom it may, and leaves the queues in order. -/
structure Waits.Orderly (w : Waits) (c : WaitCall) (k : Kernel) : Prop where
  justified : Justified w c k
  queued : (w.after c k).Queued

section Steps

variable {w w' : Waits} {c : WaitCall} {k : Kernel} {t u id o r p : ℕ} {x : Wait} {key : Name}
  {result : ReturnT}

theorem WaitCall.caller_of_wait {k : Kernel} (h : c.wait k = some (t, x)) : c.caller = some t := by
  unfold WaitCall.wait at h
  split at h
  · obtain ⟨found, -, hfound⟩ := Option.map_eq_some_iff.mp h
    exact congrArg some (Prod.mk.inj hfound).1
  all_goals first
    | exact congrArg some (Prod.mk.inj (Option.some.inj h)).1
    | cases h

theorem Wait.not_endedBy_receiving {k k' : Kernel} (trace : k'.trace = k.trace) :
    ¬ (Wait.receiving r).EndedBy k c k' := by
  rintro ⟨message, hmem⟩
  rw [trace, eventsSince_self] at hmem
  cases hmem

theorem Wait.not_endedBy_name {k k' : Kernel}
    (same : k'.reg.registry key = k.reg.registry key) : ¬ (Wait.name key).EndedBy k c k' :=
  fun h => h.2 (same.trans h.1)

/-! ## What a call does to the record -/

/-- The thread is blocked after the call, and its reason is an old one or that of the call. -/
def Waits.Entered (w : Waits) (c : WaitCall) (k : Kernel) (t : ℕ) (x : Wait) : Prop :=
  (k.threads t).state = .waiting ∧ (w.why t = some x ∨ c.wait w.sys = some (t, x))

section

variable (queued : w.Queued) (admitted : w.Admitted c)
include queued admitted

theorem Waits.Queued.why_after (entered : w.Entered c k t x) : (w.after c k).why t = some x := by
  obtain ⟨waiting, hold | hnew⟩ := entered
  · refine (whyAfter_of_waiting waiting fun y hy => ?_).trans hold
    -- who is recorded as blocked does not make a call
    have runs := admitted.1 t (WaitCall.caller_of_wait hy)
    exact runs.ne_waiting (queued.blocked t (by simp [hold]))
  change whyAfter w.why (c.wait w.sys) k.threads t = _
  rw [hnew]
  exact whyAfter_caller waiting

/-- The queues are in order if those who are in one after the call have been entered. -/
theorem Waits.Queued.after
    (listener : ∀ id t, t ∈ k.semaSys.listenersOf id → w.Entered c k t (.semaphore id))
    (once : ∀ id, (k.semaSys.listenersOf id).Nodup)
    (waiter : ∀ key t, t ∈ k.reg.waiters key → w.Entered c k t (.name key))
    (receiver : ∀ r t, k.pipeSys.ownerOf r = some t → w.Entered c k t (.receiving r))
    (timers : k.timers = w.sys.timers) : (w.after c k).Queued where
  blocked t hwhy := by
    obtain ⟨x, hx⟩ := Option.ne_none_iff_exists'.mp hwhy
    exact (whyAfter_eq_some hx).1
  listener id t ht := queued.why_after admitted (listener id t ht)
  once := once
  waiter key t ht := queued.why_after admitted (waiter key t ht)
  receiver r t ht := queued.why_after admitted (receiver r t ht)
  timers id := by
    change k.timers id = none
    rw [timers, queued.timers]

theorem Waits.Queued.quiet
    (still : ∀ t, (w.sys.threads t).state = .waiting → (k.threads t).state = .waiting)
    (listener : ∀ id t, t ∈ k.semaSys.listenersOf id → t ∈ w.sys.semaSys.listenersOf id ∨
      w.Entered c k t (.semaphore id)) (once : ∀ id, (k.semaSys.listenersOf id).Nodup)
    (waiter : ∀ key t, t ∈ k.reg.waiters key → t ∈ w.sys.reg.waiters key ∨
      w.Entered c k t (.name key))
    (receiver : ∀ r t, k.pipeSys.ownerOf r = some t → w.sys.pipeSys.ownerOf r = some t ∨
      w.Entered c k t (.receiving r)) (timers : k.timers = w.sys.timers) : w.Orderly c k := by
  refine ⟨fun t hw hno => absurd (still t hw) hno, ?_⟩
  have old : ∀ {t x}, w.why t = some x → w.Entered c k t x := fun h =>
    ⟨still _ (queued.blocked _ (by simp [h])), .inl h⟩
  refine queued.after admitted (fun id t ht => ?_) once (fun key t ht => ?_) (fun r t ht => ?_)
    timers
  · exact (listener id t ht).elim (fun h => old (queued.listener id t h)) fun h => h
  · exact (waiter key t ht).elim (fun h => old (queued.waiter key t h)) fun h => h
  · exact (receiver r t ht).elim (fun h => old (queued.receiver r t h)) fun h => h

theorem Waits.Queued.same :
    w.Orderly c w.sys :=
  queued.quiet admitted (fun _ h => h) (fun _ _ h => .inl h) queued.once (fun _ _ h => .inl h)
    (fun _ _ h => .inl h) rfl

theorem Waits.Queued.woken (justified : Justified w c k)
    (listener : ∀ id t, t ∈ k.semaSys.listenersOf id → t ∈ w.sys.semaSys.listenersOf id ∧
      ((Wait.semaphore id).EndedBy w.sys c k → (k.threads t).state = .waiting))
    (once : ∀ id, (k.semaSys.listenersOf id).Nodup)
    (waiter : ∀ key t, t ∈ k.reg.waiters key → t ∈ w.sys.reg.waiters key ∧
      ((Wait.name key).EndedBy w.sys c k → (k.threads t).state = .waiting))
    (receiver : ∀ r t, k.pipeSys.ownerOf r = some t → w.sys.pipeSys.ownerOf r = some t ∧
      ((Wait.receiving r).EndedBy w.sys c k → (k.threads t).state = .waiting))
    (timers : k.timers = w.sys.timers) : w.Orderly c k := by
  -- a thread stays blocked unless its own event is the call
  have old : ∀ {t x}, w.why t = some x → (x.EndedBy w.sys c k → (k.threads t).state = .waiting) →
      w.Entered c k t x := by
    intro t x hx ended
    refine ⟨?_, .inl hx⟩
    by_contra hno
    obtain ⟨y, hy, hended⟩ := justified t (queued.blocked t (by simp [hx])) hno
    cases hx.symm.trans hy
    exact hno (ended hended)
  refine ⟨justified, queued.after admitted (fun id t ht => ?_) once (fun key t ht => ?_)
    (fun r t ht => ?_) timers⟩
  · exact old (queued.listener id t (listener id t ht).1) (listener id t ht).2
  · exact old (queued.waiter key t (waiter key t ht).1) (waiter key t ht).2
  · exact old (queued.receiver r t (receiver r t ht).1) (receiver r t ht).2

end

/-! ## Registering a name -/

/-- What is not touched but by registering names, deleting objects and adding new ones. -/
structure Waits.Keeps (w : Waits) (k : Kernel) : Prop where
  listener : ∀ id t, t ∈ k.semaSys.listenersOf id → t ∈ w.sys.semaSys.listenersOf id
  once : ∀ id, (k.semaSys.listenersOf id).Nodup
  receiver : ∀ r t, k.pipeSys.ownerOf r = some t → w.sys.pipeSys.ownerOf r = some t
  timers : k.timers = w.sys.timers

theorem Waits.Queued.keeps (queued : w.Queued) (admitted : w.Admitted c) (keeps : w.Keeps k)
    (threads : k.threads = w.sys.threads) (waiting : k.reg.waiting = w.sys.reg.waiting) :
    w.Orderly c k := by
  refine queued.quiet admitted (fun t ht => ?_) (fun id t ht => .inl (keeps.listener id t ht))
    keeps.once (fun key t ht => .inl ?_) (fun r t ht => .inl (keeps.receiver r t ht)) keeps.timers
  · rwa [threads]
  · rwa [Registry.waiters, waiting] at ht

theorem Waits.Queued.register {name : Name} {entry : ObjRef} {room : Bool} {reg : Registry ObjRef}
    {sys : ThreadSys} (queued : w.Queued) (admitted : w.Admitted c)
    (add : regsiteryAdd w.sys.toThreadSys w.sys.reg name entry room = .ok (result, sys, reg))
    (hsys : k.toThreadSys = sys) (hreg : k.reg = reg) (keeps : w.Keeps k)
    (other : ∀ id, ¬ c.Releases w.sys id) (trace : k.trace = w.sys.trace) :
    w.Orderly c k := by
  subst hsys hreg
  rcases regsiteryAdd_cases add with ⟨-, -, hsys, hreg⟩ | ⟨⟨free, -⟩, -, hthreads, -, hreg⟩
  · exact queued.keeps admitted keeps (congrArg (·.threads) hsys) (congrArg (·.waiting) hreg)
  refine queued.woken admitted (fun t hw hno => ?_)
    (fun id t ht => ⟨keeps.listener id t ht, fun h => absurd h (other id)⟩) keeps.once
    (fun key t ht => ?_) (fun r t ht => ⟨keeps.receiver r t ht, fun h =>
      absurd h (Wait.not_endedBy_receiving trace)⟩) keeps.timers
  · -- only those who wait for the name are woken
    have hmem : t ∈ w.sys.reg.waiters (registryKey name) := by
      by_contra hmem
      rw [hthreads, wakeAll_of_notMem hmem] at hno
      exact hno hw
    refine ⟨_, queued.waiter _ t hmem, free, ?_⟩
    simp [hreg]
  simp only [Registry.waiters, hreg] at ht
  have hkey : key ≠ registryKey name := by
    rintro rfl
    simp at ht
  rw [update_of_ne hkey] at ht
  refine ⟨ht, fun h => absurd h (Wait.not_endedBy_name ?_)⟩
  rw [hreg]
  exact update_of_ne hkey _ _

/-! ## Semaphores -/

variable {sys : SemaSys}

section

variable (queued : w.Queued)
include queued

theorem Waits.Queued.keeps_update {obj : Option SemaObj}
    (idle : ∀ sema, obj = some (.owner sema) → sema.listeners = [])
    (semas : k.semas = update w.sys.semas id obj) (pipes : k.pipes = w.sys.pipes)
    (timers : k.timers = w.sys.timers) : w.Keeps k := by
  have hself : k.semaSys.listenersOf id = [] := by
    have hobj : k.semaSys.semas id = obj := by
      change k.semas id = obj
      rw [semas, update_self]
    unfold listenersOf sema?
    rw [hobj]
    match obj, idle with
    | none, _ => rfl
    | some (.link _), _ => rfl
    | some (.owner sema), idle => exact idle sema rfl
  have hother : ∀ i, i ≠ id → k.semaSys.listenersOf i = w.sys.semaSys.listenersOf i := by
    intro i hi
    have hobj : k.semaSys.semas i = w.sys.semaSys.semas i := by
      change k.semas i = _
      rw [semas, update_of_ne hi]
      rfl
    simp [listenersOf, sema?, hobj]
  refine ⟨fun i t ht => ?_, fun i => ?_, fun r t ht => ?_, timers⟩
  · by_cases hi : i = id
    · subst hi
      rw [hself] at ht
      cases ht
    · rwa [hother i hi] at ht
  · by_cases hi : i = id
    · subst hi
      rw [hself]
      exact .nil
    rw [hother i hi]
    exact queued.once i
  have hpipes : k.pipeSys.pipes r = w.sys.pipeSys.pipes r := congrFun pipes r
  rwa [PipeSys.ownerOf, hpipes] at ht

theorem Waits.Queued.createSemaphore {name : Name} {initialCount : ℕ} {room : Bool}
    (admitted : w.Admitted (.createSemaphore name initialCount room))
    (h : objCreateSemaphore w.sys.semaSys name initialCount room = .ok (result, sys)) :
    w.Orderly (.createSemaphore name initialCount room) (w.sys.withSemaSys sys) := by
  obtain ⟨hsemas, -, added, hadd⟩ := objCreateSemaphore_cases h
  refine queued.register admitted hadd rfl rfl (queued.keeps_update ?_ hsemas rfl rfl)
    (fun id h => ?_) rfl
  · rintro sema ⟨⟩
    rfl
  obtain ⟨_, _, hcall, -⟩ := h
  cases hcall

theorem Waits.Queued.openSemaphore {name : Name} (admitted : w.Admitted (.openSemaphore name)) :
    w.Orderly (.openSemaphore name)
      (w.sys.withSemaSys (objOpenSemaphore w.sys.semaSys name).2) := by
  rcases objOpenSemaphore_cases w.sys.semaSys name with hsame | ⟨other, hlink⟩
  · rw [hsame]
    exact queued.same admitted
  rw [hlink]
  exact queued.keeps admitted (queued.keeps_update (by rintro sema ⟨⟩) rfl rfl rfl) rfl rfl

theorem Waits.Queued.getSemaphore {semaphore : Option ℕ}
    (admitted : w.Admitted (.getSemaphore t semaphore)) (ok : w.WakeOk (.getSemaphore t semaphore))
    (h : objGetSemaphore w.sys.semaSys (some t) semaphore = .ok (result, sys)) :
    w.Orderly (.getSemaphore t semaphore) (w.sys.withSemaSys sys) := by
  cases semaphore with
  | none =>
    cases h
    exact queued.same admitted
  | some o =>
    rcases objGetSemaphore_cases h with ⟨-, rfl, -⟩ |
      ⟨id, sema, priority, hresolve, -, -, hreg, -, -, hcases⟩
    · exact queued.same admitted
    have runs := admitted.1 t rfl
    have hlisteners := listenersOf_eq (semas_of_resolve hresolve)
    have hwaiters : ∀ key u, u ∈ sys.reg.waiters key → u ∈ w.sys.reg.waiters key := by
      rw [hreg]
      exact fun _ _ h => h
    rcases hcases with ⟨-, hsame, hsemas⟩ | ⟨-, hsame, hsemas⟩
    · -- the first owner is not blocked, so it is not woken
      have hlend : wake w.sys.threads (sema.lendsTo w.sys.toThreadSys t) = w.sys.threads := by
        cases hl : sema.lendsTo w.sys.toThreadSys t with
        | none => rfl
        | some u =>
          exact wake_of_ne_waiting (ok (id, sema) (by simp [hresolve, Except.toOption]) u hl)
      have hsame : SameStatus (block w.sys.threads t (some (.sema id))) sys.threads := by
        rw [← hlend]
        exact hsame
      have hself : (sys.threads t).state = .waiting := by
        rw [(hsame t).1, waiting_block_self runs.canBlock]
      have hentered : w.Entered (.getSemaphore t (some o)) (w.sys.withSemaSys sys) t
          (.semaphore id) := ⟨hself, .inr (by simp [WaitCall.wait, hresolve, Except.toOption])⟩
      have hqueue : ∀ i, (w.sys.withSemaSys sys).semaSys.listenersOf i =
          if i = id then sema.listeners ++ [t] else w.sys.semaSys.listenersOf i :=
        fun i => listenersOf_update hsemas
      refine queued.quiet admitted (fun u hu => ?_) (fun i u hu => ?_) (fun i => ?_)
        (fun key u hu => .inl (hwaiters key u hu)) (fun _ _ h => .inl h) rfl
      · change (sys.threads u).state = .waiting
        rw [(hsame u).1, waiting_block hu]
      · rw [hqueue] at hu
        split at hu
        next hi =>
          subst hi
          rcases List.mem_append.mp hu with hold | hnew
          · exact .inl (hlisteners ▸ hold)
          · exact .inr (List.mem_singleton.mp hnew ▸ hentered)
        · exact .inl hu
      rw [hqueue]
      split
      · -- a thread that runs is in no queue
        refine List.Nodup.append (hlisteners ▸ queued.once id) (List.nodup_singleton t) ?_
        rw [List.disjoint_singleton]
        intro hmem
        have hwhy := queued.listener id t (hlisteners ▸ hmem)
        exact runs.ne_waiting (queued.blocked t (by simp [hwhy]))
      · exact queued.once i
    have hqueue : ∀ i, (w.sys.withSemaSys sys).semaSys.listenersOf i =
        w.sys.semaSys.listenersOf i := by
      intro i
      refine (listenersOf_update hsemas).trans ?_
      split
      next hi => rw [hi, hlisteners]
      · rfl
    refine queued.quiet admitted (fun u hu => ?_) (fun i u hu => .inl (hqueue i ▸ hu))
      (fun i => hqueue i ▸ queued.once i) (fun key u hu => .inl (hwaiters key u hu))
      (fun _ _ h => .inl h) rfl
    change (sys.threads u).state = .waiting
    rw [(hsame u).1, ← hu]
    rfl

theorem Waits.Queued.releaseSemaphore {thread semaphore : Option ℕ}
    (admitted : w.Admitted (.releaseSemaphore thread semaphore))
    (h : objReleaseSemaphore w.sys.semaSys thread semaphore = .ok (result, sys)) :
    w.Orderly (.releaseSemaphore thread semaphore) (w.sys.withSemaSys sys) := by
  cases semaphore with
  | none =>
    cases h
    exact queued.same admitted
  | some o =>
    obtain ⟨id, sema, hresolve, ⟨-, -, rfl⟩ | ⟨-, -, hreg, -, hsame, -, priority, hsemas⟩⟩ :=
      objReleaseSemaphore_cases h
    · exact queued.same admitted
    have hlisteners := listenersOf_eq (semas_of_resolve hresolve)
    have hqueue : ∀ i, (w.sys.withSemaSys sys).semaSys.listenersOf i =
        if i = id then sema.listeners.tail else w.sys.semaSys.listenersOf i :=
      fun i => listenersOf_update hsemas
    -- whoever is not the first in the queue is left alone
    have hothers : ∀ u, sema.listeners.head? ≠ some u →
        (sys.threads u).state = (w.sys.threads u).state := by
      intro u hu
      rw [(hsame u).1, wake_of_ne hu]
      rfl
    refine queued.woken admitted (fun u hw hno => ?_) (fun i u hu => ?_) (fun i => ?_)
      (fun key u hu => ?_) (fun r u hu => ⟨hu, fun h =>
        absurd h (Wait.not_endedBy_receiving rfl)⟩) rfl
    · have hfirst : sema.listeners.head? = some u := by
        by_contra hne
        exact hno ((hothers u hne).trans hw)
      have hmem : u ∈ w.sys.semaSys.listenersOf id := hlisteners ▸ List.mem_of_head? hfirst
      exact ⟨_, queued.listener id u hmem, thread, o, rfl, (leadsTo_iff id hresolve).mpr rfl⟩
    · rw [hqueue] at hu
      split at hu
      next hi =>
        subst hi
        have hmem : u ∈ w.sys.semaSys.listenersOf i := hlisteners ▸ List.mem_of_mem_tail hu
        refine ⟨hmem, fun _ => ?_⟩
        have hwaiting := queued.blocked u (by simp [queued.listener i u hmem])
        refine (hothers u fun hfirst => ?_).trans hwaiting
        -- nobody is in the queue twice
        have once : sema.listeners.Nodup := hlisteners ▸ queued.once i
        rw [← List.cons_head?_tail hfirst] at once
        exact (List.nodup_cons.mp once).1 hu
      next hi =>
        refine ⟨hu, fun hended => ?_⟩
        obtain ⟨_, _, ⟨⟩, hleads⟩ := hended
        exact absurd ((leadsTo_iff i hresolve).mp hleads).symm hi
    · rw [hqueue]
      split
      · exact (hlisteners ▸ queued.once id : sema.listeners.Nodup).tail
      · exact queued.once i
    have hsame : (w.sys.withSemaSys sys).reg = w.sys.reg := hreg
    rw [hsame] at hu
    exact ⟨hu, fun h => absurd h (Wait.not_endedBy_name (by rw [hsame]))⟩

theorem Waits.Queued.deleteSemaphore {semaphore : Option ℕ}
    (admitted : w.Admitted (.deleteSemaphore semaphore))
    (h : objectDeleteSemaphore w.sys.semaSys semaphore = .ok (result, sys)) :
    w.Orderly (.deleteSemaphore semaphore) (w.sys.withSemaSys sys) := by
  cases semaphore with
  | none =>
    cases h
    exact queued.same admitted
  | some id =>
    obtain ⟨obj, -, h⟩ := of_bind h
    have gone : ∀ k : Kernel, k.semas = update w.sys.semas id none →
        k.pipes = w.sys.pipes → k.timers = w.sys.timers → w.Keeps k :=
      fun _ => queued.keeps_update fun _ h => by cases h
    cases obj with
    | owner sema =>
      cases h
      exact queued.keeps admitted (gone _ rfl rfl rfl) rfl (registryRemove_waiting ..)
    | link target =>
      cases h
      exact queued.keeps admitted (gone _ rfl rfl rfl) rfl rfl

end

/-! ## Names -/

theorem Waits.Queued.unregister {name : Name} (queued : w.Queued)
    (admitted : w.Admitted (.unregister name)) :
    w.Orderly (.unregister name) { w.sys with reg := (registryRemove w.sys.reg name).2 } :=
  queued.keeps admitted ⟨fun _ _ h => h, queued.once, fun _ _ h => h, rfl⟩ rfl
    (registryRemove_waiting ..)

/-! ## Pipes -/

section Pipes

variable {thread : ℕ} {pipeArg : Option ℕ} {net : PipeSys} {name : Name}
  {direction : PipeDirection} {messageSize messages maxSize : ℕ} {memory buffer sizeOut : Option ℕ}
  {room blocking : Bool} {sendKind : PipeSendKind} {message : List UInt8}

theorem Waits.Queued.createPipe (queued : w.Queued)
    (admitted : w.Admitted (.pipe (.createPipe name direction messageSize messages memory room)))
    (h : objCreatePipe w.sys.pipeSys name direction messageSize messages memory room =
      .ok (result, net)) :
    w.Orderly (.pipe (.createPipe name direction messageSize messages memory room))
      (w.sys.withPipeSys net) := by
  rcases objCreatePipe_cases h with rfl | ⟨pipe, sys, reg, hsetup, hadd, rfl⟩
  · exact queued.same admitted
  refine queued.register admitted hadd rfl rfl
    ⟨fun _ _ h => h, queued.once, fun r t ht => ?_, rfl⟩
    (fun id h => ?_) rfl
  · exact ownerOf_addPipe (freshPipe_of_createSetup hsetup) ht
  obtain ⟨_, _, hcall, -⟩ := h
  cases hcall

theorem Waits.Queued.openPipe (queued : w.Queued)
    (admitted : w.Admitted
      (.pipe (.openPipe thread name direction messageSize messages memory room)))
    (h : objOpenPipe w.sys.pipeSys thread name direction messageSize messages memory room =
      .ok (result, net)) :
    w.Orderly (.pipe (.openPipe thread name direction messageSize messages memory room))
      (w.sys.withPipeSys net) := by
  rcases objOpenPipe_cases h with ⟨rfl, -, -⟩ |
    ⟨other, otherPipe, pipe, -, -, -, hsetup, -, rfl⟩ | ⟨-, -, sys, reg, hwait, rfl⟩
  · exact queued.same admitted
  · have fresh := (freshPipe_of_openSetup hsetup).1
    refine queued.keeps admitted ⟨fun _ _ h => h, queued.once, fun r t ht => ?_, rfl⟩ ?_ ?_
    · exact ownerOf_addPipe fresh (ownerOf_link.symm.trans ht)
    · cases direction <;> rfl
    · cases direction <;> rfl
  -- there is no such name, and the caller waits for it
  have runs := admitted.1 thread rfl
  obtain ⟨hthreads, -, rfl⟩ := registryWaitFor_cases hwait
  have hself : (sys.threads thread).state = .waiting := by
    rw [hthreads]
    exact waiting_block_self runs.canBlock
  refine queued.quiet admitted (fun t ht => ?_) (fun _ _ h => .inl h) queued.once
    (fun key t ht => ?_) (fun _ _ h => .inl h) rfl
  · change (sys.threads t).state = .waiting
    rw [hthreads]
    exact waiting_block ht
  rcases mem_waiters_queueUp ht with hold | ⟨rfl, rfl⟩
  · exact .inl hold
  · exact .inr ⟨hself, .inr rfl⟩

theorem Waits.NotesOk.sending (notes : w.NotesOk r) (notified : w.sys.pipeSys.Notified r t)
    (waiting : (w.sys.threads t).state = .waiting) :
    ∃ p, w.why t = some (.sending p) ∧ r ∈ w.sys.pipeSys.readersOf p := by
  obtain ⟨q, hq, hsending⟩ := notified
  have hto := notes q hq t hsending waiting
  unfold Waits.sendsTo at hto
  split at hto
  next p hwhy => exact ⟨p, hwhy, of_decide_eq_true hto⟩
  · cases hto

section

variable (queued : w.Queued)
include queued

theorem Waits.Queued.delivered {rs : List ℕ} (admitted : w.Admitted c)
    (other : ∀ id, ¬ c.Releases w.sys id) (delivered : Delivered w.sys.pipeSys net rs)
    (notes : ∀ r ∈ rs, w.sys.pipeSys.handsOver r = true → w.NotesOk r) :
    w.Orderly c (w.sys.withPipeSys net) := by
  -- who is woken was the receiver of a pipe that got a message, or waits to send to one
  have hwoken : ∀ t, (w.sys.threads t).state = .waiting → (net.threads t).state ≠ .waiting →
      ∃ x, w.why t = some x ∧ x.EndedBy w.sys c (w.sys.withPipeSys net) ∧
        ∀ r, x = .receiving r → net.ownerOf r = none := by
    intro t hw hno
    rcases delivered.woken t hw hno with ⟨r, howner, hnone, hmessage⟩ |
      ⟨r, hr, hands, notified, hfreed⟩
    · refine ⟨_, queued.receiver r t howner, hmessage, ?_⟩
      rintro r' ⟨⟩
      exact hnone
    obtain ⟨q, hwhy, hreader⟩ := (notes r hr hands).sending notified hw
    exact ⟨_, hwhy, ⟨r, hreader, hfreed⟩, fun _ h => by cases h⟩
  refine queued.woken admitted (fun t hw hno => ?_)
    (fun id t ht => ⟨ht, fun h => absurd h (other id)⟩) queued.once (fun key t ht => ?_)
    (fun r t ht => ?_) rfl
  · obtain ⟨x, hwhy, hended, -⟩ := hwoken t hw hno
    exact ⟨x, hwhy, hended⟩
  · have hsame : (w.sys.withPipeSys net).reg = w.sys.reg := delivered.reg
    rw [hsame] at ht
    exact ⟨ht, fun h => absurd h (Wait.not_endedBy_name (by rw [hsame]))⟩
  have hbefore : w.sys.pipeSys.ownerOf r = some t := by
    rcases delivered.owner r with hsame | hnone
    · exact hsame ▸ ht
    · exact absurd (hnone.symm.trans ht) (by simp)
  refine ⟨hbefore, fun _ => ?_⟩
  by_contra hno
  have hwhy := queued.receiver r t hbefore
  obtain ⟨x, hx, -, hgone⟩ := hwoken t (queued.blocked t (by simp [hwhy])) hno
  cases hwhy.symm.trans hx
  exact absurd ((hgone r rfl).symm.trans ht) (by simp)

theorem Waits.Queued.sendMessage
    (admitted : w.Admitted (.pipe (.sendMessage pipeArg thread sendKind message blocking)))
    (ok : w.WakeOk (.pipe (.sendMessage pipeArg thread sendKind message blocking)))
    (h : objPipeSendMessage w.sys.pipeSys pipeArg thread sendKind message blocking =
      .ok (result, net)) : w.Orderly (.pipe (.sendMessage pipeArg thread sendKind message blocking))
      (w.sys.withPipeSys net) := by
  rcases objPipeSendMessage_cases h with ⟨rfl, -⟩ | ⟨p, pipe, rfl, hp, hsender, hcases⟩
  · exact queued.same admitted
  rcases hcases with ⟨-, -, ⟨-, -, rfl⟩ | ⟨-, -, sys, rfl, -, hthreads⟩⟩ | ⟨-, hall, hdeliver⟩
  · exact queued.same admitted
  · refine queued.quiet admitted (fun t ht => ?_) (fun _ _ h => .inl h) queued.once
      (fun _ _ h => .inl h) (fun r t ht => .inl ?_) rfl
    · change (sys.threads t).state = .waiting
      rw [hthreads]
      exact waiting_block ht
    · exact ownerOf_blockedSend.symm.trans ht
  have delivered := delivered_of_deliverAll hdeliver
  have hreaders : pipe.readers = w.sys.pipeSys.readersOf p := by
    simp [PipeSys.readersOf, hp]
  have hreceivers : w.sys.pipeSys.receivers p sendKind =
      (w.sys.pipeSys.readersOf p).filter w.sys.pipeSys.canReceive := by
    refine if_pos ⟨by simp [PipeSys.isSender, hp, hsender], fun hkind => ?_⟩
    exact PipeSys.refused_eq_nil_iff.mpr (hreaders ▸ hall hkind)
  rw [hreaders, ← hreceivers] at delivered
  refine queued.delivered admitted (fun id h => ?_) delivered ok
  obtain ⟨_, _, hcall, -⟩ := h
  cases hcall

theorem Waits.Queued.freed {ts : List ℕ} (admitted : w.Admitted c)
    (other : ∀ id, ¬ c.Releases w.sys id) (notes : w.NotesOk r)
    (threads : net.threads = wakeAll w.sys.threads ts)
    (notified : ∀ t ∈ ts, w.sys.pipeSys.Notified r t)
    (events : SlotFreed (eventsSince w.sys.trace net.trace) r)
    (owner : ∀ q, net.ownerOf q = w.sys.pipeSys.ownerOf q) (reg : net.reg = w.sys.reg) :
    w.Orderly c (w.sys.withPipeSys net) := by
  have hwoken : ∀ t, (w.sys.threads t).state = .waiting → (net.threads t).state ≠ .waiting →
      ∃ p, w.why t = some (.sending p) ∧ r ∈ w.sys.pipeSys.readersOf p := by
    intro t hw hno
    have hmem : t ∈ ts := by
      by_contra hmem
      rw [threads, wakeAll_of_notMem hmem] at hno
      exact hno hw
    exact notes.sending (notified t hmem) hw
  have hsame : (w.sys.withPipeSys net).reg = w.sys.reg := reg
  refine queued.woken admitted (fun t hw hno => ?_)
    (fun id t ht => ⟨ht, fun h => absurd h (other id)⟩) queued.once (fun key t ht => ?_)
    (fun q t ht => ?_) rfl
  · obtain ⟨p, hwhy, hreader⟩ := hwoken t hw hno
    exact ⟨_, hwhy, r, hreader, events⟩
  · rw [hsame] at ht
    exact ⟨ht, fun h => absurd h (Wait.not_endedBy_name (by rw [hsame]))⟩
  have hbefore : w.sys.pipeSys.ownerOf q = some t := (owner q).symm.trans ht
  refine ⟨hbefore, fun _ => ?_⟩
  by_contra hno
  have hwhy := queued.receiver q t hbefore
  obtain ⟨p, hsending, -⟩ := hwoken t (queued.blocked t (by simp [hwhy])) hno
  rw [hwhy] at hsending
  cases hsending

theorem Waits.Queued.receiveMessage (admitted : w.Admitted
      (.pipe (.receiveMessage pipeArg thread buffer sizeOut maxSize blocking)))
    (ok : w.WakeOk (.pipe (.receiveMessage pipeArg thread buffer sizeOut maxSize blocking)))
    (h : objPipeReceiveMessage w.sys.pipeSys pipeArg thread buffer sizeOut maxSize blocking =
      .ok (result, net)) :
    w.Orderly (.pipe (.receiveMessage pipeArg thread buffer sizeOut maxSize blocking))
      (w.sys.withPipeSys net) := by
  rcases objPipeReceiveMessage_cases h with
    ⟨-, rfl⟩ | ⟨p, b, s, pipe, rfl, rfl, rfl, hp, hreceiver, hcases⟩
  · exact queued.same admitted
  rcases hcases with
    ⟨hfull, size, hsize, ⟨-, -, rfl⟩ | ⟨hfits, -, bytes, sys, -, rfl, -, hthreads⟩⟩ |
    ⟨-, -, -, sys, rfl, -, hthreads⟩
  · -- the caller is told the size
    exact queued.keeps admitted ⟨fun _ _ h => h, queued.once, fun _ _ h => h, rfl⟩ rfl rfl
  · have notes : w.NotesOk p := by
      refine ok pipe hp hreceiver hfull fun size' hsize' => ?_
      rw [hsize] at hsize'
      exact Option.some.inj hsize' ▸ hfits
    refine queued.freed admitted (fun id h => ?_) notes hthreads (fun t ht => ?_)
      ⟨b, s, size, bytes, ?_⟩ (fun q => ?_) rfl
    · obtain ⟨_, _, hcall, -⟩ := h
      cases hcall
    · obtain ⟨q, hq, hsending⟩ := PipeSys.mem_sendingThreads.mp ht
      exact ⟨q, by simpa [PipeSys.sendersOf, hp] using hq, hsending⟩
    · change _ ∈ eventsSince w.sys.trace (w.sys.trace ++ [_])
      rw [eventsSince_append]
      exact List.mem_singleton_self _
    rw [ownerOf_update (k := w.sys.pipeSys) rfl]
    split
    next hq => simp [hq, PipeSys.ownerOf, hp, Pipe.acknowledged]
    · rfl
  have runs := admitted.1 thread rfl
  have hself : (sys.threads thread).state = .waiting := by
    rw [hthreads]
    exact waiting_block_self runs.canBlock
  refine queued.quiet admitted (fun t ht => ?_) (fun _ _ h => .inl h) queued.once
    (fun _ _ h => .inl h) (fun r t ht => ?_) rfl
  · change (sys.threads t).state = .waiting
    rw [hthreads]
    exact waiting_block ht
  -- the caller takes the place of whoever was recorded
  have howner := (ownerOf_update (k := w.sys.pipeSys) rfl).symm.trans ht
  split at howner
  next hr =>
    cases howner
    exact .inr ⟨hself, .inr (by rw [hr]; rfl)⟩
  · exact .inl howner

theorem Waits.Queued.deletePipe (admitted : w.Admitted (.pipe (.deletePipe pipeArg)))
    (h : objDeletePipe w.sys.pipeSys pipeArg = .ok (result, net)) :
    w.Orderly (.pipe (.deletePipe pipeArg)) (w.sys.withPipeSys net) := by
  rcases objDeletePipe_cases h with rfl | ⟨p, pipe, -, -, rfl⟩
  · exact queued.same admitted
  exact queued.keeps admitted ⟨fun _ _ h => h, queued.once, fun _ _ => ownerOf_delete, rfl⟩ rfl
    (registryRemove_waiting ..)

theorem Waits.Queued.elsewhere {sys : ThreadSys} (admitted : w.Admitted (.pipe (.elsewhere sys))) :
    w.Orderly (.pipe (.elsewhere sys)) (w.sys.withPipeSys (w.sys.pipeSys.withThreads sys)) :=
  queued.quiet admitted (fun t => (admitted.2 sys rfl t).mpr) (fun _ _ h => .inl h) queued.once
    (fun _ _ h => .inl h) (fun _ _ h => .inl h) rfl

theorem Waits.Queued.pipe {c : PipeCall} (admitted : w.Admitted (.pipe c)) (ok : w.WakeOk (.pipe c))
    (h : c.apply w.sys.pipeSys = .ok (result, net)) :
    w.Orderly (.pipe c) (w.sys.withPipeSys net) := by
  cases c with
  | createPipe name direction messageSize messages memory room =>
    exact queued.createPipe admitted h
  | openPipe thread name direction messageSize messages memory room =>
    exact queued.openPipe admitted h
  | sendMessage pipe thread sendKind message block => exact queued.sendMessage admitted ok h
  | receiveMessage pipe thread message messageSize maxSize block =>
    exact queued.receiveMessage admitted ok h
  | deletePipe pipe => exact queued.deletePipe admitted h
  | elsewhere sys =>
    cases h
    exact queued.elsewhere admitted

end

end Pipes

/-! ## Alarms -/

section Alarms

variable {alarms : AlarmSys} {now : TinkerTime} {duration : Option TinkerTime} {room : Bool}

theorem Waits.Queued.sleep (queued : w.Queued) (admitted : w.Admitted (.sleep t now duration room))
    (h : objThreadSleep w.sys.toAlarmSys (some t) now duration room = .ok (result, alarms)) :
    w.Orderly (.sleep t now duration room) { w.sys with toAlarmSys := alarms } := by
  rcases objThreadSleep_cases h with ⟨-, -, rfl⟩ | ⟨t, d, ⟨⟩, -, -, hthreads, -, -, -, htimers, -⟩
  · exact queued.same admitted
  refine queued.quiet admitted (fun u hu => ?_) (fun _ _ h => .inl h) queued.once
    (fun _ _ h => .inl h) (fun _ _ h => .inl h) htimers
  rw [hthreads]
  by_cases hut : u = t
  · rw [hut, update_self]
  · rwa [update_of_ne hut]

theorem Waits.Queued.timeout (queued : w.Queued) (admitted : w.Admitted .timeout)
    (ok : w.WakeOk .timeout) (h : alarmTimeout w.sys.toAlarmSys = .ok alarms) :
    w.Orderly .timeout { w.sys with toAlarmSys := alarms } := by
  rcases alarmTimeout_cases h with ⟨-, rfl⟩ | ⟨next, alarms₁, hnext, hcall, rfl⟩
  · exact queued.same admitted
  cases huser : next.usrData with
  | timer id =>
    -- there is no timer
    rw [huser] at hcall
    obtain ⟨timer, hload, -⟩ := of_bind hcall
    have htimer := AlarmSys.load_eq_ok hload
    rw [queued.timers id] at htimer
    cases htimer
  | sleeper t =>
    rw [huser] at hcall
    rcases objThreadSleepCallback_cases hcall with ⟨-, rfl⟩ | ⟨hid, hthreads, -, -, -, htimers, -⟩
    · exact queued.keeps admitted ⟨fun _ _ h => h, queued.once, fun _ _ h => h, rfl⟩ rfl rfl
    have hrouses : w.sys.toAlarmSys.rouses = some t := by
      simp [AlarmSys.rouses, hnext, huser, hid]
    have hothers : ∀ u, u ≠ t → alarms₁.threads u = w.sys.threads u := by
      intro u hu
      rw [hthreads, update_of_ne hu]
    refine queued.woken admitted (fun u hw hno => ?_) (fun id u hu => ⟨hu, fun h => ?_⟩)
      queued.once (fun key u hu => ⟨hu, fun h => absurd h (Wait.not_endedBy_name rfl)⟩)
      (fun r u hu => ⟨hu, fun h => absurd h (Wait.not_endedBy_receiving rfl)⟩) htimers
    · have hut : u = t := by
        by_contra hut
        exact hno ((congrArg Thread.state (hothers u hut)).trans hw)
      subst hut
      exact ⟨_, ok u hrouses hw, rfl, by simp [hnext], rfl⟩
    obtain ⟨_, _, hcall, -⟩ := h
    cases hcall

end Alarms

/-! ## Every call -/

theorem Waits.Queued.step (queued : w.Queued) (admitted : w.Admitted c) (ok : w.WakeOk c)
    (h : c.apply w.sys = .ok (result, k)) : w.Orderly c k := by
  unfold WaitCall.apply at h
  cases c with
  | createSemaphore name initialCount room =>
    obtain ⟨sys, hcall, rfl⟩ := Kernel.onSemas_eq_ok h
    exact queued.createSemaphore admitted hcall
  | openSemaphore name =>
    obtain ⟨sys, hcall, rfl⟩ := Kernel.onSemas_eq_ok h
    obtain rfl : (objOpenSemaphore w.sys.semaSys name).2 = sys := by
      rw [Except.ok.inj hcall]
    exact queued.openSemaphore admitted
  | getSemaphore thread semaphore =>
    obtain ⟨sys, hcall, rfl⟩ := Kernel.onSemas_eq_ok h
    exact queued.getSemaphore admitted ok hcall
  | releaseSemaphore thread semaphore =>
    obtain ⟨sys, hcall, rfl⟩ := Kernel.onSemas_eq_ok h
    exact queued.releaseSemaphore admitted hcall
  | deleteSemaphore semaphore =>
    obtain ⟨sys, hcall, rfl⟩ := Kernel.onSemas_eq_ok h
    exact queued.deleteSemaphore admitted hcall
  | pipe c =>
    obtain ⟨net, hcall, rfl⟩ := Kernel.onPipes_eq_ok h
    exact queued.pipe admitted ok hcall
  | register name entry room =>
    obtain ⟨⟨added, sys, reg⟩, hadd, h⟩ := of_bind h
    cases h
    refine queued.register admitted hadd rfl rfl ⟨fun _ _ h => h, queued.once, fun _ _ h => h, rfl⟩
      (fun id h => ?_) rfl
    obtain ⟨_, _, hcall, -⟩ := h
    cases hcall
  | unregister name =>
    cases h
    exact queued.unregister admitted
  | sleep thread now duration room =>
    obtain ⟨alarms, hcall, rfl⟩ := Kernel.onAlarms_eq_ok h
    exact queued.sleep admitted hcall
  | timeout =>
    obtain ⟨k₁, hexpire, h⟩ := of_bind h
    obtain ⟨alarms, htimeout, hexpire⟩ := of_bind hexpire
    cases hexpire
    cases h
    exact queued.timeout admitted ok htimeout

end Steps

/-! ## Runs -/

/-- A kernel in which nobody is recorded as blocked, and no object has been created. -/
structure Waits.Fresh (w : Waits) : Prop where
  why : ∀ t, w.why t = none
  semas : ∀ id, w.sys.semas id = none
  pipes : ∀ p, w.sys.pipes p = none
  waiting : ∀ key, w.sys.reg.waiting key = none
  timers : ∀ id, w.sys.timers id = none

theorem Waits.Fresh.queued {w : Waits} (fresh : w.Fresh) : w.Queued := by
  have hlisteners : ∀ id, w.sys.semaSys.listenersOf id = [] := by
    intro id
    have hnone : w.sys.semaSys.semas id = none := fresh.semas id
    simp [listenersOf, sema?, hnone]
  refine ⟨fun t hwhy => absurd (fresh.why t) hwhy, fun id t ht => ?_, fun id => ?_,
    fun key t ht => ?_, fun r t ht => ?_, fresh.timers⟩
  · rw [hlisteners] at ht
    cases ht
  · rw [hlisteners]
    exact .nil
  · simp [Registry.waiters, fresh.waiting] at ht
  have hnone : w.sys.pipeSys.pipes r = none := fresh.pipes r
  simp [PipeSys.ownerOf, hnone] at ht

/-- In every run whose calls meet `WakeOk`, each step wakes only threads that are blocked on what
it does. -/
theorem justified_of_run {w w' w'' : Waits} {calls : List WaitCall} {c : WaitCall}
    (start : w.Fresh)
    (run : Run Waits.step (fun w c => w.Admitted c ∧ w.WakeOk c) w calls w')
    (admitted : w'.Admitted c) (ok : w'.WakeOk c) (h : w'.step c = .ok w'') :
    Justified w' c w''.sys := by
  have queued : w'.Queued := by
    refine run.invariant start.queued fun w c w' queued guard h => ?_
    obtain ⟨⟨result, k⟩, happly, h⟩ := of_bind h
    cases h
    exact (queued.step guard.1 guard.2 happly).queued
  obtain ⟨⟨result, k⟩, happly, h⟩ := of_bind h
  cases h
  exact (queued.step admitted ok happly).justified

/-- A kernel with threads 1 and 2 of one priority, thread 3 of a higher one, and no objects. -/
def Waits.boot : Exec Waits := do
  let sys ← ThreadSys.boot (fun t => if t = 0 then 0 else if t = 3 then 2 else 1) [1, 2, 3]
  return ⟨{
    toThreadSys := sys
    alarms := alarmInitialse
    timers := fun _ => none
    timerBrk := 0
    reg := registryCreate
    semas := fun _ => none
    semaBrk := 0
    pipes := fun _ => none
    pipeBrk := 0
    trace := []
    context := default
    translationTable := none
    scheduleTimer := false }, fun _ => none⟩

theorem Waits.fresh_of_boot {w : Waits} (start : Waits.boot = .ok w) : w.Fresh := by
  obtain ⟨sys, -, start⟩ := of_bind start
  cases start
  exact ⟨fun _ => rfl, fun _ => rfl, fun _ => rfl, fun _ => rfl, fun _ => rfl⟩

/-- A call by a thread that runs, not by the rest of the kernel. -/
def Waits.Called (w : Waits) (c : WaitCall) : Prop :=
  (∀ t ∈ c.caller, (w.sys.threads t).state.Runnable) ∧ c.outside.isNone

instance Waits.decidableCalled (w : Waits) (c : WaitCall) : Decidable (w.Called c) :=
  inferInstanceAs (Decidable (_ ∧ _))

theorem Waits.Called.admitted {w : Waits} {c : WaitCall} (h : w.Called c) : w.Admitted c := by
  refine ⟨h.1, fun sys hsys => ?_⟩
  rw [Option.isNone_iff_eq_none.mp h.2] at hsys
  cases hsys

deriving instance Decidable for Waits.NotesOk

instance Waits.decidableWakeOk (w : Waits) (c : WaitCall) : Decidable (w.WakeOk c) := by
  unfold WakeOk
  split <;> infer_instance

/-- Thread 2 is blocked on the semaphore that thread 1 holds, thread 3 sleeps and wakes up, and
then thread 1 releases the semaphore. -/
theorem justified_of_run_release : ∃ w w' w'', Waits.boot = .ok w ∧
    Run Waits.step (fun w c => w.Admitted c ∧ w.WakeOk c) w
      [.createSemaphore [97] 1 true, .getSemaphore 1 (some 0), .getSemaphore 2 (some 0),
        .sleep 3 ⟨0, 0⟩ (some ⟨1, 0⟩) true, .timeout] w' ∧
    w'.step (.releaseSemaphore (some 1) (some 0)) = .ok w'' ∧
    (w'.sys.threads 2).state = .waiting ∧ (w''.sys.threads 2).state = .ready ∧
    Justified w' (.releaseSemaphore (some 1) (some 0)) w''.sys := by
  obtain ⟨w, w', start, run, hlast⟩ := exists_run_from Waits.boot Waits.step
    (fun w c => w.Called c ∧ w.WakeOk c)
    [.createSemaphore [97] 1 true, .getSemaphore 1 (some 0), .getSemaphore 2 (some 0),
      .sleep 3 ⟨0, 0⟩ (some ⟨1, 0⟩) true, .timeout]
    (fun w => (w.sys.threads 2).state = .waiting ∧ (w.sys.threads 3).state = .ready ∧
      (w.step (.releaseSemaphore (some 1) (some 0))).toOption.any fun w =>
        (w.sys.threads 2).state = .ready)
    (by decide +kernel)
  obtain ⟨hwaiting, -, hrelease⟩ := of_decide_eq_true hlast
  obtain ⟨w'', hstep, hready⟩ := exists_of_any hrelease
  have admitted : Run Waits.step (fun w c => w.Admitted c ∧ w.WakeOk c) w _ w' :=
    run.mono fun _ _ h => ⟨h.1.admitted, h.2⟩
  have called : w'.Called (.releaseSemaphore (some 1) (some 0)) := by
    refine ⟨fun t ht => ?_, rfl⟩
    cases ht
  exact ⟨w, w', w'', start, admitted, hstep, hwaiting, of_decide_eq_true hready,
    justified_of_run (Waits.fresh_of_boot start) admitted called.admitted trivial hstep⟩

/-- Thread 1 holds the first semaphore and is blocked on the second one, which thread 2 holds. Then
thread 3, of a higher priority, asks for the first one, and thread 1 is ready. -/
theorem not_justified_get : ∃ w w' w'', w.Fresh ∧
    (∃ calls, Run Waits.step Waits.Admitted w calls w') ∧
    w'.Admitted (.getSemaphore 3 (some 0)) ∧ w'.step (.getSemaphore 3 (some 0)) = .ok w'' ∧
    w'.why 1 = some (.semaphore 1) ∧ (w'.sys.threads 1).state = .waiting ∧
    (w''.sys.threads 1).state = .ready ∧ ¬ Justified w' (.getSemaphore 3 (some 0)) w''.sys := by
  obtain ⟨w, w', start, run, hlast⟩ := exists_run_from Waits.boot Waits.step Waits.Called
    [.createSemaphore [97] 1 true, .createSemaphore [98] 1 true, .getSemaphore 1 (some 0),
      .getSemaphore 2 (some 1), .getSemaphore 1 (some 1)]
    (fun w => w.why 1 = some (.semaphore 1) ∧ (w.sys.threads 1).state = .waiting ∧
      w.Called (.getSemaphore 3 (some 0)) ∧
      (w.step (.getSemaphore 3 (some 0))).toOption.any fun w => (w.sys.threads 1).state = .ready)
    (by decide +kernel)
  obtain ⟨hwhy, hwaiting, called, hget⟩ := of_decide_eq_true hlast
  obtain ⟨w'', hstep, hready⟩ := exists_of_any hget
  have hready : (w''.sys.threads 1).state = .ready := of_decide_eq_true hready
  refine ⟨w, w', w'', Waits.fresh_of_boot start, ⟨_, run.mono fun _ _ h => h.admitted⟩,
    called.admitted, hstep, hwhy, hwaiting, hready, fun justified => ?_⟩
  obtain ⟨x, hx, hended⟩ := justified 1 hwaiting (by rw [hready]; decide)
  -- thread 1 is blocked on a release, and the call is none
  cases hwhy.symm.trans hx
  obtain ⟨_, _, hcall, -⟩ := hended
  cases hcall

end Tinker
