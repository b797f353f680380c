import Tinker.Kernel.Basic
import Tinker.Scheduler.Dispatch
import Tinker.Scheduler.Queues

/-!
# Which ready queue a thread is in

A thread that can run should stand once in the queue of its priority, and a thread that cannot in
none. Three kinds of events do otherwise: a change of priority queues a thread that was in no
queue, the rotation of a queue of two drops one of them and doubles the other, and a dispatch for a
thread that is said to be running sets it ready even if it has been blocked since.
-/

namespace Tinker

open Tinker.Lib Tinker.Collections Function Exec Thread ThreadState

/-- How often a thread should stand in the queue of the priority `p`. -/
def Thread.places (thread : Thread) (p : Priority) : ℕ :=
  if thread.state.Runnable ∧ thread.priority = p then 1 else 0

/-- Every thread that can run is met once on the way through the queue of its priority, and no
thread is met in any other queue. -/
def ReadyQueues (k : Kernel) : Prop :=
  ∀ t p, (k.sched.queue p).items.count t = (k.threads t).places p

/-- The events that change the state or the priority of threads, or the queues. -/
inductive QueueCall
  | createThread (new : NewThread)
  | exitThread (o : Option ℕ)
  | sleep (o : Option ℕ) (now : TinkerTime) (duration : Option TinkerTime) (room : Bool)
  /-- The alarm timer expires, and wakes a sleeper. -/
  | alarm
  | setWaiting (o : Option ℕ) (waitingOn : Option ObjRef)
  | setReady (o : Option ℕ)
  | setPriority (o : Option ℕ) (priority : Priority)
  | resetPriority (o : Option ℕ)
  | setContext (threadState : ThreadState)

open QueueCall

namespace QueueCall

def step (k : Kernel) : QueueCall → Exec Kernel
  | createThread new => do
    let (_, _, sys) ← procCreateThread k.toThreadSys new
    return { k with toThreadSys := sys }
  | exitThread o => do
    let (_, k) ← k.onThreads (objExitThread · o)
    return k
  | sleep o now duration room => do
    let (_, k) ← k.onAlarms (objThreadSleep · o now duration room)
    return k
  | alarm => k.alarmTimeout
  | setWaiting o waitingOn => do
    let (_, k) ← k.onThreads (objSetThreadWaiting · o waitingOn)
    return k
  | setReady o => do
    let (_, k) ← k.onThreads (objSetThreadReady · o)
    return k
  | setPriority o priority => do
    let (_, k) ← k.onThreads (objSetThreadPriority · o priority)
    return k
  | resetPriority o => do
    let (_, k) ← k.onThreads (objResetThreadOriginalPriority · o)
    return k
  | setContext threadState => k.setContext threadState

def Called (k : Kernel) : QueueCall → Prop
  | createThread new =>
    (k.threads new.thread).state = .notCreated ∨ (k.threads new.thread).state = .terminated
  | _ => True

def CanRun (k : Kernel) : Option ℕ → Prop
  | some t => (k.threads t).state.Runnable
  | none => True

theorem canRun_iff {k : Kernel} {o : Option ℕ} :
    CanRun k o ↔ ∀ t, o = some t → (k.threads t).state.Runnable := by
  cases o <;> simp [CanRun]

/-- A thread that is created gets its stack exactly if it gets an object in the tables. A
priority is changed only for a thread that can run. A dispatch does not find two threads in the
queue being served; and if it is for a thread that is said to be running, the current thread
can run, or it is the idle thread and nothing else is to be done. -/
def KeepsQueues (k : Kernel) : QueueCall → Prop
  | createThread new =>
    new.memory = true → (new.stack = true ↔ new.slot = true ∧ new.object = true)
  | setPriority o priority => priority = 0 ∨ CanRun k o
  | resetPriority o => CanRun k o
  | setContext threadState =>
    queueSize (k.sched.queue k.sched.currQueue) ≠ 2 ∧
      (threadState = .running → CanRun k k.sched.currThread ∨
        (queueSize (k.sched.queue k.sched.currQueue) = 0 ∧
          k.sched.currThread = k.sched.idleThread ∧ k.sched.evalNewThread = false))
  | exitThread _ | sleep _ _ _ _ | alarm | setWaiting _ _ | setReady _ => True

instance decidableCalled (k : Kernel) (c : QueueCall) : Decidable (c.Called k) := by
  unfold Called
  split <;> infer_instance

instance decidableCanRun (k : Kernel) (o : Option ℕ) : Decidable (CanRun k o) := by
  unfold CanRun
  split <;> infer_instance

instance decidableKeepsQueues (k : Kernel) (c : QueueCall) : Decidable (c.KeepsQueues k) := by
  unfold KeepsQueues
  split <;> infer_instance

end QueueCall

/-! ## Counting -/

/-- Every thread is in the sequence of its priority once if it can run, and in no other. -/
def Counts (threads : Threads) (queues : Priority → List ℕ) : Prop :=
  ∀ t p, (queues p).count t = (threads t).places p

section Counting

variable {threads threads' : Threads} {queues queues' : Priority → List ℕ} {t u : ℕ}
  {p q r : Priority}

theorem Counts.update_iff (h : Counts threads queues)
    (hthreads : ∀ u, u ≠ t → threads' u = threads u)
    (hqueues : ∀ u, u ≠ t → ∀ p, (queues' p).count u = (queues p).count u) :
    Counts threads' queues' ↔ ∀ p, (queues' p).count t = (threads' t).places p := by
  constructor
  · intro h' p
    exact h' t p
  intro ht u p
  by_cases hu : u = t
  · subst hu
    exact ht p
  rw [hqueues u hu, hthreads u hu]
  exact h u p

theorem count_enqueue_of_ne (hu : u ≠ t) (ts : List ℕ) : (enqueue t ts).count u = ts.count u := by
  unfold enqueue
  split
  · rfl
  · simp [List.count_append, Ne.symm hu]

theorem count_enqueue_self {ts : List ℕ} (h : ts.count t ≤ 1) : (enqueue t ts).count t = 1 := by
  unfold enqueue
  split
  next hmem =>
    have hpos := List.count_pos_iff.mpr hmem
    omega
  next hmem => simp [List.count_append, List.count_eq_zero.mpr hmem]

theorem Thread.places_le_one (thread : Thread) (p : Priority) : thread.places p ≤ 1 := by
  unfold places
  split <;> omega

theorem Counts.arrive (h : Counts threads queues) (hthreads : ∀ u, u ≠ t → threads' u = threads u)
    (hrun : (threads' t).state.Runnable)
    (hprio : (threads t).state.Runnable → (threads t).priority = (threads' t).priority) :
    Counts threads' (update queues (threads' t).priority
      (enqueue t (queues (threads' t).priority))) := by
  refine (h.update_iff hthreads fun u hu p => ?_).mpr fun p => ?_
  · by_cases hp : p = (threads' t).priority
    · subst hp
      rw [update_self, count_enqueue_of_ne hu]
    · rw [update_of_ne hp]
  by_cases hp : p = (threads' t).priority
  · subst hp
    rw [update_self, count_enqueue_self (by rw [h]; exact places_le_one _ _)]
    simp [places, hrun]
  rw [update_of_ne hp, h, places, places, if_neg, if_neg]
  · exact fun e => hp e.2.symm
  rintro ⟨hold, rfl⟩
  exact hp (hprio hold)

theorem Counts.depart (h : Counts threads queues) (hthreads : ∀ u, u ≠ t → threads' u = threads u)
    (hstop : ¬ (threads' t).state.Runnable) (hprio : (threads' t).priority = (threads t).priority) :
    Counts threads' (update queues (threads' t).priority
      ((queues (threads' t).priority).erase t)) := by
  refine (h.update_iff hthreads fun u hu p => ?_).mpr fun p => ?_
  · by_cases hp : p = (threads' t).priority
    · subst hp
      rw [update_self, List.count_erase_of_ne hu]
    · rw [update_of_ne hp]
  rw [places, if_neg fun e => hstop e.1]
  by_cases hp : p = (threads' t).priority
  · subst hp
    rw [update_self, List.count_erase_self, h]
    have hle := places_le_one (threads t) (threads' t).priority
    omega
  rw [update_of_ne hp, h, places, if_neg]
  rintro ⟨-, rfl⟩
  exact hp hprio.symm

theorem Counts.move_iff (h : Counts threads queues) :
    Counts (threadSetPriority threads t q) (moveThread queues t (threads t).priority q) ↔
      (threads t).state.Runnable := by
  have hself : threadSetPriority threads t q t = { threads t with priority := q } := by
    simp [threadSetPriority]
  -- what is left of the thread once it has been taken out of its old queue
  have hremoved : ∀ r, (update queues (threads t).priority
      ((queues (threads t).priority).erase t) r).count t = 0 := by
    intro r
    by_cases hr : r = (threads t).priority
    · subst hr
      rw [update_self, List.count_erase_self, h]
      have hle := places_le_one (threads t) (threads t).priority
      omega
    · rw [update_of_ne hr, h, places, if_neg fun e => hr e.2.symm]
  rw [h.update_iff (t := t) (fun u hu => by simp [threadSetPriority, hu]) fun u hu r => ?_]
  · constructor
    · intro hall
      have hq := hall q
      rw [moveThread, update_self, List.count_append, hremoved, hself] at hq
      by_contra hnot
      simp [places, hnot] at hq
    intro hrun r
    rw [hself, moveThread]
    by_cases hr : r = q
    · subst hr
      rw [update_self, List.count_append, hremoved]
      simp [places, hrun]
    · rw [update_of_ne hr, hremoved, places, if_neg fun e => hr e.2.symm]
  unfold moveThread
  have herase : ∀ r, (update queues (threads t).priority
      ((queues (threads t).priority).erase t) r).count u = (queues r).count u := by
    intro r
    by_cases hr : r = (threads t).priority
    · subst hr
      rw [update_self, List.count_erase_of_ne hu]
    · rw [update_of_ne hr]
  by_cases hr : r = q
  · subst hr
    rw [update_self, List.count_append, herase]
    simp [Ne.symm hu]
  · rw [update_of_ne hr, herase]

end Counting

/-! ## One event -/

/-- After an event the queues hold sequences, and every thread is in its place in them exactly
if `P` holds. -/
def QueuesKept (P : Prop) (sys : ThreadSys) : Prop :=
  ∃ queues, sys.sched.Holds queues ∧ (Counts sys.threads queues ↔ P)

section Events

variable {sys sys' : ThreadSys} {queues : Priority → List ℕ} {o : Option ℕ} {r : ReturnT}
  {t : ℕ} {p : Priority}

section

variable (holds : sys.sched.Holds queues) (counts : Counts sys.threads queues)
include holds counts

theorem queuesKept_same :
    QueuesKept True sys :=
  ⟨queues, holds, iff_of_true counts trivial⟩

theorem queuesKept_arrive {threads : Threads}
    (hthreads : ∀ u, u ≠ t → sys'.threads u = sys.threads u)
    (hrun : (sys'.threads t).state.Runnable) (hprio : (sys.threads t).state.Runnable →
      (sys.threads t).priority = (sys'.threads t).priority)
    (hsame : (threads t).priority = (sys'.threads t).priority)
    (hsched : schNotifyNewThread threads sys.sched t = .ok sys'.sched) : QueuesKept True sys' := by
  have holds' := holds.newThread hsched
  rw [hsame] at holds'
  exact ⟨_, holds', iff_of_true (counts.arrive hthreads hrun hprio) trivial⟩

theorem queuesKept_depart {s : Scheduler} (hthreads : ∀ u, u ≠ t → sys'.threads u = sys.threads u)
    (hstop : ¬ (sys'.threads t).state.Runnable)
    (hprio : (sys'.threads t).priority = (sys.threads t).priority)
    (hsched : schNotifyExitThread sys'.threads sys.sched t = .ok s)
    (hsame : sys'.sched.priorityQueues = s.priorityQueues) : QueuesKept True sys' :=
  ⟨_, (holds.exitThread hsched).congr hsame,
    iff_of_true (counts.depart hthreads hstop hprio) trivial⟩

theorem objSetThreadReady_queuesKept (h : objSetThreadReady sys o = .ok (r, sys')) :
    QueuesKept True sys' := by
  cases o with
  | none =>
    cases h
    exact queuesKept_same holds counts
  | some t =>
    simp only [objSetThreadReady] at h
    split at h
    · obtain ⟨sched, hsched, h⟩ := of_bind h
      cases h
      refine queuesKept_arrive (t := t) holds counts (fun u hu => ?_) ?_ (fun _ => ?_) rfl hsched
      · simp [threadSetState, threadSetWaitingOn, hu]
      · simp [threadSetState, threadSetWaitingOn, Runnable]
      · simp [threadSetState, threadSetWaitingOn]
    cases h
    exact queuesKept_same holds counts

theorem objSetThreadWaiting_queuesKept {w : Option ObjRef}
    (h : objSetThreadWaiting sys o w = .ok (r, sys')) : QueuesKept True sys' := by
  cases o with
  | none =>
    cases h
    exact queuesKept_same holds counts
  | some t =>
    simp only [objSetThreadWaiting] at h
    split at h
    · obtain ⟨sched, hsched, h⟩ := of_bind h
      cases h
      refine queuesKept_depart (t := t) holds counts (fun u hu => ?_) ?_ ?_ hsched rfl
      · simp [threadSetState, threadSetWaitingOn, hu]
      · simp [threadSetState, threadSetWaitingOn, Runnable]
      · simp [threadSetState, threadSetWaitingOn]
    cases h
    exact queuesKept_same holds counts

theorem objExitThread_queuesKept (h : objExitThread sys o = .ok (r, sys')) :
    QueuesKept True sys' := by
  cases o with
  | none =>
    cases h
    exact queuesKept_same holds counts
  | some t =>
    simp only [objExitThread] at h
    split at h
    · obtain ⟨sched, hsched, h⟩ := of_bind h
      cases h
      refine queuesKept_depart (t := t) holds counts (fun u hu => ?_) ?_ ?_ hsched ?_
      · simp [threadSetState, hu]
      · simp [threadSetState, Runnable]
      · simp [threadSetState]
      dsimp only [schNotifyTerminated]
      split <;> rfl
    cases h
    exact queuesKept_same holds counts

theorem queuesKept_move {P : Prop} (hP : (sys.threads t).state.Runnable ↔ P)
    (hthreads : sys'.threads = threadSetPriority sys.threads t p)
    (hsched : schNotifyChangePriority sys'.threads sys.sched t (sys.threads t).priority =
      .ok sys'.sched) : QueuesKept P sys' := by
  have holds' := holds.changePriority hsched
  have hprio : (sys'.threads t).priority = p := by simp [hthreads, threadSetPriority]
  rw [hprio] at holds'
  exact ⟨_, holds', hthreads ▸ counts.move_iff.trans hP⟩

theorem objSetThreadPriority_queuesKept (h : objSetThreadPriority sys o p = .ok (r, sys')) :
    QueuesKept (p = 0 ∨ ∀ t, o = some t → (sys.threads t).state.Runnable) sys' := by
  cases o with
  | none =>
    cases h
    exact ⟨queues, holds, iff_of_true counts (.inr nofun)⟩
  | some t =>
    simp only [objSetThreadPriority] at h
    split at h
    next hp =>
      obtain ⟨sched, hsched, h⟩ := of_bind h
      cases h
      exact queuesKept_move holds counts (by simp [hp]) rfl hsched
    next hp =>
      cases h
      exact ⟨queues, holds, iff_of_true counts (.inl (not_not.mp hp))⟩

theorem objResetThreadOriginalPriority_queuesKept
    (h : objResetThreadOriginalPriority sys o = .ok (r, sys')) :
    QueuesKept (∀ t, o = some t → (sys.threads t).state.Runnable) sys' := by
  cases o with
  | none =>
    cases h
    exact ⟨queues, holds, iff_of_true counts nofun⟩
  | some t =>
    obtain ⟨sched, hsched, h⟩ := of_bind h
    cases h
    exact queuesKept_move holds counts (by simp) rfl hsched

/-- A thread that is created is in its place if it has got a stack exactly if it has got an
object. -/
theorem procCreateThread_queuesKept {new : NewThread} {created : Option ℕ}
    (called : (sys.threads new.thread).state = .notCreated ∨
      (sys.threads new.thread).state = .terminated)
    (h : procCreateThread sys new = .ok (r, created, sys')) :
    QueuesKept (new.memory = true → (new.stack = true ↔ new.slot = true ∧ new.object = true))
      sys' := by
  have hold : ¬ (sys.threads new.thread).state.Runnable := by
    rcases called with hst | hst <;> rw [hst] <;> decide
  have hnone : ∀ p, (queues p).count new.thread = 0 := fun p => by
    rw [counts, places, if_neg fun e => hold e.1]
  rcases procCreateThread_cases h with ⟨hmemory, -, -, rfl⟩ | ⟨hmemory, hthreads, -, -, hcases⟩
  · exact ⟨queues, holds, iff_of_true counts fun h => by simp [hmemory] at h⟩
  have hself : sys'.threads new.thread = new.record := by simp [hthreads]
  have hother : ∀ u, u ≠ new.thread → sys'.threads u = sys.threads u := fun u hu => by
    simp [hthreads, hu]
  have hrun : (sys'.threads new.thread).state.Runnable ↔ new.stack = true := by
    rw [hself]
    cases hstack : new.stack <;> simp [NewThread.record, Runnable, hstack]
  simp only [hmemory, forall_const]
  rcases hcases with ⟨hslot, hobject, hsched, -⟩ | ⟨hfail, hsched, -⟩
  · refine ⟨_, holds.newThread hsched, ?_⟩
    simp only [hslot, hobject, and_self, iff_true]
    constructor
    · intro counts'
      have hplace := counts' new.thread (sys'.threads new.thread).priority
      rw [update_self, count_enqueue_self (by rw [hnone]; exact Nat.zero_le 1)] at hplace
      by_contra hstack
      rw [places, if_neg fun e => hstack (hrun.mp e.1)] at hplace
      cases hplace
    intro hstack
    exact counts.arrive hother (hrun.mpr hstack) fun h => absurd h hold
  refine ⟨queues, hsched ▸ holds, ?_⟩
  rw [counts.update_iff hother fun _ _ _ => rfl]
  simp only [hfail, iff_false]
  constructor
  · intro hplaces hstack
    have hplace := hplaces (sys'.threads new.thread).priority
    rw [hnone, places, if_pos ⟨hrun.mpr hstack, rfl⟩] at hplace
    cases hplace
  intro hstack p
  rw [hnone, places, if_neg fun e => hstack (hrun.mp e.1)]

end

theorem objThreadSleep_queuesKept {k k' : AlarmSys} {now : TinkerTime}
    {duration : Option TinkerTime} {room : Bool} (holds : k.sched.Holds queues)
    (counts : Counts k.threads queues) (h : objThreadSleep k o now duration room = .ok (r, k')) :
    QueuesKept True k'.toThreadSys := by
  rcases objThreadSleep_cases h with ⟨-, -, rfl⟩ | ⟨t, d, -, -, -, hthreads, hsched, -⟩
  · exact queuesKept_same holds counts
  refine queuesKept_depart (t := t) holds counts (fun u hu => ?_) ?_ ?_ hsched rfl
  · simp [hthreads, hu]
  · simp [hthreads, Runnable]
  · simp [hthreads]

/-- An alarm puts the thread that it was set for into its queue, whatever it was doing. -/
theorem alarmTimeout_queuesKept {k k' : AlarmSys} (holds : k.sched.Holds queues)
    (counts : Counts k.threads queues) (h : alarmTimeout k = .ok k') :
    QueuesKept True k'.toThreadSys := by
  rcases alarmTimeout_cases h with ⟨-, rfl⟩ | ⟨next, k₁, -, hcall, rfl⟩
  · exact queuesKept_same holds counts
  cases huser : next.usrData with
  | sleeper t =>
    rw [huser] at hcall
    rcases objThreadSleepCallback_cases hcall with ⟨-, rfl⟩ | ⟨-, hthreads, hsched, -⟩
    · exact queuesKept_same holds counts
    refine queuesKept_arrive (t := t) holds counts (fun u hu => ?_) ?_ (fun _ => ?_) rfl hsched
    · simp [hthreads, hu]
    · simp [hthreads, Runnable]
    · simp [hthreads]
  | timer id =>
    rw [huser] at hcall
    obtain ⟨timer, -, ⟨-, rfl⟩ | ⟨-, hthreads, hsched, -⟩⟩ := objTimerTimeout_cases hcall
    · exact queuesKept_same holds counts
    refine queuesKept_arrive (t := timer.callbackThread) holds counts (fun u hu => ?_) ?_
      (fun _ => ?_) ?_ hsched
    · simp [hthreads, hu]
    · simp [hthreads, Timer.handed, Runnable]
    · simp [hthreads, Timer.handed]
    · simp [hthreads, Timer.handed, threadSetState, threadSetWaitingOn]

end Events

/-! ## One dispatch -/

section Dispatch

variable {k : Core} {st : ThreadState} {front : Option ℕ} {l : ListT ℕ} {k' : Core}
  {queues : Priority → List ℕ}

theorem Counts.runnable_of_head {threads : Threads} {p : Priority} {t : ℕ}
    (counts : Counts threads queues) (hhead : (queues p).head? = some t) :
    (threads t).state.Runnable := by
  have hpos := List.count_pos_iff.mpr (List.mem_of_mem_head? hhead)
  by_contra hnot
  rw [counts, places, if_neg fun e => hnot e.1] at hpos
  exact absurd hpos (Nat.lt_irrefl 0)

section

variable (holds : k.sched.Holds queues) (counts : Counts k.threads queues)
  (hhead : queueFront (k.sched.queue k.sched.currQueue) = .ok front)
include holds counts hhead

/-- A current thread that cannot run is left alone only if it is the idle thread, no thread is
queued and no event has been noted. -/
theorem switches_iff_of_not_runnable {c : ℕ} (hcurrent : k.sched.currThread = some c)
    (hstop : ¬ (k.threads c).state.Runnable) :
    k.Switches front ↔ ¬ (queueSize (k.sched.queue k.sched.currQueue) = 0 ∧
      k.sched.currThread = k.sched.idleThread ∧ k.sched.evalNewThread = false) := by
  have hqueue := holds k.sched.currQueue
  obtain rfl := Except.ok.inj (hqueue.listGet_zero.symm.trans hhead)
  rw [queueSize, listSize, hqueue.size_eq, Core.Switches]
  cases hts : queues k.sched.currQueue with
  | nil => simp [Core.next, hcurrent, hstop, imp_iff_not_or]
  | cons f ts =>
    -- the thread at the head can run, so it is another one
    have hrun := counts.runnable_of_head (p := k.sched.currQueue) (t := f) (by rw [hts]; rfl)
    have hne : c ≠ f := by
      rintro rfl
      exact hstop hrun
    simp [Core.next, hcurrent, hrun, hne]

theorem left_runnable_iff :
    (∀ u, k.sched.currThread = some u → k.Switches front → (k.threads u).state.Runnable) ↔
      (∀ u, k.sched.currThread = some u → (k.threads u).state.Runnable) ∨
        (queueSize (k.sched.queue k.sched.currQueue) = 0 ∧
          k.sched.currThread = k.sched.idleThread ∧ k.sched.evalNewThread = false) := by
  by_cases hrun : ∀ u, k.sched.currThread = some u → (k.threads u).state.Runnable
  · exact iff_of_true (fun u hu _ => hrun u hu) (.inl hrun)
  simp only [hrun, false_or]
  push Not at hrun
  obtain ⟨c, hcurrent, hstop⟩ := hrun
  have hiff := switches_iff_of_not_runnable holds counts hhead hcurrent hstop
  constructor
  · intro hleft
    by_contra hnot
    exact hstop (hleft c hcurrent (hiff.mpr hnot))
  intro hidle u _ hswitch
  exact absurd hidle (hiff.mp hswitch)

end

theorem Dispatched.runnable_iff (d : Dispatched k st front l k') (u : ℕ) :
    (k'.threads u).state.Runnable ↔ (k.threads u).state.Runnable ∨
      (k.Switches front ∧ st = .running ∧ k.sched.currThread = some u) := by
  rw [d.state u]
  by_cases hleft : k.Switches front ∧ st = .running ∧ k.sched.currThread = some u
  · rw [if_pos hleft]
    exact iff_of_true (by decide) (.inr hleft)
  rw [if_neg hleft]
  simp only [hleft, or_false]
  by_cases htakes : k.Takes front u
  · rw [if_pos htakes]
    exact iff_of_true (by decide) htakes.2
  · rw [if_neg htakes]

/-- If the queues hold the same threads as before, they hold the right ones exactly if no
thread is set ready that cannot run. -/
theorem Dispatched.counts_iff (d : Dispatched k st front l k') {queues' : Priority → List ℕ}
    (counts : Counts k.threads queues) (hperm : ∀ p, (queues' p).Perm (queues p)) :
    Counts k'.threads queues' ↔ (st = .running → ∀ u, k.sched.currThread = some u →
      k.Switches front → (k.threads u).state.Runnable) := by
  have hcount : ∀ t p, (queues' p).count t = (k.threads t).places p := fun t p => by
    rw [(hperm p).count_eq, counts]
  constructor
  · intro counts' hst u hu hswitch
    have hrun := (d.runnable_iff u).mpr (.inr ⟨hswitch, hst, hu⟩)
    have hplace := counts' u (k.threads u).priority
    by_contra hnot
    rw [hcount, places, if_neg fun e => hnot e.1, places, if_pos ⟨hrun, d.priority u⟩] at hplace
    cases hplace
  intro hkeep t p
  rw [hcount, places, places, d.priority t]
  refine if_congr (and_congr_left fun _ => ?_) rfl rfl
  rw [d.runnable_iff t]
  constructor
  · exact .inl
  rintro (hrun | ⟨hswitch, hst, ht⟩)
  · exact hrun
  · exact hkeep hst t ht hswitch

end Dispatch

/-! ## Runs -/

/-- The queues hold sequences of threads, and every thread is in its place. -/
def InQueues (k : Kernel) : Prop :=
  ∃ queues, k.sched.Holds queues ∧ Counts k.threads queues

section Runs

variable {k k' : Kernel}

theorem InQueues.readyQueues (h : InQueues k) : ReadyQueues k := by
  obtain ⟨queues, holds, counts⟩ := h
  intro t p
  rw [(holds p).items_eq]
  exact counts t p

theorem QueuesKept.readyQueues {P : Prop} (h : QueuesKept P k.toThreadSys) :
    (ReadyQueues k ↔ P) ∧ (P → InQueues k) := by
  obtain ⟨queues, holds, hiff⟩ := h
  refine ⟨?_, fun hP => ⟨queues, holds, hiff.mpr hP⟩⟩
  rw [← hiff, ReadyQueues, Counts]
  simp only [(holds _).items_eq]

theorem InQueues.setContext {st : ThreadState} (h : InQueues k) (hk : k.setContext st = .ok k') :
    (ReadyQueues k' ↔ (setContext st).KeepsQueues k) ∧
      ((setContext st).KeepsQueues k → InQueues k') := by
  obtain ⟨core, hcore, rfl⟩ := Kernel.setContext_eq_ok hk
  obtain ⟨front, l, d⟩ := exists_dispatched hcore
  obtain ⟨queues, holds, counts⟩ := h
  have hqueue := holds k.sched.currQueue
  have hsize : queueSize (k.sched.queue k.sched.currQueue) = (queues k.sched.currQueue).length :=
    hqueue.size_eq
  have hqueues : ∀ p, (k.withCore core).sched.queue p =
      update k.sched.priorityQueues k.sched.currQueue l p := fun p => congrFun d.queues p
  -- either the queue keeps its threads, or it had two of them
  have hrotated : (queues k.sched.currQueue).length ≠ 2 ∧
        (∃ ys, IsQueue l ys ∧ ys.Perm (queues k.sched.currQueue)) ∨
      ∃ x z, queues k.sched.currQueue = [x, z] ∧ l.items = [z, z] := by
    rcases d.rotated with ⟨hnone, rfl⟩ | hrotate
    · have hnil : (queues k.sched.currQueue).head? = none := by
        rw [← Except.ok.inj (d.head.symm.trans hqueue.listGet_zero)]
        exact (Option.or_eq_none_iff.mp hnone).1
      rw [List.head?_eq_none_iff] at hnil
      exact .inl ⟨by rw [hnil]; decide, _, hqueue, .refl _⟩
    · exact hqueue.perm_or_pair hrotate
  rcases hrotated with ⟨hlength, ys, hys, hperm⟩ | ⟨x, z, hpair, hitems⟩
  · have holds' : (k.withCore core).sched.Holds (update queues k.sched.currQueue ys) :=
      (holds.setQueue hys).congr d.queues
    have hkept : QueuesKept ((setContext st).KeepsQueues k)
        (k.withCore core).toThreadSys := by
      refine ⟨_, holds', (d.counts_iff counts fun p => ?_).trans ?_⟩
      · by_cases hp : p = k.sched.currQueue
        · subst hp
          simpa using hperm
        · rw [update_of_ne hp]
      rw [KeepsQueues, hsize, and_iff_right hlength, ← hsize]
      refine forall_congr' fun _ => ?_
      rw [canRun_iff]
      exact left_runnable_iff holds counts d.head
    exact hkept.readyQueues
  have hnot : ¬ (setContext st).KeepsQueues k := fun h => by
    rw [KeepsQueues, hsize, hpair] at h
    exact h.1 rfl
  refine ⟨iff_of_false (fun ready => ?_) hnot, fun h => absurd h hnot⟩
  -- the thread that was second is now there twice
  have htwice := ready z k.sched.currQueue
  rw [hqueues, update_self, hitems] at htwice
  have hle := places_le_one ((k.withCore core).threads z) k.sched.currQueue
  simp at htwice
  omega

theorem QueueCall.onThreads_eq_ok {f : ThreadSys → Exec (ReturnT × ThreadSys)}
    (h : (do let (_, k) ← k.onThreads f; return k : Exec Kernel) = .ok k') :
    ∃ r sys, f k.toThreadSys = .ok (r, sys) ∧ k' = { k with toThreadSys := sys } := by
  obtain ⟨⟨r, k₁⟩, hon, h⟩ := of_bind h
  obtain ⟨sys, hsys, rfl⟩ := Kernel.onThreads_eq_ok hon
  exact ⟨r, sys, hsys, (Except.ok.inj h).symm⟩

/-- An event leaves every thread in its place exactly if it is one of those that keep the
queues. -/
theorem InQueues.step {c : QueueCall} (h : InQueues k) (hcalled : c.Called k)
    (hk : c.step k = .ok k') :
    (ReadyQueues k' ↔ c.KeepsQueues k) ∧ (c.KeepsQueues k → InQueues k') := by
  obtain ⟨queues, holds, counts⟩ := id h
  cases c with
  | createThread new =>
    obtain ⟨⟨r, created, sys⟩, hsys, hk⟩ := of_bind hk
    cases hk
    exact QueuesKept.readyQueues (procCreateThread_queuesKept holds counts hcalled hsys)
  | exitThread o =>
    obtain ⟨r, sys, hsys, rfl⟩ := onThreads_eq_ok hk
    exact QueuesKept.readyQueues (objExitThread_queuesKept holds counts hsys)
  | sleep o now duration room =>
    obtain ⟨⟨r, k₁⟩, hon, hk⟩ := of_bind hk
    obtain ⟨sys, hsys, rfl⟩ := Kernel.onAlarms_eq_ok hon
    cases hk
    exact QueuesKept.readyQueues (objThreadSleep_queuesKept holds counts hsys)
  | alarm =>
    obtain ⟨sys, hsys, rfl⟩ := Kernel.alarmTimeout_eq_ok hk
    exact QueuesKept.readyQueues (alarmTimeout_queuesKept holds counts hsys)
  | setWaiting o waitingOn =>
    obtain ⟨r, sys, hsys, rfl⟩ := onThreads_eq_ok hk
    exact QueuesKept.readyQueues (objSetThreadWaiting_queuesKept holds counts hsys)
  | setReady o =>
    obtain ⟨r, sys, hsys, rfl⟩ := onThreads_eq_ok hk
    exact QueuesKept.readyQueues (objSetThreadReady_queuesKept holds counts hsys)
  | setPriority o priority =>
    obtain ⟨r, sys, hsys, rfl⟩ := onThreads_eq_ok hk
    rw [KeepsQueues, canRun_iff]
    exact QueuesKept.readyQueues (objSetThreadPriority_queuesKept holds counts hsys)
  | resetPriority o =>
    obtain ⟨r, sys, hsys, rfl⟩ := onThreads_eq_ok hk
    rw [KeepsQueues, canRun_iff]
    exact QueuesKept.readyQueues (objResetThreadOriginalPriority_queuesKept holds counts hsys)
  | setContext st => exact h.setContext hk

theorem Kernel.Booted.inQueues {idle : ℕ} (booted : k.Booted idle) : InQueues k := by
  obtain ⟨s, hcreate, hsched⟩ := of_bind booted.sched
  obtain ⟨s', hnotify, hsched⟩ := of_bind hsched
  have hs' := Except.ok.inj hsched
  have hempty : s.Holds fun _ => [] := by
    obtain ⟨stack, -, hcreate⟩ := of_bind hcreate
    cases hcreate
    exact fun p => isQueue_listCreate
  have hrun : (k.threads idle).state.Runnable := by
    rw [booted.state]
    decide
  -- before the idle thread was created no thread could run
  have hnone : Counts (update k.threads idle
      { k.threads idle with state := .notCreated }) fun _ => [] := by
    intro t p
    have hstop : ¬ (update k.threads idle
        { k.threads idle with state := .notCreated } t).state.Runnable := by
      by_cases ht : t = idle
      · subst ht
        simp [Runnable]
      · simp [ht, booted.others t ht, Runnable]
    rw [places, if_neg fun e => hstop e.1]
    rfl
  refine ⟨_, (hempty.newThread hnotify).congr (by rw [← hs']; rfl), hnone.arrive ?_ hrun ?_⟩
  · intro u hu
    rw [update_of_ne hu]
  rw [update_self]
  exact fun h => absurd h (by simp [Runnable])

/-- Let thread creation, exit, sleep, blocking, waking, changes of priority and dispatches
follow each other in any order from the initialisation of the kernel. As long as they are of the
kind that keeps the queues, every thread that can run is met once in the queue of its priority,
and no thread is met elsewhere; the first event of another kind ends that. -/
theorem readyQueues_of_run {idle : ℕ} {k₀ : Kernel} {cs : List QueueCall} (booted : k₀.Booted idle)
    (run : Run QueueCall.step (fun k c => c.Called k ∧ c.KeepsQueues k) k₀ cs k) :
    ReadyQueues k ∧ ∀ (c : QueueCall) k', c.Called k → c.step k = .ok k' →
      (ReadyQueues k' ↔ c.KeepsQueues k) := by
  have placed : InQueues k := by
    refine run.invariant booted.inQueues ?_
    intro k c k' h guard hk
    exact (h.step guard.1 hk).2 guard.2
  exact ⟨placed.readyQueues, fun c k' hcalled hk => (placed.step hcalled hk).1⟩

/-- Two threads of different priorities; one of them sleeps and is woken, and the other one gets
a higher priority. -/
theorem readyQueues_of_run_two : ∃ k k' : Kernel, Kernel.boot = .ok k ∧
    Run QueueCall.step (fun k c => c.Called k ∧ c.KeepsQueues k) k
      [.createThread ⟨1, 0, 1, 0x8000, 0x100, 0x200, 0x300, true, true, true, true⟩,
        .createThread ⟨2, 0, 2, 0x9000, 0x100, 0x200, 0x300, true, true, true, true⟩,
        .setContext .system, .sleep (some 2) ⟨0, 0⟩ (some ⟨10, 0⟩) true, .setContext .waiting,
        .alarm, .setContext .running, .setPriority (some 1) 3, .setContext .running] k' ∧
    (k'.threads 1).state = .running ∧ (k'.sched.queue 3).items.count 1 = 1 ∧
    (k'.sched.queue 1).items.count 1 = 0 ∧ (k'.sched.queue 2).items.count 2 = 1 := by
  refine exists_run_from_and (fun k => (k.threads 1).state = .running ∧
    (k.threads 1).priority = 3 ∧ (k.threads 2).state = .ready ∧ (k.threads 2).priority = 2)
    (by decide +kernel) fun k k' start run hend => ?_
  obtain ⟨hrunning, hthree, hready, htwo⟩ := hend
  have placed := (readyQueues_of_run (Kernel.booted_of_boot start) run).1
  refine ⟨hrunning, ?_, ?_, ?_⟩
  · rw [placed 1 3, Thread.places, hrunning, hthree]
    rfl
  · rw [placed 1 1, Thread.places, hthree, if_neg fun e => absurd e.2 (by decide)]
  · rw [placed 2 2, Thread.places, hready, htwo]
    rfl

/-- Two threads of one priority, and one dispatch: the thread that is dispatched is in no queue
any more, and the other one is met twice. -/
theorem not_readyQueues : ∃ k k' : Kernel, Kernel.boot = .ok k ∧
    Run QueueCall.step (fun k c => c.Called k) k
      [.createThread ⟨1, 0, 1, 0x8000, 0x100, 0x200, 0x300, true, true, true, true⟩,
        .createThread ⟨2, 0, 1, 0x9000, 0x100, 0x200, 0x300, true, true, true, true⟩,
        .setContext .system] k' ∧
    (k'.threads 1).state = .running ∧ (k'.threads 1).priority = 1 ∧
    (k'.sched.queue 1).items.count 1 = 0 ∧ (k'.sched.queue 1).items.count 2 = 2 := by
  exact exists_run_from_and _ (by decide +kernel) fun _ _ _ _ => id

end Runs

end Tinker
