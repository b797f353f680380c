import Tinker.Lib.Run
import Tinker.Scheduler.Dispatch
import Tinker.Scheduler.Invariant

/-!
# Which queue the scheduler serves

The scheduler is meant to serve the queue of the greatest priority at which a thread is queued. The
queue that is served next is found on the stack of queues, which is kept in order only as long as
threads arrive in order of priority; so a thread that arrives, or is moved, below the priority
being served can be overlooked later. `StepOk` says exactly which notifications leave the right
queue being served.
-/

namespace Tinker

open Tinker.Lib Tinker.Collections Function Exec

/-- A notification, with what the caller writes to the thread before it. -/
inductive SchedEvent
  /-- A thread has been created with these contents. -/
  | newThread (t : ℕ) (thread : Thread)
  /-- A thread has been made runnable again, with these contents. -/
  | resumeThread (t : ℕ) (thread : Thread)
  /-- A thread has been put into a state in which it does not run. -/
  | pauseThread (t : ℕ) (st : ThreadState)
  /-- A thread has ended in this state. -/
  | exitThread (t : ℕ) (st : ThreadState)
  /-- The priority of a thread has been changed. -/
  | changePriority (t : ℕ) (p : Priority)

def Core.notify (k : Core) (threads : Threads)
    (notification : Threads → Scheduler → Exec Scheduler) : Exec Core := do
  let sched ← notification threads k.sched
  return { k with threads := threads, sched := sched }

def SchedEvent.apply (k : Core) : SchedEvent → Exec Core
  | newThread t thread =>
    k.notify (update k.threads t thread) fun threads s => schNotifyNewThread threads s t
  | resumeThread t thread =>
    k.notify (update k.threads t thread) fun threads s => schNotifyResumeThread threads s t
  | pauseThread t st =>
    k.notify (threadSetState k.threads t st) fun threads s => schNotifyPauseThread threads s t
  | exitThread t st =>
    k.notify (threadSetState k.threads t st) fun threads s => schNotifyExitThread threads s t
  | changePriority t p =>
    k.notify (threadSetPriority k.threads t p) fun threads s =>
      schNotifyChangePriority threads s t (threadGetPriority k.threads t)

abbrev Core.queued (k : Core) (p : Priority) : List ℕ := (k.sched.queue p).items

def Core.Queued (k : Core) (t : ℕ) : Prop := t ∈ k.queued (threadGetPriority k.threads t)

deriving instance Decidable for Core.Queued

/-- The events the kernel raises: runnable threads are announced, and only queued threads
other than the idle thread are paused, ended or moved. A queued thread that is announced
again has kept its priority. -/
def SchedEvent.Admitted (idle : ℕ) (k : Core) : SchedEvent → Prop
  | newThread t thread | resumeThread t thread =>
    thread.state.Runnable ∧ (k.Queued t → thread.priority = threadGetPriority k.threads t)
  | pauseThread t _ | exitThread t _ | changePriority t _ => k.Queued t ∧ t ≠ idle

instance SchedEvent.decidableAdmitted (idle : ℕ) (k : Core) (e : SchedEvent) :
    Decidable (e.Admitted idle k) := by
  cases e <;> exact inferInstanceAs (Decidable (_ ∧ _))

/-- The scheduler has just been created and the idle thread registered at priority 0. -/
def Booted (idle : ℕ) (k : Core) : Prop :=
  threadGetPriority k.threads idle = 0 ∧ (k.threads idle).state.Runnable ∧
    (do
      let s ← schCreateScheduler
      let s ← schNotifyNewThread k.threads s idle
      return schSetKernelIdleThread s idle) = .ok k.sched

def Greatest (P : Priority → Prop) (q : Priority) : Prop := P q ∧ ∀ p, q < p → ¬ P p

instance (P : Priority → Prop) [DecidablePred P] (q : Priority) : Decidable (Greatest P q) :=
  inferInstanceAs (Decidable (_ ∧ _))

/-- The queue being served is that of `curr_priority`, the greatest priority whose queue is
not empty. -/
def Selects (k : Core) : Prop :=
  Greatest (fun p => queueSize (k.sched.queue p) ≠ 0) k.sched.currPriority ∧
    k.sched.currQueue = k.sched.currPriority

def Core.below (k : Core) : Option Priority := k.sched.queueStack.items.dropLast.getLast?

/-- A thread other than `t` is queued at the priority. -/
def Core.Others (k : Core) (t : ℕ) (p : Priority) : Prop := ∃ u ∈ k.queued p, u ≠ t

instance (k : Core) (t : ℕ) : DecidablePred (k.Others t) := fun _ =>
  inferInstanceAs (Decidable (∃ _ ∈ _, _))

/-- The notifications after which the right queue is served. Arrivals never go wrong. A
thread that leaves as the last one of the queue being served must leave the greatest
remaining priority below the top of the stack. A thread must not be raised to a priority
below the one being served. A lowered thread that was the last one of the queue being
served must leave the greatest priority below the top of the stack, where its own new
queue counts if there is only queue 0 left. -/
def StepOk (k : Core) : SchedEvent → Prop
  | .newThread _ _ | .resumeThread _ _ => True
  | .pauseThread t _ | .exitThread t _ =>
    k.queued k.sched.currQueue = [t] → ∃ q ∈ k.below, Greatest (k.Others t) q
  | .changePriority t p =>
    if threadGetPriority k.threads t < p then
      k.sched.currPriority ≤ p
    else
      k.queued k.sched.currQueue = [t] → p ≠ threadGetPriority k.threads t →
        ∃ q ∈ k.below, Greatest (fun r => r = p ∨ k.Others t r)
          (if listSize k.sched.queueStack = 2 then p else q)

instance (k : Core) (e : SchedEvent) : Decidable (StepOk k e) := by
  unfold StepOk
  split <;> infer_instance

/-- A dispatch does not fail, and does not pick the idle thread next to another one of
priority 0. -/
def DispatchOk (k : Core) : Prop :=
  ¬ (k.sched.queue k.sched.currQueue).TailStale ∧
    (k.sched.currPriority = 0 → queueSize (k.sched.queue 0) = 1)

/-- The thread dispatched in `k'` is a runnable thread queued in `k`, none queued there has
a greater priority, and it is the idle thread only if no other one is queued. -/
def Dispatches (idle : ℕ) (k k' : Core) : Prop :=
  ∃ t, k'.sched.currThread = some t ∧ k.Queued t ∧ (k.threads t).state.Runnable ∧
    (∀ u, k.Queued u → threadGetPriority k.threads u ≤ threadGetPriority k.threads t) ∧
    (t = idle → ∀ u, k.Queued u → u = idle)

/-! ## The invariant -/

/-- The queue of the greatest priority that has one. -/
def MaxQueue (queues : Priority → List ℕ) (c : Priority) : Prop :=
  queues c ≠ [] ∧ ∀ p, c < p → queues p = []

/-- What holds in every state in which the right queue is being served. -/
def ServesTop (idle : ℕ) (k : Core) : Prop :=
  ∃ queues above, QueuesHold ThreadState.Runnable idle k.threads k.sched queues above ∧
    (0 :: above).getLast? = some k.sched.currQueue ∧ Selects k

variable {ok : ThreadState → Prop} {idle t : ℕ} {k k' : Core} {queues : Priority → List ℕ}
  {above : List Priority} {p q : Priority}

namespace QueuesHold

section

variable (h : QueuesHold ok idle k.threads k.sched queues above)
include h

theorem queued_eq (p : Priority) :
    k.queued p = queues p :=
  (h.queue p).items_eq

theorem queued_iff : k.Queued t ↔ ∃ p, t ∈ queues p := by
  rw [Core.Queued, h.queued_eq]
  refine ⟨fun ht => ⟨_, ht⟩, fun ⟨p, ht⟩ => ?_⟩
  rwa [threadGetPriority, h.priority p t ht]

theorem selects_iff :
    Selects k ↔ MaxQueue queues k.sched.currPriority ∧
      k.sched.currQueue = k.sched.currPriority := by
  simp only [Selects, Greatest, h.size_eq, ne_eq, List.length_eq_zero_iff, not_not, MaxQueue]

theorem others_iff (ht : t ∈ queues p) (r : Priority) :
    k.Others t r ↔ update queues p ((queues p).erase t) r ≠ [] := by
  rw [Core.Others, h.queued_eq, ne_eq, List.eq_nil_iff_forall_not_mem]
  push Not
  refine exists_congr fun u => ?_
  by_cases hr : r = p
  · subst hr
    rw [update_self, (h.nodup r).mem_erase_iff, and_comm]
  rw [update_of_ne hr, and_iff_left_iff_imp]
  rintro hu rfl
  exact hr (h.mem_unique hu ht)

theorem erase_eq_nil_iff (ht : t ∈ queues p) (hne : queues q ≠ []) :
    update queues p ((queues p).erase t) q = [] ↔ queues q = [t] := by
  constructor
  · intro hnil
    have hqp : q = p := by
      by_contra hqp
      rw [update_of_ne hqp] at hnil
      exact hne hnil
    subst hqp
    rw [update_self, List.erase_eq_nil_iff] at hnil
    exact hnil.resolve_left hne
  intro hsingle
  obtain rfl : p = q := h.mem_unique ht (by simp [hsingle])
  simp [hsingle]

end

end QueuesHold

/-! ## What one event does -/

/-- A step that may or may not return keeps the invariant if the condition holds, and does not
leave the right queue being served if it does not hold. -/
def Decided (idle : ℕ) (condition : Prop) (result : Exec Core) : Prop :=
  (condition ∧ ∃ k', result = .ok k' ∧ ServesTop idle k') ∨
    (¬ condition ∧ ∀ k', result = .ok k' → ¬ Selects k')

theorem decided_of_ok {condition : Prop} {result : Exec Core} (returns : result = .ok k')
    (wf : QueuesHold ThreadState.Runnable idle k'.threads k'.sched queues above)
    (top : (0 :: above).getLast? = some k'.sched.currQueue) (hsel : Selects k' ↔ condition) :
    Decided idle condition result := by
  by_cases holds : condition
  · exact .inl ⟨holds, k', returns, queues, above, wf, top, hsel.mpr holds⟩
  refine .inr ⟨holds, fun u hu => ?_⟩
  rw [returns, Except.ok.injEq] at hu
  exact fun h => holds (hsel.mp (hu ▸ h))

theorem decided_of_error {condition : Prop} {result : Exec Core} {f : Fault}
    (fails : result = .error f) (holds : ¬ condition) : Decided idle condition result := by
  refine .inr ⟨holds, fun u hu => ?_⟩
  rw [fails] at hu
  cases hu

theorem Core.notify_eq_ok {threads : Threads} {notification : Threads → Scheduler → Exec Scheduler}
    {s : Scheduler} (h : notification threads k.sched = .ok s) :
    k.notify threads notification = .ok { k with threads := threads, sched := s } := by
  simp [Core.notify, h]

theorem Core.notify_eq_error {threads : Threads}
    {notification : Threads → Scheduler → Exec Scheduler} {f : Fault}
    (h : notification threads k.sched = .error f) : k.notify threads notification = .error f := by
  simp [Core.notify, h]

theorem MaxQueue.update_max {c : Priority} {ts : List ℕ} (h : MaxQueue queues c) (hts : ts ≠ []) :
    MaxQueue (update queues p ts) (max c p) := by
  constructor
  · rcases le_total c p with hle | hle
    · rw [max_eq_right hle, update_self]
      exact hts
    rw [max_eq_left hle, update_apply]
    split
    · exact hts
    · exact h.1
  intro r hr
  obtain ⟨hcr, hpr⟩ := max_lt_iff.mp hr
  rw [update_of_ne hpr.ne']
  exact h.2 r hcr

theorem MaxQueue.erase_eq_nil {c r : Priority} (h : MaxQueue queues c) (ht : t ∈ queues p)
    (hr : c < r) : update queues p ((queues p).erase t) r = [] := by
  by_cases hrp : r = p
  · subst hrp
    rw [h.2 r hr] at ht
    simp at ht
  rw [update_of_ne hrp]
  exact h.2 r hr

theorem enqueue_ne_nil (t : ℕ) (ts : List ℕ) : enqueue t ts ≠ [] := by
  unfold enqueue
  split
  next ht => exact List.ne_nil_of_mem ht
  · simp

theorem arrive_keeps {thread : Thread} (inv : ServesTop idle k) (run : thread.state.Runnable)
    (same : k.Queued t → thread.priority = threadGetPriority k.threads t) :
    ∃ k', k.notify (update k.threads t thread)
      (fun threads s => schNotifyNewThread threads s t) = .ok k' ∧ ServesTop idle k' := by
  obtain ⟨queues, above, wf, top, sel⟩ := inv
  obtain ⟨hmax, serving⟩ := wf.selects_iff.mp sel
  obtain ⟨s, hnotify, wf', top', serving', hprio⟩ := wf.newThread t thread top
    serving
    (fun p hp => (same (wf.queued_iff.mpr ⟨p, hp⟩)).trans (wf.priority p t hp)) run
  refine ⟨_, Core.notify_eq_ok hnotify, _, _, wf', top', ?_⟩
  rw [wf'.selects_iff]
  refine ⟨?_, serving'⟩
  rw [hprio]
  exact hmax.update_max (enqueue_ne_nil t _)

theorem below_eq (wf : QueuesHold ok idle k.threads k.sched queues (above ++ [q])) :
    k.below = (0 :: above).getLast? := by
  rw [Core.below, wf.stack.items_eq, ← List.cons_append, List.dropLast_concat]

theorem exists_above (top : (0 :: above).getLast? = some q) (hq : q ≠ 0) :
    ∃ above', above = above' ++ [q] := by
  rcases List.eq_nil_or_concat' above with rfl | ⟨above', r, rfl⟩
  · exact absurd (by simpa using top.symm) hq
  obtain rfl : r = q := by simpa [List.getLast?_cons] using top
  exact ⟨above', rfl⟩

theorem depart_decided {st : ThreadState} (inv : ServesTop idle k) (queued : k.Queued t)
    (hne : t ≠ idle) :
    Decided idle (k.queued k.sched.currQueue = [t] → ∃ q ∈ k.below, Greatest (k.Others t) q)
      (k.notify (threadSetState k.threads t st)
        fun threads s => schNotifyExitThread threads s t) := by
  obtain ⟨queues, above, wf, top, sel⟩ := inv
  obtain ⟨hmax, serving⟩ := wf.selects_iff.mp sel
  obtain ⟨p, ht⟩ := wf.queued_iff.mp queued
  obtain ⟨s, hnotify, wf', hq, hp⟩ := wf.exitThread { k.threads t with state := st } ht hne
    (wf.priority p t ht)
  rw [← serving] at hmax
  have hempty := wf.erase_eq_nil_iff ht hmax.1
  have hgreatest : ∀ q, Greatest (k.Others t) q ↔
      MaxQueue (update queues p ((queues p).erase t)) q := by
    intro q
    simp only [Greatest, wf.others_iff ht, not_not, ne_eq, MaxQueue]
  split_ifs at hnotify with hnil
  · -- the queue being served is now empty
    have hsingle := hempty.mp hnil
    obtain ⟨above, rfl⟩ := exists_above top (wf.ne_zero_of_alone hne hsingle)
    obtain ⟨s', q, hnext, wf'', htop, hq', hp'⟩ := wf'.serveNext t
    rw [hnext] at hnotify
    refine decided_of_ok (Core.notify_eq_ok hnotify) wf'' (by rw [htop, hq']) ?_
    rw [wf''.selects_iff]
    simp only [wf.queued_eq, hsingle, below_eq wf, htop, hgreatest, hq', hp', Option.mem_def,
      Option.some.injEq, exists_eq_left', forall_const]
    -- an empty queue found on the stack is served at priority 0, whose queue is not empty
    by_cases hq0 : update queues p ((queues p).erase t) q = []
    · refine iff_of_false (fun h => ?_) fun h => h.1 hq0
      have hzero : q = 0 := by simpa [hq0] using h.2
      exact wf''.queue_zero_ne_nil (hzero ▸ hq0)
    · simp [hq0]
  have hsingle : queues k.sched.currQueue ≠ [t] := fun h => hnil (hempty.mpr h)
  refine decided_of_ok (Core.notify_eq_ok hnotify) wf' (by rw [top, hq]) ?_
  rw [wf'.selects_iff, hq, hp, wf.queued_eq]
  refine iff_of_true ⟨⟨serving ▸ hnil, fun r hr => ?_⟩, serving⟩ fun h => absurd h hsingle
  exact hmax.erase_eq_nil ht (serving ▸ hr)

section Move

variable (wf : QueuesHold ok idle k.threads k.sched queues above) (ht : t ∈ queues p)

theorem moveThread_self : moveThread queues t p q q ≠ [] := by
  simp [moveThread]

theorem moveThread_of_ne {r : Priority} (hr : r ≠ q) :
    moveThread queues t p q r = update queues p ((queues p).erase t) r := by
  simp [moveThread, hr]

include ht in
theorem moveThread_eq_nil {c r : Priority} (hmax : MaxQueue queues c) (hr : c < r) (hrq : r ≠ q) :
    moveThread queues t p q r = [] := by
  rw [moveThread_of_ne hrq]
  exact hmax.erase_eq_nil ht hr

include wf in
theorem moveThread_zero (hne : t ≠ idle) : moveThread queues t p q 0 ≠ [] := by
  by_cases hq : 0 = q
  · exact hq ▸ moveThread_self
  rw [moveThread_of_ne hq]
  by_cases hp : 0 = p
  · subst hp
    rw [update_self]
    intro hnil
    simpa [hnil] using wf.head_erase hne
  rw [update_of_ne hp]
  exact wf.queue_zero_ne_nil

include wf ht

theorem moveThread_ne_nil_iff (r : Priority) :
    moveThread queues t p q r ≠ [] ↔ r = q ∨ k.Others t r := by
  by_cases hr : r = q
  · simp [hr, moveThread_self]
  · simp [hr, moveThread_of_ne hr, wf.others_iff ht]

theorem greatest_move_iff (r : Priority) :
    Greatest (fun r => r = q ∨ k.Others t r) r ↔ MaxQueue (moveThread queues t p q) r := by
  simp only [Greatest, ← moveThread_ne_nil_iff wf ht, ne_eq, not_not, MaxQueue]

theorem moveThread_eq_nil_iff {c : Priority} (hne : queues c ≠ []) :
    moveThread queues t p q c = [] ↔ queues c = [t] ∧ q ≠ p := by
  by_cases hc : c = q
  · subst hc
    refine iff_of_false moveThread_self fun ⟨hsingle, hcp⟩ => hcp ?_
    exact wf.mem_unique (by simp [hsingle]) ht
  rw [moveThread_of_ne hc, wf.erase_eq_nil_iff ht hne]
  refine ⟨fun hsingle => ⟨hsingle, ?_⟩, And.left⟩
  rintro rfl
  exact hc (wf.mem_unique (by simp [hsingle]) ht)

end Move

section Change

variable (wf : QueuesHold ok idle k.threads k.sched queues above)
  (hget : threadGetPriority k.threads t = p) (hne : t ≠ idle) (hok : ok (k.threads t).state)
  (top : (0 :: above).getLast? = some k.sched.currQueue)

include wf hget hne hok top

/-- A raised thread: its new queue is pushed and served, once the queue being served has been
popped if the thread was alone there. -/
theorem QueuesHold.changePriority_raise (raised : p < q) : ∃ s above',
    schNotifyChangePriority (threadSetPriority k.threads t q) k.sched t p = .ok s ∧
    QueuesHold ok idle (threadSetPriority k.threads t q) s (moveThread queues t p q)
      (above' ++ [q]) ∧
    s.currQueue = q ∧ s.currPriority = q ∧
    (moveThread queues t p q k.sched.currQueue = [] ∧ above = above' ++ [k.sched.currQueue] ∨
      moveThread queues t p q k.sched.currQueue ≠ [] ∧ above' = above) := by
  obtain ⟨s, hnotify, wf', -⟩ := wf.changePriority (q := q) hget hne hok
  split_ifs at hnotify with hnil
  · have hzero : k.sched.currQueue ≠ 0 := fun hzero => moveThread_zero wf hne (hzero ▸ hnil)
    obtain ⟨above, rfl⟩ := exists_above top hzero
    obtain ⟨stack, hpop, wfp⟩ := wf'.popStack
    obtain ⟨s₁, hplace, wf₁, -, -⟩ := wfp.placeQueue_raise raised
    obtain ⟨s₂, hserve, wf₂, hq₂, hp₂⟩ := wf₁.serveTop (q := q)
      (by simp [List.getLast?_cons]) moveThread_self t
    refine ⟨s₂, above, ?_, wf₂, hq₂, hp₂, .inl ⟨hnil, rfl⟩⟩
    rw [hnotify, hpop]
    simp only [ok_bind, Option.getD_some, hplace, hserve]
  obtain ⟨s₁, hplace, wf₁, hq₁, hp₁⟩ := wf'.placeQueue_raise raised
  exact ⟨s₁, above, hnotify.trans hplace, wf₁, hq₁, hp₁, .inr ⟨hnil, rfl⟩⟩

/-- A lowered thread: its new queue is inserted above queue 0. If the thread was alone in the queue
being served, that one is popped and the queue on top is served next. -/
theorem QueuesHold.changePriority_lower (lowered : q ≤ p) : ∃ s above',
    QueuesHold ok idle (threadSetPriority k.threads t q) s (moveThread queues t p q)
      (insertAbove q above') ∧
    (moveThread queues t p q k.sched.currQueue = [] ∧ above = above' ++ [k.sched.currQueue] ∧
        schNotifyChangePriority (threadSetPriority k.threads t q) k.sched t p =
          schServeTop (threadSetPriority k.threads t q) s t ∨
      moveThread queues t p q k.sched.currQueue ≠ [] ∧ above' = above ∧
        s.currQueue = k.sched.currQueue ∧ s.currPriority = k.sched.currPriority ∧
        schNotifyChangePriority (threadSetPriority k.threads t q) k.sched t p = .ok s) := by
  obtain ⟨s, hnotify, wf', hq, hp⟩ := wf.changePriority (q := q) hget hne hok
  split_ifs at hnotify with hnil
  · have hzero : k.sched.currQueue ≠ 0 := fun hzero => moveThread_zero wf hne (hzero ▸ hnil)
    obtain ⟨above, rfl⟩ := exists_above top hzero
    obtain ⟨stack, hpop, wfp⟩ := wf'.popStack
    obtain ⟨s₁, hplace, wf₁, -, -⟩ := wfp.placeQueue_lower lowered
    refine ⟨s₁, above, wf₁, .inl ⟨hnil, rfl, ?_⟩⟩
    rw [hnotify, hpop]
    simp only [ok_bind, Option.getD_some, hplace]
  obtain ⟨s₁, hplace, wf₁, hq₁, hp₁⟩ := wf'.placeQueue_lower lowered
  exact ⟨s₁, above, wf₁, .inr ⟨hnil, rfl, hq₁.trans hq, hp₁.trans hp, hnotify.trans hplace⟩⟩

end Change

theorem raise_decided (inv : ServesTop idle k) (queued : k.Queued t) (hne : t ≠ idle)
    (raised : threadGetPriority k.threads t < q) :
    Decided idle (k.sched.currPriority ≤ q) (k.notify (threadSetPriority k.threads t q)
      fun threads s => schNotifyChangePriority threads s t (threadGetPriority k.threads t)) := by
  obtain ⟨queues, above, wf, top, sel⟩ := inv
  obtain ⟨hmax, serving⟩ := wf.selects_iff.mp sel
  obtain ⟨p, ht⟩ := wf.queued_iff.mp queued
  have hget : threadGetPriority k.threads t = p := wf.priority p t ht
  rw [hget] at raised
  obtain ⟨s', above', hchange, wf', hq', hp', -⟩ :=
    wf.changePriority_raise hget hne (wf.runnable p t ht) top raised
  rw [← serving] at hmax
  refine decided_of_ok (Core.notify_eq_ok (hget ▸ hchange)) wf'
    (by simp [List.getLast?_cons, hq']) ?_
  rw [wf'.selects_iff]
  simp only [hq', hp', and_true, MaxQueue]
  constructor
  · rintro ⟨-, habove⟩
    by_contra hlt
    have hlt : q < k.sched.currQueue := serving ▸ not_le.mp hlt
    obtain ⟨hsingle, -⟩ := (moveThread_eq_nil_iff wf ht hmax.1).mp (habove k.sched.currQueue hlt)
    exact absurd (raised.trans hlt) (wf.mem_unique ht (by simp [hsingle])).not_lt
  intro hle
  refine ⟨moveThread_self, fun r hr => moveThread_eq_nil ht hmax ?_ hr.ne'⟩
  exact lt_of_le_of_lt (serving ▸ hle) hr

theorem lower_decided (inv : ServesTop idle k) (queued : k.Queued t) (hne : t ≠ idle)
    (lowered : q ≤ threadGetPriority k.threads t) :
    Decided idle
      (k.queued k.sched.currQueue = [t] → q ≠ threadGetPriority k.threads t →
        ∃ r ∈ k.below, Greatest (fun r => r = q ∨ k.Others t r)
          (if listSize k.sched.queueStack = 2 then q else r))
      (k.notify (threadSetPriority k.threads t q)
        fun threads s => schNotifyChangePriority threads s t (threadGetPriority k.threads t)) := by
  obtain ⟨queues, above, wf, top, sel⟩ := inv
  obtain ⟨hmax, serving⟩ := wf.selects_iff.mp sel
  obtain ⟨p, ht⟩ := wf.queued_iff.mp queued
  have hget : threadGetPriority k.threads t = p := wf.priority p t ht
  rw [hget] at lowered
  obtain ⟨s₁, above', wf₁, hcases⟩ :=
    wf.changePriority_lower hget hne (wf.runnable p t ht) top lowered
  rw [← serving] at hmax
  have hempty := moveThread_eq_nil_iff (q := q) wf ht hmax.1
  have hple : p ≤ k.sched.currQueue := by
    by_contra hlt
    rw [hmax.2 p (not_le.mp hlt)] at ht
    simp at ht
  rcases hcases with ⟨hnil, rfl, hnotify⟩ | ⟨hnil, rfl, hq, hp, hnotify⟩
  · obtain ⟨hsingle, hqp⟩ := hempty.mp hnil
    obtain ⟨r, hr⟩ := exists_top above'
    have htop := getLast_insertAbove (p := q) hr
    have hsize : listSize k.sched.queueStack = 2 ↔ above' = [] := by
      simp [listSize, wf.stack.size_eq]
    have hcond : (k.queued k.sched.currQueue = [t] → q ≠ threadGetPriority k.threads t →
        ∃ r ∈ k.below, Greatest (fun r => r = q ∨ k.Others t r)
          (if listSize k.sched.queueStack = 2 then q else r)) ↔
        MaxQueue (moveThread queues t p q) (if above' = [] then q else r) := by
      simp [wf.queued_eq, hsingle, below_eq wf, hr, hget, hqp, greatest_move_iff wf ht, hsize]
    rw [hcond]
    by_cases hempty' : moveThread queues t p q (if above' = [] then q else r) = []
    · -- the queue found on the stack is empty: the kernel panics
      rw [wf₁.serveTop_halted htop hempty' t] at hnotify
      exact decided_of_error (Core.notify_eq_error (hget ▸ hnotify)) fun hm => hm.1 hempty'
    obtain ⟨s₂, hserve, wf₂, hq₂, hp₂⟩ := wf₁.serveTop htop hempty' t
    refine decided_of_ok (Core.notify_eq_ok (hget ▸ hnotify.trans hserve)) wf₂
      (by rw [htop, hq₂]) ?_
    rw [wf₂.selects_iff, hq₂, hp₂]
    exact and_iff_left rfl
  refine decided_of_ok (Core.notify_eq_ok (hget ▸ hnotify)) wf₁ ?_ ?_
  · rw [getLast_insertAbove top, hq]
    split_ifs with hnone
    · -- only queue 0 is on the stack, so the thread was in it and stays there
      subst hnone
      have hzero : (0 : Priority) = k.sched.currQueue := by simpa using top
      rw [← hzero] at hple ⊢
      exact congrArg some (le_antisymm (lowered.trans hple) (Fin.zero_le q))
    · rfl
  rw [wf₁.selects_iff, hq, hp, ← serving, wf.queued_eq, hget]
  refine iff_of_true ⟨⟨hnil, fun r hr => moveThread_eq_nil ht hmax hr ?_⟩, rfl⟩
    fun hsingle hqp => absurd (hempty.mpr ⟨hsingle, hqp⟩) hnil
  exact (lt_of_le_of_lt (lowered.trans hple) hr).ne'

/-- Every admitted event is decided by `StepOk`. -/
theorem event_decided {e : SchedEvent} (inv : ServesTop idle k) (admitted : e.Admitted idle k) :
    Decided idle (StepOk k e) (e.apply k) := by
  cases e with
  | newThread t thread => exact .inl ⟨trivial, arrive_keeps inv admitted.1 admitted.2⟩
  | resumeThread t thread => exact .inl ⟨trivial, arrive_keeps inv admitted.1 admitted.2⟩
  | pauseThread t st => exact depart_decided inv admitted.1 admitted.2
  | exitThread t st => exact depart_decided inv admitted.1 admitted.2
  | changePriority t p =>
    simp only [StepOk]
    split
    next raised => exact raise_decided inv admitted.1 admitted.2 raised
    next lowered => exact lower_decided inv admitted.1 admitted.2 (not_lt.mp lowered)

/-! ## Runs -/

theorem wf_of_booted (booted : Booted idle k) :
    QueuesHold ThreadState.Runnable idle k.threads k.sched (update (fun _ => []) 0 [idle]) [] ∧
      k.sched.currQueue = 0 ∧ k.sched.currPriority = 0 := by
  obtain ⟨hprio, hrun, hboot⟩ := booted
  obtain ⟨stack, hpush, hstack⟩ := isStack_listCreate.listAdd (0 : Priority)
  obtain ⟨l, hl, hqueue⟩ := isQueue_listCreate.listAdd idle
  simp only [schCreateScheduler, hpush, ok_bind, schNotifyNewThread, hprio,
    isQueue_listCreate.listContains, List.not_mem_nil, decide_false, Bool.false_eq_true, ↓reduceIte,
    hl, schRaisePriority, pure_eq_ok, Scheduler.setQueue, lt_self_iff_false,
    schSetKernelIdleThread, Except.ok.injEq] at hboot
  have hmem : ∀ p t, t ∈ update (fun _ => []) (0 : Priority) [idle] p →
      p = 0 ∧ t = idle := by
    intro p t ht
    by_cases hp : p = 0
    · subst hp
      simpa using ht
    · simp [hp] at ht
  refine ⟨⟨fun p => ?_, ?_, ?_, ?_, fun p => ?_, by simp⟩, by rw [← hboot], by rw [← hboot]⟩
  · rw [← hboot]
    by_cases hp : p = 0
    · subst hp
      simpa [Scheduler.queue] using hqueue
    · simpa [Scheduler.queue, hp] using isQueue_listCreate
  · rw [← hboot]
    exact hstack
  · intro p t ht
    obtain ⟨rfl, rfl⟩ := hmem p t ht
    exact hprio
  · intro p t ht
    obtain ⟨rfl, rfl⟩ := hmem p t ht
    exact hrun
  · by_cases hp : p = 0 <;> simp [hp]

theorem servesTop_of_booted (booted : Booted idle k) : ServesTop idle k := by
  obtain ⟨wf, hqueue, hprio⟩ := wf_of_booted booted
  refine ⟨_, [], wf, by rw [hqueue]; rfl, ?_⟩
  rw [wf.selects_iff, hqueue, hprio]
  exact ⟨⟨by simp, fun p hp => by simp [hp.ne']⟩, rfl⟩

theorem dispatch_iff {st : ThreadState} (inv : ServesTop idle k) (legal : CallLegal k st) :
    DispatchOk k ↔ ∃ k', schSetContextForNextThread k st = .ok k' ∧ Dispatches idle k k' := by
  obtain ⟨queues, above, wf, top, sel⟩ := inv
  obtain ⟨hmax, serving⟩ := wf.selects_iff.mp sel
  rw [← serving] at hmax
  obtain ⟨t, ts, hts⟩ := List.exists_cons_of_ne_nil hmax.1
  have hfront : queueFront (k.sched.queue k.sched.currQueue) = .ok (some t) := by
    rw [wf.front, hts]
    rfl
  have ht : t ∈ queues k.sched.currQueue := by simp [hts]
  have hrun := wf.runnable _ t ht
  have hprio := wf.priority _ t ht
  have hidle : k.sched.currQueue = 0 → t = idle := by
    intro hzero
    have hhead := wf.idle_head
    rw [← hzero, hts] at hhead
    exact Option.some.inj hhead
  have hqueued : ∀ u, k.Queued u → ∃ p ≤ k.sched.currQueue, u ∈ queues p := by
    intro u hu
    obtain ⟨p, hp⟩ := wf.queued_iff.mp hu
    refine ⟨p, not_lt.mp fun hlt => ?_, hp⟩
    rw [hmax.2 p hlt] at hp
    simp at hp
  rw [DispatchOk, ← serving, wf.size_eq]
  constructor
  · rintro ⟨hlive, halone⟩
    obtain ⟨l, hrotate⟩ := (wf.queue k.sched.currQueue).exists_listHeadToTail hlive
    obtain ⟨k', eval, hk', hsched, -⟩ := setContext_of_rotate legal hfront hrun hrotate
    refine ⟨k', hk', t, by rw [hsched], wf.queued_iff.mpr ⟨_, ht⟩, hrun, fun u hu => ?_, ?_⟩
    · obtain ⟨p, hle, hp⟩ := hqueued u hu
      rw [threadGetPriority, threadGetPriority, hprio, wf.priority p u hp]
      exact hle
    rintro rfl u hu
    obtain ⟨p, hle, hp⟩ := hqueued u hu
    have hzero : k.sched.currQueue = 0 := wf.mem_unique ht wf.idle_mem
    rw [hzero] at hle ht
    obtain rfl : p = 0 := le_antisymm hle (Fin.zero_le p)
    obtain ⟨v, hv⟩ := List.length_eq_one_iff.mp (halone hzero)
    rw [hv, List.mem_singleton] at hp ht
    rw [hp, ht]
  rintro ⟨k', hk', u, hu, -, -, -, honly⟩
  have hlive : ¬ (k.sched.queue k.sched.currQueue).TailStale := by
    intro hstale
    have hrotate := (wf.queue k.sched.currQueue).listHeadToTail_of_stale hstale
    rw [setContext_of_rotate_error hfront hrotate] at hk'
    cases hk'
  refine ⟨hlive, fun hzero => ?_⟩
  obtain ⟨l, hrotate⟩ := (wf.queue k.sched.currQueue).exists_listHeadToTail hlive
  obtain ⟨k'', eval, hk'', hsched, -⟩ := setContext_of_rotate legal hfront hrun hrotate
  cases hk'.symm.trans hk''
  obtain rfl : t = u := by
    rw [hsched] at hu
    exact Option.some.inj hu
  -- every thread of queue 0 is the idle thread, and none is there twice
  have hall : ∀ v ∈ queues 0, v = idle := fun v hv =>
    honly (hidle hzero) v (wf.queued_iff.mpr ⟨0, hv⟩)
  have hle : (queues 0).length ≤ 1 := by
    have hnodup := wf.nodup 0
    rw [List.eq_replicate_of_mem hall] at hnodup
    exact List.nodup_replicate.mp hnodup
  have hpos := List.length_pos_of_mem wf.idle_mem
  omega

theorem servesTop_of_run {es : List SchedEvent} (booted : Booted idle k)
    (run : Run SchedEvent.apply (fun k e => e.Admitted idle k ∧ StepOk k e) k es k') :
    ServesTop idle k' := by
  refine run.invariant (servesTop_of_booted booted) fun k e u inv ⟨admitted, ok⟩ hstep => ?_
  rcases event_decided inv admitted with ⟨-, u', hu', inv'⟩ | ⟨hnot, -⟩
  · exact Except.ok.inj (hstep.symm.trans hu') ▸ inv'
  · exact absurd ok hnot

/-- Along every run whose steps are all `StepOk`, the queue of the greatest non-empty
priority is being served. In every state reached, a further event keeps that if and only if
it is `StepOk`, and a dispatch picks a runnable thread of maximal priority, and the idle
thread only if it is alone, if and only if it is `DispatchOk`. -/
theorem selects_of_run {es : List SchedEvent} (booted : Booted idle k)
    (run : Run SchedEvent.apply (fun k e => e.Admitted idle k ∧ StepOk k e) k es k') :
    Selects k' ∧
      (∀ e : SchedEvent, e.Admitted idle k' →
        (StepOk k' e ↔ ∃ u, e.apply k' = .ok u ∧ Selects u)) ∧
      ∀ st, CallLegal k' st →
        (DispatchOk k' ↔ ∃ u, schSetContextForNextThread k' st = .ok u ∧ Dispatches idle k' u) := by
  have inv := servesTop_of_run booted run
  refine ⟨inv.choose_spec.choose_spec.2.2, fun e admitted => ?_, fun st legal => ?_⟩
  · rcases event_decided inv admitted with ⟨ok, u, hu, -, -, -, -, sel⟩ | ⟨hnot, hsel⟩
    · exact iff_of_true ok ⟨u, hu, sel⟩
    · exact iff_of_false hnot fun ⟨u, hu, sel⟩ => hsel u hu sel
  · exact dispatch_iff inv legal

def bootedCore : Core where
  threads := fun _ => Thread.ready 0
  sched := {
    currThread := none
    currQueue := 0
    priorityQueues := update (fun _ => listCreate) 0
      ⟨1, some 0, some 0, update (fun _ => none) 0 (some ⟨0, none, none⟩), 1⟩
    currPriority := 0
    queueStack := ⟨1, some 0, some 0, update (fun _ => none) 0 (some ⟨0, none, none⟩), 1⟩
    idleThread := some 0
    evalNewThread := false }
  context := default
  translationTable := none
  scheduleTimer := false

theorem booted_bootedCore : Booted 0 bootedCore := ⟨rfl, by decide, rfl⟩

/-- Threads of the priorities 1, 3 and 2 arrive, then the one of priority 3 is paused: the
scheduler goes back to priority 1, although a thread of priority 2 is queued. -/
theorem not_selects : ∃ k es k', Booted 0 k ∧
    Run SchedEvent.apply (fun k e => e.Admitted 0 k) k es k' ∧ ¬ Selects k' := by
  obtain ⟨k', run, hbad⟩ := exists_run_of_replay SchedEvent.apply
    (fun k e => e.Admitted 0 k) bootedCore
    [.newThread 1 (.ready 1), .newThread 3 (.ready 3), .newThread 2 (.ready 2),
      .pauseThread 3 .paused]
    (fun k => k.sched.currPriority = 1 ∧ queueSize (k.sched.queue 2) ≠ 0) (by decide +kernel)
  obtain ⟨hprio, hqueue⟩ := of_decide_eq_true hbad
  refine ⟨bootedCore, _, k', booted_bootedCore, run, fun sel => sel.1.2 2 ?_ hqueue⟩
  rw [hprio]
  decide

/-- A run that meets the conditions: threads of the priorities 1 and 2 arrive, the second one
is paused, and the first one is raised to priority 4. -/
theorem selects_of_run_raised : ∃ k',
    Run SchedEvent.apply (fun k e => e.Admitted 0 k ∧ StepOk k e) bootedCore
      [.newThread 1 (.ready 1), .newThread 2 (.ready 2), .pauseThread 2 .paused,
        .changePriority 1 4] k' ∧ k'.sched.currPriority = 4 ∧ Selects k' := by
  refine exists_run_and (fun k => k.sched.currPriority = 4) (by decide +kernel)
    fun k' run hprio => ?_
  exact ⟨hprio, (selects_of_run booted_bootedCore run).1⟩

end Tinker
