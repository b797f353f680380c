import Tinker.Errors
import Tinker.Scheduler.Basic

/-!
# Thread objects

`obj_thread.c`: the object through which the rest of the kernel blocks and wakes a
thread and lends it a priority. Every change is reported to the scheduler, which may
not come back; the facts about threads below are about the calls that return.

A thread object is identified with the thread it wraps.
-/

namespace Tinker

open Tinker.Lib Function Exec

structure ObjThread where
  /-- The thread runs with a priority that was lent to it. -/
  priorityInheritance : Bool
  originalPriority : Priority
  alarmId : ℕ
  deriving DecidableEq

structure ThreadSys where
  threads : Threads
  sched : Scheduler
  objThreads : ℕ → ObjThread

/-- The states from which `obj_set_thread_waiting` blocks a thread. -/
def ThreadState.CanBlock (st : ThreadState) : Prop :=
  st = .running ∨ st = .ready ∨ st = .paused ∨ st = .idle ∨ st = .waiting ∨ st = .system

deriving instance Decidable for ThreadState.CanBlock

theorem ThreadState.Runnable.canBlock {st : ThreadState} (h : st.Runnable) : st.CanBlock := by
  rcases h with rfl | rfl | rfl <;> decide

theorem ThreadState.Runnable.ne_waiting {st : ThreadState} (h : st.Runnable) : st ≠ .waiting := by
  rcases h with rfl | rfl | rfl <;> decide

/-! ## The operations -/

/-- The state is not written for a null object. -/
def objGetThreadState (k : ThreadSys) : Option ℕ → ReturnT × Option ThreadState
  | some t => (.noError, some (k.threads t).state)
  | none => (.invalidObject, none)

def objSetThreadWaiting (k : ThreadSys) (o : Option ℕ) (waitingOn : Option ObjRef) :
    Exec (ReturnT × ThreadSys) :=
  match o with
  | some t =>
    if (k.threads t).state.CanBlock then do
      let threads := threadSetWaitingOn (threadSetState k.threads t .waiting) t waitingOn
      let sched ← schNotifyPauseThread threads k.sched t
      return (.noError, { k with threads := threads, sched := sched })
    else
      return (.noError, k)
  | none => return (.invalidObject, k)

def objThreadIsWaitingOn (k : ThreadSys) (o : Option ℕ) (waitingOn : Option ObjRef) : Bool :=
  match o with
  | some t => (k.threads t).waitingOn = waitingOn
  | none => false

/-- It looks at the state only, not at what the thread waits for. -/
def objSetThreadReady (k : ThreadSys) (o : Option ℕ) : Exec (ReturnT × ThreadSys) :=
  match o with
  | some t =>
    if (k.threads t).state = .waiting then do
      let threads := threadSetWaitingOn (threadSetState k.threads t .ready) t none
      let sched ← schNotifyResumeThread threads k.sched t
      return (.noError, { k with threads := threads, sched := sched })
    else
      return (.noError, k)
  | none => return (.invalidObject, k)

def objGetThreadPriorityEx (k : ThreadSys) : Option ℕ → Priority
  | some t => threadGetPriority k.threads t
  | none => 0

/-- The original priority follows, unless the present one is lent. -/
def objSetThreadPriority (k : ThreadSys) (o : Option ℕ) (priority : Priority) :
    Exec (ReturnT × ThreadSys) :=
  match o with
  | some t =>
    if priority ≠ 0 then do
      let oldPri := threadGetPriority k.threads t
      let threads := threadSetPriority k.threads t priority
      let obj := k.objThreads t
      let obj := if obj.priorityInheritance then obj else { obj with originalPriority := priority }
      let sched ← schNotifyChangePriority threads k.sched t oldPri
      return (.noError, ⟨threads, sched, update k.objThreads t obj⟩)
    else
      return (.parametersInvalid, k)
  | none => return (.invalidObject, k)

def objResetThreadOriginalPriority (k : ThreadSys) (o : Option ℕ) : Exec (ReturnT × ThreadSys) :=
  match o with
  | some t => do
    let oldPri := threadGetPriority k.threads t
    let obj := k.objThreads t
    let threads := threadSetPriority k.threads t obj.originalPriority
    let sched ← schNotifyChangePriority threads k.sched t oldPri
    let objThreads := update k.objThreads t { obj with priorityInheritance := false }
    return (.noError, ⟨threads, sched, objThreads⟩)
  | none => return (.invalidObject, k)

def objSetThreadOriginalPriority (k : ThreadSys) (o : Option ℕ) : ReturnT × ThreadSys :=
  match o with
  | some t =>
    let obj := { k.objThreads t with
      originalPriority := threadGetPriority k.threads t
      priorityInheritance := true }
    (.noError, { k with objThreads := update k.objThreads t obj })
  | none => (.invalidObject, k)

def objGetThreadOriginalPriorityEx (k : ThreadSys) : Option ℕ → Priority
  | some t => (k.objThreads t).originalPriority
  | none => 0

/-- The thread is taken out of its ready queue and out of `curr_thread`; the queues of other objects
are not looked at. -/
def objExitThread (k : ThreadSys) (o : Option ℕ) : Exec (ReturnT × ThreadSys) :=
  match o with
  | some t =>
    if (k.threads t).state ≠ .terminated ∧ (k.threads t).state ≠ .notCreated then do
      let threads := threadSetState k.threads t .terminated
      let sched ← schNotifyExitThread threads k.sched t
      return (.noError, { k with threads := threads, sched := schNotifyTerminated sched t })
    else
      return (.objectInInvalidState, k)
  | none => return (.invalidObject, k)

/-! ## Their effect on who is blocked -/

def wake (threads : Threads) (o : Option ℕ) : Threads :=
  match o with
  | some t =>
    if (threads t).state = .waiting then
      update threads t { threads t with state := .ready, waitingOn := none }
    else threads
  | none => threads

def block (threads : Threads) (t : ℕ) (waitingOn : Option ObjRef) : Threads :=
  if (threads t).state.CanBlock then
    update threads t { threads t with state := .waiting, waitingOn := waitingOn }
  else threads

/-- No thread has been blocked, woken or turned to another object. -/
def SameStatus (threads threads' : Threads) : Prop :=
  ∀ u, (threads' u).state = (threads u).state ∧ (threads' u).waitingOn = (threads u).waitingOn

variable {threads threads' threads'' : Threads} {k k' : ThreadSys} {o : Option ℕ} {r : ReturnT}
  {t u : ℕ} {ts : List ℕ} {p : Priority} {w : Option ObjRef}

@[refl] theorem SameStatus.refl (threads : Threads) : SameStatus threads threads :=
  fun _ => ⟨rfl, rfl⟩

theorem SameStatus.trans (h : SameStatus threads threads') (h' : SameStatus threads' threads'') :
    SameStatus threads threads'' :=
  fun u => ⟨(h' u).1.trans (h u).1, (h' u).2.trans (h u).2⟩

theorem sameStatus_setPriority (threads : Threads) (t : ℕ) (p : Priority) :
    SameStatus threads (threadSetPriority threads t p) := by
  intro u
  by_cases h : u = t
  · subst h
    simp [threadSetPriority]
  · simp [threadSetPriority, h]

@[simp] theorem wake_none : wake threads none = threads := rfl

theorem wake_of_ne_waiting (h : (threads t).state ≠ .waiting) : wake threads (some t) = threads :=
  if_neg h

theorem wake_of_ne (h : o ≠ some u) : wake threads o u = threads u := by
  cases o with
  | none => rfl
  | some t =>
    have hne : u ≠ t := fun e => h (e ▸ rfl)
    simp only [wake]
    split <;> simp [hne]

theorem wake_self_of_waiting (h : (threads t).state = .waiting) :
    wake threads (some t) t = { threads t with state := .ready, waitingOn := none } := by
  simp [wake, h]

theorem wake_self_ne_waiting : (wake threads (some t) t).state ≠ .waiting := by
  by_cases h : (threads t).state = .waiting
  · simp [wake_self_of_waiting h]
  · rwa [wake_of_ne_waiting h]

theorem wake_of_runnable (h : (threads u).state.Runnable) : wake threads o u = threads u := by
  by_cases hu : o = some u
  · rw [hu, wake_of_ne_waiting h.ne_waiting]
  · exact wake_of_ne hu

theorem SameStatus.wake (h : SameStatus threads threads') (o : Option ℕ) :
    SameStatus (wake threads o) (Tinker.wake threads' o) := by
  intro u
  by_cases hu : o = some u
  · subst hu
    by_cases hw : (threads u).state = .waiting
    · have hw' : (threads' u).state = .waiting := (h u).1.trans hw
      simp [wake_self_of_waiting hw, wake_self_of_waiting hw']
    have hw' : (threads' u).state ≠ .waiting := by rwa [(h u).1]
    rw [wake_of_ne_waiting hw, wake_of_ne_waiting hw']
    exact h u
  rw [wake_of_ne hu, wake_of_ne hu]
  exact h u

def wakeAll (threads : Threads) (ts : List ℕ) : Threads :=
  ts.foldl (fun threads t => wake threads (some t)) threads

@[simp] theorem wakeAll_nil : wakeAll threads [] = threads := rfl

@[simp] theorem wakeAll_cons : wakeAll threads (t :: ts) = wakeAll (wake threads (some t)) ts := rfl

theorem wakeAll_of_notMem (h : u ∉ ts) : wakeAll threads ts u = threads u := by
  induction ts generalizing threads with
  | nil => rfl
  | cons t ts ih =>
    simp only [List.mem_cons, not_or] at h
    have hne : some t ≠ some u := fun e => h.1 (Option.some.inj e).symm
    rw [wakeAll_cons, ih h.2, wake_of_ne hne]

theorem wake_of_waiting (h : (wake threads o u).state = .waiting) :
    wake threads o u = threads u := by
  by_cases hu : o = some u
  · subst hu
    exact absurd h wake_self_ne_waiting
  · exact wake_of_ne hu

theorem wakeAll_of_waiting (h : (wakeAll threads ts u).state = .waiting) :
    wakeAll threads ts u = threads u := by
  induction ts generalizing threads with
  | nil => rfl
  | cons t ts ih =>
    have hrest := ih h
    rw [wakeAll_cons] at h ⊢
    rw [hrest] at h ⊢
    exact wake_of_waiting h

theorem waitingOn_of_wake {obj : ObjRef} (h : (wake threads o u).waitingOn = some obj) :
    (threads u).waitingOn = some obj := by
  by_cases hu : o = some u
  · subst hu
    by_cases hw : (threads u).state = .waiting
    · simp [wake_self_of_waiting hw] at h
    · rwa [wake_of_ne_waiting hw] at h
  · rwa [wake_of_ne hu] at h

theorem waitingOn_of_wakeAll {obj : ObjRef} (h : (wakeAll threads ts u).waitingOn = some obj) :
    (threads u).waitingOn = some obj := by
  induction ts generalizing threads with
  | nil => exact h
  | cons t ts ih => exact waitingOn_of_wake (ih h)

theorem wakeAll_of_runnable (h : (threads u).state.Runnable) :
    wakeAll threads ts u = threads u := by
  induction ts generalizing threads with
  | nil => rfl
  | cons t ts ih =>
    have hfirst : wake threads (some t) u = threads u := wake_of_runnable h
    rw [wakeAll_cons, ih (by rwa [hfirst]), hfirst]

theorem wakeAll_ready (h : (threads t).state = .waiting) (mem : t ∈ ts) :
    (wakeAll threads ts t).state = .ready := by
  induction ts generalizing threads with
  | nil => cases mem
  | cons u ts ih =>
    rw [wakeAll_cons]
    by_cases hu : u = t
    · subst hu
      have hready : (wake threads (some u) u).state = .ready := by rw [wake_self_of_waiting h]
      rw [wakeAll_of_runnable (.inl hready), hready]
    have hsame : wake threads (some u) t = threads t := wake_of_ne fun e => hu (Option.some.inj e)
    exact ih (by rwa [hsame]) ((List.mem_cons.mp mem).resolve_left (Ne.symm hu))

theorem block_of_ne (h : u ≠ t) : block threads t w u = threads u := by
  simp only [block]
  split <;> simp [h]

theorem block_self (h : (threads t).state.CanBlock) :
    block threads t w t = { threads t with state := .waiting, waitingOn := w } := by
  simp [block, h]

theorem waiting_block_self (h : (threads t).state.CanBlock) :
    (block threads t w t).state = .waiting := by
  rw [block_self h]

theorem waiting_block (h : (threads u).state = .waiting) :
    (block threads t w u).state = .waiting := by
  by_cases hu : u = t
  · subst hu
    exact waiting_block_self (by rw [h]; decide)
  · rwa [block_of_ne hu]

theorem SameStatus.block (h : SameStatus threads threads') (t : ℕ) (w : Option ObjRef) :
    SameStatus (block threads t w) (Tinker.block threads' t w) := by
  intro u
  by_cases hu : u = t
  · subst hu
    by_cases hb : (threads u).state.CanBlock
    · have hb' : (threads' u).state.CanBlock := by rwa [(h u).1]
      simp [block_self hb, block_self hb']
    have hb' : ¬ (threads' u).state.CanBlock := by rwa [(h u).1]
    simpa [Tinker.block, hb, hb'] using h u
  rw [block_of_ne hu, block_of_ne hu]
  exact h u

theorem objSetThreadReady_threads (h : objSetThreadReady k o = .ok (r, k')) :
    k'.threads = wake k.threads o ∧ k'.objThreads = k.objThreads := by
  cases o with
  | none =>
    cases h
    exact ⟨rfl, rfl⟩
  | some t =>
    simp only [objSetThreadReady] at h
    split at h
    next hw =>
      obtain ⟨sched, -, h⟩ := of_bind h
      cases h
      simp [wake, hw, threadSetState, threadSetWaitingOn]
    next hw =>
      cases h
      exact ⟨(wake_of_ne_waiting hw).symm, rfl⟩

theorem objSetThreadWaiting_threads (h : objSetThreadWaiting k (some t) w = .ok (r, k')) :
    k'.threads = block k.threads t w ∧ k'.objThreads = k.objThreads := by
  simp only [objSetThreadWaiting] at h
  split at h
  next hb =>
    obtain ⟨sched, -, h⟩ := of_bind h
    cases h
    simp [block, hb, threadSetState, threadSetWaitingOn]
  next hb =>
    cases h
    exact ⟨(if_neg hb).symm, rfl⟩

theorem objSetThreadPriority_status (h : objSetThreadPriority k o p = .ok (r, k')) :
    SameStatus k.threads k'.threads := by
  cases o with
  | none =>
    cases h
    rfl
  | some t =>
    simp only [objSetThreadPriority] at h
    split at h
    · obtain ⟨sched, -, h⟩ := of_bind h
      cases h
      exact sameStatus_setPriority _ _ _
    cases h
    rfl

theorem objResetThreadOriginalPriority_status
    (h : objResetThreadOriginalPriority k o = .ok (r, k')) : SameStatus k.threads k'.threads := by
  cases o with
  | none =>
    cases h
    rfl
  | some t =>
    obtain ⟨sched, -, h⟩ := of_bind h
    cases h
    exact sameStatus_setPriority _ _ _

theorem objExitThread_threads (h : objExitThread k (some t) = .ok (r, k')) :
    k'.objThreads = k.objThreads ∧
      (k'.threads = threadSetState k.threads t .terminated ∨
        k'.threads = k.threads ∧
          ((k.threads t).state = .terminated ∨ (k.threads t).state = .notCreated)) := by
  simp only [objExitThread] at h
  split at h
  · obtain ⟨sched, -, h⟩ := of_bind h
    cases h
    exact ⟨rfl, .inl rfl⟩
  next hdead =>
    cases h
    refine ⟨rfl, .inr ⟨rfl, ?_⟩⟩
    by_contra hne
    exact hdead ⟨fun e => hne (.inl e), fun e => hne (.inr e)⟩

@[simp] theorem objSetThreadOriginalPriority_threads :
    (objSetThreadOriginalPriority k o).2.threads = k.threads := by
  cases o <;> rfl

/-! ## Lending a priority -/

@[simp] theorem wake_priority : (wake threads o u).priority = (threads u).priority := by
  by_cases hu : o = some u
  · subst hu
    by_cases hw : (threads u).state = .waiting
    · rw [wake_self_of_waiting hw]
    · rw [wake_of_ne_waiting hw]
  · rw [wake_of_ne hu]

@[simp] theorem block_priority : (block threads t w u).priority = (threads u).priority := by
  by_cases hu : u = t
  · subst hu
    by_cases hb : (threads u).state.CanBlock
    · rw [block_self hb]
    · simp [block, hb]
  · rw [block_of_ne hu]

/-- The thread `o` has been lent the priority `p`; its own is kept as its original one. -/
structure Lent (k k' : ThreadSys) (o : Option ℕ) (p : Priority) : Prop where
  priority : ∀ u, (k'.threads u).priority = if o = some u then p else (k.threads u).priority
  original : ∀ u, (k'.objThreads u).originalPriority =
    if o = some u then (k.threads u).priority else (k.objThreads u).originalPriority

/-- The thread `o` is back at its original priority. -/
structure GivenBack (k k' : ThreadSys) (o : Option ℕ) : Prop where
  priority : ∀ u, (k'.threads u).priority =
    if o = some u then (k.objThreads u).originalPriority else (k.threads u).priority
  original : ∀ u, (k'.objThreads u).originalPriority = (k.objThreads u).originalPriority

theorem lent_none (k : ThreadSys) (p : Priority) : Lent k k none p :=
  ⟨fun _ => rfl, fun _ => rfl⟩

theorem givenBack_none (k : ThreadSys) : GivenBack k k none :=
  ⟨fun _ => rfl, fun _ => rfl⟩

theorem Lent.congr (lent : Lent k k' o p) {after : ThreadSys}
    (priority : ∀ u, (after.threads u).priority = (k'.threads u).priority)
    (objThreads : after.objThreads = k'.objThreads) : Lent k after o p :=
  ⟨fun u => (priority u).trans (lent.priority u), fun u => by rw [objThreads, lent.original u]⟩

theorem lent_of_objSetThreadPriority (hp : p ≠ 0)
    (h : objSetThreadPriority (objSetThreadOriginalPriority k o).2 o p = .ok (r, k')) :
    Lent k k' o p := by
  cases o with
  | none =>
    cases h
    exact lent_none _ p
  | some t =>
    simp only [objSetThreadPriority, if_pos hp] at h
    obtain ⟨sched, -, h⟩ := of_bind h
    cases h
    constructor <;> intro u <;> by_cases hu : u = t
    · subst hu
      simp [threadSetPriority]
    · simp [threadSetPriority, objSetThreadOriginalPriority, hu, Ne.symm hu]
    · subst hu
      simp [objSetThreadOriginalPriority, threadGetPriority]
    · simp [objSetThreadOriginalPriority, hu, Ne.symm hu]

theorem givenBack_of_objResetThreadOriginalPriority
    (h : objResetThreadOriginalPriority k o = .ok (r, k')) : GivenBack k k' o := by
  cases o with
  | none =>
    cases h
    exact givenBack_none _
  | some t =>
    obtain ⟨sched, -, h⟩ := of_bind h
    cases h
    constructor <;> intro u <;> by_cases hu : u = t
    · subst hu
      simp [threadSetPriority]
    · simp [threadSetPriority, hu, Ne.symm hu]
    · subst hu
      simp
    · simp [hu]

/-! ## Why a thread is blocked -/

section Why

variable {ρ : Type} {why : ℕ → Option ρ} {wait : Option (ℕ × ρ)} {x : ρ}

/-- The record of why threads are blocked, after a call that has left `threads`. If the call
has blocked its caller, `wait` names the caller and the reason; a thread that is not blocked
has no entry. -/
def whyAfter (why : ℕ → Option ρ) (wait : Option (ℕ × ρ)) (threads : Threads) (t : ℕ) : Option ρ :=
  if (threads t).state = .waiting then
    match wait with
    | some (caller, reason) => if t = caller then some reason else why t
    | none => why t
  else none

theorem whyAfter_eq_some (h : whyAfter why wait threads t = some x) :
    (threads t).state = .waiting ∧ (wait = some (t, x) ∨ why t = some x) := by
  unfold whyAfter at h
  split at h
  next hwaiting =>
    refine ⟨hwaiting, ?_⟩
    split at h
    · split at h
      next hcaller =>
        cases h
        exact .inl (by rw [hcaller])
      · exact .inr h
    · exact .inr h
  · cases h

theorem whyAfter_of_waiting (waiting : (threads t).state = .waiting)
    (other : ∀ x, wait ≠ some (t, x)) : whyAfter why wait threads t = why t := by
  unfold whyAfter
  rw [if_pos waiting]
  split
  next caller reason => rw [if_neg fun e => other reason (by rw [e])]
  · rfl

theorem whyAfter_of_not_waiting (running : (threads t).state ≠ .waiting) :
    whyAfter why wait threads t = none :=
  if_neg running

theorem whyAfter_caller (waiting : (threads t).state = .waiting) :
    whyAfter why (some (t, x)) threads t = some x := by
  simp [whyAfter, waiting]

end Why

/-! ## A kernel to start from -/

/-- The scheduler after threads of the given priorities have been created. -/
def bootSched (threads : Threads) (ts : List ℕ) : Exec Scheduler := do
  let s ← schCreateScheduler
  ts.foldlM (schNotifyNewThread threads) s

/-- A kernel in which the threads `ts` have been created and are ready; thread 0 is the
idle thread. -/
def ThreadSys.boot (prio : ℕ → Priority) (ts : List ℕ) : Exec ThreadSys := do
  let threads := fun t => Thread.ready (prio t)
  let sched ← bootSched threads (0 :: ts)
  return ⟨threads, schSetKernelIdleThread sched 0, fun t => ⟨false, prio t, 0⟩⟩

/-- The same kernel, in which the other threads have not been created yet. -/
def ThreadSys.bootOnly (prio : ℕ → Priority) (ts : List ℕ) : Exec ThreadSys := do
  let k ← ThreadSys.boot prio ts
  return { k with threads := fun t =>
    if t ∈ 0 :: ts then k.threads t else { k.threads t with state := .notCreated } }

end Tinker
