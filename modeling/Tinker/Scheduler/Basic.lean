import Tinker.Collections.Queue
import Tinker.Process.Thread

/-!
# The scheduler

`scheduler.c`: one queue of threads for each priority, the queue that is being served,
and a stack of queues that remembers which one to serve next when it runs empty.

A pointer to a queue is the priority it is the queue of. The notifications read the
threads and rewrite the scheduler only; `sch_set_context_for_next_thread` also writes
thread states, saved contexts and the processor.
-/

namespace Tinker

open Tinker.Lib Tinker.Collections

structure Scheduler where
  currThread : Option ℕ
  currQueue : Priority
  priorityQueues : Priority → ListT ℕ
  currPriority : Priority
  /-- The queues to go back to; the queue being served is on top. -/
  queueStack : ListT Priority
  idleThread : Option ℕ
  /-- An event has changed which thread should run. -/
  evalNewThread : Bool

/-- `kernel_assert` stops the machine when the condition does not hold. -/
def kernelAssert (condition : Bool) : Exec Unit :=
  if condition then .ok () else .error .halted

def kernelPanic {α : Type} : Exec α := .error .halted

namespace Scheduler

abbrev queue (s : Scheduler) (p : Priority) : ListT ℕ := s.priorityQueues p

def setQueue (s : Scheduler) (p : Priority) (q : ListT ℕ) : Scheduler :=
  { s with priorityQueues := Function.update s.priorityQueues p q }

end Scheduler

def schCreateScheduler : Exec Scheduler := do
  let queueStack ← stackPush listCreate 0
  return {
    currThread := none
    currQueue := 0
    priorityQueues := fun _ => listCreate
    currPriority := 0
    queueStack := queueStack
    idleThread := none
    evalNewThread := false }

def schSetKernelIdleThread (s : Scheduler) (idle : ℕ) : Scheduler :=
  { s with idleThread := some idle }

def schSetCurrentThread (s : Scheduler) (t : ℕ) : Scheduler := { s with currThread := some t }

/-! ## The stack of queues -/

/-- The loop of `insert_lower_priority_queue_to_stack`, at the queue under the iterator.
It stops at the first queue that is not empty and whose first thread has the priority
or a lower one; in the latter case the new queue is inserted at the iterator's index. -/
def insertLowerLoop (threads : Threads) (s : Scheduler) (threadPriority : Priority) :
    ℕ → ListIt → Option Priority → Exec Scheduler
  | 0, _, some _ => .error .diverges
  | _, _, none => .ok s
  | fuel + 1, it, some stackQueue => do
    match ← queueFront (s.queue stackQueue) with
    | some first =>
      let stackThreadPriority := threadGetPriority threads first
      if stackThreadPriority = threadPriority then
        return s
      else if stackThreadPriority < threadPriority then do
        let (inserted, stack) ← stackInsert s.queueStack (listItWhere it) threadPriority
        if inserted then return { s with queueStack := stack } else kernelPanic
      else do
        let (next, it) ← listItNext s.queueStack it
        insertLowerLoop threads s threadPriority fuel it next
    | none => do
      let (next, it) ← listItNext s.queueStack it
      insertLowerLoop threads s threadPriority fuel it next

def insertLowerPriorityQueueToStack (threads : Threads) (s : Scheduler)
    (threadPriority : Priority) : Exec Scheduler := do
  let (stackQueue, it) ← listItGet s.queueStack (listItCreate s.queueStack)
  insertLowerLoop threads s threadPriority (s.queueStack.size + 1) it stackQueue

/-- The search of `sch_priority_find_next_queue`: the first queue that is not empty,
from the index down, and the queue 0 if there is none. -/
def findQueueFrom (s : Scheduler) : ℕ → ℕ
  | 0 => 0
  | p + 1 => if queueSize (s.queue (Fin.ofNat 256 (p + 1))) ≠ 0 then p + 1 else findQueueFrom s p

/-- The index is one byte and is decremented first. -/
def schPriorityFindNextQueue (threads : Threads) (s : Scheduler) (t : ℕ) : Exec Scheduler := do
  let p := Fin.ofNat 256 (findQueueFrom s (threadGetPriority threads t - 1 : Priority))
  let stack ← stackPush s.queueStack p
  return { s with currPriority := p, currQueue := p, queueStack := stack }

/-! ## Notifications -/

/-- The part of `sch_notify_new_thread` behind the queueing of the thread. -/
def schRaisePriority (threads : Threads) (s : Scheduler) (threadPriority : Priority) :
    Exec Scheduler :=
  if s.currPriority < threadPriority then do
    let stack ← stackPush s.queueStack threadPriority
    return { s with
      evalNewThread := true
      currPriority := threadPriority
      currQueue := threadPriority
      queueStack := stack }
  else if threadPriority < s.currPriority then
    insertLowerPriorityQueueToStack threads s threadPriority
  else
    return s

def schNotifyNewThread (threads : Threads) (s : Scheduler) (t : ℕ) : Exec Scheduler := do
  let threadPriority := threadGetPriority threads t
  let queued ← queueContains (s.queue threadPriority) t
  if queued then
    schRaisePriority threads s threadPriority
  else do
    let queue ← queuePush (s.queue threadPriority) t
    schRaisePriority threads (s.setQueue threadPriority queue) threadPriority

/-- The part of `sch_notify_exit_thread` that goes back to the queue below the top of the
stack, once the queue being served is empty. -/
def schServeNext (threads : Threads) (s : Scheduler) (t : ℕ) : Exec Scheduler := do
  let (popped, stack) ← stackPop s.queueStack
  let s := { s with currQueue := popped.getD s.currQueue, queueStack := stack }
  match ← stackFront s.queueStack with
  | some front => do
    let first ← queueFront (s.queue front)
    return { s with
      currQueue := front
      currPriority := (first.map (threadGetPriority threads)).getD 0 }
  | none => schPriorityFindNextQueue threads s t

def schNotifyExitThread (threads : Threads) (s : Scheduler) (t : ℕ) : Exec Scheduler := do
  let threadPriority := threadGetPriority threads t
  let (removed, queue) ← queueRemove (s.queue threadPriority) t
  let s := s.setQueue threadPriority queue
  if removed then
    let s := { s with evalNewThread := true }
    if queueSize (s.queue s.currQueue) = 0 then schServeNext threads s t else return s
  else
    return s

def schNotifyTerminated (s : Scheduler) (t : ℕ) : Scheduler :=
  if s.currThread = some t then { s with currThread := none } else s

def schNotifyPauseThread (threads : Threads) (s : Scheduler) (t : ℕ) : Exec Scheduler :=
  schNotifyExitThread threads s t

def schNotifyResumeThread (threads : Threads) (s : Scheduler) (t : ℕ) : Exec Scheduler :=
  schNotifyNewThread threads s t

/-- The middle part of `sch_notify_change_priority`: the new queue is served at once if the
priority has been raised, and noted on the stack otherwise. -/
def schPlaceQueue (threads : Threads) (s : Scheduler) (threadPriority originalPriority : Priority) :
    Exec Scheduler :=
  if originalPriority < threadPriority then do
    let stack ← stackPush s.queueStack threadPriority
    return { s with
      evalNewThread := true
      currPriority := threadPriority
      currQueue := threadPriority
      queueStack := stack }
  else
    insertLowerPriorityQueueToStack threads s threadPriority

/-- The last part of `sch_notify_change_priority`, once the queue that was being served is
empty: serve the queue on top of the stack. An empty queue there is fatal. -/
def schServeTop (threads : Threads) (s : Scheduler) (t : ℕ) : Exec Scheduler := do
  match ← stackFront s.queueStack with
  | some front => do
    match ← queueFront (s.queue front) with
    | some first => return { s with
        currQueue := front
        evalNewThread := true
        currPriority := threadGetPriority threads first }
    | none => kernelPanic
  | none => schPriorityFindNextQueue threads s t

/-- `sch_notify_change_priority`, for a thread whose priority has been changed from
`originalPriority`. -/
def schNotifyChangePriority (threads : Threads) (s : Scheduler) (t : ℕ)
    (originalPriority : Priority) : Exec Scheduler := do
  let threadPriority := threadGetPriority threads t
  let (_, queue) ← queueRemove (s.queue originalPriority) t
  let s := s.setQueue originalPriority queue
  let queue ← queuePush (s.queue threadPriority) t
  let s := s.setQueue threadPriority queue
  if queueSize (s.queue s.currQueue) = 0 then do
    let (popped, stack) ← stackPop s.queueStack
    let s := { s with currQueue := popped.getD s.currQueue, queueStack := stack }
    let s ← schPlaceQueue threads s threadPriority originalPriority
    schServeTop threads s t
  else
    schPlaceQueue threads s threadPriority originalPriority

/-! ## Dispatching -/

structure Core where
  threads : Threads
  sched : Scheduler
  /-- The registers the interrupted thread left and the next one will be given. -/
  context : TgtContext
  translationTable : Option ℕ
  scheduleTimer : Bool

def bspEnableScheduleTimer (k : Core) : Core := { k with scheduleTimer := true }

/-- Load the thread's registers, and its page table if it belongs to another process. -/
def tgtPrepareContext (k : Core) (thread : Option ℕ) (currentProcess : Option ℕ) : Core :=
  match thread with
  | some t =>
    { k with
      context := (k.threads t).context
      translationTable :=
        if currentProcess ≠ some (k.threads t).parent then some (k.threads t).parent
        else k.translationTable }
  | none => k

/-- The first part of `sch_set_context_for_next_thread`: take the head of the queue being
served, or keep the current thread if it is empty, rotate the queue, and fall back to the
idle thread if the one taken cannot run. -/
def schPickThread (k : Core) : Exec Core := do
  let front ← queueFront (k.sched.queue k.sched.currQueue)
  match front.or k.sched.currThread with
  | some t => do
    let (reorderOk, queue) ← queueReorderFirst (k.sched.queue k.sched.currQueue)
    kernelAssert reorderOk
    let sched := k.sched.setQueue k.sched.currQueue queue
    if (k.threads t).state.Runnable then
      return { k with
        sched := { sched with currThread := some t }
        threads := threadSetState k.threads t .running }
    else
      return { k with sched := { sched with currThread := sched.idleThread } }
  | none => return { k with sched := { k.sched with currThread := k.sched.idleThread } }

/-- What a context switch writes to the thread that was running. It is asserted not to be
null when it is said to be running. -/
def schLeaveThread (threads : Threads) (currentThread : Option ℕ) (threadState : ThreadState)
    (context : TgtContext) : Exec Threads :=
  if threadState = .running then
    match currentThread with
    | some t => .ok (threadSaveContext (threadSetState threads t .ready) (some t) context)
    | none => .error .halted
  else if threadState ≠ .dead then
    .ok (threadSaveContext threads currentThread context)
  else
    .ok threads

/-- The second part: save the context of the thread that was running and load that of the
one picked. -/
def schSwitchContext (k : Core) (currentThread : Option ℕ) (threadState : ThreadState) :
    Exec Core :=
  if currentThread ≠ k.sched.currThread ∨ k.sched.evalNewThread then do
    let threads ← schLeaveThread k.threads currentThread threadState k.context
    let k := { k with threads := threads, sched := { k.sched with evalNewThread := false } }
    return tgtPrepareContext k k.sched.currThread (threadGetParent threads currentThread)
  else
    return k

def schSetContextForNextThread (k : Core) (threadState : ThreadState) : Exec Core := do
  let currentThread := k.sched.currThread
  let k ← schPickThread k
  let k ← schSwitchContext k currentThread threadState
  let k := if queueSize (k.sched.queue k.sched.currQueue) > 1 then bspEnableScheduleTimer k else k
  kernelAssert k.sched.currThread.isSome
  return k

end Tinker
