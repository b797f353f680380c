import Tinker.Objects.Shared
import Tinker.Process.Create
import Tinker.Scheduler.Queues

/-!
# The threads of a process

`proc_create_thread` with all that it writes. Every allocation on the way may be refused. The
result of `obj_create_thread` is taken for a boolean, and a thread without memory is no error; so a
call that returns `NO_ERROR` may have created no thread, or one that never runs, and a call that
returns an error may have left a thread behind.
-/

namespace Tinker

open Tinker.Lib Tinker.Collections Function Exec

/-! ## The scheduler without memory -/

/-- Whether the scheduler gets the memory that it asks for: for an element of the ready queue, an
iterator, and an element of the stack of queues. -/
structure SchRoom where
  queue : Bool
  iterator : Bool
  stack : Bool

/-- The part of `sch_notify_new_thread` behind the queueing of the thread. A stack that does not
grow is not noticed when a queue is pushed; when one is inserted, the machine stops. -/
def schRaisePriorityIn (room : SchRoom) (threads : Threads) (s : Scheduler)
    (threadPriority : Priority) : Exec Scheduler :=
  if s.currPriority < threadPriority then do
    let stack ← (if room.stack then stackPush s.queueStack threadPriority else pure s.queueStack)
    return { s with
      evalNewThread := true
      currPriority := threadPriority
      currQueue := threadPriority
      queueStack := stack }
  else if threadPriority < s.currPriority then
    if room.iterator then do
      let s' ← insertLowerPriorityQueueToStack threads s threadPriority
      if room.stack ∨ s'.queueStack.size = s.queueStack.size then return s' else kernelPanic
    -- `list_it_initialise` writes to the iterator only if the list has elements
    else if s.queueStack.size = 0 then return s
    else .error .badPointer
  else
    return s

/-- `sch_notify_new_thread`. A queue that does not grow is not noticed. -/
def schNotifyNewThreadIn (room : SchRoom) (threads : Threads) (s : Scheduler) (t : ℕ) :
    Exec Scheduler := do
  let threadPriority := threadGetPriority threads t
  let queued ← queueContains (s.queue threadPriority) t
  let queue ← (if queued ∨ ¬ room.queue then pure (s.queue threadPriority)
    else queuePush (s.queue threadPriority) t)
  schRaisePriorityIn room threads (s.setQueue threadPriority queue) threadPriority

section Scheduler

variable {room : SchRoom} {threads : Threads} {s s' : Scheduler} {t : ℕ} {p : Priority}

open Scheduler in
theorem schRaisePriorityIn_sameQueues (h : schRaisePriorityIn room threads s p = .ok s') :
    SameQueues s s' := by
  unfold schRaisePriorityIn at h
  split at h
  · obtain ⟨stack, -, h⟩ := of_bind h
    cases h
    exact ⟨rfl, rfl⟩
  split at h
  · split at h
    · obtain ⟨s₁, hinsert, h⟩ := of_bind h
      split at h
      · cases h
        exact insertLower_sameQueues hinsert
      · cases h
    split at h
    · cases h
      exact .refl s
    · cases h
  cases h
  exact .refl s

/-- A thread that arrives is put at the end of its queue, unless it is in it or there is no
memory. -/
theorem Scheduler.Holds.newThreadIn {queues : Priority → List ℕ} (h : s.Holds queues)
    (hs : schNotifyNewThreadIn room threads s t = .ok s') :
    s'.Holds (update queues (threads t).priority
      (if room.queue then enqueue t (queues (threads t).priority)
        else queues (threads t).priority)) := by
  obtain ⟨queued, hqueued, hs⟩ := of_bind hs
  obtain ⟨queue, hqueue, hs⟩ := of_bind hs
  refine (h.setQueue ?_).congr (schRaisePriorityIn_sameQueues hs).queues
  have hmem : queued = decide (t ∈ queues (threads t).priority) :=
    Except.ok.inj (hqueued.symm.trans ((h (threads t).priority).listContains t))
  subst hmem
  by_cases hroom : room.queue = true
  · rw [if_pos hroom]
    unfold enqueue
    by_cases ht : t ∈ queues (threads t).priority
    · rw [if_pos (.inl (decide_eq_true ht))] at hqueue
      rw [if_pos ht, ← Except.ok.inj hqueue]
      exact h _
    rw [if_neg (by simp [ht, hroom])] at hqueue
    obtain ⟨queue', hpush, hq⟩ := (h (threads t).priority).listAdd t
    rw [if_neg ht, ← Except.ok.inj (hpush.symm.trans hqueue)]
    exact hq
  rw [if_pos (.inr hroom)] at hqueue
  rw [if_neg hroom, ← Except.ok.inj hqueue]
  exact h _

end Scheduler

/-! ## Processes and requests -/

def maxThreads : ℕ := 1024

/-- A process, as far as its threads go. -/
structure ProcessThreads where
  threads : Fin maxThreads → Option ℕ
  initialThread : Option ℕ
  /-- Whether there was memory for `object_table`; the table itself is in `ObjSys`. -/
  hasTable : Bool

/-- `object_thread_t`. Its priorities are in `ThreadSys`. -/
structure ThreadObject where
  objectNumber : ℕ
  tid : ℕ
  thread : ℕ
  deriving DecidableEq

structure ProcSys extends ObjSys where
  procs : ℕ → ProcessThreads
  threadIds : ℕ → ℕ
  objectNumbers : ℕ → ℕ
  threadObjs : ℕ → Option ThreadObject

structure ThreadRequest where
  priority : Priority
  entryPoint : BitVec 32
  stackSize : BitVec 32
  threadEnd : BitVec 32
  armBootstrap : BitVec 32
  thread : Option ℕ
  stack : Option (BitVec 32)
  object : Bool
  table : Bool
  room : SchRoom

def invalidObjectNumber : ℕ := 65535

/-! ## Creating a thread -/

/-- The first section that begins where the pool of the process does has the stack. -/
def threadSetupStack (memory : ProcessMemory) (stack stackSize : BitVec 32) : BitVec 32 :=
  match memory.sections.find? fun mem => mem.realAddress = memory.poolStart with
  | some mem => mem.virtAddress + (stack - memory.poolStart + (stackSize - 12))
  | none => 0

def ThreadRequest.record (req : ThreadRequest) (memory : ProcessMemory) (parent : ℕ) : Thread where
  priority := req.priority
  state := if req.stack.isSome then .ready else .notCreated
  waitingOn := none
  parent := parent
  context :=
    match req.stack with
    | some stack => tgtInitialiseContext (threadSetupStack memory stack req.stackSize)
        req.entryPoint req.threadEnd req.armBootstrap
    | none => default

/-- The loop of `count_threads`: how many threads there are, and the first place without one. -/
def countFrom (threads : Fin maxThreads → Option ℕ) :
    List (Fin maxThreads) → ℕ → Option (Fin maxThreads) → ℕ × Option (Fin maxThreads)
  | [], n, id => (n, id)
  | i :: rest, n, id =>
    match threads i with
    | some _ => countFrom threads rest (n + 1) id
    | none => countFrom threads rest n (id.or (some i))

def countThreads (threads : Fin maxThreads → Option ℕ) : ℕ × Option (Fin maxThreads) :=
  countFrom threads (List.finRange maxThreads) 0 none

namespace ProcSys

def threadCreate (s : ProcSys) (p t : ℕ) (req : ThreadRequest) : ProcSys :=
  { s with
    threads := update s.threads t (req.record (s.memory p) p)
    threadIds := update s.threadIds t 0
    objectNumbers := update s.objectNumbers t 0 }

def addThreadObject (s : ProcSys) (p : ℕ) (table : ObjectTable) (obj : ThreadObject) : ProcSys :=
  { s with
    toObjSys := s.addObject p table ⟨obj.objectNumber, .other⟩
    threadObjs := update s.threadObjs s.brk (some obj) }

/-- `obj_create_thread`; the second result is what is written to `object_no`. -/
def objCreateThread (s : ProcSys) (p tid t : ℕ) (req : ThreadRequest) :
    Exec (ReturnT × Option ℕ × ProcSys) :=
  if (s.procs p).hasTable then
    let no := if req.object then some s.brk else none
    match objAddObject (s.tables p) no req.table with
    | .ok (objno, table) => do
      let s := s.addThreadObject p table ⟨objno, tid, t⟩
      let obj := ⟨false, threadGetPriority s.threads t, 0⟩
      let sched ← schNotifyNewThreadIn req.room s.threads s.sched t
      return (.noError, some objno,
        { s with sched := sched, objThreads := update s.objThreads t obj })
    | .error result => return (result, none, s)
  else
    return (.parametersOutOfRange, none, s)

def setProc (s : ProcSys) (p : ℕ) (proc : ProcessThreads) : ProcSys :=
  { s with procs := update s.procs p proc }

/-- `process_add_thread`; the second result is what `objno` is then. The result of
`obj_create_thread` is taken for a boolean: only `UNKNOWN_ERROR` is false. -/
def processAddThread (s : ProcSys) (p t : ℕ) (req : ThreadRequest) :
    Exec (Bool × ℕ × ProcSys) :=
  let (threadCount, threadId) := countThreads (s.procs p).threads
  if threadCount < maxThreads then do
    let proc := s.procs p
    let s := s.setProc p { proc with initialThread := proc.initialThread.or (some t) }
    let tid := threadId.getD ⟨0, by decide⟩
    let s := { s with threadIds := update s.threadIds t tid }
    let (result, objno, s) ← s.objCreateThread p tid t req
    let objno := objno.getD invalidObjectNumber
    if result ≠ .unknownError then
      let proc := s.procs p
      let s := { s with objectNumbers := update s.objectNumbers t objno }
      return (true, objno,
        s.setProc p { proc with threads := update proc.threads tid (some t) })
    else
      return (false, objno, s)
  else
    return (false, invalidObjectNumber, s)

def getObject (s : ProcSys) (p objno : ℕ) : Option ℕ :=
  if (s.procs p).hasTable then objGetObject (s.tables p) objno else none

/-- The result, and what is written to `new_thread` and to `thread_object`. -/
def procCreateThread (s : ProcSys) (p : ℕ) (req : ThreadRequest) :
    Exec (ReturnT × Option ℕ × Option ℕ × ProcSys) :=
  match req.thread with
  | some t => do
    let s := s.threadCreate p t req
    let (added, objno, s) ← s.processAddThread p t req
    if added ∧ threadGetState s.threads (some t) = .ready then
      return (.noError, some t, s.getObject p objno, s)
    else
      return (.outOfMemory, none, none, s)
  -- there was no memory for the thread, which is no error
  | none => return (.noError, none, none, s)

end ProcSys

/-! ## What creating a thread does -/

section

variable (threads : Fin maxThreads → Option ℕ)
include threads

theorem countFrom_eq (places : List (Fin maxThreads)) (n : ℕ) (id : Option (Fin maxThreads)) :
    countFrom threads places n id =
      (n + places.countP fun i => (threads i).isSome,
        id.or (places.find? fun i => (threads i).isNone)) := by
  induction places generalizing n id with
  | nil => simp [countFrom]
  | cons i rest ih =>
    cases hi : threads i with
    | some t => simp [countFrom, hi, ih, Nat.add_assoc, Nat.add_comm 1]
    | none => simp [countFrom, hi, ih]

theorem countThreads_eq : countThreads threads =
    ((List.finRange maxThreads).countP fun i => (threads i).isSome,
      (List.finRange maxThreads).find? fun i => (threads i).isNone) := by
  rw [countThreads, countFrom_eq, Nat.zero_add, Option.none_or]

theorem count_lt_iff_exists_free :
    ((List.finRange maxThreads).countP fun i => (threads i).isSome) < maxThreads ↔
      ∃ i, threads i = none := by
  have hlt := List.countP_lt_length_iff (l := List.finRange maxThreads)
    (p := fun i => (threads i).isSome)
  rw [List.length_finRange] at hlt
  rw [hlt]
  simp

theorem countThreads_cases :
    (∃ n i, countThreads threads = (n, some i) ∧ n < maxThreads ∧ threads i = none) ∨
    ((∀ i, threads i ≠ none) ∧ ∃ n id, countThreads threads = (n, id) ∧ ¬ n < maxThreads) := by
  rw [countThreads_eq]
  by_cases hfree : ∃ i, threads i = none
  · cases hfind : (List.finRange maxThreads).find? fun i => (threads i).isNone with
    | some i =>
      have hnone := List.find?_some hfind
      exact .inl ⟨_, i, rfl, (count_lt_iff_exists_free threads).mpr hfree,
        Option.isNone_iff_eq_none.mp hnone⟩
    | none =>
      obtain ⟨i, hi⟩ := hfree
      exact absurd (Option.isNone_iff_eq_none.mpr hi)
        (List.find?_eq_none.mp hfind i (List.mem_finRange i))
  exact .inr ⟨not_exists.mp hfree, _, _, rfl,
    fun hlt => hfree ((count_lt_iff_exists_free threads).mp hlt)⟩

end

namespace ProcSys

variable {s s' : ProcSys} {p tid t : ℕ} {req : ThreadRequest} {r : ReturnT} {objno : Option ℕ}

/-- There is memory for the thread object, and a place for it in the table. -/
def Admits (s : ProcSys) (p : ℕ) (req : ThreadRequest) : Prop :=
  (s.procs p).hasTable ∧ req.object ∧ (s.tables p).freeId.isSome ∧ req.table

def withObject (s : ProcSys) (p tid t id : ℕ) (sched : Scheduler) : ProcSys :=
  { s.addThreadObject p ⟨update (s.tables p).theMap id (some s.brk), id + 1⟩
      ⟨id, tid, t⟩ with
    sched := sched
    objThreads := update s.objThreads t ⟨false, threadGetPriority s.threads t, 0⟩ }

/-- The thread gets an object and is handed to the scheduler, or nothing happens. No error is
`UNKNOWN_ERROR`. -/
theorem objCreateThread_cases (h : s.objCreateThread p tid t req = .ok (r, objno, s')) :
    (∃ id sched, s.Admits p req ∧ (s.tables p).freeId = some id ∧ r = .noError ∧
      objno = some id ∧ schNotifyNewThreadIn req.room s.threads s.sched t = .ok sched ∧
      s' = s.withObject p tid t id sched) ∨
    (¬ s.Admits p req ∧ r ≠ .unknownError ∧ objno = none ∧ s' = s) := by
  unfold objCreateThread at h
  split at h
  next htable =>
    dsimp only at h
    cases hadd : objAddObject (s.tables p) (if req.object then some s.brk else none) req.table with
    | ok found =>
      obtain ⟨id, table⟩ := found
      obtain ⟨a, ha, hfree, hroom, rfl⟩ := objAddObject_eq_ok.mp hadd
      obtain ⟨hobject, rfl⟩ : req.object = true ∧ s.brk = a := by
        split at ha
        next hobject => exact ⟨hobject, Option.some.inj ha⟩
        · cases ha
      rw [hadd] at h
      obtain ⟨sched, hsched, h⟩ := of_bind h
      cases h
      exact .inl ⟨id, sched, ⟨htable, hobject, Option.isSome_of_eq_some hfree, hroom⟩, hfree, rfl,
        rfl, hsched, rfl⟩
    | error result =>
      rw [hadd] at h
      cases h
      refine .inr ⟨?_, ?_, rfl, rfl⟩
      · rintro ⟨-, hobject, hfree, hroom⟩
        obtain ⟨id, hid⟩ := Option.isSome_iff_exists.mp hfree
        rw [objAddObject_eq_ok.mpr ⟨s.brk, if_pos hobject, hid, hroom, rfl⟩] at hadd
        cases hadd
      · rcases eq_of_objAddObject_eq_error hadd with rfl | rfl | rfl <;> decide
  next htable =>
    cases h
    exact .inr ⟨fun hadmits => htable hadmits.1, by decide, rfl, rfl⟩

/-- A thread is ready from the start exactly if it has a stack. -/
theorem threadGetState_threadCreate :
    threadGetState (s.threadCreate p t req).threads (some t) = .ready ↔
      req.stack.isSome = true := by
  cases hstack : req.stack <;> simp [threadGetState, threadCreate, ThreadRequest.record, hstack]

/-- The state in which the object of a thread is created: the thread has a place. -/
def withThread (s : ProcSys) (p t : ℕ) (i : Fin maxThreads) (req : ThreadRequest) : ProcSys :=
  let s := s.threadCreate p t req
  let s := s.setProc p
    { s.procs p with initialThread := (s.procs p).initialThread.or (some t) }
  { s with threadIds := update s.threadIds t i }

theorem admits_withThread {i : Fin maxThreads} :
    (s.withThread p t i req).Admits p req ↔ s.Admits p req := by
  simp [Admits, withThread, setProc, threadCreate]

def settled (s : ProcSys) (p t : ℕ) (i : Fin maxThreads) (objno : ℕ) : ProcSys :=
  { s with objectNumbers := update s.objectNumbers t objno }.setProc p
    { s.procs p with threads := update (s.procs p).threads i (some t) }

variable {created object : Option ℕ}

/-- A call does nothing for lack of memory; or it fails because the process is full; or it gives
the thread a place, whatever becomes of its object. -/
theorem procCreateThread_cases (h : s.procCreateThread p req = .ok (r, created, object, s')) :
    (req.thread = none ∧ r = .noError ∧ created = none ∧ s' = s) ∨
    ∃ t, req.thread = some t ∧
      (((∀ i, (s.procs p).threads i ≠ none) ∧ r = .outOfMemory ∧ created = none ∧
        s' = s.threadCreate p t req) ∨
      ∃ i result objno s₁, (s.procs p).threads i = none ∧
        (s.withThread p t i req).objCreateThread p i t req = .ok (result, objno, s₁) ∧
        s' = s₁.settled p t i (objno.getD invalidObjectNumber) ∧
        (r, created, object) = if req.stack.isSome then
          (.noError, some t, s'.getObject p (objno.getD invalidObjectNumber))
          else (.outOfMemory, none, none)) := by
  unfold procCreateThread at h
  cases hthread : req.thread with
  | none =>
    rw [hthread] at h
    obtain ⟨rfl, rfl, hlast⟩ := triple_inj h
    exact .inl ⟨rfl, rfl, rfl, (Prod.mk.inj hlast).2.symm⟩
  | some t =>
    rw [hthread] at h
    refine .inr ⟨t, rfl, ?_⟩
    obtain ⟨⟨added, objno, s₂⟩, hadd, h⟩ := of_bind h
    unfold processAddThread at hadd
    have hprocs : (s.threadCreate p t req).procs = s.procs := rfl
    rw [hprocs] at hadd
    rcases countThreads_cases (s.procs p).threads with
      ⟨n, i, hcount, hlt, hi⟩ | ⟨hfull, n, id, hcount, hnot⟩
    · rw [hcount] at hadd
      dsimp only at hadd
      rw [if_pos hlt] at hadd
      obtain ⟨⟨result, no, s₁⟩, hcreate, hadd⟩ := of_bind hadd
      have hne : result ≠ .unknownError := by
        rcases objCreateThread_cases hcreate with ⟨_, _, _, _, rfl, _⟩ | ⟨_, hne, _⟩
        · decide
        · exact hne
      rw [if_pos hne] at hadd
      cases hadd
      refine .inr ⟨i, result, no, s₁, hi, hcreate, ?_⟩
      -- the object leaves the thread as `thread_create` filled it in
      have hthreads : s₁.threads = (s.threadCreate p t req).threads := by
        rcases objCreateThread_cases hcreate with ⟨_, _, _, _, _, _, _, rfl⟩ | ⟨_, _, _, rfl⟩
        · rfl
        · rfl
      have hstate : threadGetState s₁.threads (some t) = .ready ↔ req.stack.isSome = true := by
        rw [hthreads, threadGetState_threadCreate]
      dsimp only at h
      split at h
      next hready =>
        obtain ⟨rfl, rfl, hlast⟩ := triple_inj h
        cases hlast
        exact ⟨rfl, (if_pos (hstate.mp hready.2)).symm⟩
      next hnot =>
        obtain ⟨rfl, rfl, hlast⟩ := triple_inj h
        cases hlast
        exact ⟨rfl, (if_neg fun hstack => hnot ⟨rfl, hstate.mpr hstack⟩).symm⟩
    rw [hcount] at hadd
    dsimp only at hadd
    rw [if_neg hnot] at hadd
    cases hadd
    dsimp only at h
    obtain ⟨rfl, rfl, hlast⟩ := triple_inj h
    exact .inl ⟨hfull, rfl, rfl, (Prod.mk.inj hlast).2.symm⟩

/-! ## All or nothing -/

/-- All of a thread is there: it is ready, in its place in the process, found in the object table
under its number, and in the ready queue of its priority. -/
structure Created (s : ProcSys) (p t : ℕ) : Prop where
  ready : (s.threads t).state = .ready
  place : ∃ i : Fin maxThreads, i = s.threadIds t ∧ (s.procs p).threads i = some t
  found : (s.procs p).hasTable ∧ ∃ o, objGetObject (s.tables p) (s.objectNumbers t) = some o ∧
    s.threadObjs o = some ⟨s.objectNumbers t, s.threadIds t, t⟩
  queued : ∃ ts, IsQueue (s.sched.queue (s.threads t).priority) ts ∧ t ∈ ts

/-- The process and the scheduler are as they were. -/
structure Untouched (s s' : ProcSys) (p : ℕ) : Prop where
  process : s'.procs p = s.procs p
  table : s'.tables p = s.tables p
  sched : s'.sched = s.sched

/-- A call that returned `r` has created all of a thread or nothing. -/
def Atomic (s s' : ProcSys) (p : ℕ) (req : ThreadRequest) (r : ReturnT) : Prop :=
  (r = .noError → ∃ t, req.thread = some t ∧ s'.Created p t) ∧
    (r ≠ .noError → s.Untouched s' p)

/-- Nothing points to the memory of a thread. -/
structure Unused (s : ProcSys) (queues : Priority → List ℕ) (t : ℕ) : Prop where
  queues : ∀ q, t ∉ queues q
  objects : ∀ o obj, s.threadObjs o = some obj → obj.thread ≠ t

variable {queues : Priority → List ℕ} {i : Fin maxThreads} {id : ℕ} {sched : Scheduler}

theorem created_withObject (hstack : req.stack.isSome = true) (hqueues : s.sched.Holds queues)
    (hadmits : s.Admits p req) (hroom : req.room.queue = true)
    (hsched : schNotifyNewThreadIn req.room (s.withThread p t i req).threads s.sched t =
      .ok sched) :
    (((s.withThread p t i req).withObject p i t id sched).settled p t i id).Created p t := by
  have hrecord : (s.withThread p t i req).threads t = req.record (s.memory p) p :=
    update_self _ _ _
  have hpriority : ((s.withThread p t i req).threads t).priority = req.priority := by
    rw [hrecord]
    rfl
  have hholds := hqueues.newThreadIn hsched
  rw [hpriority, if_pos hroom] at hholds
  refine ⟨?_, ⟨i, ?_, ?_⟩, ⟨?_, s.brk, ?_, ?_⟩, ?_⟩
  · change ((s.withThread p t i req).threads t).state = _
    rw [hrecord, ThreadRequest.record, if_pos hstack]
  · simp [settled, setProc, withObject, addThreadObject, withThread]
  · simp [settled, setProc]
  · simpa [settled, setProc, withObject, addThreadObject, withThread, threadCreate] using hadmits.1
  · simp [settled, setProc, withObject, addThreadObject, ObjSys.addObject, objGetObject,
      withThread, threadCreate]
  · simp [settled, setProc, withObject, addThreadObject, withThread, threadCreate]
  refine ⟨_, hholds ((s.withThread p t i req).threads t).priority, ?_⟩
  rw [hpriority, update_self]
  unfold enqueue
  split
  · assumption
  · exact List.mem_append_right _ List.mem_cons_self

end ProcSys

/-- Creating a thread is all or nothing exactly if there is memory for the thread, and either the
process has no place for it or there is memory for its stack, its object and its element of the
ready queue, and a place in the object table. -/
theorem atomic_iff {s s' : ProcSys} {p : ℕ} {req : ThreadRequest} {r : ReturnT}
    {created object : Option ℕ} {queues : Priority → List ℕ} (hqueues : s.sched.Holds queues)
    (hunused : ∀ t, req.thread = some t → s.Unused queues t)
    (h : s.procCreateThread p req = .ok (r, created, object, s')) :
    s.Atomic s' p req r ↔ req.thread.isSome ∧ ((∀ i, (s.procs p).threads i ≠ none) ∨
      (req.stack.isSome ∧ s.Admits p req ∧ req.room.queue)) := by
  rcases ProcSys.procCreateThread_cases h with ⟨hnone, rfl, -, rfl⟩ | ⟨t, hsome, hcases⟩
  · refine iff_of_false (fun hatomic => ?_) fun hgranted => ?_
    · obtain ⟨t, ht, -⟩ := hatomic.1 rfl
      rw [hnone] at ht
      cases ht
    · rw [hnone] at hgranted
      cases hgranted.1
  · have hunused := hunused t hsome
    have hisSome : req.thread.isSome = true := Option.isSome_of_eq_some hsome
    rcases hcases with ⟨hfull, rfl, -, rfl⟩ | ⟨i, result, objno, s₁, hi, hcreate, rfl, hresult⟩
    · refine iff_of_true ⟨fun hok => ?_, fun _ => ⟨rfl, rfl, rfl⟩⟩ ⟨hisSome, .inl hfull⟩
      cases hok
    · -- the process has a place, so the thread is in it now
      have hnotFull : ¬ ∀ i, (s.procs p).threads i ≠ none := fun hfull => hfull i hi
      rw [and_iff_right hisSome, or_iff_right hnotFull]
      by_cases hstack : req.stack.isSome = true
      · rw [if_pos hstack] at hresult
        cases hresult
        have hatomic : ∀ s' : ProcSys, s.Atomic s' p req .noError ↔ s'.Created p t := by
          intro s'
          refine ⟨fun hatomic => ?_, fun hcreated => ⟨fun _ => ⟨t, hsome, hcreated⟩, ?_⟩⟩
          · obtain ⟨t', ht', hcreated⟩ := hatomic.1 rfl
            cases hsome.symm.trans ht'
            exact hcreated
          · exact fun herror => absurd rfl herror
        rw [hatomic, and_iff_right hstack]
        rcases ProcSys.objCreateThread_cases hcreate with
          ⟨id, sched, hadmits, -, -, rfl, hsched, rfl⟩ | ⟨hadmits, -, -, rfl⟩
        · rw [ProcSys.admits_withThread] at hadmits
          rw [and_iff_right hadmits]
          refine ⟨fun hcreated => ?_, fun hroom =>
            ProcSys.created_withObject hstack hqueues hadmits hroom hsched⟩
          -- without memory the queue is the old one, which does not have the thread
          by_contra hroom
          have hholds := hqueues.newThreadIn hsched
          rw [if_neg hroom, update_eq_self] at hholds
          obtain ⟨ts, hts, ht⟩ := hcreated.queued
          have hcontains := (hts.listContains t).symm.trans ((hholds _).listContains t)
          exact hunused.queues _ (of_decide_eq_true
            ((Except.ok.inj hcontains).symm.trans (decide_eq_true ht)))
        · rw [ProcSys.admits_withThread] at hadmits
          refine iff_of_false (fun hcreated => ?_) fun hgranted => hadmits hgranted.1
          obtain ⟨-, o, -, hobj⟩ := hcreated.found
          exact hunused.objects o _ hobj rfl
      · rw [if_neg hstack] at hresult
        cases hresult
        refine iff_of_false (fun hatomic => ?_) fun hgranted => hstack hgranted.1
        have hsame := (hatomic.2 (by decide)).process
        have hplace : (((s₁.settled p t i (objno.getD invalidObjectNumber)).procs p).threads i) =
            some t := by
          simp [ProcSys.settled, ProcSys.setProc]
        rw [hsame, hi] at hplace
        cases hplace

def bootProcs : Exec ProcSys := do
  let sched ← schCreateScheduler
  let k : ThreadSys := ⟨fun _ => Thread.ready 0, sched, fun _ => ⟨false, 0, 0⟩⟩
  return {
    toObjSys := ObjSys.boot k fun _ => ⟨false, [], 0, tgtInitialisePageTable []⟩
    procs := fun _ => ⟨fun _ => none, none, true⟩
    threadIds := fun _ => 0
    objectNumbers := fun _ => 0
    threadObjs := fun _ => none }

theorem holds_bootProcs {s : ProcSys} (h : bootProcs = .ok s) :
    s.sched.Holds (fun _ => []) ∧ ∀ t, s.Unused (fun _ => []) t := by
  obtain ⟨sched, hsched, h⟩ := of_bind h
  cases h
  obtain ⟨stack, -, hsched⟩ := of_bind hsched
  cases hsched
  exact ⟨fun _ => isQueue_listCreate, fun _ => ⟨fun _ => List.not_mem_nil, fun _ _ h => by cases h⟩⟩

def grantedRequest : ThreadRequest where
  priority := 1
  entryPoint := 0x00008000#32
  stackSize := 0x00001000#32
  threadEnd := 0x00009000#32
  armBootstrap := 0x0000A000#32
  thread := some 1
  stack := some 0x00400000#32
  object := true
  table := true
  room := ⟨true, true, true⟩

/-- The first thread of a process. -/
theorem atomic_iff_first_thread : ∃ s s', bootProcs = .ok s ∧
    s.procCreateThread 0 grantedRequest = .ok (.noError, some 1, some 0, s') ∧
    s.Atomic s' 0 grantedRequest .noError := by
  have hrun : bootProcs.toOption.any (fun s =>
      (s.procCreateThread 0 grantedRequest).toOption.any fun out =>
        decide (out.1 = .noError ∧ out.2.1 = some 1 ∧ out.2.2.1 = some 0)) = true := by
    decide +kernel
  obtain ⟨s, hboot, hrun⟩ := exists_of_any hrun
  obtain ⟨⟨r, created, object, s'⟩, hcreate, hrun⟩ := exists_of_any hrun
  obtain ⟨rfl, rfl, rfl⟩ := of_decide_eq_true hrun
  obtain ⟨hqueues, hunused⟩ := holds_bootProcs hboot
  have hadmits : s.Admits 0 grantedRequest := by
    obtain ⟨sched, -, hs⟩ := of_bind hboot
    cases hs
    exact ⟨rfl, rfl, rfl, rfl⟩
  refine ⟨s, s', hboot, hcreate, ?_⟩
  exact (atomic_iff hqueues (fun t _ => hunused t) hcreate).mpr
    ⟨rfl, .inr ⟨rfl, hadmits, rfl⟩⟩

/-- There is no memory for the thread object. The call returns `NO_ERROR`; the thread has a place
in the process, but it is not in the object table and in no queue. -/
theorem not_atomic_without_object : ∃ s s', bootProcs = .ok s ∧
    s.procCreateThread 0 { grantedRequest with object := false } =
      .ok (.noError, some 1, none, s') ∧
    (s'.procs 0).threads ⟨0, by decide⟩ = some 1 ∧
    objGetObject (s'.tables 0) (s'.objectNumbers 1) = none ∧
    queueContains (s'.sched.queue 1) 1 = .ok false ∧
    ¬ s.Atomic s' 0 { grantedRequest with object := false } .noError := by
  have hrun : bootProcs.toOption.any (fun s =>
      (s.procCreateThread 0 { grantedRequest with object := false }).toOption.any fun out =>
        decide (out.1 = .noError ∧ out.2.1 = some 1 ∧ out.2.2.1 = none ∧
          (out.2.2.2.procs 0).threads ⟨0, by decide⟩ = some 1 ∧
          objGetObject (out.2.2.2.tables 0) (out.2.2.2.objectNumbers 1) = none ∧
          (queueContains (out.2.2.2.sched.queue 1) 1).toOption.any (· = false))) = true := by
    decide +kernel
  obtain ⟨s, hboot, hrun⟩ := exists_of_any hrun
  obtain ⟨⟨r, created, object, s'⟩, hcreate, hrun⟩ := exists_of_any hrun
  obtain ⟨rfl, rfl, rfl, hplace, hobject, hqueue⟩ := of_decide_eq_true hrun
  obtain ⟨queued, hqueued, hfalse⟩ := exists_of_any hqueue
  obtain rfl := of_decide_eq_true hfalse
  refine ⟨s, s', hboot, hcreate, hplace, hobject, hqueued, fun hatomic => ?_⟩
  obtain ⟨t, ht, hcreated⟩ := hatomic.1 rfl
  obtain rfl : 1 = t := Option.some.inj ht
  obtain ⟨-, o, hfound, -⟩ := hcreated.found
  rw [hobject] at hfound
  cases hfound

end Tinker
