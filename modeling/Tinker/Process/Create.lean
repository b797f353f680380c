import Tinker.Objects.Thread

/-!
# Creating threads

`thread_create` with `tgt_initialise_context`, `obj_create_thread` and `proc_create_thread`.
What the allocator and the tables answer is part of what a thread is created with. The
bookkeeping of a failure is followed as it stands: a thread without a stack is handed to the
scheduler all the same, and one without an object is never handed to it.
-/

namespace Tinker

open Tinker.Lib Function Exec

def psrModeUser : BitVec 32 := 0x10

def tgtInitialiseContext (vStackBase entryPoint exitFunction armBootstrap : BitVec 32) :
    TgtContext where
  sp := vStackBase
  lr := 0
  cpsr := psrModeUser
  gpr := fun i =>
    if i = 0 then entryPoint
    else if i = 1 then exitFunction
    -- the stack pointer is an argument of the bootstrap and its frame pointer
    else if i = 2 ∨ i = 11 then vStackBase
    else 0
  pc := armBootstrap

structure NewThread where
  thread : ℕ
  parent : ℕ
  priority : Priority
  vStackBase : BitVec 32
  entryPoint : BitVec 32
  threadEnd : BitVec 32
  armBootstrap : BitVec 32
  memory : Bool
  stack : Bool
  /-- The process has fewer than `MAX_THREADS` threads. -/
  slot : Bool
  /-- There is memory for the thread object and a place in the object table. -/
  object : Bool

namespace NewThread

/-- The registers the thread starts with; without a stack it has none. -/
def context (new : NewThread) : TgtContext :=
  if new.stack then
    tgtInitialiseContext new.vStackBase new.entryPoint new.threadEnd new.armBootstrap
  else default

def record (new : NewThread) : Thread where
  priority := new.priority
  state := if new.stack then .ready else .notCreated
  waitingOn := none
  parent := new.parent
  context := new.context

def object? (new : NewThread) : Option ℕ := if new.object then some new.thread else none

end NewThread

/-- `obj_create_thread`, once the object is in the table. The state of the thread is not
looked at. -/
def objCreateThread (k : ThreadSys) (t : ℕ) : Exec ThreadSys := do
  let obj := ⟨false, threadGetPriority k.threads t, 0⟩
  let sched ← schNotifyNewThread k.threads k.sched t
  return { k with sched := sched, objThreads := update k.objThreads t obj }

/-- The result of `obj_create_thread` is taken for a boolean, and no error code is 0: a thread whose
object could not be made counts as added. -/
def processAddThread (k : ThreadSys) (new : NewThread) : Exec (Bool × ThreadSys) :=
  if new.slot then
    if new.object then do
      let k ← objCreateThread k new.thread
      return (true, k)
    else
      return (true, k)
  else
    return (false, k)

/-- `proc_create_thread`; the second result is what is written to `new_thread`. Without memory
for the thread nothing happens, and no error is reported. -/
def procCreateThread (k : ThreadSys) (new : NewThread) :
    Exec (ReturnT × Option ℕ × ThreadSys) :=
  if new.memory then do
    let k := { k with threads := update k.threads new.thread new.record }
    let (added, k) ← processAddThread k new
    if added ∧ threadGetState k.threads (some new.thread) = .ready then
      return (.noError, some new.thread, k)
    else
      return (.outOfMemory, none, k)
  else
    return (.noError, none, k)

/-! ## What creating a thread does -/

variable {k k' : ThreadSys} {new : NewThread} {r : ReturnT} {created : Option ℕ}

/-- Creating a thread does nothing for lack of memory, or fills in the thread and, unless the
process is full or there is no object, hands it to the scheduler. -/
theorem procCreateThread_cases (h : procCreateThread k new = .ok (r, created, k')) :
    (new.memory = false ∧ r = .noError ∧ created = none ∧ k' = k) ∨
    (new.memory = true ∧ k'.threads = update k.threads new.thread new.record ∧
      created = (if r = .noError then some new.thread else none) ∧
      (r = .noError ↔ new.slot = true ∧ new.stack = true) ∧
      ((new.slot = true ∧ new.object = true ∧
          schNotifyNewThread k'.threads k.sched new.thread = .ok k'.sched ∧
          k'.objThreads = update k.objThreads new.thread ⟨false, new.priority, 0⟩) ∨
        (¬ (new.slot = true ∧ new.object = true) ∧ k'.sched = k.sched ∧
          k'.objThreads = k.objThreads))) := by
  unfold procCreateThread at h
  split at h
  next hmemory =>
    obtain ⟨⟨added, k₁⟩, hadd, h⟩ := of_bind h
    -- whatever becomes of the object, the thread is the one that was filled in
    have hstate : threadGetState (update k.threads new.thread new.record)
        (some new.thread) = .ready ↔ new.stack = true := by
      cases hstack : new.stack <;> simp [threadGetState, NewThread.record, hstack]
    have hend : k₁.threads = update k.threads new.thread new.record →
        k' = k₁ ∧ created = (if r = .noError then some new.thread else none) ∧
        (r = .noError ↔ added = true ∧ new.stack = true) := by
      intro hthreads
      simp only [hthreads, hstate] at h
      split at h
      next hok =>
        cases h
        exact ⟨rfl, rfl, iff_of_true rfl hok⟩
      next hfail =>
        cases h
        exact ⟨rfl, rfl, iff_of_false (by decide) hfail⟩
    refine .inr ⟨hmemory, ?_⟩
    unfold processAddThread at hadd
    split at hadd
    next hslot =>
      split at hadd
      next hobject =>
        obtain ⟨k₂, hcreate, hadd⟩ := of_bind hadd
        cases hadd
        obtain ⟨sched, hsched, hcreate⟩ := of_bind hcreate
        cases hcreate
        obtain ⟨rfl, hcreated, hr⟩ := hend rfl
        refine ⟨rfl, hcreated, by simpa [hslot] using hr, .inl ⟨hslot, hobject, hsched, ?_⟩⟩
        simp [threadGetPriority, NewThread.record]
      next hobject =>
        cases hadd
        obtain ⟨rfl, hcreated, hr⟩ := hend rfl
        exact ⟨rfl, hcreated, by simpa [hslot] using hr,
          .inr ⟨fun both => hobject both.2, rfl, rfl⟩⟩
    next hslot =>
      cases hadd
      obtain ⟨rfl, hcreated, hr⟩ := hend rfl
      exact ⟨rfl, hcreated, by simpa [hslot] using hr, .inr ⟨fun both => hslot both.1, rfl, rfl⟩⟩
  next hmemory =>
    cases h
    exact .inl ⟨Bool.eq_false_iff.mpr hmemory, rfl, rfl, rfl⟩

end Tinker
