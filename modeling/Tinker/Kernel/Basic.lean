import Tinker.Objects.Pipe
import Tinker.Objects.Semaphore
import Tinker.Objects.Timer

/-!
# The whole kernel

The state that the files on semaphores, pipes, alarms and the scheduler each have a part of, put
together. An operation of a part works on the kernel through a view: it is given its part, and
what it returns is put back.
-/

namespace Tinker

open Tinker.Lib Exec

structure Kernel extends AlarmSys where
  reg : Registry ObjRef
  semas : ℕ → Option SemaObj
  semaBrk : ℕ
  pipes : ℕ → Option Pipe
  pipeBrk : ℕ
  trace : List PipeEvent
  context : TgtContext
  translationTable : Option ℕ
  scheduleTimer : Bool

namespace Kernel

variable {α : Type}

def semaSys (k : Kernel) : SemaSys := ⟨k.toThreadSys, k.reg, k.semas, k.semaBrk⟩

def withSemaSys (k : Kernel) (s : SemaSys) : Kernel :=
  { k with toThreadSys := s.toThreadSys, reg := s.reg, semas := s.semas, semaBrk := s.semaBrk }

def pipeSys (k : Kernel) : PipeSys := ⟨k.toThreadSys, k.reg, k.pipes, k.pipeBrk, k.trace⟩

def withPipeSys (k : Kernel) (s : PipeSys) : Kernel :=
  { k with
    toThreadSys := s.toThreadSys
    reg := s.reg
    pipes := s.pipes
    pipeBrk := s.pipeBrk
    trace := s.trace }

def core (k : Kernel) : Core :=
  ⟨k.threads, k.sched, k.context, k.translationTable, k.scheduleTimer⟩

def withCore (k : Kernel) (c : Core) : Kernel :=
  { k with
    threads := c.threads
    sched := c.sched
    context := c.context
    translationTable := c.translationTable
    scheduleTimer := c.scheduleTimer }

def onThreads (k : Kernel) (f : ThreadSys → Exec (α × ThreadSys)) : Exec (α × Kernel) := do
  let (a, sys) ← f k.toThreadSys
  return (a, { k with toThreadSys := sys })

def onAlarms (k : Kernel) (f : AlarmSys → Exec (α × AlarmSys)) : Exec (α × Kernel) := do
  let (a, sys) ← f k.toAlarmSys
  return (a, { k with toAlarmSys := sys })

def onSemas (k : Kernel) (f : SemaSys → Exec (α × SemaSys)) : Exec (α × Kernel) := do
  let (a, sys) ← f k.semaSys
  return (a, k.withSemaSys sys)

def onPipes (k : Kernel) (f : PipeSys → Exec (α × PipeSys)) : Exec (α × Kernel) := do
  let (a, sys) ← f k.pipeSys
  return (a, k.withPipeSys sys)

def setContext (k : Kernel) (threadState : ThreadState) : Exec Kernel := do
  let core ← schSetContextForNextThread k.core threadState
  return k.withCore core

def alarmTimeout (k : Kernel) : Exec Kernel := do
  let sys ← Tinker.alarmTimeout k.toAlarmSys
  return { k with toAlarmSys := sys }

section Views

variable {k k' : Kernel} {a : α}

theorem onThreads_eq_ok {f : ThreadSys → Exec (α × ThreadSys)} (h : k.onThreads f = .ok (a, k')) :
    ∃ sys, f k.toThreadSys = .ok (a, sys) ∧ k' = { k with toThreadSys := sys } := by
  obtain ⟨⟨b, sys⟩, hf, h⟩ := of_bind h
  cases h
  exact ⟨sys, hf, rfl⟩

theorem onAlarms_eq_ok {f : AlarmSys → Exec (α × AlarmSys)} (h : k.onAlarms f = .ok (a, k')) :
    ∃ sys, f k.toAlarmSys = .ok (a, sys) ∧ k' = { k with toAlarmSys := sys } := by
  obtain ⟨⟨b, sys⟩, hf, h⟩ := of_bind h
  cases h
  exact ⟨sys, hf, rfl⟩

theorem onSemas_eq_ok {f : SemaSys → Exec (α × SemaSys)} (h : k.onSemas f = .ok (a, k')) :
    ∃ sys, f k.semaSys = .ok (a, sys) ∧ k' = k.withSemaSys sys := by
  obtain ⟨⟨b, sys⟩, hf, h⟩ := of_bind h
  cases h
  exact ⟨sys, hf, rfl⟩

theorem onPipes_eq_ok {f : PipeSys → Exec (α × PipeSys)} (h : k.onPipes f = .ok (a, k')) :
    ∃ sys, f k.pipeSys = .ok (a, sys) ∧ k' = k.withPipeSys sys := by
  obtain ⟨⟨b, sys⟩, hf, h⟩ := of_bind h
  cases h
  exact ⟨sys, hf, rfl⟩

theorem setContext_eq_ok {st : ThreadState} (h : k.setContext st = .ok k') :
    ∃ core, schSetContextForNextThread k.core st = .ok core ∧ k' = k.withCore core := by
  obtain ⟨core, hcore, h⟩ := of_bind h
  exact ⟨core, hcore, (Except.ok.inj h).symm⟩

theorem alarmTimeout_eq_ok (h : k.alarmTimeout = .ok k') :
    ∃ sys, Tinker.alarmTimeout k.toAlarmSys = .ok sys ∧ k' = { k with toAlarmSys := sys } := by
  obtain ⟨sys, hsys, h⟩ := of_bind h
  exact ⟨sys, hsys, (Except.ok.inj h).symm⟩

end Views

def kernelIdlePriority : Priority := 0

/-- The scheduler once `kernel_initialise` has created the idle thread and made it current. -/
def initialSched (threads : Threads) (idle : ℕ) : Exec Scheduler := do
  let s ← schCreateScheduler
  let s ← schNotifyNewThread threads s idle
  return schSetCurrentThread (schSetKernelIdleThread s idle) idle

/-- The kernel has just been initialised: the idle thread is the only one, and no other object
has been created. -/
structure Booted (idle : ℕ) (k : Kernel) : Prop where
  priority : (k.threads idle).priority = kernelIdlePriority
  state : (k.threads idle).state = .system
  others : ∀ t, t ≠ idle → (k.threads t).state = .notCreated
  sched : initialSched k.threads idle = .ok k.sched
  alarms : k.alarms = alarmInitialse
  timers : ∀ id, k.timers id = none
  reg : k.reg = registryCreate
  semas : ∀ id, k.semas id = none
  pipes : ∀ p, k.pipes p = none

def boot : Exec Kernel := do
  let threads : Threads := fun t =>
    if t = 0 then ⟨kernelIdlePriority, .system, none, 0, default⟩
    else ⟨0, .notCreated, none, 0, default⟩
  let sched ← initialSched threads 0
  return {
    threads := threads
    sched := sched
    objThreads := fun _ => ⟨false, 0, 0⟩
    alarms := alarmInitialse
    timers := fun _ => none
    timerBrk := 0
    reg := registryCreate
    semas := fun _ => none
    semaBrk := 0
    pipes := fun _ => none
    pipeBrk := 0
    trace := []
    context := default
    translationTable := some 0
    scheduleTimer := false }

theorem booted_of_boot {k : Kernel} (h : boot = .ok k) : Booted 0 k := by
  obtain ⟨sched, hsched, h⟩ := of_bind h
  cases h
  exact ⟨rfl, rfl, fun t ht => by simp [ht], hsched, rfl, fun _ => rfl, rfl, fun _ => rfl,
    fun _ => rfl⟩

end Kernel

end Tinker
