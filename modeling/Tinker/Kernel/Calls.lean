import Tinker.Kernel.Basic

/-!
# System calls and interrupts

`syscall_handle_system_call` and `int_handle_external_vector` over the whole kernel. Both do
something first and call the dispatcher afterwards; an interrupt of the schedule timer calls it in
between as well. They are cut into steps at these places, so that every call of the dispatcher is a
step of its own.

What a call finds in the tables of its process and what the allocators answer are its arguments.
-/

namespace Tinker

open Tinker.Lib Exec

def ReturnT.code (ret : ReturnT) : BitVec 32 := BitVec.ofNat 32 ret.ctorIdx

def tgtSetSyscallReturn (context : TgtContext) (value : BitVec 32) : TgtContext :=
  { context with gpr := Function.update context.gpr 0 value }

/-! ## Processes -/

inductive ProcessObject
  /-- A thread, and whether it has `THREAD_FLAG_TIMER`. -/
  | thread (t : ℕ) (isTimer : Bool)
  | sema (id : ℕ)
  | process
  | pipe (p : ℕ)
  /-- Shared memory, with its name if it has a list of clients. -/
  | shm (name : Option Name)
  | timer (id : ℕ)

/-- Shared memory with a list of clients frees its memory before it takes its name out of the
registry, and does not get there. -/
def objDeleteShm (k : Kernel) : Option (Option Name) → Exec (ReturnT × Kernel)
  | some (some name) => do
    memFreeForeign (some name)
    return (.noError, { k with reg := (registryRemove k.reg name).2 })
  | some none => return (.noError, k)
  | none => return (.invalidObject, k)

/-- What `process_exit` does with one object. The thread of a timer is left to the timer. -/
def ProcessObject.delete (k : Kernel) : ProcessObject → Exec Kernel
  | thread t isTimer =>
    if isTimer then return k
    else do
      let (_, k) ← k.onThreads (objExitThread · (some t))
      return k
  | sema id => do
    let (_, k) ← k.onSemas (objectDeleteSemaphore · (some id))
    return k
  | process => return k
  | pipe p => do
    let (_, k) ← k.onPipes (objDeletePipe · (some p))
    return k
  | shm name => do
    let (_, k) ← objDeleteShm k (some name)
    return k
  | timer id => do
    let (_, k) ← k.onAlarms (objDeleteTimer · (some id))
    return k

def processExit (k : Kernel) : List ProcessObject → Exec Kernel
  | [] => .ok k
  | object :: rest => do
    let k ← object.delete k
    processExit k rest

structure NewProcess where
  /-- What is returned if there is no memory for the process, or no number. -/
  refused : Option ReturnT
  main : NewThread
  /-- The main thread is given `THREAD_FLAG_TIMER`. -/
  isTimer : Bool
  /-- There is room in the list of processes. -/
  listed : Bool

/-- The thread object that a failed `proc_create_process` finds in the table. -/
def NewProcess.objects (new : NewProcess) : List ProcessObject :=
  if new.main.memory ∧ new.main.slot ∧ new.main.object then [.thread new.main.thread new.isTimer]
  else []

def procCreateProcess (k : Kernel) (new : NewProcess) : Exec (ReturnT × Kernel) :=
  match new.refused with
  | some ret => return (ret, k)
  | none => do
    let (ret, _, sys) ← procCreateThread k.toThreadSys new.main
    let k := { k with toThreadSys := sys }
    if ret = .noError then
      if new.listed then return (.noError, k)
      else do
        let k ← processExit k new.objects
        return (.outOfMemory, k)
    else do
      let k ← processExit k new.objects
      return (.objectAddFailed, k)

/-- `obj_process_thread_exit` for a thread whose object has been found; `left` is what is in the
object table if the process has no thread left. -/
def objProcessThreadExit (k : Kernel) (t : ℕ) (left : Option (List ProcessObject)) :
    Exec (ReturnT × Kernel) := do
  let (ret, k) ← k.onThreads (objExitThread · (some t))
  match left with
  | some objects => do
    let k ← processExit k objects
    return (ret, k)
  | none => return (ret, k)

/-! ## The calls -/

/-- A system call. `found` says whether the caller's own object is found in its table, and
`removed` what `obj_remove_object` returns. -/
inductive SystemCall
  /-- `SYSCALL_CREATE_PROCESS`, and `SYSCALL_LOAD_ELF` behind the loader. -/
  | createProcess (new : NewProcess)
  | createThread (new : NewThread)
  | exitThread (found : Bool) (left : Option (List ProcessObject))
  | waitThread
  | createSemaphore (name : Name) (initialCount : ℕ) (room : Bool)
  | openSemaphore (name : Name)
  | getSemaphore (semaphore : Option ℕ) (found : Bool)
  | releaseSemaphore (semaphore : Option ℕ) (found : Bool)
  | closeSemaphore (semaphore : Option ℕ) (removed : ReturnT)
  | createPipe (name : Name) (direction : PipeDirection) (messageSize messages : ℕ)
      (memory : Option ℕ) (room : Bool)
  | openPipe (name : Name) (direction : PipeDirection) (messageSize messages : ℕ)
      (memory : Option ℕ) (room : Bool)
  /-- `SYSCALL_DELETE_PIPE` and `SYSCALL_CLOSE_PIPE`. -/
  | deletePipe (pipe : Option ℕ) (removed : ReturnT)
  | sendMessage (pipe : Option ℕ) (sendKind : PipeSendKind) (message : List UInt8) (block : Bool)
  | receiveMessage (pipe : Option ℕ) (message messageSize : Option ℕ) (maxSize : ℕ) (block : Bool)
  /-- `SYSCALL_CREATE_SHM` and `SYSCALL_OPEN_SHM`; both register the name if they get that far. -/
  | createShm (failed : Option ReturnT) (name : Name) (id : ℕ) (room : Bool)
  | destroyShm (shm : Option (Option Name)) (removed : ReturnT)
  | createTimer (new : NewThread) (now timeout : TinkerTime) (callback : Option (BitVec 32))
      (parameter : BitVec 32) (room : Bool) (uninitialised : ℕ)
  | cancelTimer (timer : Option ℕ)
  | deleteTimer (timer : Option ℕ) (removed : ReturnT)
  | sleep (found : Bool) (now : TinkerTime) (duration : Option TinkerTime) (room : Bool)
  | loadThread
  /-- The calls that only read the kernel's state or work on the memory of the process, and those
  that do not exist. -/
  | other (ret : ReturnT)

def removing (removed : ReturnT) (r : ReturnT) : ReturnT := if r = .noError then removed else r

/-- The switch of `syscall_handle_system_call`, for a call by the thread `t`. -/
def SystemCall.body (k : Kernel) (t : ℕ) : SystemCall → Exec (ReturnT × Kernel)
  | createProcess new => procCreateProcess k new
  | createThread new => do
    let (ret, _, sys) ← procCreateThread k.toThreadSys new
    return (ret, { k with toThreadSys := sys })
  | exitThread found left =>
    if found then objProcessThreadExit k t left else return (.invalidObject, k)
  | waitThread => do
    let threads := threadSetState k.threads t .waiting
    let sched ← schNotifyPauseThread threads k.sched t
    return (.noError, { k with threads := threads, sched := sched })
  | createSemaphore name initialCount room =>
    k.onSemas (objCreateSemaphore · name initialCount room)
  | openSemaphore name => k.onSemas fun k => .ok (objOpenSemaphore k name)
  | getSemaphore semaphore found =>
    if semaphore.isSome ∧ found then k.onSemas (objGetSemaphore · (some t) semaphore)
    else return (.invalidObject, k)
  | releaseSemaphore semaphore found =>
    if semaphore.isSome ∧ found then k.onSemas (objReleaseSemaphore · (some t) semaphore)
    else return (.invalidObject, k)
  | closeSemaphore semaphore removed => do
    let (ret, k) ← k.onSemas (objectDeleteSemaphore · semaphore)
    return (removing removed ret, k)
  | createPipe name direction messageSize messages memory room =>
    k.onPipes (objCreatePipe · name direction messageSize messages memory room)
  | openPipe name direction messageSize messages memory room =>
    k.onPipes (objOpenPipe · t name direction messageSize messages memory room)
  | deletePipe pipe removed => do
    let (ret, k) ← k.onPipes (objDeletePipe · pipe)
    return (removing removed ret, k)
  | sendMessage pipe sendKind message block =>
    k.onPipes (objPipeSendMessage · pipe t sendKind message block)
  | receiveMessage pipe message messageSize maxSize block =>
    k.onPipes (objPipeReceiveMessage · pipe t message messageSize maxSize block)
  | createShm failed name id room =>
    match failed with
    | some ret => return (ret, k)
    | none => do
      let (_, sys, reg) ← regsiteryAdd k.toThreadSys k.reg name (.shm id) room
      return (.noError, { k with toThreadSys := sys, reg := reg })
  | destroyShm shm removed => do
    let (ret, k) ← objDeleteShm k shm
    return (removing removed ret, k)
  | createTimer new now timeout callback parameter room uninitialised =>
    k.onAlarms (objCreateTimer · new now timeout callback parameter room uninitialised)
  | cancelTimer timer => k.onAlarms (objCancelTimer · timer)
  | deleteTimer timer removed => do
    let (ret, k) ← k.onAlarms (objDeleteTimer · timer)
    return (removing removed ret, k)
  | sleep found now duration room =>
    k.onAlarms (objThreadSleep · (if found then some t else none) now duration room)
  | loadThread => return (.noError, k.withCore (tgtPrepareContext k.core (some t) none))
  | other ret => return (ret, k)

/-- The calls that `syscall_handle_system_call` treats differently once they are done. -/
inductive Api
  | loadThread
  | exitThread
  | other
  deriving DecidableEq

def SystemCall.api : SystemCall → Api
  | loadThread => .loadThread
  | exitThread _ _ => .exitThread
  | _ => .other

def Kernel.setReturn (k : Kernel) (ret : ReturnT) : Kernel :=
  { k with context := tgtSetSyscallReturn k.context ret.code }

/-- The state that is handed to the dispatcher when a call is done. -/
def Kernel.stateAfter (k : Kernel) (api : Api) (thisThread : ℕ) : ThreadState :=
  if api = .exitThread then .dead else (k.threads thisThread).state

/-- The part of `syscall_handle_system_call` behind the switch. The dispatcher is called if the
caller is not running any more; the first result says whether it was. -/
def syscallFinish (k : Kernel) (api : Api) (thisThread : ℕ) (ret : ReturnT) :
    Exec (Bool × Kernel) := do
  let state := k.stateAfter api thisThread
  let (saveState, k) ← (if state ≠ .system ∧ state ≠ .running then do
      let k ← (k.setReturn ret).setContext state
      return (false, k)
    else return (true, k) : Exec (Bool × Kernel))
  if api = .loadThread ∨ api = .exitThread then
    return (!saveState, { k with scheduleTimer := true })
  else if saveState then return (!saveState, k.setReturn ret)
  else return (!saveState, k)

/-! ## The machine -/

inductive Mode
  | user
  /-- A system call of `thisThread` is done, apart from what follows the switch. -/
  | syscall (api : Api) (thisThread : ℕ) (ret : ReturnT)
  /-- The source of an interrupt has been handled; `currentThread` was current when it came. -/
  | interrupt (currentThread : Option ℕ)
  deriving DecidableEq

inductive Source
  /-- None, or a device that does not concern the kernel. -/
  | device
  | pipe (p : ℕ) (cause : List UInt8)
  | scheduleTimer
  | alarmTimer

structure System extends Kernel where
  mode : Mode
  /-- The last step has called `sch_set_context_for_next_thread`. -/
  dispatched : Bool

inductive KernelEvent
  /-- The current thread computes, and has these registers then. -/
  | execute (context : TgtContext)
  | call (c : SystemCall)
  | finish
  | interrupt (source : Source)
  | leave

/-- What `intc_handle` does; the first result says whether it has called the dispatcher. -/
def Source.handle (k : Kernel) : Source → Exec (Bool × Kernel)
  | device => return (false, k)
  | pipe p cause => do
    -- no thread is given, since it would not be blocked
    let (_, k) ← k.onPipes (objPipeSendMessage · (some p) 0 .sendAvailable cause false)
    return (false, k)
  | scheduleTimer => do
    let k ← k.setContext (threadGetState k.threads k.sched.currThread)
    return (true, k)
  | alarmTimer => do
    let k ← k.alarmTimeout
    return (false, k)

/-- One step. An event that does not fit what the kernel is doing changes nothing. -/
def KernelEvent.step (s : System) : KernelEvent → Exec System
  | execute context =>
    match s.mode with
    | .user => return { s with context := context, dispatched := false }
    | _ => return { s with dispatched := false }
  | call c =>
    match s.mode, s.sched.currThread with
    | .user, some t => do
      let (ret, k) ← c.body s.toKernel t
      return ⟨k, .syscall c.api t ret, false⟩
    | _, _ => return { s with dispatched := false }
  | finish =>
    match s.mode with
    | .syscall api thisThread ret => do
      let (dispatched, k) ← syscallFinish s.toKernel api thisThread ret
      return ⟨k, .user, dispatched⟩
    | _ => return { s with dispatched := false }
  | interrupt source =>
    match s.mode with
    | .user => do
      let (dispatched, k) ← source.handle s.toKernel
      return ⟨k, .interrupt s.sched.currThread, dispatched⟩
    | _ => return { s with dispatched := false }
  | leave =>
    match s.mode with
    | .interrupt currentThread => do
      let k ← s.toKernel.setContext (threadGetState s.threads currentThread)
      return ⟨k, .user, true⟩
    | _ => return { s with dispatched := false }

/-- The state that a step calls the dispatcher with, if it calls it. -/
def KernelEvent.dispatches? (s : System) : KernelEvent → Option ThreadState
  | finish =>
    match s.mode with
    | .syscall api thisThread _ =>
      if s.stateAfter api thisThread ≠ .system ∧ s.stateAfter api thisThread ≠ .running then
        some (s.stateAfter api thisThread)
      else none
    | _ => none
  | interrupt .scheduleTimer =>
    if s.mode = .user then some (threadGetState s.threads s.sched.currThread) else none
  | leave =>
    match s.mode with
    | .interrupt currentThread => some (threadGetState s.threads currentThread)
    | _ => none
  | execute _ | call _ | interrupt _ => none

/-- The memory that a thread is created with does not belong to a living thread, and is not that
of the current one. -/
def Kernel.Free (k : Kernel) (new : NewThread) : Prop :=
  ((k.threads new.thread).state = .notCreated ∨ (k.threads new.thread).state = .terminated) ∧
    k.sched.currThread ≠ some new.thread

deriving instance Decidable for Kernel.Free

def SystemCall.creates? : SystemCall → Option NewThread
  | createProcess new => some new.main
  | createThread new => some new
  | createTimer new _ _ _ _ _ _ => some new
  | _ => none

/-- The kernel has been initialised and the idle thread is about to be executed. Other threads
may have been created, but none of them has been dispatched. -/
structure System.Started (idle : ℕ) (s : System) : Prop where
  mode : s.mode = .user
  dispatched : s.dispatched = false
  idleThread : s.sched.idleThread = some idle
  current : s.sched.currThread = some idle
  context : s.context = (s.threads idle).context
  state : ∀ t, (s.threads t).state ≠ .running ∧ (s.threads t).state ≠ .dead

/-- The first thread is loaded, by the system call that `kernel_initialise` ends with. -/
def System.start (k : Kernel) (idle : ℕ) : System :=
  ⟨k.withCore (tgtPrepareContext k.core (some idle) none), .user, false⟩

theorem Kernel.Booted.started {k : Kernel} {idle : ℕ} (booted : k.Booted idle) :
    (System.start k idle).Started idle := by
  obtain ⟨s, -, hsched⟩ := of_bind booted.sched
  obtain ⟨s', -, hsched⟩ := of_bind hsched
  have hs' := Except.ok.inj hsched
  refine ⟨rfl, rfl, ?_, ?_, rfl, fun t => ?_⟩
  · show k.sched.idleThread = _
    rw [← hs']
    rfl
  · show k.sched.currThread = _
    rw [← hs']
    rfl
  show (k.threads t).state ≠ _ ∧ (k.threads t).state ≠ _
  by_cases ht : t = idle
  · rw [ht, booted.state]
    decide
  rw [booted.others t ht]
  decide

def System.boot : Exec System := do
  let k ← Kernel.boot
  return System.start k 0

theorem System.started_of_boot {s : System} (h : System.boot = .ok s) : s.Started 0 := by
  obtain ⟨k, hk, h⟩ := of_bind h
  cases h
  exact (Kernel.booted_of_boot hk).started

/-! ## What follows a call -/

variable {k k' : Kernel} {api : Api} {t : ℕ} {ret : ReturnT} {dispatched : Bool}

/-- The caller goes on with the result in its registers, or the dispatcher is called with the
result in the registers that it saves. -/
theorem syscallFinish_cases (h : syscallFinish k api t ret = .ok (dispatched, k')) :
    ((k.stateAfter api t = .system ∨ k.stateAfter api t = .running) ∧ dispatched = false ∧
      k' = if api = .loadThread then { k with scheduleTimer := true } else k.setReturn ret) ∨
    (k.stateAfter api t ≠ .system ∧ k.stateAfter api t ≠ .running ∧ dispatched = true ∧
      ∃ k₁, (k.setReturn ret).setContext (k.stateAfter api t) = .ok k₁ ∧
        k' = if api = .other then k₁ else { k₁ with scheduleTimer := true }) := by
  obtain ⟨⟨saveState, k₁⟩, hfirst, h⟩ := of_bind h
  split at hfirst
  next hleft =>
    obtain ⟨k₂, hset, hfirst⟩ := of_bind hfirst
    obtain ⟨rfl, rfl⟩ := pair_inj hfirst
    refine .inr ⟨hleft.1, hleft.2, ?_⟩
    cases api <;>
    · obtain ⟨rfl, rfl⟩ := pair_inj h
      exact ⟨rfl, k₂, hset, rfl⟩
  next hstays =>
    obtain ⟨rfl, rfl⟩ := pair_inj hfirst
    have hstate : k.stateAfter api t = .system ∨ k.stateAfter api t = .running := by
      by_contra hnot
      exact hstays ⟨fun e => hnot (.inl e), fun e => hnot (.inr e)⟩
    refine .inl ⟨hstate, ?_⟩
    cases api with
    | loadThread | other =>
      cases h
      exact ⟨rfl, rfl⟩
    | exitThread => simp [Kernel.stateAfter] at hstate

end Tinker
