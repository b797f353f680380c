import Mathlib.Data.Fintype.Pi

/-!
# Threads

`thread_t` with the fields that scheduling and blocking read and write, and the
context a thread is suspended with. Thread, process and object pointers are natural
numbers; a pointer that may be null is an `Option`.
-/

namespace Tinker

open Function

/-- One byte, so `0` to `MAX_PRIORITY = 255`. -/
abbrev Priority := Fin 256

instance neZeroPriorities : @NeZero ℕ Zero.ofOfNat0 256 := ⟨by decide⟩

inductive ThreadState
  | unknown
  | notCreated
  | idle
  | ready
  | running
  | system
  | paused
  | waiting
  | terminated
  | dead
  deriving DecidableEq, Repr

/-- The states in which the scheduler accepts a thread. -/
def ThreadState.Runnable (st : ThreadState) : Prop :=
  st = .ready ∨ st = .system ∨ st = .running

deriving instance Decidable for ThreadState.Runnable

instance neZeroRegisters : @NeZero ℕ Zero.ofOfNat0 13 := ⟨by decide⟩

/-- `tgt_context_t` of the ARM target: the user registers. -/
structure TgtContext where
  sp : BitVec 32
  lr : BitVec 32
  cpsr : BitVec 32
  gpr : Fin 13 → BitVec 32
  pc : BitVec 32
  deriving DecidableEq

instance : Inhabited TgtContext := ⟨⟨0, 0, 0, fun _ => 0, 0⟩⟩

/-- A pointer to an object that a thread can block on or that has a name. Semaphores, pipes,
timers and shared memory are different objects, so their pointers never coincide. -/
inductive ObjRef
  | sema (id : ℕ)
  | pipe (id : ℕ)
  | timer (id : ℕ)
  | shm (id : ℕ)
  deriving DecidableEq, Repr

def ObjRef.pipe? : ObjRef → Option ℕ
  | .pipe id => some id
  | .sema _ | .timer _ | .shm _ => none

structure Thread where
  priority : Priority
  state : ThreadState
  waitingOn : Option ObjRef
  parent : ℕ
  context : TgtContext
  deriving DecidableEq

/-- A thread as it is created, with registers that do not matter. -/
def Thread.ready (p : Priority) : Thread := ⟨p, .ready, none, 0, default⟩

abbrev Threads := ℕ → Thread

/-- `thread_get_state`; a null thread is `THREAD_NOT_CREATED`. -/
def threadGetState (threads : Threads) : Option ℕ → ThreadState
  | some t => (threads t).state
  | none => .notCreated

def threadGetPriority (threads : Threads) (t : ℕ) : Priority := (threads t).priority

def threadGetParent (threads : Threads) : Option ℕ → Option ℕ
  | some t => some (threads t).parent
  | none => none

def threadSetState (threads : Threads) (t : ℕ) (st : ThreadState) : Threads :=
  update threads t { threads t with state := st }

def threadSetPriority (threads : Threads) (t : ℕ) (p : Priority) : Threads :=
  update threads t { threads t with priority := p }

def threadSetWaitingOn (threads : Threads) (t : ℕ) (o : Option ObjRef) : Threads :=
  update threads t { threads t with waitingOn := o }

/-- `thread_save_context`; nothing is saved for a null thread. -/
def threadSaveContext (threads : Threads) (t : Option ℕ) (context : TgtContext) : Threads :=
  match t with
  | some t => update threads t { threads t with context := context }
  | none => threads

end Tinker
