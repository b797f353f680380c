import Tinker.Objects.Thread

/-!
# The registry of shared objects

`registry.c`: names of objects, and for a name that is not there yet the threads that
wait for it. Registering the name wakes all of them.

The two maps are functions on names; whether `map_put` finds room is an argument of the
operations that use it. What an entry is is left open: a process and an object number as in the
source, or the object that they lead to.
-/

namespace Tinker

open Tinker.Lib Function Exec

abbrev Name := List UInt8

def maxSharedObjectNameLength : ℕ := 64

/-- Longer names are cut. -/
def registryKey (name : Name) : Name := name.take maxSharedObjectNameLength

/-- `registry_t`: the entries, and the threads that wait for names without one. -/
structure Registry (α : Type) where
  registry : Name → Option α
  waiting : Name → Option (List ℕ)

open Registry

variable {α : Type}

def registryCreate : Registry α := ⟨fun _ => none, fun _ => none⟩

/-- The loop of `regsitery_add` that empties a queue of waiting threads. -/
def wakeQueue (k : ThreadSys) : List ℕ → Exec ThreadSys
  | [] => .ok k
  | t :: queue => do
    let (_, k) ← objSetThreadReady k (some t)
    wakeQueue k queue

/-- The part of `regsitery_add` behind `map_put`: wake those who wait for the name. -/
def registryNotify (k : ThreadSys) (reg : Registry α) (key : Name) :
    Exec (ThreadSys × Registry α) :=
  match reg.waiting key with
  | some queue => do
    let k ← wakeQueue k queue
    return (k, { reg with waiting := update reg.waiting key none })
  | none => return (k, reg)

def regsiteryAdd (k : ThreadSys) (reg : Registry α) (name : Name) (entry : α) (room : Bool) :
    Exec (ReturnT × ThreadSys × Registry α) :=
  let key := registryKey name
  if reg.registry key = none then
    if room then do
      let reg := { reg with registry := update reg.registry key (some entry) }
      let (k, reg) ← registryNotify k reg key
      return (.noError, k, reg)
    else
      return (.objectNotAddedToRegistry, k, reg)
  else
    return (.objectNameExistsInRegistry, k, reg)

def registryGet (reg : Registry α) (name : Name) : Except ReturnT α :=
  match reg.registry (registryKey name) with
  | some entry => .ok entry
  | none => .error .objectNotInRegistry

/-- The queue part of `registry_wait_for`. A new queue that does not find room in the map
is lost, and the thread with it. -/
def registryQueueUp (reg : Registry α) (t : ℕ) (key : Name) (room : Bool) : Registry α :=
  match reg.waiting key with
  | some queue => { reg with waiting := update reg.waiting key (some (queue ++ [t])) }
  | none =>
    if room then { reg with waiting := update reg.waiting key (some [t]) } else reg

def registryWaitFor (k : ThreadSys) (reg : Registry α) (t : ℕ) (name : Name) (room : Bool) :
    Exec (ThreadSys × Registry α) := do
  let (_, k) ← objSetThreadWaiting k (some t) none
  return (k, registryQueueUp reg t (registryKey name) room)

def registryRemove (reg : Registry α) (name : Name) : ReturnT × Registry α :=
  match reg.registry (registryKey name) with
  | some _ =>
    (.noError, { reg with registry := update reg.registry (registryKey name) none })
  | none => (.objectNotInRegistry, reg)

/-! ## Who is woken -/

variable {k k' : ThreadSys} {reg reg' : Registry α} {name : Name} {entry : α} {room : Bool}
  {r : ReturnT} {t : ℕ} {ts : List ℕ}

theorem registryGet_eq_ok :
    registryGet reg name = .ok entry ↔ reg.registry (registryKey name) = some entry := by
  unfold registryGet
  split
  next e he => simp [he]
  next he => simp [he]

theorem wakeQueue_threads (h : wakeQueue k ts = .ok k') :
    k'.threads = wakeAll k.threads ts ∧ k'.objThreads = k.objThreads := by
  induction ts generalizing k with
  | nil =>
    cases h
    exact ⟨rfl, rfl⟩
  | cons t ts ih =>
    obtain ⟨⟨r, k₁⟩, hready, hrest⟩ := of_bind h
    obtain ⟨hthreads, hobj⟩ := objSetThreadReady_threads hready
    obtain ⟨hthreads', hobj'⟩ := ih hrest
    exact ⟨by rw [hthreads', hthreads, wakeAll_cons], hobj'.trans hobj⟩

def Registry.waiters (reg : Registry α) (key : Name) : List ℕ := (reg.waiting key).getD []

theorem registryNotify_threads {key : Name} (h : registryNotify k reg key = .ok (k', reg')) :
    k'.threads = wakeAll k.threads (reg.waiters key) ∧ k'.objThreads = k.objThreads ∧
      reg' = { reg with waiting := update reg.waiting key none } := by
  unfold registryNotify at h
  cases hw : reg.waiting key with
  | none =>
    rw [hw] at h
    cases h
    refine ⟨by simp [waiters, hw], rfl, ?_⟩
    -- there is no queue, so dropping it changes nothing
    rw [← hw, update_eq_self]
  | some queue =>
    simp only [hw] at h
    obtain ⟨k₁, hwake, h⟩ := of_bind h
    cases h
    obtain ⟨hthreads, hobj⟩ := wakeQueue_threads hwake
    exact ⟨by simp [waiters, hw, hthreads], hobj, rfl⟩

/-- Either the name is refused and nothing changes, or it is registered and the threads
that wait for it, and only they, are woken. -/
theorem regsiteryAdd_cases (h : regsiteryAdd k reg name entry room = .ok (r, k', reg')) :
    (¬ (reg.registry (registryKey name) = none ∧ room = true) ∧ r ≠ .noError ∧ k' = k ∧
        reg' = reg) ∨
      ((reg.registry (registryKey name) = none ∧ room = true) ∧ r = .noError ∧
        k'.threads = wakeAll k.threads (reg.waiters (registryKey name)) ∧
        k'.objThreads = k.objThreads ∧
        reg' = ⟨update reg.registry (registryKey name) (some entry),
          update reg.waiting (registryKey name) none⟩) := by
  simp only [regsiteryAdd] at h
  split at h
  next hfree =>
    cases room with
    | false =>
      cases h
      exact .inl ⟨by simp, by decide, rfl, rfl⟩
    | true =>
      obtain ⟨⟨k₁, reg₁⟩, hnotify, h⟩ := of_bind h
      cases h
      obtain ⟨hthreads, hobj, rfl⟩ := registryNotify_threads hnotify
      exact .inr ⟨⟨hfree, rfl⟩, rfl, hthreads, hobj, rfl⟩
  next htaken =>
    cases h
    exact .inl ⟨fun free => htaken free.1, by decide, rfl, rfl⟩

theorem registryWaitFor_cases
    (h : registryWaitFor k reg t name room = .ok (k', reg')) :
    k'.threads = block k.threads t none ∧ k'.objThreads = k.objThreads ∧
      reg' = registryQueueUp reg t (registryKey name) room := by
  obtain ⟨⟨r, k₁⟩, hwait, h⟩ := of_bind h
  cases h
  obtain ⟨hthreads, hobj⟩ := objSetThreadWaiting_threads hwait
  exact ⟨hthreads, hobj, rfl⟩

theorem registryQueueUp_registry (reg : Registry α) (t : ℕ) (key : Name) (room : Bool) :
    (registryQueueUp reg t key room).registry = reg.registry := by
  unfold registryQueueUp
  split
  · rfl
  split <;> rfl

theorem mem_waiters_queueUp {u : ℕ} {key key' : Name}
    (h : u ∈ (registryQueueUp reg t key room).waiters key') :
    u ∈ reg.waiters key' ∨ (key' = key ∧ u = t) := by
  by_cases hkey : key' = key
  · subst hkey
    unfold registryQueueUp at h
    split at h
    next queue hqueue =>
      simpa [waiters, hqueue] using h
    split at h
    · exact .inr ⟨rfl, by simpa [waiters] using h⟩
    · exact .inl h
  have hsame : (registryQueueUp reg t key room).waiting key' = reg.waiting key' := by
    unfold registryQueueUp
    split
    · exact update_of_ne hkey _ _
    split
    · exact update_of_ne hkey _ _
    · rfl
  rw [waiters, hsame] at h
  exact .inl h

theorem registryRemove_waiting (reg : Registry α) (name : Name) :
    (registryRemove reg name).2.waiting = reg.waiting := by
  unfold registryRemove
  split <;> rfl

end Tinker
