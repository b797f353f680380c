import Tinker.Objects.Shared
import Tinker.Lib.Run

/-!
# The registry on its hash maps

`registry.c` with the two hash maps that it is built on, keyed by names that are cut to 64 bytes
and padded with zeros, and with the queues of waiting threads as the unbounded lists they are. A
name is never registered and waited for at the same time, and nobody is left behind in a queue.
-/

namespace Tinker

open Tinker.Lib Tinker.Collections Function Exec

/-- A `char` of the target has no sign. -/
def hashBasicString {n : ℕ} (key : MapKey n) : BitVec 32 :=
  (List.finRange n).foldl (fun h i => 31 * h + (key i).toBitVec.setWidth 32) 0

/-- `registry_key_t` -/
abbrev RegistryKeyT := MapKey maxSharedObjectNameLength

/-- The key of a name: its first 64 bytes up to the terminator, padded with zeros. -/
def registryBytes (name : Name) : RegistryKeyT :=
  fun i => ((name.takeWhile (· != 0)).take maxSharedObjectNameLength).getD i 0

structure HashedRegistry where
  registry : HashedMap maxSharedObjectNameLength RegistryEntry
  waiting : HashedMap maxSharedObjectNameLength ℕ
  queues : ℕ → Option (ListT ℕ)
  /-- The next queue is allocated here. -/
  queueBrk : ℕ

namespace HashedRegistry

def registryCreate : Exec HashedRegistry := do
  let registry ← mapCreate hashBasicString
  let waiting ← mapCreate hashBasicString
  return ⟨registry, waiting, fun _ => none, 0⟩

/-- The loop of `regsitery_add` that empties a queue: ready the first thread, pop it. -/
def wakeFrom (k : ThreadSys) (queue : ListT ℕ) : ℕ → Exec (ThreadSys × ListT ℕ)
  | 0 => .error .diverges
  | fuel + 1 => do
    match ← queueFront queue with
    | some thread => do
      let (_, k) ← objSetThreadReady k (some thread)
      let (_, queue) ← queuePop queue
      wakeFrom k queue fuel
    | none => return (k, queue)

/-- The part of `regsitery_add` behind `map_put`: those who wait for the name are woken, and
their queue is deleted. -/
def registryNotify (k : ThreadSys) (reg : HashedRegistry)
    (key : RegistryKeyT) : Exec (ThreadSys × HashedRegistry) :=
  if mapContainsKey reg.waiting key then
    match mapGet reg.waiting key with
    | some q =>
      match reg.queues q with
      | some queue => do
        let (k, _) ← wakeFrom k queue (queueSize queue + 1)
        return (k, { reg with
          waiting := (mapRemove reg.waiting key).2
          queues := update reg.queues q none })
      | none => .error .badPointer
    | none => return (k, reg)
  else return (k, reg)

def regsiteryAdd (k : ThreadSys) (reg : HashedRegistry) (name : Name) (entry : RegistryEntry) :
    Exec (ReturnT × ThreadSys × HashedRegistry) :=
  let key := registryBytes name
  if mapContainsKey reg.registry key then
    return (.objectNameExistsInRegistry, k, reg)
  else
    let (added, registry) := mapPut reg.registry key entry
    let reg := { reg with registry := registry }
    if added then do
      let (k, reg) ← registryNotify k reg key
      return (.noError, k, reg)
    else
      return (.objectNotAddedToRegistry, k, reg)

def registryGet (reg : HashedRegistry) (name : Name) : Except ReturnT RegistryEntry :=
  if mapContainsKey reg.registry (registryBytes name) then
    match mapGet reg.registry (registryBytes name) with
    | some entry => .ok entry
    | none => .error .objectNotRetrievedFromRegistry
  else .error .objectNotInRegistry

/-- The queue that `registry_wait_for` puts a thread into; a name that nobody waits for gets a
new one, whether or not the map has room for it. -/
def waitQueue (reg : HashedRegistry) (key : RegistryKeyT) :
    Option ℕ × HashedRegistry :=
  if mapContainsKey reg.waiting key then (mapGet reg.waiting key, reg)
  else
    (some reg.queueBrk, { reg with
      waiting := (mapPut reg.waiting key reg.queueBrk).2
      queues := update reg.queues reg.queueBrk (some listCreate)
      queueBrk := reg.queueBrk + 1 })

def registryWaitFor (k : ThreadSys) (reg : HashedRegistry) (thread : ℕ) (name : Name) :
    Exec (ThreadSys × HashedRegistry) := do
  let (_, k) ← objSetThreadWaiting k (some thread) none
  match waitQueue reg (registryBytes name) with
  | (some q, reg) =>
    match reg.queues q with
    | some queue => do
      let queue ← queuePush queue thread
      return (k, { reg with queues := update reg.queues q (some queue) })
    | none => .error .badPointer
  | (none, reg) => return (k, reg)

def registryRemove (reg : HashedRegistry) (name : Name) : ReturnT × HashedRegistry :=
  let key := registryBytes name
  if mapContainsKey reg.registry key then
    match mapGet reg.registry key with
    | some _ =>
      let (removed, registry) := mapRemove reg.registry key
      (if removed then .noError else .objectNotRemovedFromRegistry,
        { reg with registry := registry })
    | none => (.noError, reg)
  else (.objectNotInRegistry, reg)

/-- The threads that wait for a name, if there is a queue for it. -/
def queueOf (reg : HashedRegistry) (key : RegistryKeyT) : Option (List ℕ) :=
  (mapGet reg.waiting key).bind fun q => (reg.queues q).map ListT.items

/-! ## Emptying a queue -/

variable {k k' : ThreadSys} {reg reg' : HashedRegistry} {queue : ListT ℕ} {ns : List (ℕ × ℕ)}
  {key : RegistryKeyT} {name : Name} {entry : RegistryEntry} {thread : ℕ}

theorem wakeFrom_eq {fuel : ℕ} (h : Holds queue ns) (hfuel : ns.length < fuel) :
    ∃ queue', Holds queue' [] ∧ ∀ k, wakeFrom k queue fuel = (do
      let k ← wakeQueue k (ns.map Prod.snd)
      return (k, queue')) := by
  induction fuel generalizing queue ns with
  | zero => omega
  | succ fuel ih =>
    cases ns with
    | nil =>
      refine ⟨queue, h, fun k => ?_⟩
      simp [wakeFrom, queueFront, h.listGet_zero, wakeQueue]
    | cons node ns =>
      obtain ⟨popped, hpop, hpopped⟩ := h.listRemove (i := 0) (Nat.succ_pos _)
      obtain ⟨queue', hempty, hrest⟩ := ih hpopped (Nat.lt_of_succ_lt_succ hfuel)
      refine ⟨queue', hempty, fun k => ?_⟩
      simp only [wakeFrom, queueFront, h.listGet_zero, List.map_cons, List.head?_cons,
        ok_bind, wakeQueue]
      cases objSetThreadReady k (some node.2) with
      | error fault => rfl
      | ok readied =>
        simp only [ok_bind, queuePop, hpop, hrest]
        rfl

/-! ## The invariant -/

/-- No name is registered and waited for at the same time, the counter of the waiting map is
right, and each awaited name has a live queue of its own. -/
structure Good (reg : HashedRegistry) : Prop where
  registry : reg.registry.WellFormed
  waiting : reg.waiting.WellFormed
  counted : reg.waiting.size = reg.waiting.stored
  exclusive : ∀ key, mapGet reg.registry key = none ∨ mapGet reg.waiting key = none
  live : ∀ key q, mapGet reg.waiting key = some q →
    q < reg.queueBrk ∧ ∃ queue ns, reg.queues q = some queue ∧ Holds queue ns
  own : ∀ key key' q, mapGet reg.waiting key = some q → mapGet reg.waiting key' = some q →
    key = key'

theorem Good.create (h : registryCreate = .ok reg) : reg.Good := by
  obtain ⟨registry, hregistry, h⟩ := of_bind h
  obtain ⟨waiting, hwaiting, h⟩ := of_bind h
  cases h
  obtain ⟨hregistry, -⟩ := mapCreate_spec hregistry
  obtain ⟨hwaiting, -, hget, hsize, hstored⟩ := mapCreate_spec hwaiting
  refine ⟨hregistry, hwaiting, hsize.trans hstored.symm, fun key => .inr (congrFun hget key),
    ?_, ?_⟩
  · intro key q hq
    rw [hget] at hq
    cases hq
  intro key key' q hq
  rw [hget] at hq
  cases hq

/-- The registry once a name is registered and those who waited for it are woken. -/
def registered (reg : HashedRegistry) (key : RegistryKeyT)
    (entry : RegistryEntry) : HashedRegistry where
  registry := (mapPut reg.registry key entry).2
  waiting := (mapRemove reg.waiting key).2
  queues :=
    match mapGet reg.waiting key with
    | some q => update reg.queues q none
    | none => reg.queues
  queueBrk := reg.queueBrk

/-- What registering a name does: it is refused and nothing changes, or the threads that wait
for the name are woken in order, and their queue is taken away. -/
theorem Good.regsiteryAdd_cases (h : reg.Good) (k : ThreadSys) (name : Name)
    (entry : RegistryEntry) :
    ((mapGet reg.registry (registryBytes name)).isSome ∧
        regsiteryAdd k reg name entry = .ok (.objectNameExistsInRegistry, k, reg)) ∨
      (mapGet reg.registry (registryBytes name) = none ∧
        (mapPut reg.registry (registryBytes name) entry).1 = false ∧
        regsiteryAdd k reg name entry = .ok (.objectNotAddedToRegistry, k, reg)) ∨
      (mapGet reg.registry (registryBytes name) = none ∧
        (mapPut reg.registry (registryBytes name) entry).1 = true ∧
        regsiteryAdd k reg name entry = (do
          let k ← wakeQueue k ((reg.queueOf (registryBytes name)).getD [])
          return (.noError, k, reg.registered (registryBytes name) entry))) := by
  unfold regsiteryAdd
  cases hname : mapGet reg.registry (registryBytes name) with
  | some old => exact .inl ⟨rfl, by simp [mapContainsKey_eq, hname]⟩
  | none =>
    rcases mapPut_cases reg.registry (registryBytes name) entry with
      ⟨i, -, -, hput⟩ | ⟨-, hput⟩
    · refine .inr (.inr ⟨rfl, by rw [hput], ?_⟩)
      simp only [mapContainsKey_eq, hname, Option.isSome_none, hput, registryNotify,
        if_true, Bool.false_eq_true, if_false]
      cases hq : mapGet reg.waiting (registryBytes name) with
      | none =>
        have habsent : mapContainsKey reg.waiting (registryBytes name) = false := by
          rw [mapContainsKey_eq, hq]; rfl
        simp [queueOf, hq, wakeQueue, registered, hput, mapRemove_absent h.waiting habsent]
      | some q =>
        obtain ⟨-, queue, ns, hqueue, hholds⟩ := h.live _ q hq
        have hfuel : ns.length < queueSize queue + 1 := by
          rw [queueSize, listSize, hholds.size_eq]
          exact Nat.lt_succ_self _
        obtain ⟨queue', -, hwake⟩ := wakeFrom_eq hholds hfuel
        simp only [Option.isSome_some, if_true, hqueue, hwake, queueOf, hq, Option.bind_some,
          Option.map_some, Option.getD_some, hholds.items_eq, registered, hput]
        cases wakeQueue k (ns.map Prod.snd) with
        | error fault => rfl
        | ok k => rfl
    · exact .inr (.inl ⟨rfl, by rw [hput], by simp [mapContainsKey_eq, hname, hput]⟩)

/-! ## Each call keeps the invariant -/

section

variable (h : reg.Good)
include h

theorem Good.mapGet_registered (key : RegistryKeyT) (entry : RegistryEntry) :
    mapGet (reg.registered key entry).waiting = update (mapGet reg.waiting) key none :=
  (h.waiting.mapGet_mapRemove key).2

theorem Good.queues_registered {key' : RegistryKeyT} {q : ℕ} (hkey : key' ≠ key)
    (hq : mapGet reg.waiting key' = some q) :
    (reg.registered key entry).queues q = reg.queues q := by
  cases hown : mapGet reg.waiting key with
  | none => simp [registered, hown]
  | some q' =>
    have hne : q ≠ q' := fun heq => hkey (h.own _ _ q hq (heq ▸ hown))
    simp [registered, hown, update_of_ne hne]

theorem Good.queueOf_registered (key : RegistryKeyT)
    (entry : RegistryEntry) :
    (reg.registered key entry).queueOf = update reg.queueOf key none := by
  funext key'
  have hget := congrFun (h.mapGet_registered key entry) key'
  by_cases hkey : key' = key
  · rw [hkey, update_self] at hget ⊢
    simp [queueOf, hget]
  · rw [update_of_ne hkey] at hget ⊢
    cases hq : mapGet reg.waiting key' with
    | none => simp [queueOf, hget, hq]
    | some q => simp [queueOf, hget, hq, h.queues_registered hkey hq]

theorem Good.registered (hput : (mapPut reg.registry key entry).1 = true) :
    (reg.registered key entry).Good := by
  have hregistry := h.registry.mapGet_mapPut key entry
  have hwaiting := h.mapGet_registered key entry
  rw [hput, if_pos rfl] at hregistry
  have hold : ∀ key' q, mapGet (reg.registered key entry).waiting key' = some q →
      key' ≠ key ∧ mapGet reg.waiting key' = some q := by
    intro key' q hq
    rw [hwaiting] at hq
    by_cases hkey : key' = key
    · rw [hkey, update_self] at hq
      cases hq
    rw [update_of_ne hkey] at hq
    exact ⟨hkey, hq⟩
  refine ⟨wellFormed_mapPut h.registry _ _, wellFormed_mapRemove h.waiting _,
    counted_mapRemove h.waiting h.counted key, fun key' => ?_, fun key' q hq => ?_, ?_⟩
  · by_cases hkey : key' = key
    · exact .inr (by rw [hwaiting, hkey, update_self])
    change mapGet (mapPut reg.registry key entry).2 key' = none ∨ _
    rw [hregistry, hwaiting, update_of_ne hkey, update_of_ne hkey]
    exact h.exclusive key'
  · obtain ⟨hkey, hq⟩ := hold key' q hq
    rw [h.queues_registered hkey hq]
    exact h.live key' q hq
  intro key' key'' q hq hq'
  exact h.own key' key'' q (hold key' q hq).2 (hold key'' q hq').2

theorem Good.setQueue (q : ℕ) (hqueue : Holds queue ns) :
    Good { reg with queues := update reg.queues q (some queue) } := by
  refine ⟨h.registry, h.waiting, h.counted, h.exclusive, fun key' q' hq' => ?_, h.own⟩
  obtain ⟨hlt, hlive⟩ := h.live key' q' hq'
  refine ⟨hlt, ?_⟩
  by_cases hq : q' = q
  · exact ⟨queue, ns, by simp [hq], hqueue⟩
  · simpa [update_of_ne hq] using hlive

theorem Good.waitQueue (hfree : mapGet reg.registry key = none)
    (hroom : ¬ reg.waiting.BucketFull key) :
    ∃ q queue ns, (waitQueue reg key).1 = some q ∧ (waitQueue reg key).2.queues q = some queue ∧
      Holds queue ns ∧ (waitQueue reg key).2.Good := by
  unfold HashedRegistry.waitQueue
  cases hq : mapGet reg.waiting key with
  | some q =>
    obtain ⟨-, queue, ns, hqueue, hholds⟩ := h.live key q hq
    refine ⟨q, queue, ns, ?_⟩
    simpa [mapContainsKey_eq, hq] using ⟨hqueue, hholds, h⟩
  | none =>
    -- the map has room: its counter is right and the bucket is not full
    have hput : (mapPut reg.waiting key reg.queueBrk).1 = true := by
      rcases mapPut_cases reg.waiting key reg.queueBrk with ⟨i, -, -, hput⟩ | ⟨hfull, -⟩
      · rw [hput]
      have hsize := h.counted ▸ reg.waiting.stored_lt
      exact absurd (hfull.resolve_left (Nat.not_le_of_lt hsize)) hroom
    have hget := h.waiting.mapGet_mapPut key reg.queueBrk
    rw [hput, if_pos rfl] at hget
    refine ⟨reg.queueBrk, listCreate, [], ?_⟩
    simp only [mapContainsKey_eq, hq, Option.isSome_none, Bool.false_eq_true, if_false,
      update_self, true_and]
    refine ⟨holds_listCreate, h.registry, wellFormed_mapPut h.waiting _ _,
      counted_mapPut h.waiting h.counted hq, fun key' => ?_, fun key' q hq' => ?_, ?_⟩
    · by_cases hkey : key' = key
      · exact .inl (hkey ▸ hfree)
      rw [hget, update_of_ne hkey]
      exact h.exclusive key'
    · dsimp only at hq' ⊢
      rw [hget] at hq'
      by_cases hkey : key' = key
      · rw [hkey, update_self] at hq'
        cases hq'
        exact ⟨Nat.lt_succ_self _, listCreate, [], by simp, holds_listCreate⟩
      rw [update_of_ne hkey] at hq'
      obtain ⟨hlt, hlive⟩ := h.live key' q hq'
      rw [update_of_ne (Nat.ne_of_lt hlt)]
      exact ⟨Nat.lt_succ_of_lt hlt, hlive⟩
    intro key₁ key₂ q hq₁ hq₂
    rw [hget] at hq₁ hq₂
    by_cases hkey₁ : key₁ = key
    · by_cases hkey₂ : key₂ = key
      · rw [hkey₁, hkey₂]
      rw [hkey₁, update_self] at hq₁
      rw [update_of_ne hkey₂, ← hq₁] at hq₂
      exact absurd (h.live key₂ _ hq₂).1 (Nat.lt_irrefl _)
    rw [update_of_ne hkey₁] at hq₁
    by_cases hkey₂ : key₂ = key
    · rw [hkey₂, update_self] at hq₂
      rw [← hq₂] at hq₁
      exact absurd (h.live key₁ _ hq₁).1 (Nat.lt_irrefl _)
    rw [update_of_ne hkey₂] at hq₂
    exact h.own key₁ key₂ q hq₁ hq₂

theorem Good.registryWaitFor (hfree : mapGet reg.registry (registryBytes name) = none)
    (hroom : ¬ reg.waiting.BucketFull (registryBytes name))
    (hwait : registryWaitFor k reg thread name = .ok (k', reg')) : reg'.Good := by
  obtain ⟨q, queue, ns, hq, hqueue, hholds, hgood⟩ := h.waitQueue hfree hroom
  obtain ⟨queue', hpush, hholds'⟩ := hholds.listAdd thread
  obtain ⟨⟨r, k₁⟩, -, hwait⟩ := of_bind hwait
  have hsplit : HashedRegistry.waitQueue reg (registryBytes name) =
      (some q, (HashedRegistry.waitQueue reg (registryBytes name)).2) := Prod.ext hq rfl
  rw [hsplit] at hwait
  simp only [hqueue, queuePush, hpush, ok_bind] at hwait
  cases hwait
  exact hgood.setQueue q hholds'

theorem Good.registryRemove (name : Name) : (registryRemove reg name).2.Good := by
  unfold HashedRegistry.registryRemove
  cases hname : mapGet reg.registry (registryBytes name) with
  | none => simpa [mapContainsKey_eq, hname] using h
  | some entry =>
    simp only [mapContainsKey_eq, hname, Option.isSome_some, if_true]
    have hget := (h.registry.mapGet_mapRemove (registryBytes name)).2
    refine ⟨wellFormed_mapRemove h.registry _, h.waiting, h.counted, fun key => ?_, h.live, h.own⟩
    rw [hget]
    by_cases hkey : key = registryBytes name
    · exact .inl (by rw [hkey, update_self])
    rw [update_of_ne hkey]
    exact h.exclusive key

end

/-! ## Names in use -/

structure NameSys where
  sys : ThreadSys
  reg : HashedRegistry

inductive NameCall
  /-- The lookup of `obj_open_pipe`, on behalf of a thread. -/
  | lookup (thread : ℕ) (name : Name)
  | add (name : Name) (entry : RegistryEntry)
  | remove (name : Name)

/-- One call. A name that is not there is waited for. -/
def NameCall.step (s : NameSys) : NameCall → Exec NameSys
  | lookup thread name =>
    match registryGet s.reg name with
    | .ok _ => return s
    | .error _ => do
      let (sys, reg) ← registryWaitFor s.sys s.reg thread name
      return ⟨sys, reg⟩
  | add name entry => do
    let (_, sys, reg) ← regsiteryAdd s.sys s.reg name entry
    return ⟨sys, reg⟩
  | remove name => return { s with reg := (registryRemove s.reg name).2 }

/-- No bucket of the waiting map overflows: a name that has to be waited for has a place in its
bucket. -/
def NoOverflow (s : NameSys) : NameCall → Prop
  | .lookup _ name => mapGet s.reg.registry (registryBytes name) = none →
      ¬ s.reg.waiting.BucketFull (registryBytes name)
  | _ => True

instance NoOverflow.decidable (s : NameSys) (call : NameCall) : Decidable (NoOverflow s call) := by
  unfold NoOverflow
  split <;> infer_instance

theorem registryGet_eq_error {reg : HashedRegistry} {name : Name} {r : ReturnT}
    (h : registryGet reg name = .error r) : mapGet reg.registry (registryBytes name) = none := by
  unfold registryGet at h
  cases hname : mapGet reg.registry (registryBytes name) with
  | none => rfl
  | some entry => simp [mapContainsKey_eq, hname] at h

theorem NameCall.good_step {s u : NameSys} {call : NameCall} (h : s.reg.Good)
    (hroom : NoOverflow s call) (hstep : call.step s = .ok u) : u.reg.Good := by
  cases call with
  | lookup thread name =>
    simp only [NameCall.step] at hstep
    split at hstep
    · cases hstep
      exact h
    next r hget =>
      obtain ⟨⟨sys, reg⟩, hwait, hstep⟩ := of_bind hstep
      cases hstep
      have hfree := registryGet_eq_error hget
      exact h.registryWaitFor hfree (hroom hfree) hwait
  | add name entry =>
    obtain ⟨⟨r, sys, reg⟩, hadd, hstep⟩ := of_bind hstep
    cases hstep
    rcases h.regsiteryAdd_cases s.sys name entry with ⟨-, hsame⟩ | ⟨-, -, hsame⟩ | ⟨-, hput, hcall⟩
    · rw [hsame] at hadd
      cases hadd
      exact h
    · rw [hsame] at hadd
      cases hadd
      exact h
    rw [hcall] at hadd
    obtain ⟨k, -, hadd⟩ := of_bind hadd
    cases hadd
    exact h.registered hput
  | remove name =>
    cases hstep
    exact h.registryRemove name

/-- After every sequence of calls in which no waiting bucket overflows, no name is registered and
waited for. Registering a name returns unless waking fails; if it succeeds, the threads that wait
for the name are readied in the order of their queue, the queue is gone, and the queues of other
names are as before. -/
theorem wakes_of_calls {k : ThreadSys} {reg : HashedRegistry} {s : NameSys}
    {calls : List NameCall} (hcreate : registryCreate = .ok reg)
    (run : Run (fun s call => NameCall.step s call) NoOverflow ⟨k, reg⟩ calls s) :
    (∀ key, ¬ (mapContainsKey s.reg.registry key = true ∧
      mapContainsKey s.reg.waiting key = true)) ∧
    (∀ name entry k', wakeQueue s.sys ((s.reg.queueOf (registryBytes name)).getD []) = .ok k' →
      ∃ result, regsiteryAdd s.sys s.reg name entry = .ok result) ∧
    (∀ name entry k' reg', regsiteryAdd s.sys s.reg name entry = .ok (.noError, k', reg') →
      wakeQueue s.sys ((s.reg.queueOf (registryBytes name)).getD []) = .ok k' ∧
      reg'.queueOf (registryBytes name) = none ∧
      mapContainsKey reg'.waiting (registryBytes name) = false ∧
      (∀ q, mapGet s.reg.waiting (registryBytes name) = some q → reg'.queues q = none) ∧
      ∀ key, key ≠ registryBytes name → reg'.queueOf key = s.reg.queueOf key) := by
  have hs : s.reg.Good := run.invariant (.create hcreate)
    fun s call u h hroom hstep => NameCall.good_step h hroom hstep
  refine ⟨fun key hboth => ?_, fun name entry k' hwake => ?_, fun name entry k' reg' hadd => ?_⟩
  · rw [mapContainsKey_eq, mapContainsKey_eq] at hboth
    rcases hs.exclusive key with hnone | hnone
    · simp [hnone] at hboth
    · simp [hnone] at hboth
  · rcases hs.regsiteryAdd_cases s.sys name entry with ⟨-, hsame⟩ | ⟨-, -, hsame⟩ | ⟨-, -, hcall⟩
    · exact ⟨_, hsame⟩
    · exact ⟨_, hsame⟩
    · exact ⟨_, by rw [hcall, hwake]; rfl⟩
  · rcases hs.regsiteryAdd_cases s.sys name entry with ⟨-, hsame⟩ | ⟨-, -, hsame⟩ | ⟨-, -, hcall⟩
    · rw [hsame] at hadd
      cases (triple_inj hadd).1
    · rw [hsame] at hadd
      cases (triple_inj hadd).1
    · rw [hcall] at hadd
      obtain ⟨k₁, hwake, hadd⟩ := of_bind hadd
      cases hadd
      have hgone := congrFun (hs.mapGet_registered (registryBytes name) entry) (registryBytes name)
      have hqueues := hs.queueOf_registered (registryBytes name) entry
      refine ⟨hwake, by rw [hqueues, update_self], by simp [mapContainsKey_eq, hgone],
        fun q hq => by simp [registered, hq], fun key hkey => ?_⟩
      rw [hqueues, update_of_ne hkey]

/-- Two threads wait for a name that is then registered. -/
theorem wakes_of_calls_two : ∃ k reg s k' reg', registryCreate = .ok reg ∧
    Run (fun s call => NameCall.step s call) NoOverflow ⟨k, reg⟩
      [.lookup 1 [112], .lookup 2 [112]] s ∧
    s.reg.queueOf (registryBytes [112]) = some [1, 2] ∧
    regsiteryAdd s.sys s.reg [112] ⟨0, 1⟩ = .ok (.noError, k', reg') ∧
    reg'.queueOf (registryBytes [112]) = none := by
  have hrun : ((ThreadSys.boot (fun t => if t = 0 then 0 else 1) [1, 2, 3]).toOption.any fun k =>
      registryCreate.toOption.any fun reg =>
        (replay (fun s call => NameCall.step s call) NoOverflow ⟨k, reg⟩
          [.lookup 1 [112], .lookup 2 [112]]).any fun s =>
            s.reg.queueOf (registryBytes [112]) = some [1, 2] ∧
              (regsiteryAdd s.sys s.reg [112] ⟨0, 1⟩).toOption.any fun (r, _, _) =>
                r = .noError) = true := by
    decide +kernel
  obtain ⟨k, -, hrun⟩ := exists_of_any hrun
  obtain ⟨reg, hcreate, hrun⟩ := exists_of_any hrun
  obtain ⟨s, run, hlast⟩ := exists_run_of_replay _ _ _ _ _ hrun
  obtain ⟨hqueue, hadd⟩ := of_decide_eq_true hlast
  obtain ⟨⟨r, k', reg'⟩, hadd, hr⟩ := exists_of_any hadd
  obtain rfl : r = .noError := of_decide_eq_true hr
  have hwakes := (wakes_of_calls hcreate run).2.2 [112] ⟨0, 1⟩ k' reg' hadd
  exact ⟨k, reg, s, k', reg', hcreate, run, hqueue, hadd, hwakes.2.1⟩

end HashedRegistry

end Tinker
