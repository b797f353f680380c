import Tinker.Objects.Registry

/-!
# Semaphores

`obj_semaphore.c`. A semaphore object either owns a count, with the queue of threads blocked on it
and the queue of its owners, or is a link to such an object. A get that finds the count at zero may
lend the caller's priority to the first owner and blocks the caller; a release returns its unit to
the count and hands over to the first blocked thread.

The two queues are lists here, which is what `Tinker.Collections.BackLinks` justifies.
-/

namespace Tinker

open Tinker.Lib Function Exec

structure Sema where
  semCount : ℕ
  semAlloc : ℕ
  /-- The threads that wait for the semaphore, the longest-waiting one first. -/
  listeners : List ℕ
  owners : List ℕ
  highestPriority : Priority
  name : Name
  deriving DecidableEq

inductive SemaObj
  | owner (sema : Sema)
  | link (target : ℕ)
  deriving DecidableEq

structure SemaSys extends ThreadSys where
  reg : Registry ObjRef
  semas : ℕ → Option SemaObj
  semaBrk : ℕ

open SemaSys

namespace SemaSys

def load (k : SemaSys) (id : ℕ) : Exec SemaObj :=
  match k.semas id with
  | some obj => .ok obj
  | none => .error .badPointer

/-- The semaphore with the count that the object at `o` is or links to. -/
def follow (k : SemaSys) (o : ℕ) (obj : SemaObj) : Exec (ℕ × Sema) :=
  match obj with
  | .owner sema => return (o, sema)
  | .link target => do
    match ← k.load target with
    | .owner sema => return (target, sema)
    | .link _ => .error .badPointer

def resolve (k : SemaSys) (o : ℕ) : Exec (ℕ × Sema) := do
  let obj ← k.load o
  k.follow o obj

def setSema (k : SemaSys) (id : ℕ) (sema : Sema) : SemaSys :=
  { k with semas := update k.semas id (some (.owner sema)) }

end SemaSys

/-! ## Creating, opening and deleting -/

def semaNew (name : Name) (initialCount : ℕ) : Sema :=
  ⟨initialCount, 0, [], [], 0, name.take maxSharedObjectNameLength⟩

/-- A failure to register the name is not reported. -/
def objCreateSemaphore (k : SemaSys) (name : Name) (initialCount : ℕ) (room : Bool) :
    Exec (ReturnT × SemaSys) := do
  let no := k.semaBrk
  let k := { k.setSema no (semaNew name initialCount) with semaBrk := no + 1 }
  let (_, sys, reg) ← regsiteryAdd k.toThreadSys k.reg name (.sema no) room
  return (.noError, { k with toThreadSys := sys, reg := reg })

def objOpenSemaphore (k : SemaSys) (name : Name) : ReturnT × SemaSys :=
  match registryGet k.reg name with
  | .ok (.sema other) =>
    match k.semas other with
    | some _ => (.noError, { k with
        semas := update k.semas k.semaBrk (some (.link other))
        semaBrk := k.semaBrk + 1 })
    | none => (.objectNotInRegistry, k)
  | .ok (.pipe _) | .ok (.timer _) | .ok (.shm _) => (.wrongObjType, k)
  | .error _ => (.objectNotInRegistry, k)

/-- The threads that wait for the semaphore stay blocked. -/
def objectDeleteSemaphore (k : SemaSys) (semaphore : Option ℕ) : Exec (ReturnT × SemaSys) :=
  match semaphore with
  | some id => do
    match ← k.load id with
    | .owner sema =>
      return (.noError, { k with
        reg := (registryRemove k.reg sema.name).2
        semas := update k.semas id none })
    | .link _ => return (.noError, { k with semas := update k.semas id none })
  | none => return (.invalidObject, k)

/-! ## Getting a semaphore -/

/-- What the inheritance branch of `obj_get_semaphore` does to the first owner: it is lent
the priority and, if it is blocked on anything, woken. -/
def semaLendPriority (k : ThreadSys) (firstOwner : Option ℕ) (priority : Priority) :
    Exec ThreadSys := do
  let k := (objSetThreadOriginalPriority k firstOwner).2
  let (_, k) ← objSetThreadPriority k firstOwner priority
  if (objGetThreadState k firstOwner).2 = some .waiting then do
    let (_, k) ← objSetThreadReady k firstOwner
    return k
  else
    return k

/-- The first half of `obj_get_semaphore`. Only a thread that lends no priority is noted as
an owner. -/
def semaInherit (k : ThreadSys) (sema : Sema) (t : ℕ) : Exec (ThreadSys × Sema) :=
  let firstOwner := sema.owners.head?
  let threadPriority := objGetThreadPriorityEx k (some t)
  let waitingThreadPriority := objGetThreadPriorityEx k firstOwner
  if sema.semCount = 0 ∧ waitingThreadPriority < threadPriority then do
    let k ← semaLendPriority k firstOwner threadPriority
    return (k, { sema with highestPriority := threadPriority })
  else
    return (k, { sema with owners := sema.owners ++ [t], highestPriority := threadPriority })

/-- The second half of `obj_get_semaphore`: block, or take a unit. -/
def semaTake (k : ThreadSys) (id : ℕ) (sema : Sema) (t : ℕ) : Exec (ThreadSys × Sema) :=
  if sema.semCount = 0 then do
    let (_, k) ← objSetThreadWaiting k (some t) (some (.sema id))
    return (k, { sema with listeners := sema.listeners ++ [t] })
  else
    return (k, { sema with semCount := sema.semCount - 1, semAlloc := sema.semAlloc + 1 })

def objGetSemaphore (k : SemaSys) (thread semaphore : Option ℕ) : Exec (ReturnT × SemaSys) :=
  match thread, semaphore with
  | some t, some o => do
    let obj ← k.load o
    if (k.threads t).state ≠ .notCreated ∧ (k.threads t).state ≠ .terminated then do
      let (id, sema) ← k.follow o obj
      let (sys, sema) ← semaInherit k.toThreadSys sema t
      let (sys, sema) ← semaTake sys id sema t
      return (.noError, { k with toThreadSys := sys }.setSema id sema)
    else
      return (.objectInInvalidState, k)
  | _, _ => return (.parametersNull, k)

/-! ## Releasing a semaphore -/

/-- What `obj_release_semaphore` does with the caller's priority. The second branch can
not be reached: the priorities are equal there. -/
def semaGiveBack (k : ThreadSys) (sema : Sema) (thread : Option ℕ) : Exec (ThreadSys × Sema) :=
  let threadOrigPriority := objGetThreadOriginalPriorityEx k thread
  if sema.highestPriority ≠ threadOrigPriority then do
    let (_, k) ← objResetThreadOriginalPriority k thread
    return (k, sema)
  else if threadOrigPriority < sema.highestPriority then
    return (k, { sema with highestPriority := threadOrigPriority })
  else
    return (k, sema)

/-- The part of `obj_notify_semaphore_listener` behind the wake-up: the woken thread is lent
the highest priority, if its own is lower. -/
def semaRaiseOwner (k : ThreadSys) (sema : Sema) (next : ℕ) : Exec (ThreadSys × Sema) :=
  let threadPriority := objGetThreadPriorityEx k (some next)
  if threadPriority < sema.highestPriority then do
    let k := (objSetThreadOriginalPriority k (some next)).2
    let (_, k) ← objSetThreadPriority k (some next) sema.highestPriority
    return (k, sema)
  else
    return (k, { sema with highestPriority := threadPriority })

/-- The count is not touched. -/
def objNotifySemaphoreListener (k : ThreadSys) (sema : Sema) : Exec (ThreadSys × Sema) :=
  match sema.listeners with
  | next :: rest => do
    let (_, k) ← objSetThreadReady k (some next)
    let (k, sema) ← semaRaiseOwner k sema next
    return (k, { sema with owners := sema.owners ++ [next], listeners := rest })
  | [] => return (k, sema)

def semaRemoveOwner (owners : List ℕ) (thread : Option ℕ) : List ℕ :=
  match thread with
  | some t => owners.erase t
  | none => owners

def objReleaseSemaphore (k : SemaSys) (thread semaphore : Option ℕ) : Exec (ReturnT × SemaSys) :=
  match semaphore with
  | some o => do
    let (id, sema) ← k.resolve o
    if sema.semAlloc > 0 then do
      let sema := { sema with
        semCount := sema.semCount + 1
        semAlloc := sema.semAlloc - 1
        owners := semaRemoveOwner sema.owners thread }
      let (sys, sema) ← semaGiveBack k.toThreadSys sema thread
      let (sys, sema) ← objNotifySemaphoreListener sys sema
      return (.noError, { k with toThreadSys := sys }.setSema id sema)
    else
      return (.semaphoreEmpty, k)
  | none => return (.parametersNull, k)

/-! ## What a get and a release do -/

variable {k k' : SemaSys} {sys sys' : ThreadSys} {sema sema' : Sema} {t o id : ℕ} {r : ReturnT}
  {thread : Option ℕ} {p : Priority}

/-- The owner that a get by `t` lends its priority to and wakes: the first one, if there is
no unit left and its priority is below the caller's. -/
def Sema.lendsTo (sema : Sema) (k : ThreadSys) (t : ℕ) : Option ℕ :=
  if sema.semCount = 0 ∧
      objGetThreadPriorityEx k sema.owners.head? < objGetThreadPriorityEx k (some t) then
    sema.owners.head?
  else none

/-- The owners after a get by `t`: a thread that lends its priority is not noted. -/
def Sema.ownersWith (sema : Sema) (k : ThreadSys) (t : ℕ) : List ℕ :=
  if sema.semCount = 0 ∧
      objGetThreadPriorityEx k sema.owners.head? < objGetThreadPriorityEx k (some t) then
    sema.owners
  else sema.owners ++ [t]

/-- The thread that a release puts back to its original priority. -/
def Sema.resets (sema : Sema) (k : ThreadSys) (thread : Option ℕ) : Option ℕ :=
  thread.filter fun t => sema.highestPriority ≠ (k.objThreads t).originalPriority

/-- The thread that a release lends the highest priority to: the first listener, if its own
priority is lower. -/
def Sema.raises (sema : Sema) (k : ThreadSys) : Option ℕ :=
  sema.listeners.head?.filter fun u => (k.threads u).priority < sema.highestPriority

theorem semaLendPriority_cases (hp : p ≠ 0) (h : semaLendPriority sys thread p = .ok sys') :
    SameStatus (wake sys.threads thread) sys'.threads ∧ Lent sys sys' thread p := by
  obtain ⟨⟨r, sys₁⟩, hprio, h⟩ := of_bind h
  have hsame : SameStatus sys.threads sys₁.threads := by
    simpa using objSetThreadPriority_status hprio
  have lent := lent_of_objSetThreadPriority hp hprio
  dsimp only at h
  split at h
  · obtain ⟨⟨r', sys₂⟩, hready, h⟩ := of_bind h
    cases h
    obtain ⟨hthreads, hobjs⟩ := objSetThreadReady_threads hready
    refine ⟨?_, lent.congr (fun u => ?_) hobjs⟩
    · rw [hthreads]
      exact hsame.wake thread
    · rw [hthreads, wake_priority]
  next hstate =>
    cases h
    refine ⟨?_, lent⟩
    -- the owner is not blocked, so waking it would have changed nothing
    cases thread with
    | none => exact hsame
    | some t =>
      have hne : (sys.threads t).state ≠ .waiting := by
        rw [← (hsame t).1]
        simpa [objGetThreadState] using hstate
      rwa [wake_of_ne_waiting hne]

theorem semaInherit_cases (h : semaInherit sys sema t = .ok (sys', sema')) :
    SameStatus (wake sys.threads (sema.lendsTo sys t)) sys'.threads ∧
      Lent sys sys' (sema.lendsTo sys t) (sys.threads t).priority ∧
      sema' = { sema with
        owners := sema.ownersWith sys t, highestPriority := (sys.threads t).priority } := by
  simp only [semaInherit] at h
  split at h
  next hlend =>
    obtain ⟨sys₁, hsys, h⟩ := of_bind h
    cases h
    rw [Sema.lendsTo, if_pos hlend, Sema.ownersWith, if_pos hlend]
    have hp : (sys.threads t).priority ≠ 0 := Fin.ne_zero_of_lt hlend.2
    obtain ⟨hsame, lent⟩ := semaLendPriority_cases hp hsys
    exact ⟨hsame, lent, rfl⟩
  next hkeep =>
    cases h
    rw [Sema.lendsTo, if_neg hkeep, Sema.ownersWith, if_neg hkeep]
    exact ⟨.refl _, lent_none _ _, rfl⟩

theorem semaGiveBack_cases (h : semaGiveBack sys sema thread = .ok (sys', sema')) :
    SameStatus sys.threads sys'.threads ∧ GivenBack sys sys' (sema.resets sys thread) ∧
      sema' = sema := by
  simp only [semaGiveBack] at h
  split at h
  next hne =>
    obtain ⟨⟨r, sys₁⟩, hreset, h⟩ := of_bind h
    cases h
    have hresets : sema.resets sys thread = thread := by
      cases thread with
      | none => rfl
      | some t => exact Option.filter_eq_some_iff.mpr ⟨rfl, decide_eq_true hne⟩
    rw [hresets]
    exact ⟨objResetThreadOriginalPriority_status hreset,
      givenBack_of_objResetThreadOriginalPriority hreset, rfl⟩
  next heq =>
    have heq := not_not.mp heq
    have hresets : sema.resets sys thread = none := by
      refine Option.filter_eq_none_iff.mpr fun t ht => ?_
      subst ht
      simpa [objGetThreadOriginalPriorityEx] using heq
    rw [hresets, if_neg (by rw [heq]; exact lt_irrefl _)] at *
    cases h
    exact ⟨.refl _, givenBack_none _, rfl⟩

theorem semaRaiseOwner_cases (hfront : sema.listeners.head? = some t)
    (h : semaRaiseOwner sys sema t = .ok (sys', sema')) :
    SameStatus sys.threads sys'.threads ∧ Lent sys sys' (sema.raises sys) sema.highestPriority ∧
      ∃ p, sema' = { sema with highestPriority := p } := by
  simp only [semaRaiseOwner] at h
  split at h
  next hlt =>
    obtain ⟨⟨r, sys₁⟩, hprio, h⟩ := of_bind h
    cases h
    have hraises : sema.raises sys = some t :=
      Option.filter_eq_some_iff.mpr ⟨hfront, decide_eq_true hlt⟩
    rw [hraises]
    refine ⟨?_, lent_of_objSetThreadPriority (Fin.ne_zero_of_lt hlt) hprio, _, rfl⟩
    simpa using objSetThreadPriority_status hprio
  next hge =>
    cases h
    have hraises : sema.raises sys = none := by
      refine Option.filter_eq_none_iff.mpr fun u hu => ?_
      obtain rfl : t = u := Option.some.inj (hfront.symm.trans hu)
      exact fun hlt => hge (of_decide_eq_true hlt)
    rw [hraises]
    exact ⟨.refl _, lent_none _ _, _, rfl⟩

theorem objNotifySemaphoreListener_cases
    (h : objNotifySemaphoreListener sys sema = .ok (sys', sema')) :
    SameStatus (wake sys.threads sema.listeners.head?) sys'.threads ∧
      Lent sys sys' (sema.raises sys) sema.highestPriority ∧
      ∃ p, sema' = { sema with
        owners := sema.owners ++ sema.listeners.head?.toList, highestPriority := p,
        listeners := sema.listeners.tail } := by
  unfold objNotifySemaphoreListener at h
  cases hl : sema.listeners with
  | nil =>
    rw [hl] at h
    cases h
    have hraises : sema.raises sys = none := by simp [Sema.raises, hl]
    rw [hraises]
    refine ⟨.refl _, lent_none _ _, sema.highestPriority, ?_⟩
    rw [List.tail_nil, List.head?_nil, Option.toList_none, List.append_nil, ← hl]
  | cons next rest =>
    simp only [hl] at h
    obtain ⟨⟨r, sys₁⟩, hready, h⟩ := of_bind h
    obtain ⟨⟨sys₂, sema₂⟩, hraise, h⟩ := of_bind h
    cases h
    obtain ⟨hsame, lent, p, rfl⟩ := semaRaiseOwner_cases (by rw [hl]; rfl) hraise
    obtain ⟨hthreads, hobjs⟩ := objSetThreadReady_threads hready
    -- waking the listener has left its priority alone
    have hpriority : ∀ u, (sys₁.threads u).priority = (sys.threads u).priority := by
      simp [hthreads]
    have hraises : sema.raises sys₁ = sema.raises sys := by simp [Sema.raises, hpriority]
    rw [hthreads] at hsame
    rw [hraises] at lent
    refine ⟨hsame, ⟨fun u => ?_, fun u => ?_⟩, p, rfl⟩
    · rw [lent.priority, hpriority]
    · rw [lent.original, hpriority, hobjs]

/-- A get either refuses a thread that is not alive, or blocks the caller when there is no
unit left, or takes a unit. -/
theorem objGetSemaphore_cases (h : objGetSemaphore k (some t) (some o) = .ok (r, k')) :
    (r = .objectInInvalidState ∧ k' = k ∧
      ((k.threads t).state = .notCreated ∨ (k.threads t).state = .terminated)) ∨
    ∃ id sema p, k.resolve o = .ok (id, sema) ∧ r = .noError ∧
      ((k.threads t).state ≠ .notCreated ∧ (k.threads t).state ≠ .terminated) ∧
      k'.reg = k.reg ∧ k'.semaBrk = k.semaBrk ∧
      Lent k.toThreadSys k'.toThreadSys (sema.lendsTo k.toThreadSys t) (k.threads t).priority ∧
      ((sema.semCount = 0 ∧
          SameStatus (block (wake k.threads (sema.lendsTo k.toThreadSys t)) t (some (.sema id)))
            k'.threads ∧
          k'.semas = update k.semas id (some (.owner { sema with
            owners := sema.ownersWith k.toThreadSys t, highestPriority := p,
            listeners := sema.listeners ++ [t] }))) ∨
        (0 < sema.semCount ∧ SameStatus k.threads k'.threads ∧
          k'.semas = update k.semas id (some (.owner { sema with
            owners := sema.owners ++ [t], highestPriority := p,
            semCount := sema.semCount - 1, semAlloc := sema.semAlloc + 1 })))) := by
  obtain ⟨obj, hload, h⟩ := of_bind h
  split at h
  next halive =>
    obtain ⟨⟨id, sema⟩, hfollow, h⟩ := of_bind h
    obtain ⟨⟨sys₁, sema₁⟩, hinherit, h⟩ := of_bind h
    obtain ⟨⟨sys₂, sema₂⟩, htake, h⟩ := of_bind h
    cases h
    obtain ⟨hsame, lent, rfl⟩ := semaInherit_cases hinherit
    have hresolve : k.resolve o = .ok (id, sema) :=
      bind_of ⟨obj, hload, hfollow⟩
    refine .inr ⟨id, sema, (k.threads t).priority, hresolve, rfl, halive, rfl, rfl, ?_⟩
    simp only [semaTake] at htake
    split at htake
    next hzero =>
      obtain ⟨⟨r, sys₃⟩, hwait, htake⟩ := of_bind htake
      cases htake
      obtain ⟨hthreads, hobjs⟩ := objSetThreadWaiting_threads hwait
      refine ⟨lent.congr (fun u => ?_) hobjs, .inl ⟨hzero, ?_, rfl⟩⟩
      · change (sys₃.threads u).priority = _
        rw [hthreads, block_priority]
      change SameStatus _ sys₃.threads
      rw [hthreads]
      exact hsame.block t _
    next hpos =>
      cases htake
      -- with a unit left nobody is lent a priority
      have hnone : sema.lendsTo k.toThreadSys t = none := if_neg fun hlend => hpos hlend.1
      have howners : sema.ownersWith k.toThreadSys t = sema.owners ++ [t] :=
        if_neg fun hlend => hpos hlend.1
      rw [hnone] at hsame lent ⊢
      rw [howners]
      exact ⟨lent, .inr ⟨Nat.pos_of_ne_zero hpos, hsame, rfl⟩⟩
  next hstate =>
    cases h
    refine .inl ⟨rfl, rfl, ?_⟩
    by_contra hne
    exact hstate ⟨fun e => hne (.inl e), fun e => hne (.inr e)⟩

/-- A release either finds no unit allocated and changes nothing, or returns the unit and
hands over. The caller's priority is given back first and the next owner's raised then. -/
theorem objReleaseSemaphore_cases (h : objReleaseSemaphore k thread (some o) = .ok (r, k')) :
    ∃ id sema, k.resolve o = .ok (id, sema) ∧
      ((sema.semAlloc = 0 ∧ r = .semaphoreEmpty ∧ k' = k) ∨
        (0 < sema.semAlloc ∧ r = .noError ∧ k'.reg = k.reg ∧ k'.semaBrk = k.semaBrk ∧
          SameStatus (wake k.threads sema.listeners.head?) k'.threads ∧
          (∃ mid, GivenBack k.toThreadSys mid (sema.resets k.toThreadSys thread) ∧
            Lent mid k'.toThreadSys (sema.raises mid) sema.highestPriority) ∧
          ∃ p, k'.semas = update k.semas id (some (.owner { sema with
            owners := semaRemoveOwner sema.owners thread ++ sema.listeners.head?.toList,
            highestPriority := p, listeners := sema.listeners.tail,
            semCount := sema.semCount + 1, semAlloc := sema.semAlloc - 1 })))) := by
  obtain ⟨⟨id, sema⟩, hresolve, h⟩ := of_bind h
  refine ⟨id, sema, hresolve, ?_⟩
  dsimp only at h
  split at h
  next hpos =>
    obtain ⟨⟨sys₁, sema₁⟩, hback, h⟩ := of_bind h
    obtain ⟨⟨sys₂, sema₂⟩, hnotify, h⟩ := of_bind h
    cases h
    obtain ⟨hsame, back, rfl⟩ := semaGiveBack_cases hback
    obtain ⟨hwoken, lent, p, rfl⟩ := objNotifySemaphoreListener_cases hnotify
    exact .inr ⟨hpos, rfl, rfl, rfl, (hsame.wake _).trans hwoken, ⟨sys₁, back, lent⟩, p, rfl⟩
  next hzero =>
    cases h
    exact .inl ⟨by simpa using hzero, rfl, rfl⟩

theorem objCreateSemaphore_cases {name : Name} {initialCount : ℕ} {room : Bool}
    (h : objCreateSemaphore k name initialCount room = .ok (r, k')) :
    k'.semas = update k.semas k.semaBrk (some (.owner (semaNew name initialCount))) ∧
      k'.semaBrk = k.semaBrk + 1 ∧
      ∃ added, regsiteryAdd k.toThreadSys k.reg name (.sema k.semaBrk) room =
        .ok (added, k'.toThreadSys, k'.reg) := by
  obtain ⟨⟨added, sys, reg⟩, hadd, h⟩ := of_bind h
  cases h
  exact ⟨rfl, rfl, added, hadd⟩

theorem objOpenSemaphore_cases (k : SemaSys) (name : Name) :
    (objOpenSemaphore k name).2 = k ∨
      ∃ other, (objOpenSemaphore k name).2 = { k with
        semas := update k.semas k.semaBrk (some (.link other))
        semaBrk := k.semaBrk + 1 } := by
  unfold objOpenSemaphore
  split
  next other _ =>
    split
    · exact .inr ⟨other, rfl⟩
    · exact .inl rfl
  all_goals exact .inl rfl

/-! ## The semaphore behind an object -/

/-- A call by a thread `t` on the semaphore object `o`. -/
inductive SemaCall
  | get (t o : ℕ)
  | release (t o : ℕ)

/-- The object `o` is the semaphore at `id` or a link to it. -/
def SemaSys.leadsTo (k : SemaSys) (o id : ℕ) : Bool :=
  match k.resolve o with
  | .ok (i, _) => i = id
  | .error _ => false

def SemaSys.sema? (k : SemaSys) (id : ℕ) : Option Sema :=
  match k.semas id with
  | some (.owner sema) => some sema
  | _ => none

def SemaSys.listenersOf (k : SemaSys) (id : ℕ) : List ℕ := ((k.sema? id).map Sema.listeners).getD []

def BlockedOn (threads : Threads) (id t : ℕ) : Prop :=
  (threads t).state = .waiting ∧ (threads t).waitingOn = some (.sema id)

deriving instance Decidable for BlockedOn

section Resolve

variable {k k' : SemaSys} {o i id : ℕ} {sema : Sema}

theorem SemaSys.load_eq_ok {obj : SemaObj} (h : k.load o = .ok obj) : k.semas o = some obj := by
  unfold load at h
  split at h
  next obj' hobj => rw [hobj, Except.ok.inj h]
  · cases h

theorem SemaSys.semas_of_resolve (h : k.resolve o = .ok (i, sema)) :
    k.semas i = some (.owner sema) := by
  obtain ⟨obj, hload, h⟩ := of_bind h
  cases obj with
  | owner sema' =>
    cases h
    exact load_eq_ok hload
  | link target =>
    obtain ⟨obj', htarget, h⟩ := of_bind h
    cases obj' with
    | owner sema' =>
      cases h
      exact load_eq_ok htarget
    | link _ => cases h

theorem SemaSys.leadsTo_iff (id : ℕ) (h : k.resolve o = .ok (i, sema)) :
    k.leadsTo o id = true ↔ i = id := by
  simp [leadsTo, h]

theorem SemaSys.listenersOf_update (hsemas : k'.semas = update k.semas i
    (some (.owner sema))) :
    k'.listenersOf id = if id = i then sema.listeners else k.listenersOf id := by
  by_cases hid : id = i
  · subst hid
    simp [listenersOf, sema?, hsemas]
  · simp [listenersOf, sema?, hsemas, hid]

theorem SemaSys.listenersOf_eq (hi : k.semas i = some (.owner sema)) :
    k.listenersOf i = sema.listeners := by
  simp [listenersOf, sema?, hi]

end Resolve

end Tinker
