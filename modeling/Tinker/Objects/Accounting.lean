import Tinker.Lib.Run
import Tinker.Objects.Semaphore

/-!
# The accounts of a semaphore

The units of a semaphore are free or allocated, and the sum does not change from the creation on; a
release is refused exactly when none is allocated; and the threads that block leave the queue in
the order in which they entered it, through every sequence of calls.

The counters of a semaphore are 32-bit words and its queue is a linked list. A semaphore of those
(`SemaWords`) is carried along, and answers every call as that of `Tinker.Objects.Semaphore` does.
-/

namespace Tinker

open Tinker.Lib Tinker.Collections Function Exec SemaSys

/-! ## Counters as words, listeners as a linked list -/

/-- What reaches a semaphore: a get by a thread that is alive, or a release. -/
inductive SemaEvent
  | get (t : ℕ)
  | release
  deriving DecidableEq

/-- The counters and the listeners of a semaphore, as the kernel stores them. -/
structure SemaWords where
  semCount : UInt32
  semAlloc : UInt32
  listeners : ListT ℕ

namespace SemaWords

def create (initialCount : UInt32) : SemaWords := ⟨initialCount, 0, listCreate⟩

def notify (w : SemaWords) : Exec SemaWords :=
  if queueSize w.listeners > 0 then do
    match ← queueFront w.listeners with
    | some _ => do
      let (_, listeners) ← queuePop w.listeners
      return { w with listeners := listeners }
    | none => return w
  else
    return w

/-- What `obj_get_semaphore` and `obj_release_semaphore` do to the counters and the
listeners. -/
def step (w : SemaWords) : SemaEvent → Exec SemaWords
  | .get t =>
    if w.semCount = 0 then do
      let listeners ← queuePush w.listeners t
      return { w with listeners := listeners }
    else
      return { w with semCount := w.semCount - 1, semAlloc := w.semAlloc + 1 }
  | .release =>
    if w.semAlloc > 0 then
      notify { w with semCount := w.semCount + 1, semAlloc := w.semAlloc - 1 }
    else
      return w

/-- The words and the linked list hold the numbers and the list. -/
structure Stores (w : SemaWords) (count alloc : ℕ) (queue : List ℕ) : Prop where
  semCount : w.semCount.toNat = count
  semAlloc : w.semAlloc.toNat = alloc
  listeners : IsQueue w.listeners queue

variable {w : SemaWords} {count alloc t : ℕ} {queue : List ℕ}

theorem stores_create (n : UInt32) : (create n).Stores n.toNat 0 [] :=
  ⟨rfl, rfl, isQueue_listCreate⟩

section

variable (stores : w.Stores count alloc queue)
include stores

theorem Stores.enqueue (zero : count = 0) (t : ℕ) :
    ∃ w', w.step (.get t) = .ok w' ∧ w'.Stores count alloc (queue ++ [t]) := by
  have hzero : w.semCount = 0 := UInt32.toNat_inj.mp (stores.semCount.trans zero)
  obtain ⟨listeners, hpush, hqueue⟩ := stores.listeners.listAdd t
  refine ⟨{ w with listeners := listeners }, ?_, stores.semCount, stores.semAlloc, hqueue⟩
  simp [step, hzero, queuePush, hpush]

theorem Stores.take (pos : 0 < count) (room : alloc + 1 < 2 ^ 32) (t : ℕ) :
    ∃ w', w.step (.get t) = .ok w' ∧ w'.Stores (count - 1) (alloc + 1) queue := by
  obtain ⟨rfl, rfl, hqueue⟩ := stores
  have hne : w.semCount ≠ 0 := by
    intro hzero
    simp [hzero] at pos
  refine ⟨_, if_neg hne, ?_, ?_, hqueue⟩
  · exact UInt32.toNat_sub_of_le _ _ (UInt32.le_iff_toNat_le.mpr pos)
  rw [UInt32.toNat_add]
  exact Nat.mod_eq_of_lt room

theorem Stores.notify :
    ∃ w', w.notify = .ok w' ∧ w'.Stores count alloc queue.tail := by
  have hsize := stores.listeners.size_eq
  cases queue with
  | nil =>
    refine ⟨w, ?_, stores⟩
    simp [SemaWords.notify, listSize, hsize]
  | cons u rest =>
    have hfront := stores.listeners.listGet_zero
    obtain ⟨listeners, hpop, hrest⟩ := stores.listeners.listRemove_zero
    refine ⟨{ w with listeners := listeners }, ?_, stores.semCount, stores.semAlloc, hrest⟩
    simp [SemaWords.notify, listSize, hsize, hfront, hpop]

/-- A release that finds a unit allocated returns it and takes the first listener off the
queue. -/
theorem Stores.release (pos : 0 < alloc) (room : count + 1 < 2 ^ 32) :
    ∃ w', w.step .release = .ok w' ∧ w'.Stores (count + 1) (alloc - 1) queue.tail := by
  obtain ⟨rfl, rfl, hqueue⟩ := stores
  have hgt : w.semAlloc > 0 := UInt32.lt_iff_toNat_lt.mpr pos
  rw [step, if_pos hgt]
  refine Stores.notify ⟨?_, ?_, hqueue⟩
  · rw [UInt32.toNat_add]
    exact Nat.mod_eq_of_lt room
  · exact UInt32.toNat_sub_of_le _ _ (UInt32.le_iff_toNat_le.mpr pos)

theorem Stores.refused (zero : alloc = 0) : w.step .release = .ok w := by
  have hzero : w.semAlloc = 0 := UInt32.toNat_inj.mp (stores.semAlloc.trans zero)
  simp [step, hzero]

end

end SemaWords

/-! ## One semaphore among all calls -/

inductive SemaphoreCall
  | create (name : Name) (initialCount : UInt32) (room : Bool)
  | openLink (name : Name)
  | get (thread semaphore : Option ℕ)
  | release (thread semaphore : Option ℕ)

structure Account where
  sys : SemaSys
  /-- The gets and releases that have reached the semaphore, in order. -/
  events : List SemaEvent
  /-- The threads that have been queued on it, in order. -/
  entered : List ℕ
  /-- How many of them a release has taken off the queue again. -/
  served : ℕ

namespace Account

/-- A get has reached the semaphore at `id`; it queues the caller if there is no unit. -/
def noteGet (a : Account) (id t : ℕ) (sys : SemaSys) : Account where
  sys := sys
  events := a.events ++ [.get t]
  entered := if (a.sys.sema? id).any (·.semCount = 0) then a.entered ++ [t] else a.entered
  served := a.served

/-- A release has reached the semaphore at `id`; if it succeeds it serves a listener. -/
def noteRelease (a : Account) (id : ℕ) (r : ReturnT) (sys : SemaSys) : Account where
  sys := sys
  events := a.events ++ [.release]
  entered := a.entered
  served :=
    if r = .noError ∧ (a.sys.sema? id).any (·.listeners ≠ []) then a.served + 1 else a.served

def step (id : ℕ) (a : Account) : SemaphoreCall → Exec Account
  | .create name initialCount room => do
    let (_, sys) ← objCreateSemaphore a.sys name initialCount.toNat room
    return { a with sys := sys }
  | .openLink name => return { a with sys := (objOpenSemaphore a.sys name).2 }
  | .get (some t) (some o) => do
    let (r, sys) ← objGetSemaphore a.sys (some t) (some o)
    if r = .noError ∧ a.sys.leadsTo o id then return a.noteGet id t sys
    else return { a with sys := sys }
  | .get thread semaphore => do
    let (_, sys) ← objGetSemaphore a.sys thread semaphore
    return { a with sys := sys }
  | .release thread (some o) => do
    let (r, sys) ← objReleaseSemaphore a.sys thread (some o)
    if a.sys.leadsTo o id then return a.noteRelease id r sys
    else return { a with sys := sys }
  | .release thread none => do
    let (_, sys) ← objReleaseSemaphore a.sys thread none
    return { a with sys := sys }

def start (sys : SemaSys) : Account := ⟨sys, [], [], 0⟩

/-- The books of the semaphore at `id`, created with `n` units, are in order. -/
structure Kept (id : ℕ) (n : UInt32) (a : Account) (sema : Sema) (w : SemaWords) : Prop where
  stored : a.sys.semas id = some (.owner sema)
  below : id < a.sys.semaBrk
  /-- The words have gone through the same events without a fault. -/
  words : a.events.foldlM SemaWords.step (.create n) = .ok w
  stores : w.Stores sema.semCount sema.semAlloc sema.listeners
  total : sema.semCount + sema.semAlloc = n.toNat
  /-- The queue is what has entered it and has not been served. -/
  queue : sema.listeners = a.entered.drop a.served
  served : a.served ≤ a.entered.length

def Lawful (id : ℕ) (n : UInt32) (a : Account) : Prop := ∃ sema w, Kept id n a sema w

variable {id o t : ℕ} {n : UInt32} {a a' : Account} {sema sema' : Sema} {w w' : SemaWords}
  {sys : SemaSys} {r : ReturnT} {thread : Option ℕ}

theorem kept_start {k : SemaSys} {name : Name} {room : Bool}
    (create : objCreateSemaphore k name n.toNat room = .ok (r, sys)) :
    Kept k.semaBrk n (start sys) (semaNew name n.toNat) (.create n) := by
  obtain ⟨hsemas, hbrk, -⟩ := objCreateSemaphore_cases create
  refine ⟨?_, ?_, rfl, SemaWords.stores_create n, rfl, rfl, le_rfl⟩
  · change sys.semas k.semaBrk = _
    rw [hsemas, update_self]
  change k.semaBrk < sys.semaBrk
  omega

section

variable (kept : Kept id n a sema w)
include kept

theorem Kept.other (stored : sys.semas id = a.sys.semas id) (brk : a.sys.semaBrk ≤ sys.semaBrk) :
    Kept id n { a with sys := sys } sema w :=
  { kept with
    stored := stored.trans kept.stored
    below := Nat.lt_of_lt_of_le kept.below brk }

theorem Kept.sema?_eq : a.sys.sema? id = some sema := by
  simp [SemaSys.sema?, kept.stored]

theorem Kept.words_concat {e : SemaEvent} (hstep : w.step e = .ok w') :
    (a.events ++ [e]).foldlM SemaWords.step (.create n) = .ok w' := by
  rw [List.foldlM_append, kept.words]
  simp [hstep]

theorem Kept.get (h : objGetSemaphore a.sys (some t) (some o) = .ok (r, sys)) :
    ∃ sema' w', Kept id n
      (if r = .noError ∧ a.sys.leadsTo o id then a.noteGet id t sys else { a with sys := sys })
      sema' w' := by
  rcases objGetSemaphore_cases h with ⟨rfl, rfl, -⟩ | ⟨i, s, p, hres, rfl, -, -, hbrk, -, hcases⟩
  · exact ⟨sema, w, by simpa using kept⟩
  have hlead := leadsTo_iff id hres
  have hi := semas_of_resolve hres
  by_cases hid : i = id
  · subst hid
    obtain rfl : s = sema := by simpa [kept.stored] using hi.symm
    rw [if_pos ⟨rfl, hlead.mpr rfl⟩]
    have hlen := kept.served
    rcases hcases with ⟨hzero, -, hsemas⟩ | ⟨hpos, -, hsemas⟩
    · -- the caller enters the queue
      have hentered : (a.noteGet i t sys).entered = a.entered ++ [t] := by
        simp [noteGet, kept.sema?_eq, hzero]
      obtain ⟨w', hw', stores'⟩ := kept.stores.enqueue hzero t
      refine ⟨_, w', congrFun hsemas i |>.trans (update_self ..), hbrk ▸ kept.below,
        kept.words_concat hw', stores', kept.total, ?_, ?_⟩
      · change s.listeners ++ [t] = (a.noteGet i t sys).entered.drop a.served
        rw [hentered, List.drop_append_of_le_length hlen, ← kept.queue]
      rw [hentered, List.length_append]
      exact Nat.le_trans hlen (Nat.le_add_right _ _)
    have hentered : (a.noteGet i t sys).entered = a.entered := by
      simp [noteGet, kept.sema?_eq, Nat.ne_of_gt hpos]
    have htotal := kept.total
    have hlt := n.toNat_lt
    obtain ⟨w', hw', stores'⟩ := kept.stores.take hpos (by omega) t
    refine ⟨_, w', congrFun hsemas i |>.trans (update_self ..), hbrk ▸ kept.below,
      kept.words_concat hw', stores', ?_, ?_, ?_⟩
    · dsimp only
      omega
    · rw [hentered]
      exact kept.queue
    rw [hentered]
    exact hlen
  rw [if_neg fun hboth => hid (hlead.mp hboth.2)]
  refine ⟨sema, w, kept.other ?_ (Nat.le_of_eq hbrk.symm)⟩
  rcases hcases with ⟨-, -, hsemas⟩ | ⟨-, -, hsemas⟩ <;>
    rw [hsemas, update_of_ne (Ne.symm hid)]

theorem Kept.release (h : objReleaseSemaphore a.sys thread (some o) = .ok (r, sys)) :
    ∃ sema' w', Kept id n
      (if a.sys.leadsTo o id then a.noteRelease id r sys else { a with sys := sys }) sema' w' := by
  obtain ⟨i, s, hres, hcases⟩ := objReleaseSemaphore_cases h
  have hlead := leadsTo_iff id hres
  have hi := semas_of_resolve hres
  by_cases hid : i = id
  · subst hid
    obtain rfl : s = sema := by simpa [kept.stored] using hi.symm
    rw [if_pos (hlead.mpr rfl)]
    rcases hcases with ⟨hzero, rfl, rfl⟩ | ⟨hpos, rfl, -, hbrk, -, -, p, hsemas⟩
    · have hserved : (a.noteRelease i .semaphoreEmpty a.sys).served = a.served := by
        simp [noteRelease]
      refine ⟨s, w, kept.stored, kept.below, kept.words_concat (kept.stores.refused hzero),
        kept.stores, kept.total, ?_, ?_⟩
      · rw [hserved]
        exact kept.queue
      rw [hserved]
      exact kept.served
    have htotal := kept.total
    have hlt := n.toNat_lt
    obtain ⟨w', hw', stores'⟩ := kept.stores.release hpos (by omega)
    refine ⟨_, w', congrFun hsemas i |>.trans (update_self ..), hbrk ▸ kept.below,
      kept.words_concat hw', stores', ?_, ?_, ?_⟩
    · dsimp only
      omega
    · -- the first of those not served yet is served now
      dsimp only [noteRelease]
      rw [kept.sema?_eq, kept.queue, List.tail_drop]
      split
      · rfl
      next hempty =>
        have hnil : a.entered.drop a.served = [] := by simpa [kept.queue] using hempty
        rw [hnil, List.drop_eq_nil_of_le]
        exact Nat.le_succ_of_le (List.drop_eq_nil_iff.mp hnil)
    dsimp only [noteRelease]
    rw [kept.sema?_eq]
    split
    next hserves =>
      have hne : a.entered.drop a.served ≠ [] := by simpa [kept.queue] using hserves
      exact Nat.lt_of_not_le fun hle => hne (List.drop_eq_nil_of_le hle)
    · exact kept.served
  rw [if_neg fun hyes => hid (hlead.mp hyes)]
  rcases hcases with ⟨-, -, rfl⟩ | ⟨-, -, -, hbrk, -, -, p, hsemas⟩
  · exact ⟨sema, w, kept⟩
  refine ⟨sema, w, kept.other ?_ (Nat.le_of_eq hbrk.symm)⟩
  rw [hsemas, update_of_ne (Ne.symm hid)]

end

theorem Lawful.step {c : SemaphoreCall} (lawful : Lawful id n a) (h : a.step id c = .ok a') :
    Lawful id n a' := by
  obtain ⟨sema, w, kept⟩ := lawful
  have hbelow := Nat.ne_of_lt kept.below
  cases c with
  | create name initialCount room =>
    obtain ⟨⟨r, sys⟩, hcreate, h⟩ := of_bind h
    cases h
    obtain ⟨hsemas, hbrk, -⟩ := objCreateSemaphore_cases hcreate
    refine ⟨sema, w, kept.other ?_ (by omega)⟩
    rw [hsemas, update_of_ne hbelow]
  | openLink name =>
    cases h
    rcases objOpenSemaphore_cases a.sys name with heq | ⟨other, heq⟩
    · rw [heq]
      exact ⟨sema, w, kept⟩
    rw [heq]
    refine ⟨sema, w, kept.other ?_ (Nat.le_succ _)⟩
    exact update_of_ne hbelow _ _
  | get thread semaphore =>
    match thread, semaphore with
    | some t, some o =>
      obtain ⟨⟨r, sys⟩, hget, h⟩ := of_bind h
      obtain ⟨sema', w', kept'⟩ := kept.get hget
      refine ⟨sema', w', ?_⟩
      dsimp only at h
      split at h
      next hyes =>
        cases h
        rwa [if_pos hyes] at kept'
      next hno =>
        cases h
        rwa [if_neg hno] at kept'
    | none, _ | some _, none =>
      cases h
      exact ⟨sema, w, kept⟩
  | release thread semaphore =>
    cases semaphore with
    | some o =>
      obtain ⟨⟨r, sys⟩, hrelease, h⟩ := of_bind h
      obtain ⟨sema', w', kept'⟩ := kept.release hrelease
      refine ⟨sema', w', ?_⟩
      dsimp only at h
      split at h
      next hyes =>
        cases h
        rwa [if_pos hyes] at kept'
      next hno =>
        cases h
        rwa [if_neg hno] at kept'
    | none =>
      cases h
      exact ⟨sema, w, kept⟩

end Account

/-! ## The accounts, along every run -/

/-- From the creation of a semaphore on, whatever calls are made: its counters, which are
words that never wrap, add up to the units it was created with; a release is refused exactly
when no unit is allocated, and then changes nothing; and the queue consists of the threads
that have entered it, in that order, without those served by a release. -/
theorem accounting_of_run {k : SemaSys} {name : Name} {n : UInt32} {room : Bool} {r₀ : ReturnT}
    {sys : SemaSys} {calls : List SemaphoreCall} {a : Account}
    (create : objCreateSemaphore k name n.toNat room = .ok (r₀, sys))
    (run : Run (Account.step k.semaBrk) (fun _ _ => True) (Account.start sys) calls a) :
    ∃ sema w, a.sys.semas k.semaBrk = some (.owner sema) ∧
      a.events.foldlM SemaWords.step (.create n) = .ok w ∧
      w.Stores sema.semCount sema.semAlloc sema.listeners ∧
      sema.semCount + sema.semAlloc = n.toNat ∧
      sema.listeners = a.entered.drop a.served ∧
      ∀ thread o r after, a.sys.leadsTo o k.semaBrk = true →
        objReleaseSemaphore a.sys thread (some o) = .ok (r, after) →
        (r = .semaphoreEmpty ↔ sema.semAlloc = 0) ∧ (r = .semaphoreEmpty → after = a.sys) ∧
          (r ≠ .semaphoreEmpty → r = .noError ∧ ∃ sema',
            after.semas k.semaBrk = some (.owner sema') ∧
              sema'.listeners = a.entered.drop (a.served + 1)) := by
  have lawful : Account.Lawful k.semaBrk n a :=
    run.invariant ⟨_, _, Account.kept_start create⟩ fun _ _ _ lawful _ hstep => lawful.step hstep
  obtain ⟨sema, w, kept⟩ := lawful
  refine ⟨sema, w, kept.stored, kept.words, kept.stores, kept.total, kept.queue, ?_⟩
  intro thread o r after lead release
  obtain ⟨i, s, hres, hcases⟩ := objReleaseSemaphore_cases release
  obtain rfl := (leadsTo_iff k.semaBrk hres).mp lead
  obtain rfl : s = sema := by simpa [kept.stored] using (semas_of_resolve hres).symm
  rcases hcases with ⟨hzero, rfl, rfl⟩ | ⟨hpos, rfl, -, -, -, -, p, hsemas⟩
  · simp [hzero]
  · have stored := congrFun hsemas k.semaBrk
    rw [update_self] at stored
    refine ⟨by simp [Nat.ne_of_gt hpos], by simp, fun _ => ⟨rfl, _, stored, ?_⟩⟩
    rw [← List.tail_drop, ← kept.queue]

def bootSemaSys : Exec SemaSys := do
  let sys ← ThreadSys.boot (fun t => if t = 0 then 0 else 1) [1, 2, 3]
  return ⟨sys, registryCreate, fun _ => none, 0⟩

/-- A semaphore of one unit: thread 1 takes it, threads 2 and 3 are queued through a link, and
thread 1 releases. Thread 2 has been served; thread 3 is still queued. -/
theorem accounting_of_run_link : ∃ sys r₀ sys' a,
    objCreateSemaphore sys [7] (1 : UInt32).toNat true = .ok (r₀, sys') ∧
    Run (Account.step sys.semaBrk) (fun _ _ => True) (Account.start sys')
      [.openLink [7], .get (some 1) (some 0), .get (some 2) (some 1), .get (some 3) (some 1),
        .release (some 1) (some 0)] a ∧
    a.entered = [2, 3] ∧ a.served = 1 ∧
    ∃ sema, a.sys.semas sys.semaBrk = some (.owner sema) ∧
      sema.semCount + sema.semAlloc = 1 ∧ sema.listeners = [3] := by
  have hrun : (bootSemaSys.toOption.any fun sys =>
      (objCreateSemaphore sys [7] (1 : UInt32).toNat true).toOption.any fun (_, sys') =>
        (replay (Account.step sys.semaBrk) (fun _ _ => True) (Account.start sys')
          [.openLink [7], .get (some 1) (some 0), .get (some 2) (some 1), .get (some 3) (some 1),
            .release (some 1) (some 0)]).any
        fun a => a.entered = [2, 3] ∧ a.served = 1) = true := by
    decide +kernel
  obtain ⟨sys, -, hrun⟩ := exists_of_any hrun
  obtain ⟨⟨r₀, sys'⟩, create, hrun⟩ := exists_of_any hrun
  obtain ⟨a, run, hlast⟩ := exists_run_of_replay _ _ _ _ _ hrun
  obtain ⟨hentered, hserved⟩ := of_decide_eq_true hlast
  refine ⟨sys, r₀, sys', a, create, run, hentered, hserved, ?_⟩
  obtain ⟨sema, -, stored, -, -, total, queue, -⟩ := accounting_of_run create run
  exact ⟨sema, stored, total, by rw [queue, hentered, hserved]; rfl⟩

end Tinker
