import Mathlib.Data.Finset.Card
import Tinker.Lib.Run
import Tinker.Objects.Semaphore

/-!
# Who holds a semaphore

A semaphore created with a count `n` is meant to have at most `n` holders, and a release to hand it
over to the thread that has waited longest. Neither is so. A release returns its unit to the count
*and* wakes a listener, which then holds the semaphore without having taken a unit. So a third
thread can take the unit that was returned; and when the woken thread releases in turn, the release
may be refused, which leaves the next listener blocked for ever.
-/

namespace Tinker

open Tinker.Lib Function Exec SemaSys

/-- The kernel, with a record of what has happened to one semaphore. -/
structure Holding where
  sys : SemaSys
  /-- The threads that got the semaphore, or were woken by a release of it, and have not
  released it since. -/
  holders : Finset ℕ
  /-- The threads that are blocked on it, the longest-blocked one first. -/
  blocked : List ℕ
  /-- How often a release has woken a listener. -/
  wakeUps : ℕ
  /-- How often a holder's release has been refused. -/
  refused : ℕ

open Holding

namespace Holding

def woken (before after : SemaSys) (id : ℕ) : Option ℕ :=
  match before.sema? id with
  | some sema => sema.listeners.head?.filter fun u =>
      (before.threads u).state = .waiting ∧ (after.threads u).state = .ready
  | none => none

def step (id : ℕ) (h : Holding) : SemaCall → Exec Holding
  | .get t o => do
    let (r, sys) ← objGetSemaphore h.sys (some t) (some o)
    -- a caller that the call has blocked does not hold the semaphore yet
    let got := h.sys.leadsTo o id ∧ r = .noError ∧ (sys.threads t).state ≠ .waiting
    let queue := if h.sys.leadsTo o id then h.blocked ++ [t] else h.blocked
    return { h with
      sys := sys
      holders := if got then insert t h.holders else h.holders
      blocked := queue.filter (BlockedOn sys.threads id) }
  | .release t o => do
    let (r, sys) ← objReleaseSemaphore h.sys (some t) (some o)
    let blocked := h.blocked.filter (BlockedOn sys.threads id)
    if h.sys.leadsTo o id then
      let woken := woken h.sys sys id
      return { h with
        sys := sys
        holders := h.holders.erase t ∪ woken.toFinset
        blocked := blocked
        wakeUps := h.wakeUps + woken.toFinset.card
        refused := if r = .noError then h.refused else h.refused + 1 }
    else
      return { h with sys := sys, blocked := blocked }

/-- The calls that can be made: the caller runs, and only holders release the semaphore. -/
def Admitted (id : ℕ) (h : Holding) : SemaCall → Prop
  | .get t _ => (h.sys.threads t).state.Runnable
  | .release t o => (h.sys.threads t).state.Runnable ∧ (h.sys.leadsTo o id → t ∈ h.holders)

instance (id : ℕ) (h : Holding) (c : SemaCall) : Decidable (h.Admitted id c) := by
  unfold Admitted
  split <;> infer_instance

structure Fresh (id n : ℕ) (h : Holding) : Prop where
  created : ∃ name, h.sys.semas id = some (.owner (semaNew name n))
  holders : h.holders = ∅
  blocked : h.blocked = []
  wakeUps : h.wakeUps = 0
  refused : h.refused = 0

/-! ## What a call does to the semaphore -/

variable {id n t o : ℕ} {h h' : Holding} {sema : Sema} {calls : List SemaCall}

/-- A get of the semaphore takes a unit if there is one. Otherwise, and on any other
semaphore, it leaves counts and holders as they are. -/
theorem step_get_cases (run : h.step id (.get t o) = .ok h')
    (runs : (h.sys.threads t).state.Runnable) (hs : h.sys.semas id = some (.owner sema)) :
    ∃ sema', h'.sys.semas id = some (.owner sema') ∧ h'.wakeUps = h.wakeUps ∧
      h'.refused = h.refused ∧
      ((sema'.semCount = sema.semCount ∧ sema'.semAlloc = sema.semAlloc ∧
          h'.holders = h.holders) ∨
        (h.sys.leadsTo o id = true ∧ 0 < sema.semCount ∧ sema'.semCount = sema.semCount - 1 ∧
          sema'.semAlloc = sema.semAlloc + 1 ∧ h'.holders ⊆ insert t h.holders)) := by
  obtain ⟨⟨r, sys⟩, hget, run⟩ := of_bind run
  cases run
  rcases objGetSemaphore_cases hget with ⟨rfl, rfl, -⟩ | ⟨i, s, p, hres, rfl, -, -, -, -, hcases⟩
  · exact ⟨sema, hs, rfl, rfl, .inl ⟨rfl, rfl, by simp⟩⟩
  have hlead := leadsTo_iff id hres
  have hi := semas_of_resolve hres
  by_cases hid : i = id
  · subst hid
    obtain rfl : s = sema := by simpa [hs] using hi.symm
    rcases hcases with ⟨-, hsame, hsemas⟩ | ⟨hpos, -, hsemas⟩
    · -- the caller is blocked, so it does not hold the semaphore
      have hnew := congrFun hsemas i
      rw [update_self] at hnew
      have hrun : (wake h.sys.threads (s.lendsTo h.sys.toThreadSys t) t).state.CanBlock := by
        rw [wake_of_runnable runs]
        exact runs.canBlock
      have hwait : (sys.threads t).state = .waiting := by rw [(hsame t).1, block_self hrun]
      exact ⟨_, hnew, rfl, rfl, .inl ⟨rfl, rfl, by simp [hwait]⟩⟩
    have hnew := congrFun hsemas i
    rw [update_self] at hnew
    refine ⟨_, hnew, rfl, rfl, .inr ⟨hlead.mpr rfl, hpos, rfl, rfl, ?_⟩⟩
    split
    · exact subset_rfl
    · exact Finset.subset_insert _ _
  -- the call is about another semaphore
  have hsema : sys.semas id = some (.owner sema) := by
    rcases hcases with ⟨-, -, hsemas⟩ | ⟨-, -, hsemas⟩ <;>
      rw [hsemas, update_of_ne (Ne.symm hid), hs]
  exact ⟨sema, hsema, rfl, rfl, .inl ⟨rfl, rfl, by simp [hlead, hid]⟩⟩

/-- A release of the semaphore is refused when no unit is allocated. Otherwise it returns a
unit, and a listener that it wakes becomes a holder. -/
theorem step_release_cases (run : h.step id (.release t o) = .ok h')
    (hs : h.sys.semas id = some (.owner sema)) :
    ∃ sema', h'.sys.semas id = some (.owner sema') ∧
      ((h.sys.leadsTo o id = false ∧ sema' = sema ∧ h'.holders = h.holders ∧
          h'.wakeUps = h.wakeUps ∧ h'.refused = h.refused) ∨
        (h.sys.leadsTo o id = true ∧ sema' = sema ∧ h'.holders = h.holders.erase t ∧
          h'.wakeUps = h.wakeUps ∧ h'.refused = h.refused + 1) ∨
        (h.sys.leadsTo o id = true ∧ 0 < sema.semAlloc ∧ sema'.semCount = sema.semCount + 1 ∧
          sema'.semAlloc = sema.semAlloc - 1 ∧ h'.refused = h.refused ∧
          ∃ w : Finset ℕ, w.card ≤ 1 ∧ h'.holders = h.holders.erase t ∪ w ∧
            h'.wakeUps = h.wakeUps + w.card)) := by
  obtain ⟨⟨r, sys⟩, hrel, run⟩ := of_bind run
  obtain ⟨i, s, hres, hcases⟩ := objReleaseSemaphore_cases hrel
  have hlead := leadsTo_iff id hres
  have hi := semas_of_resolve hres
  by_cases hid : i = id
  · subst hid
    obtain rfl : s = sema := by simpa [hs] using hi.symm
    simp only [hlead.mpr rfl, if_true] at run
    cases run
    rcases hcases with ⟨-, rfl, rfl⟩ | ⟨hpos, rfl, -, -, -, -, p, hsemas⟩
    · -- nothing has changed, so no listener has been woken
      have hnone : woken h.sys h.sys i = none := by
        simp only [woken, SemaSys.sema?, hs, Option.filter_eq_none_iff]
        rintro u - hboth
        obtain ⟨hwaiting, hready⟩ := of_decide_eq_true hboth
        simp [hwaiting] at hready
      refine ⟨s, hs, .inr (.inl ⟨hlead.mpr rfl, rfl, ?_⟩)⟩
      simp [hnone]
    have hnew := congrFun hsemas i
    rw [update_self] at hnew
    refine ⟨_, hnew, .inr (.inr ⟨hlead.mpr rfl, hpos, rfl, rfl, by simp, ?_⟩)⟩
    refine ⟨(woken h.sys sys i).toFinset, ?_, rfl, rfl⟩
    cases woken h.sys sys i <;> simp
  have hfalse : h.sys.leadsTo o id = false := by simp [← Bool.not_eq_true, hlead, hid]
  simp only [hfalse] at run
  cases run
  have hsema : sys.semas id = some (.owner sema) := by
    rcases hcases with ⟨-, -, rfl⟩ | ⟨-, -, -, -, -, -, p, hsemas⟩
    · exact hs
    · rw [hsemas, update_of_ne (Ne.symm hid), hs]
  exact ⟨sema, hsema, .inl ⟨hfalse, rfl, rfl, rfl, rfl⟩⟩

/-! ## Mutual exclusion -/

/-- A get that finds a unit finds one that has not been handed over already: the listeners
woken so far are fewer than the units left and the releases refused. -/
def GetOk (id : ℕ) (h : Holding) : SemaCall → Prop
  | .get _ o => h.sys.leadsTo o id → ∀ sema ∈ h.sys.sema? id, 0 < sema.semCount →
      h.wakeUps < sema.semCount + h.refused
  | .release _ _ => True

instance (id : ℕ) (h : Holding) (c : SemaCall) : Decidable (h.GetOk id c) := by
  unfold GetOk
  split <;> infer_instance

/-- The accounts of the semaphore: each unit is free or allocated, and a holder has an
allocated unit or was woken without one. -/
def Accounts (id n : ℕ) (h : Holding) : Prop :=
  ∃ sema, h.sys.semas id = some (.owner sema) ∧ sema.semCount + sema.semAlloc = n ∧
    h.holders.card + h.refused ≤ sema.semAlloc + h.wakeUps ∧
    h.wakeUps ≤ sema.semCount + h.refused

theorem accounts_of_fresh (fresh : Fresh id n h) : Accounts id n h := by
  obtain ⟨name, hs⟩ := fresh.created
  refine ⟨semaNew name n, hs, rfl, ?_, ?_⟩
  · simp [fresh.holders, fresh.refused]
  · simp [fresh.wakeUps]

theorem Accounts.step {c : SemaCall} (inv : Accounts id n h) (admitted : h.Admitted id c)
    (ok : h.GetOk id c) (run : h.step id c = .ok h') : Accounts id n h' := by
  obtain ⟨sema, hs, htotal, hholders, hwake⟩ := inv
  cases c with
  | get t o =>
    obtain ⟨sema', hs', hw, hr, hsame | htake⟩ := step_get_cases run admitted hs
    · obtain ⟨hcount, halloc, hhold⟩ := hsame
      exact ⟨sema', hs', by omega, by rw [hhold]; omega, by omega⟩
    obtain ⟨hlead, hpos, hcount, halloc, hsub⟩ := htake
    have hfree := ok hlead sema (by simp [SemaSys.sema?, hs]) hpos
    have hcard : h'.holders.card ≤ h.holders.card + 1 :=
      (Finset.card_le_card hsub).trans (Finset.card_insert_le _ _)
    exact ⟨sema', hs', by omega, by omega, by omega⟩
  | release t o =>
    obtain ⟨sema', hs', hother | hrefused | hgiven⟩ := step_release_cases run hs
    · obtain ⟨-, rfl, hhold, hw, hr⟩ := hother
      exact ⟨_, hs', htotal, by rw [hhold]; omega, by omega⟩
    · obtain ⟨hlead, rfl, hhold, hw, hr⟩ := hrefused
      have hmem := admitted.2 hlead
      have hcard := Finset.card_erase_add_one hmem
      exact ⟨_, hs', htotal, by rw [hhold]; omega, by omega⟩
    obtain ⟨hlead, hpos, hcount, halloc, hr, w, hone, hhold, hw⟩ := hgiven
    have hmem := admitted.2 hlead
    have hcard := Finset.card_erase_add_one hmem
    have hunion : h'.holders.card ≤ (h.holders.erase t).card + w.card := by
      rw [hhold]
      exact Finset.card_union_le _ _
    exact ⟨sema', hs', by omega, by omega, by omega⟩

/-! ## Handing over -/

/-- The release has been accepted and the longest-blocked thread is ready. -/
def HandsOver (h : Holding) (r : ReturnT) (after : SemaSys) : Prop :=
  r = .noError ∧ ∀ u ∈ h.blocked.head?, (after.threads u).state = .ready

/-- A unit is allocated, and if threads are blocked on the semaphore, the one that is
blocked longest is at the front of the queue. -/
def HandOverOk (id : ℕ) (h : Holding) : Prop :=
  ∀ sema ∈ h.sys.sema? id, 0 < sema.semAlloc ∧
    ∀ u ∈ h.blocked.head?, sema.listeners.head? = some u

deriving instance Decidable for HandsOver

deriving instance Decidable for HandOverOk

/-- The semaphore is there, and those noted as blocked on it are. -/
def Watched (id : ℕ) (h : Holding) : Prop :=
  (∃ sema, h.sys.semas id = some (.owner sema)) ∧ ∀ t ∈ h.blocked, BlockedOn h.sys.threads id t

theorem watched_of_fresh (fresh : Fresh id n h) : Watched id h := by
  obtain ⟨name, hs⟩ := fresh.created
  exact ⟨⟨_, hs⟩, by simp [fresh.blocked]⟩

theorem blocked_of_step {c : SemaCall} (run : h.step id c = .ok h') (mem : t ∈ h'.blocked) :
    BlockedOn h'.sys.threads id t := by
  cases c with
  | get u o =>
    obtain ⟨⟨r, sys⟩, -, run⟩ := of_bind run
    cases run
    exact of_decide_eq_true (List.mem_filter.mp mem).2
  | release u o =>
    obtain ⟨⟨r, sys⟩, -, run⟩ := of_bind run
    dsimp only at run
    split at run <;>
    · cases run
      exact of_decide_eq_true (List.mem_filter.mp mem).2

theorem Watched.step {c : SemaCall} (inv : Watched id h) (admitted : h.Admitted id c)
    (run : h.step id c = .ok h') : Watched id h' := by
  obtain ⟨⟨sema, hs⟩, -⟩ := inv
  refine ⟨?_, fun t mem => blocked_of_step run mem⟩
  cases c with
  | get t o =>
    obtain ⟨sema', hs', -⟩ := step_get_cases run admitted hs
    exact ⟨sema', hs'⟩
  | release t o =>
    obtain ⟨sema', hs', -⟩ := step_release_cases run hs
    exact ⟨sema', hs'⟩

theorem Watched.handsOver_iff {r : ReturnT} {after : SemaSys} (inv : Watched id h)
    (lead : h.sys.leadsTo o id = true)
    (release : objReleaseSemaphore h.sys (some t) (some o) = .ok (r, after)) :
    h.HandsOver r after ↔ h.HandOverOk id := by
  obtain ⟨⟨sema, hs⟩, hblocked⟩ := inv
  obtain ⟨i, s, hres, hcases⟩ := objReleaseSemaphore_cases release
  obtain rfl := (leadsTo_iff id hres).mp lead
  obtain rfl : s = sema := by simpa [hs] using (semas_of_resolve hres).symm
  have hsema : h.sys.sema? i = some s := by simp [SemaSys.sema?, hs]
  rcases hcases with ⟨hzero, rfl, rfl⟩ | ⟨hpos, rfl, -, -, hsame, -⟩
  · simp [HandsOver, HandOverOk, hsema, hzero]
  simp only [HandsOver, HandOverOk, hsema, hpos, true_and, Option.mem_some_iff, forall_eq']
  -- a blocked thread gets ready exactly if it is the one that is woken
  refine forall₂_congr fun u hu => ?_
  have hwait : (h.sys.threads u).state = .waiting := (hblocked u (List.mem_of_mem_head? hu)).1
  rw [(hsame u).1]
  constructor
  · intro hready
    by_contra hne
    rw [wake_of_ne hne, hwait] at hready
    cases hready
  intro hfront
  rw [hfront, wake_self_of_waiting hwait]

end Holding

/-! ## The two laws, along every run -/

/-- A kernel with three threads of one priority and a semaphore of `n` units. -/
def Holding.boot (n : ℕ) : Exec Holding := do
  let sys ← ThreadSys.boot (fun t => if t = 0 then 0 else 1) [1, 2, 3]
  let semas := update (fun _ => none) 0 (some (.owner (semaNew [] n)))
  return ⟨⟨sys, registryCreate, semas, 1⟩, ∅, [], 0, 0⟩

theorem Holding.fresh_of_boot {n : ℕ} {h : Holding} (start : boot n = .ok h) :
    Fresh 0 n h := by
  cases start
  exact ⟨⟨[], by simp⟩, rfl, rfl, rfl, rfl⟩

/-- In every run in which each get meets `GetOk`, a semaphore created with `n` units never
has more than `n` holders. -/
theorem holders_le_of_run {id n : ℕ} {h h' : Holding} {calls : List SemaCall}
    (fresh : Holding.Fresh id n h)
    (run : Run (Holding.step id) (fun h c => h.Admitted id c ∧ h.GetOk id c) h calls h') :
    h'.holders.card ≤ n := by
  have inv : Holding.Accounts id n h' :=
    run.invariant (Holding.accounts_of_fresh fresh) fun _ _ _ inv ok hstep =>
      inv.step ok.1 ok.2 hstep
  obtain ⟨sema, -, htotal, hholders, hwake⟩ := inv
  omega

/-- Two threads go through the semaphore of one unit one after the other, so that no listener
is woken; the third one gets it from the second. -/
theorem holders_le_of_run_passed_on : ∃ h h', Holding.Fresh 0 1 h ∧
    Run (Holding.step 0) (fun h c => h.Admitted 0 c ∧ h.GetOk 0 c) h
      [.get 1 0, .release 1 0, .get 2 0, .get 3 0, .release 2 0] h' ∧
    h'.holders = {3} ∧ h'.holders.card ≤ 1 := by
  obtain ⟨h, h', start, run, hholders⟩ := exists_run_from (Holding.boot 1) (Holding.step 0)
    (fun h c => h.Admitted 0 c ∧ h.GetOk 0 c)
    [.get 1 0, .release 1 0, .get 2 0, .get 3 0, .release 2 0]
    (fun h => h.holders = {3}) (by decide +kernel)
  have fresh := Holding.fresh_of_boot start
  exact ⟨h, h', fresh, run, of_decide_eq_true hholders, holders_le_of_run fresh run⟩

/-- Thread 1 releases to thread 2, which was blocked. The unit is back in the count as well,
and thread 3 takes it: two threads hold a semaphore of one unit. -/
theorem not_mutualExclusion : ∃ h calls h', Holding.Fresh 0 1 h ∧
    Run (Holding.step 0) (fun h c => h.Admitted 0 c) h calls h' ∧ ¬ h'.holders.card ≤ 1 := by
  obtain ⟨h, h', start, run, hholders⟩ := exists_run_from (Holding.boot 1) (Holding.step 0)
    (fun h c => h.Admitted 0 c) [.get 1 0, .get 2 0, .release 1 0, .get 3 0]
    (fun h => h.holders = {2, 3}) (by decide +kernel)
  refine ⟨h, _, h', Holding.fresh_of_boot start, run, ?_⟩
  rw [of_decide_eq_true hholders]
  decide

/-- In every state that is reached, a release of the semaphore hands over exactly when
`HandOverOk` holds. -/
theorem handsOver_iff_of_run {id n t o : ℕ} {h h' : Holding} {calls : List SemaCall}
    {r : ReturnT} {after : SemaSys} (fresh : Holding.Fresh id n h)
    (run : Run (Holding.step id) (fun h c => h.Admitted id c) h calls h')
    (lead : h'.sys.leadsTo o id = true)
    (release : objReleaseSemaphore h'.sys (some t) (some o) = .ok (r, after)) :
    h'.HandsOver r after ↔ h'.HandOverOk id := by
  have inv : Holding.Watched id h' :=
    run.invariant (Holding.watched_of_fresh fresh) fun _ _ _ inv ok hstep => inv.step ok hstep
  exact inv.handsOver_iff lead release

def Holding.releaseIs (h : Holding) (t o : ℕ) (p : ReturnT → SemaSys → Bool) : Bool :=
  match objReleaseSemaphore h.sys (some t) (some o) with
  | .ok (r, after) => p r after
  | .error _ => false

theorem Holding.exists_of_releaseIs {h : Holding} {t o : ℕ} {p : ReturnT → SemaSys → Bool}
    (is : h.releaseIs t o p = true) :
    ∃ r after, objReleaseSemaphore h.sys (some t) (some o) = .ok (r, after) ∧ p r after = true := by
  unfold releaseIs at is
  split at is
  next r after release => exact ⟨r, after, release, is⟩
  · cases is

/-- The first hand-over: threads 2 and 3 are blocked, and thread 1 releases. -/
theorem handsOver_iff_of_run_first : ∃ h h' r after, Holding.Fresh 0 1 h ∧
    Run (Holding.step 0) (fun h c => h.Admitted 0 c) h [.get 1 0, .get 2 0, .get 3 0] h' ∧
    h'.blocked = [2, 3] ∧ objReleaseSemaphore h'.sys (some 1) (some 0) = .ok (r, after) ∧
    h'.HandsOver r after := by
  obtain ⟨h, h', start, run, hlast⟩ := exists_run_from (Holding.boot 1) (Holding.step 0)
    (fun h c => h.Admitted 0 c) [.get 1 0, .get 2 0, .get 3 0]
    (fun h => (h.blocked = [2, 3] ∧ h.sys.leadsTo 0 0 ∧ h.HandOverOk 0) ∧
      h.releaseIs 1 0 fun _ _ => true) (by decide +kernel)
  obtain ⟨⟨hblocked, hlead, hok⟩, his⟩ := of_decide_eq_true hlast
  obtain ⟨r, after, release, -⟩ := Holding.exists_of_releaseIs his
  have fresh := Holding.fresh_of_boot start
  exact ⟨h, h', r, after, fresh, run, hblocked, release,
    (handsOver_iff_of_run fresh run hlead release).mpr hok⟩

/-- Thread 1 releases to thread 2. When thread 2 releases in turn, no unit is allocated: it
is refused, and thread 3 stays blocked. -/
theorem not_handsOver : ∃ h calls h' r after, Holding.Fresh 0 1 h ∧
    Run (Holding.step 0) (fun h c => h.Admitted 0 c) h calls h' ∧
    h'.Admitted 0 (.release 2 0) ∧ h'.sys.leadsTo 0 0 = true ∧
    objReleaseSemaphore h'.sys (some 2) (some 0) = .ok (r, after) ∧ ¬ h'.HandsOver r after := by
  obtain ⟨h, h', start, run, hlast⟩ := exists_run_from (Holding.boot 1) (Holding.step 0)
    (fun h c => h.Admitted 0 c) [.get 1 0, .get 2 0, .get 3 0, .release 1 0]
    (fun h => (h.Admitted 0 (.release 2 0) ∧ h.sys.leadsTo 0 0) ∧
      h.releaseIs 2 0 fun r _ => r = .semaphoreEmpty) (by decide +kernel)
  obtain ⟨⟨hadmitted, hlead⟩, his⟩ := of_decide_eq_true hlast
  obtain ⟨r, after, release, hr⟩ := Holding.exists_of_releaseIs his
  refine ⟨h, _, h', r, after, Holding.fresh_of_boot start, run, hadmitted, hlead, release, ?_⟩
  rintro ⟨hok, -⟩
  rw [of_decide_eq_true hr] at hok
  cases hok

end Tinker
