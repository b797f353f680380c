import Tinker.Lib.Run
import Tinker.Objects.Semaphore

/-!
# The owners of a semaphore

The queue of owners of a semaphore decides who is lent a priority, so it should list each thread as
often as it holds a unit. It goes wrong in four ways. A get that finds no unit left and does not
lend its priority notes the caller as an owner, although it blocks. A release notes the first
listener as an owner even if that thread has long been woken by something else. A release by a
holder that is refused, because the unit it was handed is not counted, leaves it in the queue. And
so does the exit of a thread.
-/

namespace Tinker

open Tinker.Lib Function Exec SemaSys ThreadState

/-! ## Who holds what -/

/-- The kernel, with a record of how many units of the semaphore at `id` the thread `t`
holds: the units it got, or was handed by a release that woke it, until it calls for their
release. -/
structure Holdings where
  sys : SemaSys
  held : ℕ → ℕ → ℕ

open Holdings

namespace Holdings

/-- One more unit of the semaphore at `id` for the thread, if there is one. -/
def gain (held : ℕ → ℕ → ℕ) (id : ℕ) : Option ℕ → ℕ → ℕ → ℕ
  | some t => update held id (update (held id) t (held id t + 1))
  | none => held

/-- One unit of the semaphore at `id` less for the thread. -/
def give (held : ℕ → ℕ → ℕ) (id t : ℕ) : ℕ → ℕ → ℕ :=
  update held id (update (held id) t (held id t - 1))

/-- The first listener, if it is blocked, so that a release wakes it. -/
def handedTo (k : SemaSys) (sema : Sema) : Option ℕ :=
  sema.listeners.head?.filter fun u => (k.threads u).state = .waiting

def heldAfterGet (h : Holdings) (t o : ℕ) (r : ReturnT) : ℕ → ℕ → ℕ :=
  match h.sys.resolve o with
  | .ok (id, sema) => if r = .noError ∧ 0 < sema.semCount then gain h.held id (some t) else h.held
  | .error _ => h.held

/-- The record after a release by `t`, which holds a unit less even if the release is refused; only
a release that succeeds hands one on. -/
def heldAfterRelease (h : Holdings) (t o : ℕ) (r : ReturnT) : ℕ → ℕ → ℕ :=
  match h.sys.resolve o with
  | .ok (id, sema) =>
    gain (give h.held id t) id (if r = .noError then handedTo h.sys sema else none)
  | .error _ => h.held

def step (h : Holdings) : SemaCall → Exec Holdings
  | .get t o => do
    let (r, sys) ← objGetSemaphore h.sys (some t) (some o)
    return ⟨sys, h.heldAfterGet t o r⟩
  | .release t o => do
    let (r, sys) ← objReleaseSemaphore h.sys (some t) (some o)
    return ⟨sys, h.heldAfterRelease t o r⟩

variable {held : ℕ → ℕ → ℕ} {id i t u : ℕ} {o : Option ℕ}

theorem gain_of_ne (h : i ≠ id) : gain held id o i = held i := by
  cases o with
  | none => rfl
  | some t => simp [gain, h]

theorem give_of_ne (h : i ≠ id) : give held id t i = held i := by
  simp [give, h]

theorem gain_self : gain held id o id u = held id u + if o = some u then 1 else 0 := by
  cases o with
  | none => rfl
  | some t =>
    by_cases h : u = t
    · subst h
      simp [gain]
    · simp [gain, h, Ne.symm h]

theorem give_self : give held id t id u = held id u - if t = u then 1 else 0 := by
  by_cases h : u = t
  · subst h
    simp [give]
  · simp [give, h, Ne.symm h]

end Holdings

/-! ## Threads that are alive -/

/-- The thread has been created and has not exited. -/
def ThreadState.Alive (st : ThreadState) : Prop := st ≠ .notCreated ∧ st ≠ .terminated

deriving instance Decidable for Alive

def SameFate (threads threads' : Threads) : Prop :=
  ∀ u, (threads' u).state.Alive ↔ (threads u).state.Alive

section Fate

variable {threads threads' threads'' : Threads} {t : ℕ} {o : Option ℕ} {w : Option ObjRef}

theorem SameStatus.sameFate (h : SameStatus threads threads') : SameFate threads threads' :=
  fun u => by rw [(h u).1]

theorem SameFate.trans (h : SameFate threads threads') (h' : SameFate threads' threads'') :
    SameFate threads threads'' :=
  fun u => (h' u).trans (h u)

theorem ThreadState.CanBlock.alive {st : ThreadState} (h : st.CanBlock) : st.Alive := by
  rcases h with rfl | rfl | rfl | rfl | rfl | rfl <;> decide

theorem sameFate_wake (threads : Threads) (o : Option ℕ) : SameFate threads (wake threads o) := by
  intro u
  by_cases hu : o = some u
  · subst hu
    by_cases hw : (threads u).state = .waiting
    · rw [wake_self_of_waiting hw, hw]
      exact iff_of_true (show ready.Alive by decide) (by decide)
    · rw [wake_of_ne_waiting hw]
  · rw [wake_of_ne hu]

theorem sameFate_block (threads : Threads) (t : ℕ) (w : Option ObjRef) :
    SameFate threads (block threads t w) := by
  intro u
  by_cases hu : u = t
  · subst hu
    by_cases hb : (threads u).state.CanBlock
    · rw [block_self hb]
      exact iff_of_true (show waiting.Alive by decide) hb.alive
    · simp [block, hb]
  · rw [block_of_ne hu]

end Fate

/-! ## The owners are the holders -/

/-- A get or a release by a thread, or its exit. -/
inductive OwnerCall
  | call (c : SemaCall)
  | exit (t : ℕ)

open OwnerCall

namespace OwnerCall

def step (h : Holdings) : OwnerCall → Exec Holdings
  | .call c => h.step c
  | .exit t => do
    let (_, sys) ← objExitThread h.sys.toThreadSys (some t)
    return { h with sys := { h.sys with toThreadSys := sys } }

/-- What keeps the owners of the semaphore at `id` right: a get that finds no unit left lends
its priority, a release that succeeds finds the first listener blocked, one that is refused is not
that of a holder, and a thread that exits is not an owner. -/
def OwnOk (id : ℕ) (h : Holdings) : OwnerCall → Prop
  | .call (.get t o) => h.sys.leadsTo o id → (h.sys.threads t).state.Alive →
      ∀ sema ∈ h.sys.sema? id, sema.semCount = 0 →
        objGetThreadPriorityEx h.sys.toThreadSys sema.owners.head? < (h.sys.threads t).priority
  | .call (.release t o) => h.sys.leadsTo o id → ∀ sema ∈ h.sys.sema? id,
      (0 < sema.semAlloc → ∀ u ∈ sema.listeners.head?, (h.sys.threads u).state = .waiting) ∧
        (sema.semAlloc = 0 → (h.sys.threads t).state.Alive → h.held id t = 0)
  | .exit t => ∀ sema ∈ h.sys.sema? id, t ∉ sema.owners

instance (id : ℕ) (h : Holdings) (c : OwnerCall) : Decidable (c.OwnOk id h) := by
  unfold OwnOk
  split <;> infer_instance

end OwnerCall

/-- The owners of the semaphore at `id` are its holders: a thread that is alive is listed as
often as it holds a unit, so not at all if it is merely blocked, and no other thread is
listed. -/
structure OwnersOk (id : ℕ) (h : Holdings) (sema : Sema) : Prop where
  stored : h.sys.semas id = some (.owner sema)
  count : ∀ t, (h.sys.threads t).state.Alive → sema.owners.count t = h.held id t
  dead : ∀ t, ¬ (h.sys.threads t).state.Alive → t ∉ sema.owners

def OwnersAreHolders (id : ℕ) (h : Holdings) : Prop := ∃ sema, OwnersOk id h sema

/-! ## What each call does to the owners -/

section Owners

variable {id o t u i : ℕ} {h h' : Holdings} {sema sema' : Sema} {r : ReturnT} {c : OwnerCall}

theorem Holdings.heldAfterGet_of_error (hr : r ≠ .noError) : h.heldAfterGet t o r = h.held := by
  unfold heldAfterGet
  split
  · exact if_neg fun hboth => hr hboth.1
  · rfl

theorem Holdings.heldAfterRelease_of_error (hres : h.sys.resolve o = .ok (i, sema))
    (hr : r ≠ .noError) : h.heldAfterRelease t o r = give h.held i t := by
  simp [heldAfterRelease, hres, hr, gain]

theorem Holdings.heldAfterGet_eq (hres : h.sys.resolve o = .ok (i, sema)) :
    h.heldAfterGet t o .noError =
      if 0 < sema.semCount then gain h.held i (some t) else h.held := by
  simp [heldAfterGet, hres]

theorem Holdings.heldAfterRelease_eq (hres : h.sys.resolve o = .ok (i, sema)) :
    h.heldAfterRelease t o .noError =
      gain (give h.held i t) i (handedTo h.sys sema) := by
  simp [heldAfterRelease, hres]

theorem OwnersOk.sema?_eq (ok : OwnersOk id h sema) : h.sys.sema? id = some sema := by
  simp [SemaSys.sema?, ok.stored]

theorem OwnersOk.congr (ok : OwnersOk id h sema) (stored : h'.sys.semas id = some (.owner sema'))
    (owners : sema'.owners = sema.owners) (held : h'.held id = h.held id)
    (fate : SameFate h.sys.threads h'.sys.threads) : OwnersOk id h' sema' :=
  ⟨stored, fun t alive => by rw [owners, held, ok.count t ((fate t).mp alive)],
    fun t dead => by
      rw [owners]
      exact ok.dead t fun alive => dead ((fate t).mpr alive)⟩

theorem ownersAreHolders_iff (stored : h.sys.semas id = some (.owner sema)) :
    OwnersAreHolders id h ↔
      (∀ t, (h.sys.threads t).state.Alive → sema.owners.count t = h.held id t) ∧
        ∀ t, ¬ (h.sys.threads t).state.Alive → t ∉ sema.owners := by
  constructor
  · rintro ⟨sema', ok⟩
    obtain rfl : sema' = sema := by simpa [stored] using ok.stored.symm
    exact ⟨ok.count, ok.dead⟩
  rintro ⟨count, dead⟩
  exact ⟨sema, stored, count, dead⟩

theorem OwnersOk.get_iff (ok : OwnersOk id h sema)
    (hstep : step h (.call (.get t o)) = .ok h') :
    OwnersAreHolders id h' ↔ (call (.get t o)).OwnOk id h := by
  obtain ⟨⟨r, sys⟩, hget, hstep⟩ := of_bind hstep
  cases hstep
  rcases objGetSemaphore_cases hget with ⟨rfl, rfl, hdead⟩ |
    ⟨i, s, p, hres, rfl, alive, -, -, -, hcases⟩
  · rw [heldAfterGet_of_error (by decide)]
    refine iff_of_true ⟨sema, ok⟩ fun _ alive => ?_
    rcases hdead with hdead | hdead
    · exact absurd hdead alive.1
    · exact absurd hdead alive.2
  have hlead := leadsTo_iff id hres
  have hi := semas_of_resolve hres
  rw [heldAfterGet_eq hres]
  by_cases hid : i = id
  · subst hid
    obtain rfl : s = sema := by simpa [ok.stored] using hi.symm
    simp only [OwnOk, hlead, ok.sema?_eq, Option.mem_some_iff, forall_eq']
    rcases hcases with ⟨hzero, hsame, hsemas⟩ | ⟨hpos, hsame, hsemas⟩
    · have stored := congrFun hsemas i
      rw [update_self] at stored
      have fate := ((sameFate_wake _ _).trans (sameFate_block _ t _)).trans hsame.sameFate
      have hheld : (if 0 < s.semCount then gain h.held i (some t) else h.held) = h.held :=
        if_neg (by omega)
      rw [hheld]
      by_cases hlend : objGetThreadPriorityEx h.sys.toThreadSys s.owners.head? <
          (h.sys.threads t).priority
      · have howners : s.ownersWith h.sys.toThreadSys t = s.owners := if_pos ⟨hzero, hlend⟩
        exact iff_of_true ⟨_, ok.congr stored howners rfl fate⟩ fun _ _ _ => hlend
      -- the caller blocks without a unit and is noted as an owner all the same
      have howners : s.ownersWith h.sys.toThreadSys t = s.owners ++ [t] :=
        if_neg fun hboth => hlend hboth.2
      refine iff_of_false ?_ fun hok => hlend (hok trivial alive hzero)
      rw [ownersAreHolders_iff stored]
      rintro ⟨count, -⟩
      have hnew := count t ((fate t).mpr alive)
      have hold := ok.count t alive
      rw [howners, List.count_append, List.count_singleton_self] at hnew
      dsimp only at hnew
      omega
    have stored := congrFun hsemas i
    rw [update_self] at stored
    refine iff_of_true ⟨_, stored, fun u ualive => ?_, fun u dead => ?_⟩ fun _ _ hzero => by omega
    · dsimp only
      rw [if_pos hpos, gain_self, List.count_append,
        ok.count u ((hsame.sameFate u).mp ualive), List.count_singleton]
      simp
    have hold := ok.dead u fun ualive => dead ((hsame.sameFate u).mpr ualive)
    have hne : u ≠ t := by
      rintro rfl
      exact dead ((hsame.sameFate u).mpr alive)
    simpa [hne] using hold
  refine iff_of_true ⟨sema, ok.congr ?_ rfl ?_ ?_⟩ fun hyes => absurd (hlead.mp hyes) hid
  · rcases hcases with ⟨-, -, hsemas⟩ | ⟨-, -, hsemas⟩ <;>
      exact (congrFun hsemas id).trans ((update_of_ne (Ne.symm hid) _ _).trans ok.stored)
  · dsimp only
    split
    · exact gain_of_ne (Ne.symm hid)
    · rfl
  rcases hcases with ⟨-, hsame, -⟩ | ⟨-, hsame, -⟩
  · exact ((sameFate_wake _ _).trans (sameFate_block _ t _)).trans hsame.sameFate
  · exact hsame.sameFate

theorem Holdings.handedTo_eq {k : SemaSys}
    (blocked : ∀ u ∈ sema.listeners.head?, (k.threads u).state = .waiting) :
    handedTo k sema = sema.listeners.head? := by
  cases hfront : sema.listeners.head? with
  | none => simp [handedTo, hfront]
  | some u => simp [handedTo, hfront, blocked u hfront]

theorem count_head?_toList (xs : List ℕ) (u : ℕ) :
    xs.head?.toList.count u = if xs.head? = some u then 1 else 0 := by
  cases xs with
  | nil => rfl
  | cons x xs => simp [List.count_singleton]

section

variable (ok : OwnersOk id h sema)
include ok

theorem OwnersOk.released {sys : SemaSys}
    (blocked : ∀ u ∈ sema.listeners.head?, (h.sys.threads u).state = .waiting)
    (stored : sys.semas id = some (.owner sema'))
    (owners : sema'.owners = sema.owners.erase t ++ sema.listeners.head?.toList)
    (fate : SameFate h.sys.threads sys.threads) :
    OwnersOk id ⟨sys, gain (give h.held id t) id
      (handedTo h.sys sema)⟩ sema' := by
  refine ⟨stored, fun u alive => ?_, fun u dead => ?_⟩
  · rw [owners, handedTo_eq blocked]
    dsimp only
    rw [gain_self, give_self, List.count_append, List.count_erase,
      ok.count u ((fate u).mp alive), count_head?_toList]
    simp
  have hdead : ¬ (h.sys.threads u).state.Alive := fun alive => dead ((fate u).mpr alive)
  rw [owners, List.mem_append, not_or]
  refine ⟨fun mem => ok.dead u hdead (List.mem_of_mem_erase mem), fun mem => hdead ?_⟩
  rw [blocked u (Option.mem_toList.mp mem)]
  decide

/-- A release that finds its first listener not blocked notes an owner without a unit. -/
theorem OwnersOk.not_released {sys : SemaSys} (front : sema.listeners.head? = some u)
    (running : (h.sys.threads u).state ≠ .waiting) (stored : sys.semas id = some (.owner sema'))
    (owners : sema'.owners = sema.owners.erase t ++ sema.listeners.head?.toList)
    (fate : SameFate h.sys.threads sys.threads) :
    ¬ OwnersAreHolders id ⟨sys, gain (give h.held id t) id
      (handedTo h.sys sema)⟩ := by
  have hnone : handedTo h.sys sema = none := by
    simp [handedTo, front, running]
  rw [ownersAreHolders_iff stored, hnone, owners, front]
  rintro ⟨count, dead⟩
  by_cases alive : (h.sys.threads u).state.Alive
  · have hnew := count u ((fate u).mpr alive)
    dsimp only at hnew
    rw [gain_self, give_self, List.count_append, List.count_erase, ok.count u alive] at hnew
    simp at hnew
  · exact dead u (fun yes => alive ((fate u).mp yes)) (by simp)

/-- A release that is refused leaves the owners as they are, and the caller with a unit less. -/
theorem OwnersOk.refused_iff :
    OwnersAreHolders id ⟨h.sys, give h.held id t⟩ ↔
      ((h.sys.threads t).state.Alive → h.held id t = 0) := by
  rw [ownersAreHolders_iff (h := ⟨h.sys, give h.held id t⟩) ok.stored]
  constructor
  · rintro ⟨count, -⟩ alive
    have hnew := count t alive
    have hold := ok.count t alive
    dsimp only at hnew
    rw [give_self, if_pos rfl] at hnew
    omega
  intro hnone
  refine ⟨fun u alive => ?_, ok.dead⟩
  dsimp only
  rw [give_self, ok.count u alive]
  split
  next heq =>
    subst heq
    have hzero := hnone alive
    omega
  · rfl

theorem OwnersOk.release_iff (hstep : step h (.call (.release t o)) = .ok h') :
    OwnersAreHolders id h' ↔ (call (.release t o)).OwnOk id h := by
  obtain ⟨⟨r, sys⟩, hrelease, hstep⟩ := of_bind hstep
  cases hstep
  obtain ⟨i, s, hres, hcases⟩ := objReleaseSemaphore_cases hrelease
  have hlead := leadsTo_iff id hres
  have hi := semas_of_resolve hres
  rcases hcases with ⟨hzero, rfl, rfl⟩ | ⟨hpos, rfl, -, -, hsame, -, p, hsemas⟩
  · rw [heldAfterRelease_of_error hres (by decide)]
    by_cases hid : i = id
    · subst hid
      obtain rfl : s = sema := by simpa [ok.stored] using hi.symm
      simp only [OwnOk, hlead, ok.sema?_eq, Option.mem_some_iff, forall_eq', hzero,
        Nat.lt_irrefl, false_implies, true_and, forall_const]
      exact ok.refused_iff
    refine iff_of_true ⟨sema, ok.congr ok.stored rfl ?_ fun _ => Iff.rfl⟩
      fun hyes => absurd (hlead.mp hyes) hid
    exact give_of_ne (Ne.symm hid)
  rw [heldAfterRelease_eq hres]
  have fate := (sameFate_wake _ _).trans hsame.sameFate
  by_cases hid : i = id
  · subst hid
    obtain rfl : s = sema := by simpa [ok.stored] using hi.symm
    have stored := congrFun hsemas i
    rw [update_self] at stored
    simp only [OwnOk, hlead, ok.sema?_eq, Option.mem_some_iff, forall_eq', hpos, forall_const,
      hpos.ne', false_implies, and_true]
    constructor
    · intro hok u front
      by_contra running
      exact ok.not_released front running stored rfl fate hok
    intro blocked
    exact ⟨_, ok.released blocked stored rfl fate⟩
  refine iff_of_true ⟨sema, ok.congr ?_ rfl ?_ fate⟩ fun hyes => absurd (hlead.mp hyes) hid
  · exact (congrFun hsemas id).trans ((update_of_ne (Ne.symm hid) _ _).trans ok.stored)
  · exact (gain_of_ne (Ne.symm hid)).trans (give_of_ne (Ne.symm hid))

theorem OwnersOk.exit_iff (hstep : step h (.exit t) = .ok h') :
    OwnersAreHolders id h' ↔ (exit t).OwnOk id h := by
  obtain ⟨⟨r, sys⟩, hexit, hstep⟩ := of_bind hstep
  cases hstep
  simp only [OwnOk, ok.sema?_eq, Option.mem_some_iff, forall_eq']
  obtain ⟨-, hthreads | ⟨hthreads, hdead⟩⟩ := objExitThread_threads hexit
  · have hself : ¬ (sys.threads t).state.Alive := by
      simp [hthreads, threadSetState, Alive]
    have hother : ∀ u ≠ t, sys.threads u = h.sys.threads u := fun u hu => by
      simp [hthreads, threadSetState, hu]
    refine (ownersAreHolders_iff (h := ⟨{ h.sys with toThreadSys := sys }, h.held⟩)
      ok.stored).trans ⟨?_, ?_⟩
    · rintro ⟨-, dead⟩
      exact dead t hself
    intro hmem
    refine ⟨fun u alive => ?_, fun u dead => ?_⟩
    · have hu : u ≠ t := by
        rintro rfl
        exact hself alive
      exact ok.count u (by rwa [← hother u hu])
    by_cases hu : u = t
    · rwa [hu]
    · exact ok.dead u (by rwa [← hother u hu])
  -- the thread has exited before, so it is not an owner
  have hself : ¬ (h.sys.threads t).state.Alive := by
    rcases hdead with hdead | hdead <;> simp [hdead, Alive]
  refine iff_of_true ⟨sema, ok.congr ok.stored rfl rfl fun u => ?_⟩ (ok.dead t hself)
  rw [hthreads]

/-- A call keeps the owners of a semaphore right exactly if it meets `OwnOk`. -/
theorem OwnersOk.step_iff (hstep : step h c = .ok h') :
    OwnersAreHolders id h' ↔ c.OwnOk id h := by
  cases c with
  | call c =>
    cases c with
    | get t o => exact ok.get_iff hstep
    | release t o => exact ok.release_iff hstep
  | exit t => exact ok.exit_iff hstep

end

end Owners

/-! ## Along every run -/

structure Holdings.Fresh (id : ℕ) (h : Holdings) : Prop where
  created : ∃ name n, h.sys.semas id = some (.owner (semaNew name n))
  held : ∀ t, h.held id t = 0

/-- In every run of gets, releases and exits that all meet `OwnOk`, the owners of a semaphore
are its holders; and they stay so with the next call exactly if it meets `OwnOk` as well. -/
theorem ownersOk_of_run {id : ℕ} {h h' : Holdings} {calls : List OwnerCall}
    (fresh : Holdings.Fresh id h)
    (run : Run OwnerCall.step (fun h c => c.OwnOk id h) h calls h') :
    OwnersAreHolders id h' ∧
      ∀ c h'', OwnerCall.step h' c = .ok h'' → (OwnersAreHolders id h'' ↔ c.OwnOk id h') := by
  obtain ⟨name, n, created⟩ := fresh.created
  have start : OwnersAreHolders id h :=
    ⟨_, created, fun t _ => (fresh.held t).symm, fun _ _ => List.not_mem_nil⟩
  have last : OwnersAreHolders id h' :=
    run.invariant start fun _ _ _ ⟨_, inv⟩ ok hstep => (inv.step_iff hstep).mpr ok
  obtain ⟨sema, ok⟩ := last
  exact ⟨⟨sema, ok⟩, fun c h'' hstep => ok.step_iff hstep⟩

/-- A kernel with the threads `ts` and two semaphores of one unit each. -/
def Holdings.boot (prio : ℕ → Priority) (ts : List ℕ) : Exec Holdings := do
  let sys ← ThreadSys.boot prio ts
  let semas := fun id => if id < 2 then some (.owner (semaNew [] 1)) else none
  return ⟨⟨sys, registryCreate, semas, 2⟩, fun _ _ => 0⟩

theorem Holdings.fresh_of_boot {prio : ℕ → Priority} {ts : List ℕ} {h : Holdings}
    (start : boot prio ts = .ok h) : Fresh 0 h := by
  obtain ⟨sys, -, start⟩ := of_bind start
  cases start
  exact ⟨⟨[], 1, rfl⟩, fun _ => rfl⟩

/-- Thread 2 has a higher priority than thread 1, which owns the semaphore: it lends it and
blocks. It is handed the semaphore by the release, and thread 1 may exit. -/
theorem ownersOk_of_run_lent : ∃ h h', Holdings.Fresh 0 h ∧
    Run OwnerCall.step (fun h c => c.OwnOk 0 h) h
      [.call (.get 1 0), .call (.get 2 0), .call (.release 1 0), .exit 1] h' ∧
    h'.held 0 2 = 1 ∧ OwnersAreHolders 0 h' := by
  obtain ⟨h, h', start, run, hlast⟩ := exists_run_from
    (Holdings.boot (fun t => if t < 2 then Fin.ofNat 256 t else 2) [1, 2, 3])
    OwnerCall.step (fun h c => c.OwnOk 0 h)
    [.call (.get 1 0), .call (.get 2 0), .call (.release 1 0), .exit 1]
    (fun h => h.held 0 2 = 1) (by decide +kernel)
  have fresh := Holdings.fresh_of_boot start
  exact ⟨h, h', fresh, run, of_decide_eq_true hlast, (ownersOk_of_run fresh run).1⟩

/-- Two threads of one priority: the second blocks, holds nothing, and is an owner. -/
theorem not_ownersOk : ∃ h calls h', Holdings.Fresh 0 h ∧
    Run OwnerCall.step (fun _ _ => True) h calls h' ∧ BlockedOn h'.sys.threads 0 2 ∧
      h'.held 0 2 = 0 ∧ (∃ sema, h'.sys.semas 0 = some (.owner sema) ∧ 2 ∈ sema.owners) ∧
      ¬ OwnersAreHolders 0 h' := by
  obtain ⟨h, h', start, run, hlast⟩ := exists_run_from
    (Holdings.boot (fun t => if t = 0 then 0 else 1) [1, 2]) OwnerCall.step (fun _ _ => True)
    [.call (.get 1 0), .call (.get 2 0)]
    (fun h => BlockedOn h.sys.threads 0 2 ∧ h.held 0 2 = 0 ∧
      ∃ sema ∈ h.sys.sema? 0, 2 ∈ sema.owners) (by decide +kernel)
  obtain ⟨blocked, hheld, sema, hsema, hmem⟩ := of_decide_eq_true hlast
  have stored : h'.sys.semas 0 = some (.owner sema) := by
    unfold SemaSys.sema? at hsema
    split at hsema
    · next s hs => rw [hs, Option.some.inj hsema]
    · cases hsema
  refine ⟨h, _, h', Holdings.fresh_of_boot start, run, blocked, hheld, ⟨sema, stored, hmem⟩, ?_⟩
  rw [ownersAreHolders_iff stored]
  rintro ⟨count, -⟩
  have alive : (h'.sys.threads 2).state.Alive := by
    rw [blocked.1]
    decide
  have hcount := count 2 alive
  rw [hheld, List.count_eq_zero] at hcount
  exact hcount hmem

end Tinker
