import Tinker.Objects.Ownership

/-!
# Priority inheritance

A thread that blocks on a semaphore lends its priority to the owner. A thread that holds nothing
should run at the priority it was created with; and as long as a thread is blocked on a semaphore,
the thread that holds it should run at the blocked thread's priority at least.

A thread has one field for the priority to go back to, and every loan overwrites it; so a second
loan makes the first one permanent. The field is read back when *any* semaphore is released, so a
loan can also end while the thread it came from is still blocked.
-/

namespace Tinker

variable {prio : ℕ → Priority} {ts : List ℕ}

open Tinker.Lib Exec Holdings SemaSys Sema

/-! ## Going back to the priority of creation -/

section Restored

variable {base : ℕ → Priority} {h h' : Holdings} {sema : Sema} {t u o i id : ℕ} {r : ReturnT}
  {held held' : ℕ → ℕ → ℕ} {c : SemaCall}

/-- A thread that holds no semaphore and is not blocked runs at the priority it was created
with. -/
def Restored (base : ℕ → Priority) (h : Holdings) : Prop :=
  ∀ t, (∀ id, h.held id t = 0) → (h.sys.threads t).state ≠ .waiting →
    (h.sys.threads t).priority = base t

/-- A loan goes to a holder of the semaphore that runs at its own priority, and a release of
a thread's last unit ends its loan: it is not refused, and the highest priority noted is not the
thread's own. The next owner is still blocked, and runs at its own priority if it is about to be
lent one. -/
def InheritOk (base : ℕ → Priority) (h : Holdings) : SemaCall → Prop
  | .get t o => ∀ x ∈ (h.sys.resolve o).toOption, ∀ u ∈ x.2.lendsTo h.sys.toThreadSys t,
      0 < h.held x.1 u ∧ (h.sys.threads u).priority = base u
  | .release t o => ∀ x ∈ (h.sys.resolve o).toOption,
      (x.2.semAlloc = 0 ∨ x.2.highestPriority = base t → (h.sys.threads t).priority = base t ∨
        ∃ i < h.sys.semaBrk, 0 < give h.held x.1 t i t) ∧
      (0 < x.2.semAlloc → ∀ u ∈ x.2.listeners.head?, (h.sys.threads u).state = .waiting ∧
        ((h.sys.threads u).priority < x.2.highestPriority →
          (h.sys.threads u).priority = base u))

instance (base : ℕ → Priority) (h : Holdings) (c : SemaCall) : Decidable (InheritOk base h c) :=
  match c with
  | .get t o => inferInstanceAs (Decidable (∀ x ∈ (h.sys.resolve o).toOption,
      ∀ u ∈ x.2.lendsTo h.sys.toThreadSys t, _))
  | .release _ o => inferInstanceAs (Decidable (∀ x ∈ (h.sys.resolve o).toOption,
      (_ ∨ _ → _ ∨ ∃ i < h.sys.semaBrk, _) ∧ (_ → ∀ u ∈ x.2.listeners.head?, _)))

/-- Every thread would go back to its priority of creation, and runs at another one only
while it holds a semaphore. -/
structure Settled (base : ℕ → Priority) (h : Holdings) : Prop where
  original : ∀ t, (h.sys.objThreads t).originalPriority = base t
  lent : ∀ t, (h.sys.threads t).priority ≠ base t → ∃ id, 0 < h.held id t

theorem Settled.restored (settled : Settled base h) : Restored base h := by
  intro t hnone _
  by_contra hne
  obtain ⟨id, hpos⟩ := settled.lent t hne
  rw [hnone id] at hpos
  exact Nat.lt_irrefl 0 hpos

theorem Holdings.le_gain (held : ℕ → ℕ → ℕ) (id : ℕ) (o : Option ℕ) (i u : ℕ) :
    held i u ≤ gain held id o i u := by
  by_cases h : i = id
  · subst h
    rw [gain_self]
    exact Nat.le_add_right _ _
  · rw [gain_of_ne h]

theorem Holdings.give_of_ne_thread (h : u ≠ t) : give held id t i u = held i u := by
  by_cases hi : i = id
  · subst hi
    simp [give_self, Ne.symm h]
  · rw [give_of_ne hi]

theorem Holdings.give_le (held : ℕ → ℕ → ℕ) (id t i u : ℕ) : give held id t i u ≤ held i u := by
  by_cases hi : i = id
  · subst hi
    rw [give_self]
    exact Nat.sub_le _ _
  · rw [give_of_ne hi]

/-- A loan of the thread that gives up a unit is ended, or the thread keeps another unit. -/
theorem Settled.keeps (settled : Settled base h) (t id : ℕ)
    (hne : (h.sys.threads u).priority ≠ base u)
    (last : u = t → (h.sys.threads t).priority = base t ∨
      ∃ i < h.sys.semaBrk, 0 < give h.held id t i t) : ∃ i, 0 < give h.held id t i u := by
  by_cases hu : u = t
  · subst hu
    obtain ⟨i, -, hold⟩ := (last rfl).resolve_left hne
    exact ⟨i, hold⟩
  obtain ⟨i, hold⟩ := settled.lent u hne
  exact ⟨i, by rwa [give_of_ne_thread hu]⟩

theorem Settled.get (settled : Settled base h) (ok : InheritOk base h (.get t o))
    (hstep : h.step (.get t o) = .ok h') : Settled base h' := by
  obtain ⟨⟨r, sys⟩, hget, hstep⟩ := of_bind hstep
  cases hstep
  rcases objGetSemaphore_cases hget with ⟨rfl, rfl, -⟩ | ⟨i, s, p, hres, rfl, -, -, -, lent, -⟩
  · rw [heldAfterGet_of_error (by decide)]
    exact settled
  have hheld : ∀ id u, h.held id u ≤ h.heldAfterGet t o .noError id u := by
    intro id u
    rw [heldAfterGet_eq hres]
    split
    · exact le_gain _ _ _ _ _
    · exact Nat.le_refl _
  have ok := ok (i, s) (by simp [hres, Except.toOption])
  refine ⟨fun u => ?_, fun u hne => ?_⟩
  · change (sys.objThreads u).originalPriority = base u
    rw [lent.original]
    split
    next hu => exact (ok u hu).2
    · exact settled.original u
  have hprio : (sys.threads u).priority ≠ base u := hne
  rw [lent.priority] at hprio
  split at hprio
  next hu => exact ⟨i, Nat.lt_of_lt_of_le (ok u hu).1 (hheld i u)⟩
  obtain ⟨id, hpos⟩ := settled.lent u hprio
  exact ⟨id, Nat.lt_of_lt_of_le hpos (hheld id u)⟩

theorem Settled.release (settled : Settled base h) (ok : InheritOk base h (.release t o))
    (hstep : h.step (.release t o) = .ok h') : Settled base h' := by
  obtain ⟨⟨r, sys⟩, hrelease, hstep⟩ := of_bind hstep
  cases hstep
  obtain ⟨i, s, hres, hcases⟩ := objReleaseSemaphore_cases hrelease
  obtain ⟨hlast, hnext⟩ := ok (i, s) (by simp [hres, Except.toOption])
  rcases hcases with ⟨hzero, rfl, rfl⟩ | ⟨hpos, rfl, -, -, -, ⟨mid, back, lent⟩, -⟩
  · rw [heldAfterRelease_of_error hres (by decide)]
    exact ⟨settled.original, fun u hne => settled.keeps t i hne fun _ => hlast (.inl hzero)⟩
  replace hnext := hnext hpos
  -- the thread that is raised is the first listener, which runs at its own priority
  have hraises : ∀ u, s.raises mid = some u → s.listeners.head? = some u ∧
      (mid.threads u).priority = base u := by
    intro u hu
    obtain ⟨hfront, hlt⟩ := Option.filter_eq_some_iff.mp hu
    refine ⟨hfront, ?_⟩
    have hmid := back.priority u
    split at hmid
    · rw [hmid, settled.original]
    rw [hmid]
    refine (hnext u hfront).2 ?_
    rw [← hmid]
    exact of_decide_eq_true hlt
  have hheld := heldAfterRelease_eq (t := t) hres
  refine ⟨fun u => ?_, fun u hne => ?_⟩
  · change (sys.objThreads u).originalPriority = base u
    rw [lent.original]
    split
    next hu => exact (hraises u hu).2
    · rw [back.original, settled.original]
  have hprio : (sys.threads u).priority ≠ base u := hne
  rw [hheld]
  rw [lent.priority] at hprio
  split at hprio
  next hu =>
    -- it is handed a unit
    obtain ⟨hfront, -⟩ := hraises u hu
    have handed : handedTo h.sys s = some u := by
      simp [handedTo, hfront, (hnext u hfront).1]
    exact ⟨i, by simp [handed, gain_self]⟩
  rw [back.priority] at hprio
  split at hprio
  · exact absurd (settled.original u) hprio
  next hreset =>
    obtain ⟨id, hkeeps⟩ := settled.keeps t i hprio fun hu => by
      subst hu
      refine hlast (.inr ?_)
      by_contra hdiff
      refine hreset (Option.filter_eq_some_iff.mpr ⟨rfl, decide_eq_true ?_⟩)
      rwa [settled.original]
    exact ⟨id, Nat.lt_of_lt_of_le hkeeps (le_gain _ _ _ _ _)⟩

end Restored

/-! ## Those blocked and those holding are in the queues -/

def SemaSys.ownersOf (k : SemaSys) (id : ℕ) : List ℕ := ((k.sema? id).map owners).getD []

def SemaCall.caller : SemaCall → ℕ
  | .get t _ | .release t _ => t

def Holdings.Admitted (h : Holdings) (c : SemaCall) : Prop :=
  (h.sys.threads c.caller).state.Runnable

deriving instance Decidable for Admitted

/-- A thread that is blocked on a semaphore is a listener of it, and a thread that holds it
is an owner at least as often. -/
structure Queued (h : Holdings) : Prop where
  below : ∀ id, h.sys.semas id ≠ none → id < h.sys.semaBrk
  listed : ∀ id t, BlockedOn h.sys.threads id t → t ∈ h.sys.listenersOf id
  owned : ∀ id t, h.held id t ≤ (h.sys.ownersOf id).count t

section Queued

variable {h h' : Holdings} {k k' : SemaSys} {sema : Sema} {threads threads' : Threads}
  {t u o i id : ℕ} {w : Option ℕ}

theorem SemaSys.ownersOf_update (hsemas : k'.semas = Function.update k.semas i
    (some (.owner sema))) :
    k'.ownersOf id = if id = i then sema.owners else k.ownersOf id := by
  by_cases hid : id = i
  · subst hid
    simp [ownersOf, sema?, hsemas]
  · simp [ownersOf, sema?, hsemas, hid]

theorem SemaSys.ownersOf_eq (hi : k.semas i = some (.owner sema)) :
    k.ownersOf i = sema.owners := by
  simp [ownersOf, sema?, hi]

theorem BlockedOn.of_same (same : SameStatus threads threads') (blocked : BlockedOn threads' id u) :
    BlockedOn threads id u :=
  ⟨(same u).1.symm.trans blocked.1, (same u).2.symm.trans blocked.2⟩

theorem BlockedOn.of_wake (blocked : BlockedOn (wake threads w) id u) :
    BlockedOn threads id u ∧ w ≠ some u := by
  have hsame := wake_of_waiting blocked.1
  refine ⟨⟨by rw [← hsame]; exact blocked.1, by rw [← hsame]; exact blocked.2⟩, ?_⟩
  rintro rfl
  exact wake_self_ne_waiting blocked.1

theorem BlockedOn.of_block (blocked : BlockedOn (block threads t (some (.sema i))) id u) :
    (u = t ∧ id = i) ∨ (BlockedOn threads id u ∧ (u = t → ¬ (threads u).state.CanBlock)) := by
  by_cases hu : u = t
  · subst hu
    by_cases hb : (threads u).state.CanBlock
    · have hon := blocked.2
      rw [block_self hb] at hon
      exact .inl ⟨rfl, by simpa using hon.symm⟩
    simp only [block, hb, if_false] at blocked
    exact .inr ⟨blocked, fun _ => hb⟩
  refine .inr ⟨?_, fun e => absurd e hu⟩
  unfold BlockedOn at blocked
  rwa [block_of_ne hu] at blocked

theorem Queued.lt_of_held (queued : Queued h) (hpos : 0 < h.held id t) : id < h.sys.semaBrk := by
  refine queued.below id fun hnone => ?_
  have hle := queued.owned id t
  simp [ownersOf, sema?, hnone] at hle
  omega

theorem below_update {obj : SemaObj} (queued : Queued h) (hi : h.sys.semas i ≠ none)
    (hsemas : k'.semas = Function.update h.sys.semas i (some obj))
    (hbrk : k'.semaBrk = h.sys.semaBrk) (id : ℕ) (hid : k'.semas id ≠ none) :
    id < k'.semaBrk := by
  rw [hbrk]
  refine queued.below id fun hnone => ?_
  by_cases heq : id = i
  · exact hi (heq ▸ hnone)
  rw [hsemas, Function.update_of_ne heq] at hid
  exact hid hnone

theorem Queued.get (queued : Queued h) (hstep : h.step (.get t o) = .ok h') : Queued h' := by
  obtain ⟨⟨r, sys⟩, hget, hstep⟩ := of_bind hstep
  cases hstep
  rcases objGetSemaphore_cases hget with ⟨rfl, rfl, -⟩ | ⟨i, s, p, hres, rfl, -, -, hbrk, -, hcases⟩
  · rw [heldAfterGet_of_error (by decide)]
    exact queued
  have hi := semas_of_resolve hres
  have hne : h.sys.semas i ≠ none := by simp [hi]
  rw [heldAfterGet_eq hres]
  rcases hcases with ⟨hzero, hsame, hsemas⟩ | ⟨hpos, hsame, hsemas⟩
  · rw [if_neg (by omega)]
    refine ⟨below_update queued hne hsemas hbrk, fun id u blocked => ?_, fun id u => ?_⟩
    · rw [listenersOf_update hsemas]
      rcases (blocked.of_same hsame).of_block with ⟨rfl, rfl⟩ | ⟨before, -⟩
      · simp
      have hmem := queued.listed id u before.of_wake.1
      split
      next hid =>
        subst hid
        rw [listenersOf_eq hi] at hmem
        simp [hmem]
      · exact hmem
    have hle := queued.owned id u
    rw [ownersOf_update hsemas]
    split
    next hid =>
      subst hid
      rw [ownersOf_eq hi] at hle
      refine Nat.le_trans hle ?_
      dsimp only [ownersWith]
      split
      · exact Nat.le_refl _
      rw [List.count_append]
      exact Nat.le_add_right _ _
    · exact hle
  rw [if_pos hpos]
  refine ⟨below_update queued hne hsemas hbrk, fun id u blocked => ?_, fun id u => ?_⟩
  · have hmem := queued.listed id u (blocked.of_same hsame)
    rw [listenersOf_update hsemas]
    split
    next hid =>
      subst hid
      rwa [listenersOf_eq hi] at hmem
    · exact hmem
  have hle := queued.owned id u
  rw [ownersOf_update hsemas]
  split
  next hid =>
    subst hid
    rw [ownersOf_eq hi] at hle
    dsimp only
    rw [gain_self, List.count_append, List.count_singleton]
    simpa using hle
  next hid =>
    dsimp only
    rwa [gain_of_ne hid]

theorem Queued.release (queued : Queued h) (hstep : h.step (.release t o) = .ok h') :
    Queued h' := by
  obtain ⟨⟨r, sys⟩, hrelease, hstep⟩ := of_bind hstep
  cases hstep
  obtain ⟨i, s, hres, hcases⟩ := objReleaseSemaphore_cases hrelease
  rcases hcases with ⟨-, rfl, rfl⟩ | ⟨hpos, rfl, -, hbrk, hsame, -, p, hsemas⟩
  · rw [heldAfterRelease_of_error hres (by decide)]
    exact ⟨queued.below, queued.listed, fun id u =>
      (give_le _ _ _ _ _).trans (queued.owned id u)⟩
  have hi := semas_of_resolve hres
  rw [heldAfterRelease_eq hres]
  refine ⟨below_update queued (by simp [hi]) hsemas hbrk, fun id u blocked => ?_, fun id u => ?_⟩
  · obtain ⟨before, hwoken⟩ := (blocked.of_same hsame).of_wake
    have hmem := queued.listed id u before
    rw [listenersOf_update hsemas]
    split
    next hid =>
      -- the one that has left the queue has been woken
      subst hid
      rw [listenersOf_eq hi] at hmem
      cases hl : s.listeners with
      | nil => rw [hl] at hmem; cases hmem
      | cons x rest =>
        rw [hl] at hmem hwoken
        refine (List.mem_cons.mp hmem).resolve_left ?_
        rintro rfl
        exact hwoken rfl
    · exact hmem
  have hle := queued.owned id u
  rw [ownersOf_update hsemas]
  split
  next hid =>
    subst hid
    rw [ownersOf_eq hi] at hle
    dsimp only
    rw [gain_self, give_self, List.count_append, count_head?_toList]
    refine Nat.add_le_add ?_ ?_
    · change _ ≤ (s.owners.erase t).count u
      rw [List.count_erase]
      simp only [beq_iff_eq]
      omega
    -- a thread is handed the semaphore only if it is the first listener
    by_cases handed : handedTo h.sys s = some u
    · rw [if_pos handed, if_pos (Option.filter_eq_some_iff.mp handed).1]
    rw [if_neg handed]
    exact Nat.zero_le _
  next hid =>
    dsimp only
    rwa [gain_of_ne hid, give_of_ne hid]

theorem Queued.step {c : SemaCall} (queued : Queued h) (hstep : h.step c = .ok h') : Queued h' := by
  cases c with
  | get t o => exact queued.get hstep
  | release t o => exact queued.release hstep

end Queued

/-! ## The holder runs at the priority of those blocked -/

/-- As long as a thread is blocked on a semaphore, a thread that holds it runs at the blocked
thread's priority at least. -/
def Inherits (h : Holdings) : Prop :=
  ∀ id waiter holder, BlockedOn h.sys.threads id waiter → 0 < h.held id holder →
    (h.sys.threads waiter).priority ≤ (h.sys.threads holder).priority

/-- The priority that a release of the semaphore leaves the thread with. -/
def Sema.priorityBack (sema : Sema) (k : ThreadSys) (t : ℕ) : Priority :=
  if sema.highestPriority ≠ (k.objThreads t).originalPriority then
    (k.objThreads t).originalPriority
  else (k.threads t).priority

/-- A get that takes a unit is not made past a blocked thread of higher priority; one that
blocks finds every holder of lower priority at the front of the owners. A thread that releases
does not fall below a thread that is blocked on a semaphore it keeps, and the next owner does
not stay below a thread that is blocked behind it. -/
def LendOk (h : Holdings) : SemaCall → Prop
  | .get t o => ∀ x ∈ (h.sys.resolve o).toOption,
      (0 < x.2.semCount → ∀ waiter ∈ x.2.listeners, BlockedOn h.sys.threads x.1 waiter →
        (h.sys.threads waiter).priority ≤ (h.sys.threads t).priority) ∧
      (x.2.semCount = 0 → ∀ holder ∈ x.2.owners, 0 < h.held x.1 holder →
        (h.sys.threads t).priority ≤ (h.sys.threads holder).priority ∨
          x.2.owners.head? = some holder)
  | .release t o => ∀ x ∈ (h.sys.resolve o).toOption, 0 < x.2.semAlloc →
      (∀ id < h.sys.semaBrk, 0 < give h.held x.1 t id t →
        ∀ waiter ∈ h.sys.listenersOf id, BlockedOn h.sys.threads id waiter →
          x.2.listeners.head? ≠ some waiter →
          (h.sys.threads waiter).priority ≤ x.2.priorityBack h.sys.toThreadSys t) ∧
      ∀ next ∈ x.2.listeners.head?, ∀ waiter ∈ x.2.listeners,
        BlockedOn h.sys.threads x.1 waiter → waiter ≠ next →
        (h.sys.threads waiter).priority ≤ max (h.sys.threads next).priority x.2.highestPriority

instance (h : Holdings) (c : SemaCall) : Decidable (LendOk h c) :=
  match c with
  | .get _ o => inferInstanceAs (Decidable (∀ x ∈ (h.sys.resolve o).toOption,
      (_ → ∀ waiter ∈ x.2.listeners, _ → _) ∧ (_ → ∀ holder ∈ x.2.owners, _ → _)))
  | .release _ o => inferInstanceAs (Decidable (∀ x ∈ (h.sys.resolve o).toOption, _ →
      (∀ id < h.sys.semaBrk, _ → ∀ waiter ∈ h.sys.listenersOf id, _ → _ → _) ∧
      ∀ next ∈ x.2.listeners.head?, ∀ waiter ∈ x.2.listeners, _ → _ → _))

section Inherits

variable {h h' : Holdings} {k k' : ThreadSys} {sema : Sema} {t u o : ℕ} {w : Option ℕ}
  {p : Priority}

theorem Lent.le (lent : Lent k k' w p) (raise : ∀ u ∈ w, (k.threads u).priority ≤ p) (u : ℕ) :
    (k.threads u).priority ≤ (k'.threads u).priority := by
  rw [lent.priority]
  split
  next hu => exact raise u hu
  · exact le_rfl

theorem Sema.priority_le_of_lendsTo (hu : sema.lendsTo k t = some u) :
    sema.owners.head? = some u ∧ (k.threads u).priority < (k.threads t).priority := by
  unfold lendsTo at hu
  split at hu
  next hlend =>
    rw [hu] at hlend
    exact ⟨hu, hlend.2⟩
  · cases hu

theorem Inherits.get (inherits : Inherits h) (queued : Queued h)
    (runs : (h.sys.threads t).state.Runnable) (ok : LendOk h (.get t o))
    (hstep : h.step (.get t o) = .ok h') : Inherits h' := by
  obtain ⟨⟨r, sys⟩, hget, hstep⟩ := of_bind hstep
  cases hstep
  rcases objGetSemaphore_cases hget with ⟨rfl, rfl, -⟩ | ⟨i, s, p, hres, rfl, -, -, -, lent, hcases⟩
  · rw [heldAfterGet_of_error (by decide)]
    exact inherits
  have hi := semas_of_resolve hres
  obtain ⟨htake, hblock⟩ := ok (i, s) (by simp [hres, Except.toOption])
  have hraise := lent.le fun u hu => (priority_le_of_lendsTo hu).2.le
  rw [heldAfterGet_eq hres]
  intro id waiter holder blocked hheld
  rcases hcases with ⟨hzero, hsame, -⟩ | ⟨hpos, hsame, -⟩
  · dsimp only at hheld
    rw [if_neg (by omega)] at hheld
    have hbefore := blocked.of_same hsame
    by_cases hwaiter : waiter = t
    · -- the caller itself has been blocked
      subst hwaiter
      have hcan : (wake h.sys.threads (s.lendsTo h.sys.toThreadSys waiter)
          waiter).state.CanBlock := by
        rw [wake_of_runnable runs]
        exact runs.canBlock
      obtain ⟨-, rfl⟩ := hbefore.of_block.resolve_right fun hright => hright.2 rfl hcan
      have hself : (sys.threads waiter).priority = (h.sys.threads waiter).priority := by
        rw [lent.priority, if_neg]
        exact fun hu => lt_irrefl _ (priority_le_of_lendsTo hu).2
      rw [hself]
      have hmem : holder ∈ s.owners := by
        have hle := queued.owned id holder
        rw [ownersOf_eq hi] at hle
        exact List.count_pos_iff.mp (Nat.lt_of_lt_of_le hheld hle)
      rcases hblock hzero holder hmem hheld with hle | hfront
      · exact hle.trans (hraise holder)
      by_contra hlt
      have hlt := lt_of_le_of_lt (hraise holder) (not_le.mp hlt)
      have hlends : s.lendsTo h.sys.toThreadSys waiter = some holder := by
        rw [lendsTo, if_pos ⟨hzero, by rw [hfront]; exact hlt⟩, hfront]
      have hnew := lent.priority holder
      rw [if_pos hlends] at hnew
      exact absurd hnew.symm.le (by assumption)
    obtain ⟨hwake, -⟩ := hbefore.of_block.resolve_left fun hleft => hwaiter hleft.1
    obtain ⟨hold, hwoken⟩ := hwake.of_wake
    have hself : (sys.threads waiter).priority = (h.sys.threads waiter).priority := by
      rw [lent.priority, if_neg hwoken]
    rw [hself]
    exact (inherits id waiter holder hold hheld).trans (hraise holder)
  have hold := blocked.of_same hsame
  have hself : ∀ u, (sys.threads u).priority = (h.sys.threads u).priority := by
    intro u
    rw [lent.priority, if_neg]
    exact fun hu => by simp [lendsTo, Nat.ne_of_gt hpos] at hu
  rw [hself, hself]
  dsimp only at hheld
  rw [if_pos hpos] at hheld
  by_cases hnew : id = i ∧ holder = t
  · obtain ⟨rfl, rfl⟩ := hnew
    refine htake hpos waiter ?_ hold
    rw [← listenersOf_eq hi]
    exact queued.listed id waiter hold
  refine inherits id waiter holder hold ?_
  by_cases hid : id = i
  · subst hid
    rw [gain_self, if_neg fun e => hnew ⟨rfl, (Option.some.inj e).symm⟩] at hheld
    exact hheld
  · rwa [gain_of_ne hid] at hheld

theorem Inherits.release (inherits : Inherits h) (queued : Queued h)
    (runs : (h.sys.threads t).state.Runnable) (ok : LendOk h (.release t o))
    (hstep : h.step (.release t o) = .ok h') : Inherits h' := by
  obtain ⟨⟨r, sys⟩, hrelease, hstep⟩ := of_bind hstep
  cases hstep
  obtain ⟨i, s, hres, hcases⟩ := objReleaseSemaphore_cases hrelease
  rcases hcases with ⟨-, rfl, rfl⟩ | ⟨hpos, rfl, -, -, hsame, ⟨mid, back, lent⟩, -⟩
  · rw [heldAfterRelease_of_error hres (by decide)]
    exact fun id waiter holder blocked hheld =>
      inherits id waiter holder blocked (hheld.trans_le (give_le _ _ _ _ _))
  have hi := semas_of_resolve hres
  obtain ⟨hkeep, hnext⟩ := ok (i, s) (by simp [hres, Except.toOption]) hpos
  have hraise := lent.le fun u hu => (of_decide_eq_true (Option.filter_eq_some_iff.mp hu).2).le
  -- only the caller's priority is given back
  have hmid : ∀ u ≠ t, (mid.threads u).priority = (h.sys.threads u).priority := by
    intro u hu
    rw [back.priority, if_neg]
    intro hreset
    exact hu (Option.some.inj (Option.filter_eq_some_iff.mp hreset).1).symm
  have hback : (mid.threads t).priority = s.priorityBack h.sys.toThreadSys t := by
    rw [back.priority]
    simp [resets, priorityBack, Option.filter_eq_some_iff]
  rw [heldAfterRelease_eq hres]
  intro id waiter holder blocked hheld
  obtain ⟨hold, hwoken⟩ := (blocked.of_same hsame).of_wake
  have hlisted := queued.listed id waiter hold
  have hne : waiter ≠ t := by
    rintro rfl
    exact runs.ne_waiting hold.1
  -- the thread that is still blocked has been lent nothing
  have hself : (sys.threads waiter).priority = (h.sys.threads waiter).priority := by
    rw [lent.priority, if_neg, hmid waiter hne]
    exact fun hu => hwoken (Option.filter_eq_some_iff.mp hu).1
  rw [hself]
  dsimp only at hheld
  by_cases handed : id = i ∧ handedTo h.sys s = some holder
  · obtain ⟨rfl, handed⟩ := handed
    obtain ⟨hfront, hwaiting⟩ := Option.filter_eq_some_iff.mp handed
    have hother : waiter ≠ holder := by
      rintro rfl
      exact hwoken hfront
    rw [listenersOf_eq hi] at hlisted
    refine (hnext holder hfront waiter hlisted hold hother).trans (max_le ?_ ?_)
    · have hholder : holder ≠ t := by
        rintro rfl
        exact runs.ne_waiting (of_decide_eq_true hwaiting)
      rw [← hmid holder hholder]
      exact hraise holder
    rw [lent.priority]
    split
    · exact le_rfl
    next hraises =>
      by_contra hlt
      exact hraises (Option.filter_eq_some_iff.mpr ⟨hfront, decide_eq_true (not_le.mp hlt)⟩)
  have hkept : 0 < give h.held i t id holder := by
    by_cases hid : id = i
    · subst hid
      rwa [gain_self, if_neg fun e => handed ⟨rfl, e⟩] at hheld
    · rwa [gain_of_ne hid] at hheld
  refine le_trans ?_ (hraise holder)
  by_cases hholder : holder = t
  · subst hholder
    have hbefore : 0 < h.held id holder := by
      by_cases hid : id = i
      · subst hid
        rw [give_self] at hkept
        omega
      · rwa [give_of_ne hid] at hkept
    rw [hback]
    exact hkeep id (queued.lt_of_held hbefore) hkept waiter hlisted hold hwoken
  rw [give_of_ne_thread hholder] at hkept
  rw [hmid holder hholder]
  exact inherits id waiter holder hold hkept

end Inherits

/-! ## The two laws, along every run -/

structure Holdings.AtBase (base : ℕ → Priority) (h : Holdings) : Prop where
  priority : ∀ t, (h.sys.threads t).priority = base t
  original : ∀ t, (h.sys.objThreads t).originalPriority = base t
  held : ∀ id t, h.held id t = 0

structure Holdings.Idle (h : Holdings) : Prop where
  below : ∀ id, h.sys.semas id ≠ none → id < h.sys.semaBrk
  running : ∀ t, (h.sys.threads t).state ≠ .waiting
  held : ∀ id t, h.held id t = 0

/-- The law, with what its proof carries along. -/
structure Inheriting (h : Holdings) : Prop extends Queued h where
  inherits : Inherits h

theorem Holdings.Idle.inheriting {h : Holdings} (idle : h.Idle) : Inheriting h where
  below := idle.below
  listed _ t blocked := absurd blocked.1 (idle.running t)
  owned id t := by
    rw [idle.held]
    exact Nat.zero_le _
  inherits _ waiter _ blocked := absurd blocked.1 (idle.running waiter)

/-- In every run of gets and releases that all meet `InheritOk`, a thread that holds nothing
and is not blocked runs at the priority it was created with. -/
theorem restored_of_run {base : ℕ → Priority} {h h' : Holdings} {calls : List SemaCall}
    (start : h.AtBase base) (run : Run Holdings.step (InheritOk base) h calls h') :
    Restored base h' := by
  have settled : Settled base h' := by
    refine run.invariant ⟨start.original, fun t hne => absurd (start.priority t) hne⟩ ?_
    intro h c h' settled ok hstep
    cases c with
    | get t o => exact settled.get ok hstep
    | release t o => exact settled.release ok hstep
  exact settled.restored

/-- In every run of gets and releases that all meet `LendOk`, a thread that holds a semaphore
runs at the priority of each thread that is blocked on it, or at a higher one. -/
theorem inherits_of_run {h h' : Holdings} {calls : List SemaCall} (idle : h.Idle)
    (run : Run Holdings.step (fun h c => h.Admitted c ∧ LendOk h c) h calls h') :
    Inherits h' := by
  have last : Inheriting h' := by
    refine run.invariant idle.inheriting ?_
    rintro h c h' inv ⟨runs, ok⟩ hstep
    refine ⟨inv.toQueued.step hstep, ?_⟩
    cases c with
    | get t o => exact inv.inherits.get inv.toQueued runs ok hstep
    | release t o => exact inv.inherits.release inv.toQueued runs ok hstep
  exact last.inherits

/-- In every run of gets and releases, with any callers, a thread that is blocked on a semaphore
is in its queue of listeners, and one that holds units of it is among the owners at least as
often. -/
theorem queued_of_run {h h' : Holdings} {calls : List SemaCall} (idle : h.Idle)
    (run : Run Holdings.step (fun _ _ => True) h calls h') (id t : ℕ) :
    (BlockedOn h'.sys.threads id t → t ∈ h'.sys.listenersOf id) ∧
      h'.held id t ≤ (h'.sys.ownersOf id).count t := by
  have queued : Queued h' := run.invariant idle.inheriting.toQueued fun _ _ _ queued _ hstep =>
    queued.step hstep
  exact ⟨queued.listed id t, queued.owned id t⟩

theorem Holdings.atBase_of_boot {h : Holdings} (start : boot prio ts = .ok h) :
    h.AtBase prio := by
  obtain ⟨sys, hsys, start⟩ := of_bind start
  cases start
  obtain ⟨sched, -, hsys⟩ := of_bind hsys
  cases hsys
  exact ⟨fun _ => rfl, fun _ => rfl, fun _ _ => rfl⟩

theorem Holdings.idle_of_boot {h : Holdings} (start : boot prio ts = .ok h) : h.Idle := by
  obtain ⟨sys, hsys, start⟩ := of_bind start
  cases start
  obtain ⟨sched, -, hsys⟩ := of_bind hsys
  cases hsys
  refine ⟨fun id hid => ?_, fun t => by simp [Thread.ready], fun _ _ => rfl⟩
  by_contra hge
  exact hid (if_neg hge)

def Holdings.Unused (h : Holdings) : Prop :=
  ∀ id obj, h.sys.semas id = some obj → ∃ name, obj = .owner (semaNew name 1)

theorem Holdings.unused_of_boot {h : Holdings} (start : boot prio ts = .ok h) :
    h.Unused := by
  obtain ⟨sys, -, start⟩ := of_bind start
  cases start
  intro id obj hobj
  dsimp only at hobj
  split at hobj
  · exact ⟨[], (Option.some.inj hobj).symm⟩
  · cases hobj

/-- The priorities of a low thread, 1, of higher ones, 2 and 3, and of threads that are ready
all the time. -/
def lowAndHigh (t : ℕ) : Priority :=
  match t with
  | 0 => 0
  | 1 => 1
  | 2 | 5 => 5
  | _ => 7

/-- Thread 2 lends its priority to thread 1 and gets the semaphore from it; thread 1 is back
at its own priority. -/
theorem restored_of_run_once : ∃ h h', h.AtBase lowAndHigh ∧
    Run Holdings.step (InheritOk lowAndHigh) h [.get 1 0, .get 2 0, .release 1 0] h' ∧
    h'.held 0 2 = 1 ∧ Restored lowAndHigh h' := by
  obtain ⟨h, h', start, run, hlast⟩ := exists_run_from
    (Holdings.boot lowAndHigh [1, 2, 3, 4, 5]) Holdings.step (InheritOk lowAndHigh)
    [.get 1 0, .get 2 0, .release 1 0] (fun h => h.held 0 2 = 1) (by decide +kernel)
  have atBase := atBase_of_boot start
  exact ⟨h, h', atBase, run, of_decide_eq_true hlast, restored_of_run atBase run⟩

/-- Threads 2 and 3 lend their priorities to thread 1, one after the other. When thread 1
releases, it goes back to the priority of thread 2. -/
theorem not_restored : ∃ h calls h', h.AtBase lowAndHigh ∧ h.Unused ∧
    Run Holdings.step Holdings.Admitted h calls h' ∧ (h'.sys.threads 1).priority = 5 ∧
      ¬ Restored lowAndHigh h' := by
  obtain ⟨h, h', start, run, hlast⟩ := exists_run_from
    (Holdings.boot lowAndHigh [1, 2, 3, 4, 5]) Holdings.step Holdings.Admitted
    [.get 1 0, .get 2 0, .get 3 0, .release 1 0]
    (fun h => (h.sys.threads 1).priority = 5 ∧ (h.sys.threads 1).state ≠ .waiting ∧
      h.sys.semaBrk = 2 ∧ h.held 0 1 = 0 ∧ h.held 1 1 = 0) (by decide +kernel)
  obtain ⟨hprio, hstate, hbrk, hfirst, hsecond⟩ := of_decide_eq_true hlast
  have queued : Queued h' := run.invariant (idle_of_boot start).inheriting.toQueued
    fun _ _ _ queued _ hstep => queued.step hstep
  refine ⟨h, _, h', atBase_of_boot start, unused_of_boot start, run, hprio,
    fun restored => ?_⟩
  have hnone : ∀ id, h'.held id 1 = 0 := by
    intro id
    by_contra hne
    have hlt := queued.lt_of_held (Nat.pos_of_ne_zero hne)
    rw [hbrk] at hlt
    interval_cases id
    · exact hne hfirst
    · exact hne hsecond
  have hbase := restored 1 hnone hstate
  rw [hprio] at hbase
  exact absurd hbase (by decide)

/-- Threads 2 and 3 are blocked on a semaphore of thread 1. It is handed to thread 2, which is
lent the priority of thread 3. -/
theorem inherits_of_run_next : ∃ h h', h.Idle ∧
    Run Holdings.step (fun h c => h.Admitted c ∧ LendOk h c) h
      [.get 1 0, .get 2 0, .get 3 0, .release 1 0] h' ∧
    BlockedOn h'.sys.threads 0 3 ∧ h'.held 0 2 = 1 ∧ Inherits h' := by
  obtain ⟨h, h', start, run, hlast⟩ := exists_run_from
    (Holdings.boot lowAndHigh [1, 2, 3, 4, 5]) Holdings.step
    (fun h c => h.Admitted c ∧ LendOk h c) [.get 1 0, .get 2 0, .get 3 0, .release 1 0]
    (fun h => BlockedOn h.sys.threads 0 3 ∧ h.held 0 2 = 1) (by decide +kernel)
  obtain ⟨blocked, hheld⟩ := of_decide_eq_true hlast
  have idle := idle_of_boot start
  exact ⟨h, h', idle, run, blocked, hheld, inherits_of_run idle run⟩

theorem queued_of_run_next : ∃ h h', h.Idle ∧
    Run Holdings.step (fun _ _ => True) h [.get 1 0, .get 2 0, .get 3 0, .release 1 0] h' ∧
    3 ∈ h'.sys.listenersOf 0 ∧ 0 < (h'.sys.ownersOf 0).count 2 := by
  obtain ⟨h, h', start, run, hlast⟩ := exists_run_from
    (Holdings.boot lowAndHigh [1, 2, 3, 4, 5]) Holdings.step (fun _ _ => True)
    [.get 1 0, .get 2 0, .get 3 0, .release 1 0]
    (fun h => BlockedOn h.sys.threads 0 3 ∧ 0 < h.held 0 2) (by decide +kernel)
  obtain ⟨blocked, hheld⟩ := of_decide_eq_true hlast
  have idle := idle_of_boot start
  exact ⟨h, h', idle, run, (queued_of_run idle run 0 3).1 blocked,
    hheld.trans_le (queued_of_run idle run 0 2).2⟩

/-- Thread 1 holds two semaphores, with thread 3 blocked on the first and thread 2 on the
second. It releases the second and falls back to its own priority, with thread 3 still
blocked. -/
theorem not_inherits : ∃ h calls h', h.Idle ∧ h.Unused ∧
    Run Holdings.step Holdings.Admitted h calls h' ∧
    BlockedOn h'.sys.threads 0 3 ∧ h'.held 0 1 = 1 ∧ ¬ Inherits h' := by
  obtain ⟨h, h', start, run, hlast⟩ := exists_run_from
    (Holdings.boot lowAndHigh [1, 2, 3, 4, 5]) Holdings.step Holdings.Admitted
    [.get 1 0, .get 1 1, .get 3 0, .get 2 1, .release 1 1]
    (fun h => BlockedOn h.sys.threads 0 3 ∧ h.held 0 1 = 1 ∧
      (h.sys.threads 1).priority < (h.sys.threads 3).priority) (by decide +kernel)
  obtain ⟨blocked, hheld, hlt⟩ := of_decide_eq_true hlast
  refine ⟨h, _, h', idle_of_boot start, unused_of_boot start, run, blocked, hheld,
    fun inherits => ?_⟩
  exact absurd (inherits 0 3 1 blocked (by omega)) (not_le.mpr hlt)

end Tinker
