import Tinker.Scheduler.Invariant

/-!
# What a notification does to the ready queues

A notification rewrites the queue of one priority, or of two, and then works out which queue is
served. The second part is long, but it touches neither the queues nor the current thread. This
file says so once, for every scheduler, whatever its stack looks like.
-/

namespace Tinker

open Tinker.Lib Tinker.Collections Function Exec

namespace Scheduler

/-- Another queue may be served, but the queues hold what they held, and the current thread is
the same. -/
structure SameQueues (s s' : Scheduler) : Prop where
  queues : s'.priorityQueues = s.priorityQueues
  current : s'.currThread = s.currThread

theorem SameQueues.refl (s : Scheduler) : SameQueues s s := ⟨rfl, rfl⟩

theorem SameQueues.trans {s s' s'' : Scheduler} (h : SameQueues s s') (h' : SameQueues s' s'') :
    SameQueues s s'' :=
  ⟨h'.queues.trans h.queues, h'.current.trans h.current⟩

end Scheduler

open Scheduler

variable {threads : Threads} {s s' : Scheduler} {t : ℕ} {p q : Priority}

/-! ## The search for the queue to serve -/

theorem insertLowerLoop_sameQueues {fuel : ℕ} {it : ListIt} {found : Option Priority}
    (h : insertLowerLoop threads s p fuel it found = .ok s') : SameQueues s s' := by
  induction fuel generalizing it found with
  | zero =>
    cases found with
    | none =>
      cases h
      exact .refl s
    | some q => cases h
  | succ fuel ih =>
    cases found with
    | none =>
      cases h
      exact .refl s
    | some q =>
      obtain ⟨front, -, h⟩ := of_bind h
      cases front with
      | none =>
        obtain ⟨⟨next, it'⟩, -, h⟩ := of_bind h
        exact ih h
      | some first =>
        dsimp only at h
        split at h
        · cases h
          exact .refl s
        split at h
        · obtain ⟨⟨inserted, stack⟩, -, h⟩ := of_bind h
          split at h
          · cases h
            exact ⟨rfl, rfl⟩
          · cases h
        obtain ⟨⟨next, it'⟩, -, h⟩ := of_bind h
        exact ih h

theorem insertLower_sameQueues (h : insertLowerPriorityQueueToStack threads s p = .ok s') :
    SameQueues s s' := by
  obtain ⟨⟨stackQueue, it⟩, -, h⟩ := of_bind h
  exact insertLowerLoop_sameQueues h

theorem schPriorityFindNextQueue_sameQueues
    (h : schPriorityFindNextQueue threads s t = .ok s') : SameQueues s s' := by
  obtain ⟨stack, -, h⟩ := of_bind h
  cases h
  exact ⟨rfl, rfl⟩

theorem schRaisePriority_sameQueues (h : schRaisePriority threads s p = .ok s') :
    SameQueues s s' := by
  unfold schRaisePriority at h
  split at h
  · obtain ⟨stack, -, h⟩ := of_bind h
    cases h
    exact ⟨rfl, rfl⟩
  split at h
  · exact insertLower_sameQueues h
  cases h
  exact .refl s

theorem schServeNext_sameQueues (h : schServeNext threads s t = .ok s') : SameQueues s s' := by
  obtain ⟨⟨popped, stack⟩, -, h⟩ := of_bind h
  obtain ⟨front, -, h⟩ := of_bind h
  have hpop : SameQueues s { s with
      currQueue := popped.getD s.currQueue, queueStack := stack } := ⟨rfl, rfl⟩
  cases front with
  | some front =>
    obtain ⟨first, -, h⟩ := of_bind h
    cases h
    exact ⟨rfl, rfl⟩
  | none => exact hpop.trans (schPriorityFindNextQueue_sameQueues h)

theorem schPlaceQueue_sameQueues (h : schPlaceQueue threads s p q = .ok s') : SameQueues s s' := by
  unfold schPlaceQueue at h
  split at h
  · obtain ⟨stack, -, h⟩ := of_bind h
    cases h
    exact ⟨rfl, rfl⟩
  · exact insertLower_sameQueues h

theorem schServeTop_sameQueues (h : schServeTop threads s t = .ok s') : SameQueues s s' := by
  obtain ⟨front, -, h⟩ := of_bind h
  cases front with
  | some front =>
    obtain ⟨first, -, h⟩ := of_bind h
    cases first with
    | some first =>
      cases h
      exact ⟨rfl, rfl⟩
    | none => cases h
  | none => exact schPriorityFindNextQueue_sameQueues h

/-! ## The notifications -/

theorem schNotifyNewThread_cases (h : schNotifyNewThread threads s t = .ok s') :
    ∃ queued queue, queueContains (s.queue (threads t).priority) t = .ok queued ∧
      (if queued then .ok (s.queue (threads t).priority)
        else queuePush (s.queue (threads t).priority) t) = .ok queue ∧
      SameQueues (s.setQueue (threads t).priority queue) s' := by
  obtain ⟨queued, hqueued, h⟩ := of_bind h
  cases queued with
  | true =>
    refine ⟨true, _, hqueued, rfl, ?_⟩
    have hself : s.setQueue (threads t).priority (s.queue (threads t).priority) = s := by
      simp [Scheduler.setQueue, Scheduler.queue, update_eq_self]
    rw [hself]
    exact schRaisePriority_sameQueues h
  | false =>
    obtain ⟨queue, hpush, h⟩ := of_bind h
    exact ⟨false, queue, hqueued, hpush, schRaisePriority_sameQueues h⟩

theorem schNotifyExitThread_cases (h : schNotifyExitThread threads s t = .ok s') :
    ∃ removed queue, queueRemove (s.queue (threads t).priority) t = .ok (removed, queue) ∧
      SameQueues (s.setQueue (threads t).priority queue) s' := by
  obtain ⟨⟨removed, queue⟩, hremove, h⟩ := of_bind h
  refine ⟨removed, queue, hremove, ?_⟩
  dsimp only at h
  split at h
  · have heval : SameQueues (s.setQueue (threads t).priority queue)
        { s.setQueue (threads t).priority queue with evalNewThread := true } := ⟨rfl, rfl⟩
    split at h
    · exact heval.trans (schServeNext_sameQueues h)
    cases h
    exact heval
  cases h
  exact .refl _

theorem schNotifyChangePriority_cases (h : schNotifyChangePriority threads s t q = .ok s') :
    ∃ removed queue queue', queueRemove (s.queue q) t = .ok (removed, queue) ∧
      queuePush ((s.setQueue q queue).queue (threads t).priority) t = .ok queue' ∧
      SameQueues ((s.setQueue q queue).setQueue (threads t).priority queue') s' := by
  obtain ⟨⟨removed, queue⟩, hremove, h⟩ := of_bind h
  obtain ⟨queue', hpush, h⟩ := of_bind h
  refine ⟨removed, queue, queue', hremove, hpush, ?_⟩
  dsimp only at h
  split at h
  · obtain ⟨⟨popped, stack⟩, -, h⟩ := of_bind h
    obtain ⟨s₁, hplace, h⟩ := of_bind h
    obtain ⟨hqueues, hcurrent⟩ :=
      (schPlaceQueue_sameQueues hplace).trans (schServeTop_sameQueues h)
    exact ⟨hqueues, hcurrent⟩
  · exact schPlaceQueue_sameQueues h

/-! ## The sequences -/

def Scheduler.Holds (s : Scheduler) (queues : Priority → List ℕ) : Prop :=
  ∀ p, IsQueue (s.queue p) (queues p)

namespace Scheduler.Holds

variable {queues : Priority → List ℕ}

section

variable (h : s.Holds queues)
include h

theorem congr (same : s'.priorityQueues = s.priorityQueues) : s'.Holds queues := fun p => by
  rw [Scheduler.queue, same]
  exact h p

theorem setQueue {l : ListT ℕ} {ts : List ℕ} (hl : IsQueue l ts) :
    (s.setQueue p l).Holds (update queues p ts) := fun r => by
  by_cases hr : r = p
  · subst hr
    simpa [Scheduler.queue, Scheduler.setQueue] using hl
  · simpa [Scheduler.queue, Scheduler.setQueue, hr] using h r

theorem newThread (hs : schNotifyNewThread threads s t = .ok s') :
    s'.Holds (update queues (threads t).priority
      (enqueue t (queues (threads t).priority))) := by
  obtain ⟨queued, queue, hqueued, hqueue, same⟩ := schNotifyNewThread_cases hs
  refine (h.setQueue ?_).congr same.queues
  have hmem : queued = decide (t ∈ queues (threads t).priority) :=
    Except.ok.inj (hqueued.symm.trans ((h (threads t).priority).listContains t))
  subst hmem
  unfold enqueue
  by_cases ht : t ∈ queues (threads t).priority
  · rw [if_pos (decide_eq_true ht)] at hqueue
    rw [if_pos ht, ← Except.ok.inj hqueue]
    exact h _
  rw [if_neg (by simpa using ht)] at hqueue
  obtain ⟨queue', hpush, hq⟩ := (h (threads t).priority).listAdd t
  rw [if_neg ht, ← Except.ok.inj (hpush.symm.trans hqueue)]
  exact hq

theorem exitThread (hs : schNotifyExitThread threads s t = .ok s') :
    s'.Holds (update queues (threads t).priority
      ((queues (threads t).priority).erase t)) := by
  obtain ⟨removed, queue, hremove, same⟩ := schNotifyExitThread_cases hs
  obtain ⟨queue', hremove', hq⟩ := (h (threads t).priority).listRemoveItem t
  cases hremove'.symm.trans hremove
  exact (h.setQueue hq).congr same.queues

theorem changePriority (hs : schNotifyChangePriority threads s t q = .ok s') :
    s'.Holds (moveThread queues t q (threads t).priority) := by
  obtain ⟨removed, queue, queue', hremove, hpush, same⟩ := schNotifyChangePriority_cases hs
  obtain ⟨queue₁, hremove', hq⟩ := (h q).listRemoveItem t
  cases hremove'.symm.trans hremove
  have hmid := h.setQueue (p := q) hq
  obtain ⟨queue₂, hpush', hq'⟩ := (hmid (threads t).priority).listAdd t
  cases hpush'.symm.trans hpush
  exact (hmid.setQueue hq').congr same.queues

end

end Scheduler.Holds

/-! ## The search for another queue -/

def queueAt (s : Scheduler) (p : ℕ) : Exec (ListT ℕ) :=
  if h : p < 256 then .ok (s.queue ⟨p, h⟩) else .error .badPointer

/-- The loop of `sch_priority_find_next_queue`. The index is one byte and is decremented in front
of each look at a queue. -/
def findNextLoop (s : Scheduler) : (fuel p : ℕ) → Exec ℕ
  | 0, _ => .error .diverges
  | fuel + 1, p => do
    let p := (p + 255) % 256
    let queue ← queueAt s p
    if queueSize queue ≠ 0 then return p
    else if p ≠ 0 then findNextLoop s fuel p
    else return p

/-- From an index on there are at most as many rounds as queues below it. -/
theorem findNextLoop_eq (s : Scheduler) {m p fuel : ℕ} (hm : m < 256) (hp : (p + 255) % 256 = m)
    (hfuel : m < fuel) : findNextLoop s fuel p = .ok (findQueueFrom s m) := by
  induction m generalizing p fuel with
  | zero =>
    obtain ⟨fuel, rfl⟩ := Nat.exists_eq_succ_of_ne_zero hfuel.ne'
    simp [findNextLoop, hp, queueAt, findQueueFrom]
  | succ m ih =>
    obtain ⟨fuel, rfl⟩ := Nat.exists_eq_add_of_lt (Nat.zero_lt_of_lt hfuel)
    have hrest : findNextLoop s (0 + fuel) (m + 1) = .ok (findQueueFrom s m) :=
      ih (by omega) (by omega) (by omega)
    have hqueue : queueAt s (m + 1) = .ok (s.queue (Fin.ofNat 256 (m + 1))) := by
      rw [queueAt, dif_pos hm]
      exact congrArg _ (congrArg s.queue (Fin.ext (Nat.mod_eq_of_lt hm).symm))
    simp only [findNextLoop, hp, hqueue, ok_bind, findQueueFrom, hrest]
    split <;> rfl

/-- The search ends at the last queue in front of the index that is not empty, or at the first. -/
theorem findQueueFrom_spec (s : Scheduler) (m : ℕ) :
    findQueueFrom s m ≤ m ∧
      (findQueueFrom s m = 0 ∨ queueSize (s.queue (Fin.ofNat 256 (findQueueFrom s m))) ≠ 0) ∧
      ∀ r ≤ m, findQueueFrom s m < r → queueSize (s.queue (Fin.ofNat 256 r)) = 0 := by
  induction m with
  | zero => exact ⟨le_rfl, .inl rfl, fun r hr hlt => absurd hlt (by omega)⟩
  | succ m ih =>
    rw [findQueueFrom]
    split
    next hsize => exact ⟨le_rfl, .inr hsize, fun r hr hlt => absurd hlt (by omega)⟩
    next hempty =>
      refine ⟨by omega, ih.2.1, fun r hr hlt => ?_⟩
      rcases Nat.le_succ_iff.mp hr with hle | rfl
      · exact ih.2.2 r hle hlt
      · exact not_not.mp hempty

/-- The queue that is found is the one of the greatest priority below that of the thread, or below
256 if the thread has the priority 0; it is served and pushed. -/
theorem schPriorityFindNextQueue_greatest (threads : Threads) (s : Scheduler) (t : ℕ) :
    ∃ q : Priority,
      findNextLoop s 256 (threadGetPriority threads t) = .ok q.val ∧
      (IsGreatest {r | (r < threadGetPriority threads t ∨ threadGetPriority threads t = 0) ∧
          queueSize (s.queue r) ≠ 0} q ∨
        (∀ r, r < threadGetPriority threads t ∨ threadGetPriority threads t = 0 →
          queueSize (s.queue r) = 0) ∧ q = 0) ∧
      schPriorityFindNextQueue threads s t = (do
        let stack ← stackPush s.queueStack q
        return { s with currPriority := q, currQueue := q, queueStack := stack }) ∧
      ∀ qs, IsStack s.queueStack qs →
        ∃ stack, stackPush s.queueStack q = .ok stack ∧ IsStack stack (qs ++ [q]) := by
  set p := threadGetPriority threads t
  have hp : (p - 1).val = (p.val + 255) % 256 := by
    rw [Fin.val_sub, Nat.add_comm]
    rfl
  obtain ⟨hle, hfound, hempty⟩ := findQueueFrom_spec s (p - 1).val
  have hval : (Fin.ofNat 256 (findQueueFrom s (p - 1).val)).val = findQueueFrom s (p - 1).val :=
    Nat.mod_eq_of_lt (hle.trans_lt (p - 1).isLt)
  -- the queues that the loop may look at
  have hbelow (r : Priority) : r < p ∨ p = 0 ↔ r.val ≤ (p - 1).val := by
    rw [hp, Fin.lt_def, Fin.ext_iff]
    omega
  have hofNat (r : Priority) : Fin.ofNat 256 r.val = r := Fin.ext (Nat.mod_eq_of_lt r.isLt)
  have habove (r : Priority) (hr : r < p ∨ p = 0)
      (hlt : findQueueFrom s (p - 1).val < r.val) : queueSize (s.queue r) = 0 :=
    hofNat r ▸ hempty r.val ((hbelow r).mp hr) hlt
  refine ⟨Fin.ofNat 256 (findQueueFrom s (p - 1).val), ?_, ?_, rfl, fun qs stack => stack.listAdd _⟩
  · rw [hval]
    exact findNextLoop_eq s (p - 1).isLt hp.symm (p - 1).isLt
  · by_cases hsize : queueSize (s.queue (Fin.ofNat 256 (findQueueFrom s (p - 1).val))) ≠ 0
    · refine .inl ⟨⟨(hbelow _).mpr (hval.trans_le hle), hsize⟩, fun r hr => ?_⟩
      rw [Fin.le_def, hval]
      exact not_lt.mp fun hlt => hr.2 (habove r hr.1 hlt)
    · have hzero : findQueueFrom s (p - 1).val = 0 := hfound.resolve_right hsize
      rw [hzero] at habove hsize ⊢
      refine .inr ⟨fun r hr => ?_, rfl⟩
      rcases Nat.eq_zero_or_pos r.val with hr0 | hpos
      · rw [← hofNat r, hr0]
        exact not_not.mp hsize
      · exact habove r hr hpos

end Tinker
