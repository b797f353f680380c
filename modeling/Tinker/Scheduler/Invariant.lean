import Tinker.Scheduler.Basic

/-!
# What the scheduler's lists hold

`QueuesHold` relates a scheduler to the sequences its queues and its stack hold: every queue holds
distinct threads of its own priority, all in states of one kind, the idle thread is the first one of
queue 0, and the stack starts with queue 0.

The stack need not be ordered by priority: `list_insert` cannot put a queue anywhere but behind
queue 0, because the search for the place stops at queue 0, which is never empty.
-/

namespace Tinker

open Tinker.Lib Tinker.Collections Function Exec

/-- The scheduler's lists hold the threads `queues` and the queues `0 :: above`. -/
structure QueuesHold (ok : ThreadState → Prop) (idle : ℕ) (threads : Threads) (s : Scheduler)
    (queues : Priority → List ℕ) (above : List Priority) : Prop where
  queue : ∀ p, IsQueue (s.queue p) (queues p)
  stack : IsStack s.queueStack (0 :: above)
  priority : ∀ p, ∀ t ∈ queues p, (threads t).priority = p
  runnable : ∀ p, ∀ t ∈ queues p, ok (threads t).state
  nodup : ∀ p, (queues p).Nodup
  idle_head : (queues 0).head? = some idle

variable {ok : ThreadState → Prop} {idle t : ℕ} {threads : Threads} {s : Scheduler}
  {queues : Priority → List ℕ} {above : List Priority} {p q : Priority}

namespace QueuesHold

section

variable (h : QueuesHold ok idle threads s queues above)
include h

theorem idle_mem : idle ∈ queues 0 :=
  List.mem_of_head? h.idle_head

theorem front (p : Priority) :
    queueFront (s.queue p) = .ok (queues p).head? :=
  (h.queue p).listGet_zero

theorem size_eq (p : Priority) :
    queueSize (s.queue p) = (queues p).length :=
  (h.queue p).size_eq

theorem head (hne : queues p ≠ []) :
    ∃ u, (queues p).head? = some u ∧ threadGetPriority threads u = p := by
  obtain ⟨u, us, hus⟩ := List.exists_cons_of_ne_nil hne
  exact ⟨u, by simp [hus], h.priority p u (by simp [hus])⟩

theorem queue_zero_ne_nil : queues 0 ≠ [] :=
  List.ne_nil_of_mem h.idle_mem

theorem ne_zero_of_alone (hne : t ≠ idle) (hsingle : queues p = [t]) : p ≠ 0 := by
  rintro rfl
  exact hne (List.mem_singleton.mp (hsingle ▸ h.idle_mem)).symm

theorem mono {ok' : ThreadState → Prop} (weaker : ∀ st, ok st → ok' st) :
    QueuesHold ok' idle threads s queues above :=
  { h with runnable := fun p t ht => weaker _ (h.runnable p t ht) }

theorem congr (s' : Scheduler) (hqueues : s'.priorityQueues = s.priorityQueues)
    (hstack : s'.queueStack = s.queueStack) : QueuesHold ok idle threads s' queues above where
  queue p := by
    rw [Scheduler.queue, hqueues]
    exact h.queue p
  stack := hstack ▸ h.stack
  priority := h.priority
  runnable := h.runnable
  nodup := h.nodup
  idle_head := h.idle_head

theorem setStack {stack : ListT Priority} {above' : List Priority}
    (hstack : IsStack stack (0 :: above')) :
    QueuesHold ok idle threads { s with queueStack := stack } queues above' :=
  { h with stack := hstack }

theorem setQueue {l : ListT ℕ} {ts : List ℕ} (hl : IsQueue l ts)
    (hprio : ∀ u ∈ ts, (threads u).priority = p) (hrun : ∀ u ∈ ts, ok (threads u).state)
    (hnodup : ts.Nodup) (hidle : p = 0 → ts.head? = some idle) :
    QueuesHold ok idle threads (s.setQueue p l) (update queues p ts) above where
  queue q := by
    by_cases hq : q = p
    · subst hq
      simpa [Scheduler.queue, Scheduler.setQueue] using hl
    · simpa [Scheduler.queue, Scheduler.setQueue, hq] using h.queue q
  stack := h.stack
  priority := (forall_update_iff queues fun q us => ∀ u ∈ us, (threads u).priority = q).mpr
    ⟨hprio, fun q _ => h.priority q⟩
  runnable := (forall_update_iff queues fun _ us => ∀ u ∈ us, ok (threads u).state).mpr
    ⟨hrun, fun q _ => h.runnable q⟩
  nodup := (forall_update_iff queues fun _ us => us.Nodup).mpr ⟨hnodup, fun q _ => h.nodup q⟩
  idle_head := by
    by_cases hp : 0 = p
    · subst hp
      simpa using hidle rfl
    · simpa [hp] using h.idle_head

theorem setThread {thread : Thread} (hprio : ∀ p, t ∈ queues p → thread.priority = p)
    (hrun : ∀ p, t ∈ queues p → ok thread.state) :
    QueuesHold ok idle (update threads t thread) s queues above :=
  { h with
    priority := fun p => (forall_update_iff threads fun u x => u ∈ queues p → x.priority = p).mpr
      ⟨hprio p, fun u _ => h.priority p u⟩
    runnable := fun p => (forall_update_iff threads fun u x => u ∈ queues p → ok x.state).mpr
      ⟨hrun p, fun u _ => h.runnable p u⟩ }

theorem mem_unique (hp : t ∈ queues p) (hq : t ∈ queues q) :
    p = q :=
  (h.priority p t hp).symm.trans (h.priority q t hq)

theorem not_mem_update_erase (hp : (threads t).priority = p) (q : Priority) :
    t ∉ update queues p ((queues p).erase t) q := by
  by_cases hq : q = p
  · subst hq
    simpa using (h.nodup q).not_mem_erase
  rw [update_of_ne hq]
  exact fun hmem => hq ((h.priority q t hmem).symm.trans hp)

end

end QueuesHold

theorem exists_top (above : List Priority) : ∃ q, (0 :: above).getLast? = some q :=
  ⟨_, List.getLast?_eq_some_getLast (List.cons_ne_nil 0 above)⟩

/-- The stack of queues after `insert_lower_priority_queue_to_stack`, above queue 0. -/
def insertAbove (p : Priority) (above : List Priority) : List Priority :=
  if p = 0 then above else p :: above

/-- The stack of queues, above queue 0, once a thread of priority `p` has been queued while
the queue of `c` is being served. -/
def raiseAbove (c p : Priority) (above : List Priority) : List Priority :=
  if c < p then above ++ [p] else if p < c then insertAbove p above else above

theorem getLast_insertAbove (hq : (0 :: above).getLast? = some q) :
    (0 :: insertAbove p above).getLast? = some (if above = [] then p else q) := by
  unfold insertAbove
  split_ifs with hp hnil hnil
  · simp [hnil, hp]
  · exact hq
  · simp [hnil]
  rw [List.getLast?_cons, List.getLast?_eq_some_getLast hnil] at hq
  rw [List.getLast?_cons, List.getLast?_cons, List.getLast?_eq_some_getLast hnil]
  exact hq

/-- The search for the place of a queue in the stack stops at queue 0. -/
theorem insertLower_spec (stack : IsStack s.queueStack (0 :: above))
    (front : queueFront (s.queue 0) = .ok (some t)) (bottom : (threads t).priority = 0) :
    ∃ stack', insertLowerPriorityQueueToStack threads s p = .ok { s with queueStack := stack' } ∧
      IsStack stack' (0 :: insertAbove p above) := by
  have hprio : threadGetPriority threads t = 0 := bottom
  simp only [insertLowerPriorityQueueToStack, stack.listItGet_listItCreate, ok_bind,
    insertLowerLoop, front, hprio]
  by_cases hp : p = 0
  · subst hp
    exact ⟨s.queueStack, by simp, by simpa [insertAbove] using stack⟩
  obtain ⟨stack', hinsert, hstack⟩ := IsStack.listInsert [] above 0 stack rfl p
  refine ⟨stack', ?_, by simpa [insertAbove, hp] using hstack⟩
  have hlt : (0 : Priority) < p := Fin.pos_of_ne_zero hp
  simp [Ne.symm hp, hlt, listItWhere, listItCreate, hinsert]

namespace QueuesHold

theorem insertLower (h : QueuesHold ok idle threads s queues above) (p : Priority) :
    ∃ stack, insertLowerPriorityQueueToStack threads s p = .ok { s with queueStack := stack } ∧
      IsStack stack (0 :: insertAbove p above) := by
  obtain ⟨u, hu, hprio⟩ := h.head h.queue_zero_ne_nil
  exact insertLower_spec h.stack (by rw [h.front 0, hu]) hprio

theorem raisePriority (h : QueuesHold ok idle threads s queues above)
    (top : (0 :: above).getLast? = some s.currQueue) (serving : s.currQueue = s.currPriority) :
    ∃ s', schRaisePriority threads s p = .ok s' ∧
      QueuesHold ok idle threads s' queues (raiseAbove s.currPriority p above) ∧
      (0 :: raiseAbove s.currPriority p above).getLast? = some s'.currQueue ∧
      s'.currQueue = s'.currPriority ∧ s'.currPriority = max s.currPriority p := by
  unfold schRaisePriority raiseAbove
  rcases lt_trichotomy s.currPriority p with hlt | heq | hgt
  · obtain ⟨stack, hpush, hstack⟩ := h.stack.listAdd p
    refine ⟨{ s with
      evalNewThread := true, currPriority := p, currQueue := p, queueStack := stack },
      by simp [hlt, hpush], ?_, ?_, rfl, (max_eq_right hlt.le).symm⟩
    · rw [if_pos hlt]
      exact (h.setStack hstack).congr _ rfl rfl
    · simp [hlt, List.getLast?_cons]
  · refine ⟨s, by simp [heq], ?_, ?_, serving, by simp [heq]⟩
    · simpa [heq] using h
    · simpa [heq] using top
  obtain ⟨stack, hinsert, hstack⟩ := h.insertLower p
  rw [if_neg hgt.not_gt, if_pos hgt, if_neg hgt.not_gt, if_pos hgt]
  refine ⟨_, hinsert, h.setStack hstack, ?_, serving, (max_eq_left hgt.le).symm⟩
  -- queue 0 is not being served, so there are queues above it
  have hne : above ≠ [] := by
    rintro rfl
    have hzero : (0 : Priority) = s.currQueue := by simpa using top
    rw [serving] at hzero
    exact absurd (hzero ▸ hgt) (Fin.not_lt_zero p)
  rw [getLast_insertAbove top, if_neg hne]

theorem popStack {r : Priority} (h : QueuesHold ok idle threads s queues (above ++ [r])) :
    ∃ stack, stackPop s.queueStack = .ok (some r, stack) ∧
      QueuesHold ok idle threads { s with currQueue := r, queueStack := stack } queues above := by
  obtain ⟨stack, hpop, hstack⟩ := IsStack.stackPop (0 :: above) r h.stack
  exact ⟨stack, hpop, (h.setStack hstack).congr _ rfl rfl⟩

theorem placeQueue_raise (h : QueuesHold ok idle threads s queues above) (raised : p < q) :
    ∃ s', schPlaceQueue threads s q p = .ok s' ∧
      QueuesHold ok idle threads s' queues (above ++ [q]) ∧
      s'.currQueue = q ∧ s'.currPriority = q := by
  obtain ⟨stack, hpush, hstack⟩ := h.stack.listAdd q
  refine ⟨{ s with
    evalNewThread := true, currPriority := q, currQueue := q, queueStack := stack }, ?_,
    (h.setStack hstack).congr _ rfl rfl, rfl, rfl⟩
  simp [schPlaceQueue, raised, hpush]

theorem placeQueue_lower (h : QueuesHold ok idle threads s queues above) (lowered : q ≤ p) :
    ∃ s', schPlaceQueue threads s q p = .ok s' ∧
      QueuesHold ok idle threads s' queues (insertAbove q above) ∧
      s'.currQueue = s.currQueue ∧ s'.currPriority = s.currPriority := by
  obtain ⟨stack, hinsert, hstack⟩ := h.insertLower q
  refine ⟨_, ?_, h.setStack hstack, rfl, rfl⟩
  simp [schPlaceQueue, lowered.not_gt, hinsert]

theorem serveNext {r : Priority} (h : QueuesHold ok idle threads s queues (above ++ [r])) (t : ℕ) :
    ∃ s' q, schServeNext threads s t = .ok s' ∧ QueuesHold ok idle threads s' queues above ∧
      (0 :: above).getLast? = some q ∧ s'.currQueue = q ∧
      s'.currPriority = (if queues q = [] then 0 else q) := by
  obtain ⟨stack, hpop, hwf⟩ := h.popStack
  obtain ⟨q, hq⟩ := exists_top above
  have hfront : queueFront (s.queue q) = .ok (queues q).head? := h.front q
  refine ⟨{ s with
    queueStack := stack, currQueue := q,
    currPriority := ((queues q).head?.map (threadGetPriority threads)).getD 0 }, q, ?_,
    hwf.congr _ rfl rfl, hq, rfl, ?_⟩
  · simp only [schServeNext, hpop, ok_bind, hwf.stack.listGetTail, hq, hfront]
    rfl
  split
  next hnil => simp [hnil]
  next hne =>
    obtain ⟨u, hu, hprio⟩ := h.head hne
    simp [hu, hprio]

theorem serveTop (h : QueuesHold ok idle threads s queues above)
    (hq : (0 :: above).getLast? = some q) (hne : queues q ≠ []) (t : ℕ) :
    ∃ s', schServeTop threads s t = .ok s' ∧ QueuesHold ok idle threads s' queues above ∧
      s'.currQueue = q ∧ s'.currPriority = q := by
  obtain ⟨u, hu, hprio⟩ := h.head hne
  have hfront : queueFront (s.queue q) = .ok (some u) := by rw [h.front q, hu]
  refine ⟨_, ?_, h.congr { s with currQueue := q, evalNewThread := true, currPriority := q }
    rfl rfl, rfl, rfl⟩
  simp [schServeTop, h.stack.listGetTail, hq, hfront, hprio]

theorem serveTop_halted (h : QueuesHold ok idle threads s queues above)
    (hq : (0 :: above).getLast? = some q)
    (hnil : queues q = []) (t : ℕ) : schServeTop threads s t = .error .halted := by
  have hfront : queueFront (s.queue q) = .ok none := by rw [h.front q, hnil]; rfl
  simp [schServeTop, h.stack.listGetTail, hq, hfront, kernelPanic]

end QueuesHold

/-! ## Notifications -/

/-- A queue after a thread has been pushed unless it was there. -/
def enqueue (t : ℕ) (ts : List ℕ) : List ℕ := if t ∈ ts then ts else ts ++ [t]

namespace QueuesHold

section

variable (h : QueuesHold ok idle threads s queues above)
include h

theorem head_erase (hne : t ≠ idle) : ((queues 0).erase t).head? = some idle := by
  obtain ⟨ts, hts⟩ := List.head?_eq_some_iff.mp h.idle_head
  rw [hts, List.erase_cons_tail (by simpa using hne.symm)]
  rfl

theorem eraseThread {l : ListT ℕ} (hne : t ≠ idle) (hl : IsQueue l ((queues p).erase t)) :
    QueuesHold ok idle threads (s.setQueue p l) (update queues p ((queues p).erase t)) above := by
  refine h.setQueue hl (fun u hu => h.priority p u (List.mem_of_mem_erase hu))
    (fun u hu => h.runnable p u (List.mem_of_mem_erase hu)) ((h.nodup p).erase t) ?_
  rintro rfl
  exact h.head_erase hne

theorem pushThread {l : ListT ℕ} (hl : IsQueue l (queues p ++ [t])) (hnot : t ∉ queues p)
    (hprio : (threads t).priority = p) (hrun : ok (threads t).state) :
    QueuesHold ok idle threads (s.setQueue p l) (update queues p (queues p ++ [t])) above := by
  refine h.setQueue hl ?_ ?_ ?_ ?_
  · simp only [List.mem_append, List.mem_singleton]
    rintro u (hu | rfl)
    · exact h.priority p u hu
    · exact hprio
  · simp only [List.mem_append, List.mem_singleton]
    rintro u (hu | rfl)
    · exact h.runnable p u hu
    · exact hrun
  · exact List.nodup_append.mpr ⟨h.nodup p, by simp, by
      rintro u hu v hv rfl
      exact hnot (List.mem_singleton.mp hv ▸ hu)⟩
  rintro rfl
  rw [List.head?_append, h.idle_head]
  rfl

theorem newThread (t : ℕ) (thread : Thread) (top : (0 :: above).getLast? = some s.currQueue)
    (serving : s.currQueue = s.currPriority) (hprio : ∀ p, t ∈ queues p → thread.priority = p)
    (hrun : ok thread.state) :
    ∃ s', schNotifyNewThread (update threads t thread) s t = .ok s' ∧
      QueuesHold ok idle (update threads t thread) s' (update queues thread.priority
        (enqueue t (queues thread.priority))) (raiseAbove s.currPriority thread.priority above) ∧
      (0 :: raiseAbove s.currPriority thread.priority above).getLast? = some s'.currQueue ∧
      s'.currQueue = s'.currPriority ∧ s'.currPriority = max s.currPriority thread.priority := by
  have hthread := h.setThread hprio fun _ _ => hrun
  have hget : threadGetPriority (update threads t thread) t = thread.priority := by
    simp [threadGetPriority]
  simp only [schNotifyNewThread, hget, (h.queue _).listContains, ok_bind, decide_eq_true_eq,
    enqueue]
  split
  · rw [update_eq_self]
    exact hthread.raisePriority top serving
  next hnot =>
    obtain ⟨l, hpush, hl⟩ := (h.queue thread.priority).listAdd t
    simp only [hpush, ok_bind]
    exact (hthread.pushThread hl hnot (by simp) (by simpa using hrun)).raisePriority top serving

/-- A queued thread other than the idle thread leaves its queue; if it was the last one of
the queue being served, the scheduler goes back to another queue. -/
theorem exitThread (thread : Thread) (ht : t ∈ queues p) (hne : t ≠ idle)
    (hprio : thread.priority = p) :
    ∃ s', schNotifyExitThread (update threads t thread) s t =
        (if update queues p ((queues p).erase t) s.currQueue = [] then
          schServeNext (update threads t thread) s' t
        else .ok s') ∧
      QueuesHold ok idle (update threads t thread) s' (update queues p ((queues p).erase t)) above ∧
      s'.currQueue = s.currQueue ∧ s'.currPriority = s.currPriority := by
  obtain ⟨l, hremove, hl⟩ := (h.queue p).listRemoveItem t
  have hwf : QueuesHold ok idle (update threads t thread)
      { s.setQueue p l with evalNewThread := true }
      (update queues p ((queues p).erase t)) above :=
    ((h.eraseThread hne hl).setThread
      (fun q hq => absurd hq (h.not_mem_update_erase (h.priority p t ht) q))
      (fun q hq => absurd hq (h.not_mem_update_erase (h.priority p t ht) q))).congr _ rfl rfl
  refine ⟨_, ?_, hwf, rfl, rfl⟩
  have hget : threadGetPriority (update threads t thread) t = p := by
    simp [threadGetPriority, hprio]
  have hsize := hwf.size_eq s.currQueue
  simp only [schNotifyExitThread, hget, hremove, ht, ok_bind, decide_true, ↓reduceIte]
  refine if_congr ?_ rfl rfl
  rw [← List.length_eq_zero_iff, ← hsize]
  rfl

end

end QueuesHold

theorem QueuesHold.exitThread_absent (h : QueuesHold ok idle threads s queues above)
    (thread : Thread) (hnot : ∀ p, t ∉ queues p) :
    ∃ s', schNotifyExitThread (update threads t thread) s t = .ok s' ∧
      QueuesHold ok idle (update threads t thread) s' queues above ∧
      s'.currQueue = s.currQueue ∧ s'.currPriority = s.currPriority := by
  have hthread : QueuesHold ok idle (update threads t thread) s queues above :=
    h.setThread (fun p hp => absurd hp (hnot p)) fun p hp => absurd hp (hnot p)
  obtain ⟨l, hremove, hl⟩ := (h.queue thread.priority).listRemoveItem t
  rw [List.erase_of_not_mem (hnot _)] at hl
  have hwf : QueuesHold ok idle (update threads t thread) (s.setQueue thread.priority l) queues
      above := by
    have hset := hthread.setQueue hl (hthread.priority _) (hthread.runnable _) (hthread.nodup _)
      fun hzero => hzero ▸ hthread.idle_head
    rwa [update_eq_self] at hset
  refine ⟨_, ?_, hwf, rfl, rfl⟩
  have hget : threadGetPriority (update threads t thread) t = thread.priority := by
    simp [threadGetPriority]
  simp [schNotifyExitThread, hget, hremove, hnot]

/-- The queues after a thread has been moved from the queue `p` to the queue `q`. -/
def moveThread (queues : Priority → List ℕ) (t : ℕ) (p q : Priority) : Priority → List ℕ :=
  let removed := update queues p ((queues p).erase t)
  update removed q (removed q ++ [t])

namespace QueuesHold

/-- A thread other than the idle thread moves to the queue of its new priority. It is put
there even if it was in no queue before. -/
theorem changePriority (h : QueuesHold ok idle threads s queues above)
    (hp : (threads t).priority = p) (hne : t ≠ idle) (hok : ok (threads t).state) :
    ∃ s', schNotifyChangePriority (threadSetPriority threads t q) s t p =
        (if moveThread queues t p q s.currQueue = [] then do
          let (popped, stack) ← stackPop s'.queueStack
          let s ← schPlaceQueue (threadSetPriority threads t q)
            { s' with currQueue := popped.getD s'.currQueue, queueStack := stack } q p
          schServeTop (threadSetPriority threads t q) s t
        else schPlaceQueue (threadSetPriority threads t q) s' q p) ∧
      QueuesHold ok idle (threadSetPriority threads t q) s' (moveThread queues t p q) above ∧
      s'.currQueue = s.currQueue ∧ s'.currPriority = s.currPriority := by
  obtain ⟨l, hremove, hl⟩ := (h.queue p).listRemoveItem t
  have hnot := h.not_mem_update_erase hp
  have hwf : QueuesHold ok idle (threadSetPriority threads t q) (s.setQueue p l)
      (update queues p ((queues p).erase t)) above :=
    (h.eraseThread hne hl).setThread (fun r hr => absurd hr (hnot r)) fun r hr => absurd hr (hnot r)
  obtain ⟨l', hpush, hl'⟩ := (hwf.queue q).listAdd t
  have hwf' := hwf.pushThread hl' (hnot q) (by simp [threadSetPriority])
    (by simpa [threadSetPriority] using hok)
  refine ⟨_, ?_, hwf', rfl, rfl⟩
  have hget : threadGetPriority (threadSetPriority threads t q) t = q := by
    simp [threadGetPriority, threadSetPriority]
  have hsize := hwf'.size_eq s.currQueue
  simp only [schNotifyChangePriority, hget, hremove, ok_bind, hpush]
  refine if_congr ?_ rfl rfl
  rw [← List.length_eq_zero_iff, moveThread, ← hsize]
  rfl

end QueuesHold

end Tinker
