import Tinker.Scheduler.Selection

/-!
# The order of the stack of queues

The stack of queues is meant to list the queues that are not empty, each of them once and in
increasing priority, with the queue being served on top. The place of a queue is searched from the
bottom of the stack, and the search stops at queue 0: a queue that is inserted always ends up right
above queue 0. And a queue that runs empty leaves the stack only if it is the one being served.
`OrderOk` lists the notifications that leave the stack in order all the same.
-/

namespace Tinker

open Tinker.Lib Tinker.Collections Function

abbrev Core.stacked (k : Core) : List Priority := k.sched.queueStack.items

/-- The stack lists the queues that are not empty, each once, in increasing priority, and the
queue being served is on top. -/
def StackOrdered (k : Core) : Prop :=
  k.stacked.Pairwise (· < ·) ∧ (∀ p, p ∈ k.stacked ↔ queueSize (k.sched.queue p) ≠ 0) ∧
    k.stacked.getLast? = some k.sched.currQueue

deriving instance Decidable for StackOrdered

/-- No thread is queued at a priority above 0 and up to `p`. -/
def Core.NoneUpTo (k : Core) (p : Priority) : Prop :=
  ∀ r, 0 < r → r ≤ p → queueSize (k.sched.queue r) = 0

deriving instance Decidable for Core.NoneUpTo

namespace SchedEvent

/-- The notifications in any order: a queued thread that is announced again has kept its
priority, and the idle thread stays where it is. -/
def Called (idle : ℕ) (k : Core) : SchedEvent → Prop
  | newThread t thread | resumeThread t thread =>
    k.Queued t → thread.priority = threadGetPriority k.threads t
  | pauseThread t _ | exitThread t _ | changePriority t _ => t ≠ idle

instance decidableCalled (idle : ℕ) (k : Core) : (e : SchedEvent) → Decidable (e.Called idle k)
  | newThread t thread | resumeThread t thread =>
    inferInstanceAs (Decidable (k.Queued t → thread.priority = threadGetPriority k.threads t))
  | pauseThread t _ | exitThread t _ | changePriority t _ => inferInstanceAs (Decidable (t ≠ idle))

/-- The notifications that keep the stack in order. A thread arrives at priority 0, or not
below the priority being served, or below every other one. A thread that leaves, alone in its
queue, leaves the queue being served. A thread is raised above the priority being served and
leaves others behind in its queue, unless it is alone in the queue being served. A thread is
lowered to priority 0 or below every other priority; if it was alone in its queue, that was
the queue being served. -/
def OrderOk (k : Core) : SchedEvent → Prop
  | newThread _ thread | resumeThread _ thread =>
    thread.priority = 0 ∨ k.sched.currQueue ≤ thread.priority ∨ k.NoneUpTo thread.priority
  | pauseThread t _ | exitThread t _ =>
    k.queued (threadGetPriority k.threads t) = [t] →
      threadGetPriority k.threads t = k.sched.currQueue
  | changePriority t q =>
    if threadGetPriority k.threads t < q then
      k.queued k.sched.currQueue = [t] ∨
        (k.sched.currQueue < q ∧ k.queued (threadGetPriority k.threads t) ≠ [t])
    else
      (q = 0 ∨ (q < k.sched.currQueue ∧ k.NoneUpTo q)) ∧
        (k.queued (threadGetPriority k.threads t) = [t] →
          threadGetPriority k.threads t = k.sched.currQueue)

instance (k : Core) : (e : SchedEvent) → Decidable (e.OrderOk k)
  | newThread _ _ | resumeThread _ _ => inferInstanceAs (Decidable (_ ∨ _ ∨ _))
  | pauseThread _ _ | exitThread _ _ => inferInstanceAs (Decidable (_ → _))
  | changePriority _ _ => inferInstanceAs (Decidable (ite _ _ _))

end SchedEvent

/-! ## The order, for the sequences the lists hold -/

/-- The stack lists the queues that are not empty in increasing order, with `c` on top. -/
structure InOrder (queues : Priority → List ℕ) (stack : List Priority) (c : Priority) : Prop where
  sorted : stack.Pairwise (· < ·)
  mem_iff : ∀ p, p ∈ stack ↔ queues p ≠ []
  top : stack.getLast? = some c

section Lists

variable {queues queues' : Priority → List ℕ} {above stack : List Priority} {c p q r : Priority}
  {t : ℕ}

theorem InOrder.le_top (order : InOrder queues stack c) (hp : queues p ≠ []) : p ≤ c := by
  obtain ⟨below, rfl⟩ := List.getLast?_eq_some_iff.mp order.top
  rcases List.mem_append.mp ((order.mem_iff p).mpr hp) with hmem | hmem
  · exact ((List.pairwise_append.mp order.sorted).2.2 p hmem c (by simp)).le
  · exact (List.mem_singleton.mp hmem).le

theorem InOrder.above_eq_nil_iff (order : InOrder queues (0 :: above) c) : above = [] ↔ c = 0 := by
  constructor
  · rintro rfl
    simpa using order.top.symm
  intro hc
  by_contra hne
  obtain ⟨r, rest, hr⟩ := List.exists_cons_of_ne_nil hne
  have hmem : r ∈ 0 :: above := by simp [hr]
  have hpos := (List.pairwise_cons.mp order.sorted).1 r (by simp [hr])
  exact absurd (order.le_top ((order.mem_iff r).mp hmem)) (by rw [hc]; exact not_le.mpr hpos)

theorem InOrder.queue_top (order : InOrder queues stack c) : queues c ≠ [] :=
  (order.mem_iff c).mp (List.mem_of_getLast? order.top)

theorem mem_insertAbove : r ∈ 0 :: insertAbove q above ↔ r = q ∨ r ∈ 0 :: above := by
  unfold insertAbove
  split
  next hq => simp [hq]
  simp only [List.mem_cons]
  tauto

/-- An inserted queue is in its place only if no queue above queue 0 belongs below it. -/
theorem InOrder.pairwise_insertAbove (order : InOrder queues stack c)
    (hstack : ∀ r, 0 < r → r ≤ q → (r ∈ above ↔ r ∈ stack))
    (sorted : (0 :: above).Pairwise (· < ·)) :
    (0 :: insertAbove q above).Pairwise (· < ·) ↔
      q = 0 ∨ ∀ r, 0 < r → r ≤ q → queues r = [] := by
  unfold insertAbove
  obtain ⟨hpos, hrest⟩ := List.pairwise_cons.mp sorted
  split
  next hq => exact iff_of_true sorted (.inl hq)
  next hq =>
    rw [List.pairwise_cons, List.pairwise_cons]
    constructor
    · rintro ⟨-, hlt, -⟩
      refine .inr fun r hr hle => ?_
      by_contra hne
      have hmem := (hstack r hr hle).mpr ((order.mem_iff r).mpr hne)
      exact absurd (hlt r hmem) hle.not_gt
    intro hnone
    have hnone := hnone.resolve_left hq
    refine ⟨?_, fun r hr => ?_, hrest⟩
    · simp only [List.mem_cons]
      rintro r (rfl | hr)
      · exact Fin.pos_of_ne_zero hq
      · exact hpos r hr
    by_contra hle
    have hle := not_lt.mp hle
    have hmem := (hstack r (hpos r hr) hle).mp hr
    exact (order.mem_iff r).mp hmem (hnone r (hpos r hr) hle)

theorem InOrder.pairwise_push (order : InOrder queues stack c) :
    (stack ++ [q]).Pairwise (· < ·) ↔ c < q := by
  rw [List.pairwise_append]
  constructor
  · rintro ⟨-, -, hlt⟩
    exact hlt c (List.mem_of_getLast? order.top) q (by simp)
  intro hlt
  refine ⟨order.sorted, List.pairwise_singleton _ _, fun r hr s hs => ?_⟩
  rw [List.mem_singleton.mp hs]
  exact lt_of_le_of_lt (order.le_top ((order.mem_iff r).mp hr)) hlt

theorem InOrder.mem_below (order : InOrder queues (stack ++ [c]) c) :
    r ∈ stack ↔ queues r ≠ [] ∧ r ≠ c := by
  rw [← order.mem_iff]
  have hlt := (List.pairwise_append.mp order.sorted).2.2
  constructor
  · intro hr
    exact ⟨List.mem_append_left _ hr, (hlt r hr c (by simp)).ne⟩
  rintro ⟨hr, hne⟩
  exact (List.mem_append.mp hr).resolve_right fun hc => hne (List.mem_singleton.mp hc)

theorem erase_ne_nil_iff :
    update queues p ((queues p).erase t) r ≠ [] ↔
      queues r ≠ [] ∧ ¬ (r = p ∧ queues p = [t]) := by
  by_cases hr : r = p
  · subst hr
    rw [update_self, ne_eq, List.erase_eq_nil_iff, not_or]
    simp
  · simp [hr]

theorem move_ne_nil_iff :
    moveThread queues t p q r ≠ [] ↔ r = q ∨ (queues r ≠ [] ∧ ¬ (r = p ∧ queues p = [t])) := by
  by_cases hr : r = q
  · simp [hr, moveThread_self]
  rw [moveThread_of_ne hr, erase_ne_nil_iff]
  simp [hr]

theorem enqueue_update_ne_nil_iff :
    update queues p (enqueue t (queues p)) r ≠ [] ↔ r = p ∨ queues r ≠ [] := by
  by_cases hr : r = p
  · subst hr
    simp [enqueue_ne_nil]
  · simp [hr]

theorem InOrder.move_eq_nil_iff (order : InOrder queues stack c) :
    moveThread queues t p q c = [] ↔ c ≠ q ∧ c = p ∧ queues p = [t] := by
  rw [← not_iff_not, ← ne_eq, move_ne_nil_iff]
  have hqueue := order.queue_top
  tauto

end Lists

/-! ## What one notification does -/

/-- The stack is in order, and the priority noted is that of the queue being served. -/
def Ordered (idle : ℕ) (k : Core) : Prop :=
  ∃ queues above, QueuesHold (fun _ => True) idle k.threads k.sched queues above ∧
    k.sched.currQueue = k.sched.currPriority ∧ InOrder queues (0 :: above) k.sched.currQueue

/-- The stack is in order after the step exactly if the condition holds. -/
def Settles (idle : ℕ) (condition : Prop) (k' : Core) : Prop :=
  (StackOrdered k' ↔ condition) ∧ (condition → Ordered idle k')

section Events

variable {idle t : ℕ} {k k' : Core} {queues : Priority → List ℕ} {above : List Priority}
  {p q : Priority} {ok : ThreadState → Prop}

theorem QueuesHold.stackOrdered_iff (wf : QueuesHold ok idle k.threads k.sched queues above) :
    StackOrdered k ↔ InOrder queues (0 :: above) k.sched.currQueue := by
  simp only [StackOrdered, wf.stack.items_eq, wf.size_eq, ne_eq, List.length_eq_zero_iff]
  exact ⟨fun ⟨sorted, mem, top⟩ => ⟨sorted, mem, top⟩, fun h => ⟨h.sorted, h.mem_iff, h.top⟩⟩

theorem QueuesHold.noneUpTo_iff (wf : QueuesHold ok idle k.threads k.sched queues above) :
    k.NoneUpTo p ↔ ∀ r, 0 < r → r ≤ p → queues r = [] := by
  simp only [Core.NoneUpTo, wf.size_eq, List.length_eq_zero_iff]

theorem settles_of_wf {condition : Prop}
    (wf : QueuesHold (fun _ => True) idle k'.threads k'.sched queues above)
    (serving : condition → k'.sched.currQueue = k'.sched.currPriority)
    (order : InOrder queues (0 :: above) k'.sched.currQueue ↔ condition) :
    Settles idle condition k' :=
  ⟨wf.stackOrdered_iff.trans order,
    fun holds => ⟨queues, above, wf, serving holds, order.mpr holds⟩⟩

theorem Core.notify_cases {threads : Threads} {notification : Threads → Scheduler → Exec Scheduler}
    (h : k.notify threads notification = .ok k') :
    ∃ s, notification threads k.sched = .ok s ∧ k' = { k with threads := threads, sched := s } := by
  obtain ⟨s, hs, h⟩ := Exec.of_bind h
  exact ⟨s, hs, (Except.ok.inj h).symm⟩

section

variable (inv : Ordered idle k)
include inv

theorem Ordered.arrive {thread : Thread}
    (same : k.Queued t → thread.priority = threadGetPriority k.threads t)
    (h : k.notify (update k.threads t thread)
      (fun threads s => schNotifyNewThread threads s t) = .ok k') :
    Settles idle (thread.priority = 0 ∨ k.sched.currQueue ≤ thread.priority ∨
      k.NoneUpTo thread.priority) k' := by
  obtain ⟨queues, above, wf, serving, order⟩ := inv
  obtain ⟨s, hs, rfl⟩ := Core.notify_cases h
  obtain ⟨s', hnotify, wf', top', serving', hmax⟩ := wf.newThread t thread order.top serving
    (fun p hp => (same (wf.queued_iff.mpr ⟨p, hp⟩)).trans (wf.priority p t hp)) trivial
  cases hs.symm.trans hnotify
  refine settles_of_wf wf' (fun _ => serving') ?_
  have hmem : ∀ r,
      update queues thread.priority (enqueue t (queues thread.priority)) r ≠ [] ↔
        r = thread.priority ∨ queues r ≠ [] := fun _ => enqueue_update_ne_nil_iff
  rw [serving', hmax, wf.noneUpTo_iff, serving]
  rw [serving', hmax] at top'
  rw [serving] at order
  unfold raiseAbove at top' ⊢
  rcases lt_trichotomy k.sched.currPriority thread.priority with hlt | heq | hgt
  · rw [if_pos hlt, max_eq_right hlt.le] at top' ⊢
    refine iff_of_true ⟨?_, fun r => ?_, top'⟩ (.inr (.inl hlt.le))
    · rw [← List.cons_append]
      exact order.pairwise_push.mpr hlt
    · rw [hmem, ← List.cons_append, List.mem_append, order.mem_iff, List.mem_singleton, or_comm]
  · rw [heq] at order
    rw [heq, if_neg (lt_irrefl _), if_neg (lt_irrefl _), max_self] at top' ⊢
    refine iff_of_true ⟨order.sorted, fun r => ?_, top'⟩ (.inr (.inl le_rfl))
    rw [hmem, order.mem_iff]
    refine ⟨.inr, fun hr => hr.elim (fun e => ?_) id⟩
    rw [e]
    exact order.queue_top
  rw [if_neg hgt.not_gt, if_pos hgt, max_eq_left hgt.le] at top' ⊢
  have hsorted := order.pairwise_insertAbove (q := thread.priority)
    (fun r hr _ => by simp [hr.ne']) order.sorted
  constructor
  · intro order'
    exact (hsorted.mp order'.sorted).imp_right .inr
  intro hcond
  have hcond := hcond.imp_right fun hright => hright.resolve_left hgt.not_ge
  refine ⟨hsorted.mpr hcond, fun r => ?_, top'⟩
  rw [mem_insertAbove, hmem, order.mem_iff]

theorem Ordered.depart {st : ThreadState} (hne : t ≠ idle)
    (h : k.notify (threadSetState k.threads t st)
      (fun threads s => schNotifyExitThread threads s t) = .ok k') :
    Settles idle (k.queued (threadGetPriority k.threads t) = [t] →
      threadGetPriority k.threads t = k.sched.currQueue) k' := by
  obtain ⟨queues, above, wf, serving, order⟩ := inv
  obtain ⟨s, hs, rfl⟩ := Core.notify_cases h
  rw [wf.queued_eq]
  by_cases hqueued : ∃ p, t ∈ queues p
  · obtain ⟨p, ht⟩ := hqueued
    have hget : threadGetPriority k.threads t = p := wf.priority p t ht
    rw [hget]
    obtain ⟨s', hnotify, wf', hq, hp⟩ := wf.exitThread { k.threads t with state := st } ht hne
      (wf.priority p t ht)
    have hempty := wf.erase_eq_nil_iff ht order.queue_top
    rw [show threadSetState k.threads t st = update k.threads t
      { k.threads t with state := st } from rfl] at *
    rw [hs] at hnotify
    split_ifs at hnotify with hnil
    · -- the queue being served is empty now, and is taken off the stack
      have hsingle := hempty.mp hnil
      obtain rfl : p = k.sched.currQueue := wf.mem_unique ht (by simp [hsingle])
      obtain ⟨above, rfl⟩ := exists_above order.top (wf.ne_zero_of_alone hne hsingle)
      obtain ⟨s'', q, hnext, wf'', htop, hq', hp'⟩ := wf'.serveNext t
      cases hnotify.trans hnext
      have hbelow : ∀ r, r ∈ 0 :: above ↔ queues r ≠ [] ∧ r ≠ k.sched.currQueue :=
        fun _ => InOrder.mem_below order
      have hqueue : ∀ r, r ∈ 0 :: above ↔ update queues k.sched.currQueue
          ((queues k.sched.currQueue).erase t) r ≠ [] := by
        intro r
        rw [hbelow, erase_ne_nil_iff]
        simp [hsingle]
      refine settles_of_wf wf'' (fun _ => ?_) (iff_of_true ⟨?_, hqueue, ?_⟩ fun _ => rfl)
      · have hmem := (hqueue q).mp (List.mem_of_getLast? htop)
        rw [hq', hp', if_neg hmem]
      · exact (List.pairwise_append.mp (show ((0 :: above) ++ [_]).Pairwise _ from order.sorted)).1
      · rw [htop, hq']
    cases hnotify
    have hne : ¬ (p = k.sched.currQueue ∧ queues p = [t]) := by
      rintro ⟨rfl, hsingle⟩
      exact hnil (hempty.mpr hsingle)
    refine settles_of_wf wf' (fun _ => by rw [hq, hp, serving]) ?_
    rw [hq]
    constructor
    · intro order' hsingle
      have hmem := (order'.mem_iff p).mp ((order.mem_iff p).mpr (by simp [hsingle]))
      rw [erase_ne_nil_iff] at hmem
      exact absurd ⟨rfl, hsingle⟩ hmem.2
    intro hcond
    refine ⟨order.sorted, fun r => ?_, order.top⟩
    rw [order.mem_iff, erase_ne_nil_iff]
    exact (and_iff_left fun hboth => hne ⟨hcond hboth.2, hboth.2⟩).symm
  have hnot : ∀ p, t ∉ queues p := fun p hp => hqueued ⟨p, hp⟩
  obtain ⟨s', hnotify, wf', hq, hp⟩ := wf.exitThread_absent { k.threads t with state := st } hnot
  cases hs.symm.trans hnotify
  refine settles_of_wf wf' (fun _ => by rw [hq, hp, serving]) ?_
  rw [hq]
  refine iff_of_true order fun hsingle => absurd ?_ (hnot (threadGetPriority k.threads t))
  simp [hsingle]

theorem Ordered.raise (hne : t ≠ idle) (raised : threadGetPriority k.threads t < q)
    (h : k.notify (threadSetPriority k.threads t q) (fun threads s =>
      schNotifyChangePriority threads s t (threadGetPriority k.threads t)) = .ok k') :
    Settles idle (k.queued k.sched.currQueue = [t] ∨ (k.sched.currQueue < q ∧
      k.queued (threadGetPriority k.threads t) ≠ [t])) k' := by
  obtain ⟨queues, above, wf, serving, order⟩ := inv
  obtain ⟨s, hs, rfl⟩ := Core.notify_cases h
  generalize hget : threadGetPriority k.threads t = p at *
  obtain ⟨s', above', hnotify, wf', hq, hp, hcases⟩ :=
    wf.changePriority_raise hget hne trivial order.top raised
  cases hs.symm.trans hnotify
  refine settles_of_wf wf' (fun _ => by rw [hq, hp]) ?_
  rw [wf.queued_eq, wf.queued_eq, hq, ← List.cons_append]
  rcases hcases with ⟨hnil, rfl⟩ | ⟨hnil, rfl⟩
  · -- the thread was alone in the queue being served
    obtain ⟨-, hc, hsingle⟩ := order.move_eq_nil_iff.mp hnil
    have hbelow : ∀ r, r ∈ 0 :: above' ↔ queues r ≠ [] ∧ r ≠ k.sched.currQueue :=
      fun _ => InOrder.mem_below order
    have hsorted :=
      List.pairwise_append.mp (show ((0 :: above') ++ [_]).Pairwise _ from order.sorted)
    refine iff_of_true ⟨List.pairwise_append.mpr ⟨hsorted.1, List.pairwise_singleton _ _, ?_⟩,
      fun r => ?_, List.getLast?_concat⟩ (.inl (hc ▸ hsingle))
    · intro r hr r' hr'
      rw [List.mem_singleton.mp hr']
      exact (hsorted.2.2 r hr _ (by simp)).trans (hc ▸ raised)
    rw [List.mem_append, hbelow, List.mem_singleton, move_ne_nil_iff, hc]
    simp only [hsingle, and_true]
    tauto
  have hother : queues k.sched.currQueue ≠ [t] := by
    intro hsingle
    have hc : k.sched.currQueue = p :=
      (wf.priority k.sched.currQueue t (by simp [hsingle])).symm.trans hget
    exact hnil (order.move_eq_nil_iff.mpr ⟨hc ▸ raised.ne, hc, hc ▸ hsingle⟩)
  rw [or_iff_right hother]
  constructor
  · intro order'
    refine ⟨order.pairwise_push.mp order'.sorted, fun hsingle => ?_⟩
    have hmem := (order'.mem_iff p).mp
      (List.mem_append_left _ ((order.mem_iff p).mpr (by simp [hsingle])))
    exact (move_ne_nil_iff.mp hmem).elim raised.ne fun hboth => hboth.2 ⟨rfl, hsingle⟩
  rintro ⟨hlt, hmany⟩
  refine ⟨order.pairwise_push.mpr hlt, fun r => ?_, List.getLast?_concat⟩
  rw [List.mem_append, order.mem_iff, List.mem_singleton, move_ne_nil_iff]
  simp only [hmany, and_false, not_false_eq_true, and_true]
  tauto

theorem Ordered.lower (hne : t ≠ idle) (lowered : q ≤ threadGetPriority k.threads t)
    (h : k.notify (threadSetPriority k.threads t q) (fun threads s =>
      schNotifyChangePriority threads s t (threadGetPriority k.threads t)) = .ok k') :
    Settles idle ((q = 0 ∨ (q < k.sched.currQueue ∧ k.NoneUpTo q)) ∧
      (k.queued (threadGetPriority k.threads t) = [t] →
        threadGetPriority k.threads t = k.sched.currQueue)) k' := by
  obtain ⟨queues, above, wf, serving, order⟩ := inv
  obtain ⟨s, hs, rfl⟩ := Core.notify_cases h
  generalize hget : threadGetPriority k.threads t = p at *
  obtain ⟨s₁, above', wf₁, hcases⟩ :=
    wf.changePriority_lower hget hne trivial order.top lowered
  rw [wf.queued_eq, wf.noneUpTo_iff]
  rcases hcases with ⟨hnil, rfl, hnotify⟩ | ⟨hnil, rfl, hq, hp, hnotify⟩
  · obtain ⟨hq, hc, hsingle⟩ := order.move_eq_nil_iff.mp hnil
    have hlt : q < k.sched.currQueue := lt_of_le_of_ne (hc ▸ lowered) hq.symm
    have hrest : ∀ r, r ∈ 0 :: above' ↔ queues r ≠ [] ∧ r ≠ k.sched.currQueue :=
      fun _ => InOrder.mem_below order
    obtain ⟨r, hr⟩ := exists_top above'
    have htop := getLast_insertAbove (p := q) hr
    have hstacked : ∀ r, r ∈ 0 :: insertAbove q above' ↔ moveThread queues t p q r ≠ [] := by
      intro r
      rw [mem_insertAbove, hrest, move_ne_nil_iff, hc]
      simp [hsingle]
    obtain ⟨s₂, hserve, wf₂, hq₂, hp₂⟩ := wf₁.serveTop htop
      ((hstacked _).mp (List.mem_of_getLast? htop)) t
    cases hs.symm.trans (hnotify.trans hserve)
    have hsorted := order.pairwise_insertAbove (q := q)
      (fun r hr hle => by
        have hlt' := lt_of_le_of_lt hle hlt
        rw [← List.cons_append, List.mem_append, List.mem_cons, List.mem_singleton]
        simp [hr.ne', hlt'.ne])
      (List.pairwise_append.mp (show ((0 :: above') ++ [_]).Pairwise _ from order.sorted)).1
    refine settles_of_wf wf₂ (fun _ => by rw [hq₂, hp₂]) ?_
    rw [hq₂]
    constructor
    · intro order'
      exact ⟨(hsorted.mp order'.sorted).imp_right fun hnone => ⟨hlt, hnone⟩, fun _ => hc.symm⟩
    rintro ⟨hcond, -⟩
    exact ⟨hsorted.mpr (hcond.imp_right And.right), hstacked, htop⟩
  cases hs.symm.trans hnotify
  have hsorted := order.pairwise_insertAbove (q := q) (fun r hr _ => by simp [hr.ne']) order.sorted
  have htop := getLast_insertAbove (p := q) order.top
  refine settles_of_wf wf₁ (fun _ => by rw [hq, hp, serving]) ?_
  rw [hq]
  constructor
  · intro order'
    have hcond := hsorted.mp order'.sorted
    refine ⟨?_, fun hsingle => ?_⟩
    · by_cases hq0 : q = 0
      · exact .inl hq0
      -- with the queues up to `q` empty, the thread goes below the queue being served
      have hnone := hcond.resolve_left hq0
      refine .inr ⟨not_le.mp fun hle => ?_, hnone⟩
      have hc : k.sched.currQueue = 0 := by
        by_contra hc
        exact order.queue_top (hnone _ (Fin.pos_of_ne_zero hc) hle)
      have htop' := order'.top
      rw [htop, if_pos (order.above_eq_nil_iff.mpr hc), hc] at htop'
      exact hq0 (Option.some.inj htop')
    by_contra hc
    have hmem := (order'.mem_iff p).mp
      (mem_insertAbove.mpr (.inr ((order.mem_iff p).mpr (by simp [hsingle]))))
    rcases move_ne_nil_iff.mp hmem with rfl | hboth
    · -- the thread's own queue is in the way
      have hzero := wf.ne_zero_of_alone hne hsingle
      have hnil := (hcond.resolve_left hzero) p (Fin.pos_of_ne_zero hzero) le_rfl
      simp [hnil] at hsingle
    · exact hboth.2 ⟨rfl, hsingle⟩
  rintro ⟨hcond, hsingle⟩
  refine ⟨hsorted.mpr (hcond.imp_right And.right), fun r => ?_, ?_⟩
  · rw [mem_insertAbove, order.mem_iff, move_ne_nil_iff]
    refine or_congr_right' fun hr => (and_iff_left ?_).symm
    rintro ⟨rfl, halone⟩
    have hc := hsingle halone
    exact hnil (order.move_eq_nil_iff.mpr ⟨hc ▸ hr, hc.symm, halone⟩)
  rw [htop]
  split
  next hempty =>
    have hc := order.above_eq_nil_iff.mp hempty
    have hq0 := hcond.resolve_right fun hboth => by
      rw [hc] at hboth
      exact absurd hboth.1 (Fin.not_lt_zero q)
    rw [hc, hq0]
  · rfl

theorem Ordered.step {e : SchedEvent} (called : e.Called idle k) (h : e.apply k = .ok k') :
    Settles idle (e.OrderOk k) k' := by
  cases e with
  | newThread t thread => exact inv.arrive called h
  | resumeThread t thread => exact inv.arrive called h
  | pauseThread t st => exact inv.depart called h
  | exitThread t st => exact inv.depart called h
  | changePriority t q =>
    simp only [SchedEvent.OrderOk]
    split
    next raised => exact inv.raise called raised h
    next lowered => exact inv.lower called (not_lt.mp lowered) h

end

end Events

/-! ## Along every run -/

theorem ordered_of_booted {idle : ℕ} {k : Core} (booted : Booted idle k) : Ordered idle k := by
  obtain ⟨wf, hqueue, hprio⟩ := wf_of_booted booted
  refine ⟨_, _, wf.mono fun _ _ => trivial, hqueue.trans hprio.symm, ?_⟩
  rw [hqueue]
  refine ⟨List.pairwise_singleton _ _, fun p => ?_, rfl⟩
  by_cases hp : p = 0 <;> simp [hp]

/-- Along every run of notifications that all meet `OrderOk`, from the creation of the
scheduler with its idle thread on, the stack is in order; and a further notification that
returns keeps it in order if and only if it meets `OrderOk` as well. -/
theorem stackOrdered_of_run {idle : ℕ} {k k' : Core} {es : List SchedEvent}
    (booted : Booted idle k)
    (run : Run SchedEvent.apply (fun k e => e.Called idle k ∧ e.OrderOk k) k es k') :
    StackOrdered k' ∧ ∀ (e : SchedEvent) k'', e.Called idle k' → e.apply k' = .ok k'' →
      (StackOrdered k'' ↔ e.OrderOk k') := by
  have inv : Ordered idle k' := run.invariant (ordered_of_booted booted)
    fun _ _ _ inv ⟨called, ok⟩ hstep => (inv.step called hstep).2 ok
  refine ⟨?_, fun e k'' called hstep => (inv.step called hstep).1⟩
  obtain ⟨queues, above, wf, -, order⟩ := inv
  exact wf.stackOrdered_iff.mpr order

/-- Threads of the priorities 3, 5 and 1 arrive, and the one being served exits. -/
theorem stackOrdered_of_run_exit : ∃ k',
    Run SchedEvent.apply (fun k e => e.Called 0 k ∧ e.OrderOk k) bootedCore
      [.newThread 1 (.ready 3), .newThread 2 (.ready 5), .newThread 3 (.ready 1),
        .exitThread 2 .terminated] k' ∧ k'.stacked = [0, 1, 3] ∧ StackOrdered k' := by
  refine exists_run_and (fun k => k.stacked = [0, 1, 3]) (by decide +kernel)
    fun k' run hstack => ?_
  exact ⟨hstack, (stackOrdered_of_run booted_bootedCore run).1⟩

/-- Threads of the priorities 1, 3 and 2 arrive: the queue of priority 2 is inserted below
that of priority 1. -/
theorem not_stackOrdered : ∃ k es k', Booted 0 k ∧
    Run SchedEvent.apply (fun k e => e.Admitted 0 k) k es k' ∧ k'.stacked = [0, 2, 1, 3] ∧
      ¬ StackOrdered k' := by
  obtain ⟨k', run, hstack⟩ := exists_run_of_replay SchedEvent.apply
    (fun k e => e.Admitted 0 k) bootedCore
    [.newThread 1 (.ready 1), .newThread 2 (.ready 3), .newThread 3 (.ready 2)]
    (fun k => k.stacked = [0, 2, 1, 3]) (by decide +kernel)
  have hstack := of_decide_eq_true hstack
  refine ⟨bootedCore, _, k', booted_bootedCore, run, hstack, fun order => ?_⟩
  have hsorted := order.1
  rw [hstack] at hsorted
  exact absurd hsorted (by decide)

end Tinker
