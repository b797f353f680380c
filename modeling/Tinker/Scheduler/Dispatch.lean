import Tinker.Scheduler.Basic

/-!
# One call of the dispatcher

`sch_set_context_for_next_thread` takes the head of the queue being served and rotates
the queue. This file says what one call leaves behind when that head can run, in terms
of what `list_head_to_tail` does to the queue.
-/

namespace Tinker

open Tinker.Lib Tinker.Collections Exec Scheduler

variable {k : Core} {t : ℕ} {st : ThreadState} {l : ListT ℕ} {f : Fault}

/-- The thread a call is made for is not null if it is said to be running; otherwise the
call asserts. -/
def CallLegal (k : Core) (st : ThreadState) : Prop := st = .running → k.sched.currThread ≠ none

deriving instance Decidable for CallLegal

theorem threadSetState_runnable {threads : Threads} {u : ℕ} (hst : st.Runnable)
    (hu : (threads u).state.Runnable) : (threadSetState threads t st u).state.Runnable := by
  by_cases hut : u = t
  · subst hut
    simpa [threadSetState] using hst
  · simpa [threadSetState, hut] using hu

theorem threadSaveContext_state {threads : Threads} {u : ℕ} {o : Option ℕ} {ctx : TgtContext} :
    (threadSaveContext threads o ctx u).state = (threads u).state := by
  cases o with
  | none => rfl
  | some t => by_cases hut : u = t <;> simp [threadSaveContext, hut]

theorem tgtPrepareContext_sched {o process : Option ℕ} :
    (tgtPrepareContext k o process).sched = k.sched := by
  cases o <;> rfl

theorem tgtPrepareContext_threads {o process : Option ℕ} :
    (tgtPrepareContext k o process).threads = k.threads := by
  cases o <;> rfl

theorem leaveThread_spec (threads : Threads) (ctx : TgtContext) (current : Option ℕ)
    (legal : st = .running → current ≠ none) :
    ∃ threads', schLeaveThread threads current st ctx = .ok threads' ∧
      ∀ u, (threads u).state.Runnable → (threads' u).state.Runnable := by
  unfold schLeaveThread
  split
  next hst =>
    obtain ⟨t, rfl⟩ := Option.ne_none_iff_exists'.mp (legal hst)
    refine ⟨_, rfl, fun u hu => ?_⟩
    rw [threadSaveContext_state]
    exact threadSetState_runnable (.inl rfl) hu
  split
  · exact ⟨_, rfl, fun u hu => by rwa [threadSaveContext_state]⟩
  · exact ⟨_, rfl, fun _ hu => hu⟩

theorem switchContext_spec (current : Option ℕ) (legal : st = .running → current ≠ none) :
    ∃ k' eval, schSwitchContext k current st = .ok k' ∧
      k'.sched = { k.sched with evalNewThread := eval } ∧
      ∀ u, (k.threads u).state.Runnable → (k'.threads u).state.Runnable := by
  unfold schSwitchContext
  split
  · obtain ⟨threads, hleave, hrun⟩ := leaveThread_spec k.threads k.context current legal
    simp only [hleave, ok_bind, pure_eq_ok]
    refine ⟨_, false, rfl, ?_, ?_⟩
    · simp [tgtPrepareContext_sched]
    · simpa [tgtPrepareContext_threads] using hrun
  · exact ⟨k, k.sched.evalNewThread, rfl, rfl, fun _ hu => hu⟩

theorem pickThread_of_rotate (front : queueFront (k.sched.queue k.sched.currQueue) = .ok (some t))
    (run : (k.threads t).state.Runnable)
    (rotate : queueReorderFirst (k.sched.queue k.sched.currQueue) = .ok (true, l)) :
    schPickThread k = .ok { k with
      sched := { k.sched.setQueue k.sched.currQueue l with currThread := some t }
      threads := threadSetState k.threads t .running } := by
  simp [schPickThread, front, rotate, kernelAssert, run]

theorem setContext_of_rotate (legal : CallLegal k st)
    (front : queueFront (k.sched.queue k.sched.currQueue) = .ok (some t))
    (run : (k.threads t).state.Runnable)
    (rotate : queueReorderFirst (k.sched.queue k.sched.currQueue) = .ok (true, l)) :
    ∃ k' eval, schSetContextForNextThread k st = .ok k' ∧
      k'.sched = { k.sched.setQueue k.sched.currQueue l with
        currThread := some t, evalNewThread := eval } ∧
      ∀ u, (k.threads u).state.Runnable → (k'.threads u).state.Runnable := by
  have hpick := pickThread_of_rotate front run rotate
  obtain ⟨k', eval, hswitch, hsched, hrun⟩ := switchContext_spec
    (k := { k with
      sched := { k.sched.setQueue k.sched.currQueue l with currThread := some t }
      threads := threadSetState k.threads t .running }) k.sched.currThread legal
  have hrun' : ∀ u, (k.threads u).state.Runnable → (k'.threads u).state.Runnable := fun u hu =>
    hrun u (threadSetState_runnable (.inr (.inr rfl)) hu)
  have hcurr : k'.sched.currThread = some t := by rw [hsched]
  simp only [schSetContextForNextThread, hpick, ok_bind, hswitch]
  split
  · exact ⟨bspEnableScheduleTimer k', eval, by simp [bspEnableScheduleTimer, hcurr, kernelAssert],
      hsched, hrun'⟩
  · exact ⟨k', eval, by simp [hcurr, kernelAssert], hsched, hrun'⟩

theorem setContext_of_rotate_error
    (front : queueFront (k.sched.queue k.sched.currQueue) = .ok (some t))
    (rotate : queueReorderFirst (k.sched.queue k.sched.currQueue) = .error f) :
    schSetContextForNextThread k st = .error f := by
  simp [schSetContextForNextThread, schPickThread, front, rotate]

/-! ## Calls that return -/

theorem sched_ite_bspEnableScheduleTimer {P : Prop} [Decidable P] :
    (if P then bspEnableScheduleTimer k else k).sched = k.sched := by
  split <;> rfl

theorem setContext_eq_ok {k' : Core} (h : schSetContextForNextThread k st = .ok k') :
    ∃ k₁ k₂, schPickThread k = .ok k₁ ∧ schSwitchContext k₁ k.sched.currThread st = .ok k₂ ∧
      k₂.sched.currThread.isSome = true ∧
      k' = if queueSize (k₂.sched.queue k₂.sched.currQueue) > 1 then bspEnableScheduleTimer k₂
        else k₂ := by
  obtain ⟨k₁, hpick, h⟩ := of_bind h
  obtain ⟨k₂, hswitch, h⟩ := of_bind h
  obtain ⟨u, hassert, h⟩ := of_bind h
  refine ⟨k₁, k₂, hpick, hswitch, ?_, (Except.ok.inj h).symm⟩
  rw [sched_ite_bspEnableScheduleTimer] at hassert
  unfold kernelAssert at hassert
  split at hassert
  · assumption
  · cases hassert

theorem switchContext_sched {k' : Core} {current : Option ℕ}
    (h : schSwitchContext k current st = .ok k') :
    k'.sched = { k.sched with evalNewThread := false } := by
  unfold schSwitchContext at h
  split at h
  · obtain ⟨threads, -, h⟩ := of_bind h
    rw [← Except.ok.inj h, tgtPrepareContext_sched]
  next hsame =>
    cases h
    have heval : k.sched.evalNewThread = false := by
      simpa using (not_or.mp hsame).2
    rw [← heval]

theorem pickThread_sched {k' : Core} (h : schPickThread k = .ok k')
    (front : queueFront (k.sched.queue k.sched.currQueue) = .ok (some t)) :
    ∃ b l, queueReorderFirst (k.sched.queue k.sched.currQueue) = .ok (b, l) ∧
      ∃ current,
        k'.sched = { k.sched.setQueue k.sched.currQueue l with currThread := current } := by
  simp only [schPickThread, front, ok_bind, Option.some_or] at h
  obtain ⟨⟨b, l⟩, hrotate, h⟩ := of_bind h
  obtain ⟨u, -, h⟩ := of_bind h
  refine ⟨b, l, hrotate, ?_⟩
  split at h
  · exact ⟨_, by rw [← Except.ok.inj h]⟩
  · exact ⟨_, by rw [← Except.ok.inj h]⟩

theorem setContext_queue {k' : Core} (h : schSetContextForNextThread k st = .ok k')
    (front : queueFront (k.sched.queue k.sched.currQueue) = .ok (some t)) :
    ∃ b l, queueReorderFirst (k.sched.queue k.sched.currQueue) = .ok (b, l) ∧
      k'.sched.currQueue = k.sched.currQueue ∧ k'.sched.queue k.sched.currQueue = l := by
  obtain ⟨k₁, k₂, hpick, hswitch, -, hk'⟩ := setContext_eq_ok h
  obtain ⟨b, l, hrotate, current, hsched₁⟩ := pickThread_sched hpick front
  have hsched : k'.sched = { k.sched.setQueue k.sched.currQueue l with
      currThread := current, evalNewThread := false } := by
    rw [hk', sched_ite_bspEnableScheduleTimer, switchContext_sched hswitch, hsched₁]
  refine ⟨b, l, hrotate, by rw [hsched]; rfl, ?_⟩
  simp [hsched, queue, setQueue]

/-! ## Everything a call does -/

/-- The thread that a call makes current, if `front` is the head of the queue being served: the
head or, if there is none, the current thread; and the idle thread if that one cannot run. -/
def Core.next (k : Core) (front : Option ℕ) : Option ℕ :=
  match front.or k.sched.currThread with
  | some t => if (k.threads t).state.Runnable then some t else k.sched.idleThread
  | none => k.sched.idleThread

/-- The thread `u` is the one that is tried, and it can run. -/
def Core.Takes (k : Core) (front : Option ℕ) (u : ℕ) : Prop :=
  front.or k.sched.currThread = some u ∧ (k.threads u).state.Runnable

deriving instance Decidable for Core.Takes

/-- The call saves and loads a context: another thread becomes current, or an event has been
noted. -/
def Core.Switches (k : Core) (front : Option ℕ) : Prop :=
  k.sched.currThread ≠ k.next front ∨ k.sched.evalNewThread = true

deriving instance Decidable for Core.Switches

/-- What a call for a thread that is said to be in the state `st` leaves behind, if `front` is
the head of the queue being served and `l` that queue afterwards. -/
structure Dispatched (k : Core) (st : ThreadState) (front : Option ℕ) (l : ListT ℕ) (k' : Core) :
    Prop where
  head : queueFront (k.sched.queue k.sched.currQueue) = .ok front
  /-- The queue is rotated, unless there is no thread to try. -/
  rotated : (front.or k.sched.currThread = none ∧ l = k.sched.queue k.sched.currQueue) ∨
    queueReorderFirst (k.sched.queue k.sched.currQueue) = .ok (true, l)
  next : k'.sched.currThread = k.next front
  isSome : k'.sched.currThread.isSome = true
  idle : k'.sched.idleThread = k.sched.idleThread
  queues : k'.sched.priorityQueues = Function.update k.sched.priorityQueues k.sched.currQueue l
  /-- The thread taken is set running, and then the one that was current is set ready. -/
  state : ∀ u, (k'.threads u).state =
    if k.Switches front ∧ st = .running ∧ k.sched.currThread = some u then .ready
    else if k.Takes front u then .running else (k.threads u).state
  priority : ∀ u, (k'.threads u).priority = (k.threads u).priority
  saved : ∀ u, (k'.threads u).context =
    if k.Switches front ∧ st ≠ .dead ∧ k.sched.currThread = some u then k.context
    else (k.threads u).context
  loaded : ∀ u, k.next front = some u →
    k'.context = if k.Switches front then (k'.threads u).context else k.context

theorem pickThread_cases {k₁ : Core} (h : schPickThread k = .ok k₁) :
    ∃ front l, queueFront (k.sched.queue k.sched.currQueue) = .ok front ∧
      ((front.or k.sched.currThread = none ∧ l = k.sched.queue k.sched.currQueue) ∨
        queueReorderFirst (k.sched.queue k.sched.currQueue) = .ok (true, l)) ∧
      k₁ = { k with
        sched := { k.sched.setQueue k.sched.currQueue l with currThread := k.next front }
        threads := fun u => if k.Takes front u then { k.threads u with state := .running }
          else k.threads u } := by
  obtain ⟨front, hfront, h⟩ := of_bind h
  cases htry : front.or k.sched.currThread with
  | none =>
    simp only [htry] at h
    cases h
    refine ⟨front, _, hfront, .inl ⟨htry, rfl⟩, ?_⟩
    simp [Core.Takes, Core.next, htry, setQueue, queue]
  | some t =>
    simp only [htry] at h
    obtain ⟨⟨reorderOk, l⟩, hrotate, h⟩ := of_bind h
    obtain ⟨u, hassert, h⟩ := of_bind h
    obtain rfl : reorderOk = true := by
      unfold kernelAssert at hassert
      split at hassert
      · assumption
      · cases hassert
    refine ⟨front, l, hfront, .inr hrotate, ?_⟩
    split at h
    next hrun =>
      cases h
      have hthreads : threadSetState k.threads t .running = fun u =>
          if k.Takes front u then { k.threads u with state := .running } else k.threads u := by
        funext u
        by_cases hu : u = t
        · subst hu
          simp [threadSetState, Core.Takes, htry, hrun]
        · simp [threadSetState, Core.Takes, htry, hu, Ne.symm hu]
      rw [hthreads]
      simp [Core.next, htry, hrun]
    next hrun =>
      cases h
      have hthreads : k.threads = fun u =>
          if k.Takes front u then { k.threads u with state := .running } else k.threads u := by
        funext u
        rw [if_neg]
        rintro ⟨hu, hrun'⟩
        cases htry.symm.trans hu
        exact hrun hrun'
      rw [← hthreads]
      simp [Core.next, htry, hrun, setQueue]

/-- Leaving a thread saves the context it is left with, unless it is dead, and sets it ready if
it is said to be running. -/
theorem leaveThread_cases {threads threads' : Threads} {current : Option ℕ} {ctx : TgtContext}
    (h : schLeaveThread threads current st ctx = .ok threads') (u : ℕ) :
    (threads' u).state =
        (if st = .running ∧ current = some u then .ready else (threads u).state) ∧
      (threads' u).priority = (threads u).priority ∧
      (threads' u).context =
        (if st ≠ .dead ∧ current = some u then ctx else (threads u).context) := by
  unfold schLeaveThread at h
  split at h
  next hst =>
    cases current with
    | none => cases h
    | some c =>
      cases h
      by_cases hu : u = c
      · subst hu
        simp [threadSaveContext, threadSetState, hst]
      · simp [threadSaveContext, threadSetState, hu, Ne.symm hu]
  next hst =>
    split at h
    next hdead =>
      cases h
      cases current with
      | none => simp [threadSaveContext]
      | some c =>
        by_cases hu : u = c
        · subst hu
          simp [threadSaveContext, hst, hdead]
        · simp [threadSaveContext, hu, Ne.symm hu]
    next hdead =>
      cases h
      simp [not_not.mp hdead]

theorem exists_dispatched {k' : Core} (h : schSetContextForNextThread k st = .ok k') :
    ∃ front l, Dispatched k st front l k' := by
  obtain ⟨k₁, k₂, hpick, hswitch, hsome, hk'⟩ := setContext_eq_ok h
  obtain ⟨front, l, hfront, hrotated, rfl⟩ := pickThread_cases hpick
  refine ⟨front, l, ?_⟩
  -- enabling the schedule timer is all that is left
  have hsched : k'.sched = k₂.sched := by rw [hk', sched_ite_bspEnableScheduleTimer]
  have hthreads : k'.threads = k₂.threads ∧ k'.context = k₂.context := by
    rw [hk']
    split <;> exact ⟨rfl, rfl⟩
  have hcurrent := switchContext_sched hswitch
  unfold schSwitchContext at hswitch
  split at hswitch
  next hsw =>
    have hsw : k.Switches front := hsw
    obtain ⟨threads, hleave, hswitch⟩ := of_bind hswitch
    have hk₂ := Except.ok.inj hswitch
    have hk₂threads : k₂.threads = threads := by rw [← hk₂, tgtPrepareContext_threads]
    refine ⟨hfront, hrotated, by rw [hsched, hcurrent], by rwa [hsched],
      by rw [hsched, hcurrent]; rfl, by rw [hsched, hcurrent]; rfl,
      fun u => ?_, fun u => ?_, fun u => ?_, fun u hu => ?_⟩
    · rw [hthreads.1, hk₂threads, (leaveThread_cases hleave u).1]
      simp only [hsw, true_and]
      split
      · rfl
      · split <;> rfl
    · rw [hthreads.1, hk₂threads, (leaveThread_cases hleave u).2.1]
      dsimp only
      split <;> rfl
    · rw [hthreads.1, hk₂threads, (leaveThread_cases hleave u).2.2]
      simp only [hsw, true_and]
      split
      · rfl
      · split <;> rfl
    rw [if_pos hsw, hthreads.2, hthreads.1, ← hk₂, tgtPrepareContext_threads]
    simp [tgtPrepareContext, hu]
  next hsw =>
    have hsw : ¬ k.Switches front := hsw
    cases hswitch
    refine ⟨hfront, hrotated, by rw [hsched], by rwa [hsched], by rw [hsched]; rfl,
      by rw [hsched]; rfl, fun u => ?_, fun u => ?_, fun u => ?_, fun u hu => ?_⟩
    · rw [hthreads.1]
      simp only [hsw, false_and, ↓reduceIte]
      split <;> rfl
    · rw [hthreads.1]
      dsimp only
      split <;> rfl
    · rw [hthreads.1]
      simp only [hsw, false_and, ↓reduceIte]
      split <;> rfl
    · rw [if_neg hsw, hthreads.2]

end Tinker
