import Tinker.Interrupt.Basic
import Tinker.Scheduler.Selection

/-!
# One tick of the schedule timer

An interrupt of the schedule timer is meant to make one scheduling decision. The timer's callback
makes one, and `int_handle_external_vector` makes another with the state of the thread that was
interrupted. This file compares a tick with a single call of `sch_set_context_for_next_thread`.
-/

namespace Tinker

open Tinker.Lib Tinker.Collections Exec ListT

/-! ## From the vector to the timer -/

/-- The interrupt pending at a controller comes from the timer `t`, perhaps through other
controllers. -/
inductive Routes (m : Machine) : Intc → ℕ → Prop
  | timer {id cause t : ℕ} {isrs : ℕ → Isr} : m.pending id = some cause → cause < maxIsrs →
      isrs cause = .timer (some t) → Routes m (.mk id isrs) t
  | child {id cause t : ℕ} {isrs : ℕ → Isr} {intc : Intc} : m.pending id = some cause →
      cause < maxIsrs → isrs cause = .child intc → Routes m intc t → Routes m (.mk id isrs) t

/-- The timer is one of the hardware's and has been set up by `bsp_enable_schedule_timer`. -/
def IsScheduleTimer (m : Machine) (t : ℕ) : Prop :=
  ∃ data, m.timers t = some data ∧ data.callback = some .bspSchedulerTimeout ∧ data.number < 4

variable (drivers : Drivers) {m : Machine} {intc : Intc} {t : ℕ} {k k' : Core}

theorem bcm2835TimerIsr_schedule (schedule : IsScheduleTimer m t) :
    ∃ after : Core → Machine, (∀ k, (after k).core = k) ∧
      bcm2835TimerIsr drivers m t = (do
        let k ← intContextSwitchInterrupt m.core
        return (.noError, after k)) := by
  obtain ⟨data, hdata, hcallback, hnumber⟩ := schedule
  refine ⟨fun k => { m with status := Function.update m.status data.number false, core := k },
    fun _ => rfl, ?_⟩
  simp [bcm2835TimerIsr, hdata, bcm2835TimerCancel, kernelAssert, hnumber, hcallback,
    TimerCallback.call, bspSchedulerTimeout]

theorem intcHandle_schedule (routes : Routes m intc t) (schedule : IsScheduleTimer m t) :
    ∃ after : Core → Machine, (∀ k, (after k).core = k) ∧
      intcHandle drivers m intc = (do
        let k ← intContextSwitchInterrupt m.core
        return (.noError, after k)) := by
  induction routes with
  | @timer id cause t isrs hpending hcause hisr =>
    obtain ⟨after, hcore, hisr'⟩ := bcm2835TimerIsr_schedule drivers schedule
    refine ⟨fun k => { after k with pending := drivers.ackCause id cause (after k).pending },
      hcore, ?_⟩
    simp [intcHandle, hpending, hcause.not_gt, hcause.ne, hisr, isrHandle, hisr']
  | @child id cause t isrs intc hpending hcause hisr _ ih =>
    obtain ⟨after, hcore, hchild⟩ := ih schedule
    refine ⟨fun k => { after k with pending := drivers.ackCause id cause (after k).pending },
      hcore, ?_⟩
    simp [intcHandle, hpending, hcause.not_gt, hcause.ne, hisr, isrHandle, hchild]

/-- A tick is two decisions: one for the interrupted thread, and one for its state then. -/
theorem tick_eq (routes : Routes m intc t) (schedule : IsScheduleTimer m t) :
    ∃ after : Core → Core → Machine, (∀ k k', (after k k').core = k') ∧
      intHandleExternalVector drivers (some intc) m = (do
        let k ← intContextSwitchInterrupt m.core
        let k' ← schSetContextForNextThread k (threadGetState k.threads m.core.sched.currThread)
        return (.noError, after k k')) := by
  obtain ⟨after, hcore, hhandle⟩ := intcHandle_schedule drivers routes schedule
  refine ⟨fun k k' => { after k with core := k' }, fun _ _ => rfl, ?_⟩
  simp only [intHandleExternalVector, hhandle]
  cases intContextSwitchInterrupt m.core with
  | error f => rfl
  | ok k => simp [hcore]

/-! ## Comparing schedules -/

/-- The same thread is current, every queue has the same order, all threads have the same
states and saved contexts, and the processor is given the same context. -/
structure SameSchedule (k k' : Core) : Prop where
  currThread : k.sched.currThread = k'.sched.currThread
  queued : ∀ p, k.queued p = k'.queued p
  state : ∀ t, (k.threads t).state = (k'.threads t).state
  saved : ∀ t, (k.threads t).context = (k'.threads t).context
  context : k.context = k'.context

/-- A queue of two or more threads does not have the same one at both ends. -/
def EndsDiffer (l : ListT ℕ) : Prop :=
  1 < l.size → ∃ x y, l.itemAt l.head = some x ∧ l.itemAt l.tail = some y ∧ x ≠ y

/-- The second decision of a tick changes nothing: at most one thread is in the queue being
served; the interrupted thread, if it is dispatched again, was not both running and to be
evaluated anew; and with an empty queue and an interrupted thread that cannot run, the idle
thread is not waiting to be set running. -/
def TickOk (k : Core) : Prop :=
  queueSize (k.sched.queue k.sched.currQueue) ≤ 1 ∧
    (∀ c, k.sched.currThread = some c → (k.threads c).state = .running →
      k.sched.evalNewThread = true → (k.queued k.sched.currQueue).head?.getD c ≠ c) ∧
    (k.queued k.sched.currQueue = [] →
      ¬ (threadGetState k.threads k.sched.currThread).Runnable →
      threadGetState k.threads k.sched.idleThread ≠ .ready ∧
        threadGetState k.threads k.sched.idleThread ≠ .system)

/-! ## Two or more threads in the queue -/

/-- The two decisions of a tick leave a queue of two or more threads in different orders. -/
theorem not_sameSchedule_of_two {k₁ k₂ : Core} {st st' : ThreadState}
    (ends : EndsDiffer (k.sched.queue k.sched.currQueue))
    (two : 1 < queueSize (k.sched.queue k.sched.currQueue))
    (first : schSetContextForNextThread k st = .ok k₁)
    (second : schSetContextForNextThread k₁ st' = .ok k₂) : ¬ SameSchedule k₂ k₁ := by
  obtain ⟨x, y, hx, hy, hxy⟩ := ends two
  obtain ⟨b₁, l₁, hrot₁, hqueue₁, hl₁⟩ :=
    setContext_queue first (front_of_itemAt two hx).1
  obtain ⟨hsize₁, hhead₁, htail₁, hitem₁⟩ := listHeadToTail_ends hrot₁ two
  have two₁ : 1 < l₁.size := by rwa [hsize₁]
  have hfront₁ := front_of_itemAt two₁ (by rwa [hitem₁, hhead₁] : l₁.itemAt l₁.head = some y)
  rw [← hqueue₁] at hl₁
  obtain ⟨b₂, l₂, hrot₂, -, hl₂⟩ := setContext_queue second (by rw [hl₁]; exact hfront₁.1)
  rw [hl₁] at hrot₂
  obtain ⟨hsize₂, hhead₂, -, hitem₂⟩ := listHeadToTail_ends hrot₂ two₁
  have hfront₂ := front_of_itemAt (by rwa [hsize₂])
    (by rwa [hitem₂, hhead₂, htail₁, hitem₁] : l₂.itemAt l₂.head = some x)
  intro same
  have hqueued := same.queued k₁.sched.currQueue
  rw [Core.queued, Core.queued, hl₁, hl₂] at hqueued
  obtain ⟨xs, hxs⟩ := hfront₂.2
  obtain ⟨ys, hys⟩ := hfront₁.2
  rw [hxs, hys] at hqueued
  exact hxy (List.cons_eq_cons.mp hqueued).1

/-! ## At most one thread in the queue -/

def picked (k : Core) (front : Option ℕ) : Core :=
  match front.or k.sched.currThread with
  | some t =>
    if (k.threads t).state.Runnable then
      { k with
        sched := { k.sched with currThread := some t }
        threads := threadSetState k.threads t .running }
    else { k with sched := { k.sched with currThread := k.sched.idleThread } }
  | none => { k with sched := { k.sched with currThread := k.sched.idleThread } }

theorem pickThread_of_small {front : Option ℕ}
    (small : queueSize (k.sched.queue k.sched.currQueue) ≤ 1)
    (hfront : queueFront (k.sched.queue k.sched.currQueue) = .ok front) :
    schPickThread k = .ok (picked k front) := by
  have hrotate : queueReorderFirst (k.sched.queue k.sched.currQueue) =
      .ok (true, k.sched.queue k.sched.currQueue) := listHeadToTail_of_size_le small
  have hset : k.sched.setQueue k.sched.currQueue (k.sched.queue k.sched.currQueue) = k.sched := by
    simp [Scheduler.setQueue, Scheduler.queue]
  simp only [schPickThread, hfront, ok_bind, picked]
  cases front.or k.sched.currThread with
  | none => rfl
  | some t =>
    simp only [hrotate, ok_bind, kernelAssert, ↓reduceIte, hset]
    split <;> rfl

theorem leaveThread_state {threads threads' : Threads} {current : Option ℕ} {st : ThreadState}
    {ctx : TgtContext} (h : schLeaveThread threads current st ctx = .ok threads') (u : ℕ) :
    (threads' u).state =
      if st = .running ∧ current = some u then .ready else (threads u).state := by
  unfold schLeaveThread at h
  split at h
  next hst =>
    cases current with
    | none => cases h
    | some c =>
      rw [← Except.ok.inj h, threadSaveContext_state]
      by_cases huc : u = c
      · simp [threadSetState, huc, hst]
      · simp [threadSetState, huc, Ne.symm huc]
  next hst =>
    simp only [hst, false_and, ↓reduceIte]
    split at h
    · rw [← Except.ok.inj h, threadSaveContext_state]
    · rw [← Except.ok.inj h]

theorem switchContext_state {current : Option ℕ} {st : ThreadState}
    (h : schSwitchContext k current st = .ok k') (u : ℕ) :
    (k'.threads u).state =
      if (current ≠ k.sched.currThread ∨ k.sched.evalNewThread = true) ∧ st = .running ∧
        current = some u then .ready else (k.threads u).state := by
  unfold schSwitchContext at h
  split at h
  next hswitch =>
    obtain ⟨threads, hleave, h⟩ := of_bind h
    rw [← Except.ok.inj h, tgtPrepareContext_threads, leaveThread_state hleave]
    simp [hswitch]
  next hsame =>
    cases h
    simp [hsame]

theorem switchContext_same {st : ThreadState} (heval : k.sched.evalNewThread = false) :
    schSwitchContext k k.sched.currThread st = .ok k := by
  simp [schSwitchContext, heval]

theorem picked_sched (k : Core) (front : Option ℕ) : (picked k front).sched =
    { k.sched with currThread := (picked k front).sched.currThread } := by
  unfold picked
  split
  · split <;> rfl
  · rfl

theorem picked_state {front : Option ℕ} {u : ℕ} (hu : front.or k.sched.currThread = some u)
    (run : (k.threads u).state.Runnable) : ((picked k front).threads u).state = .running := by
  simp [picked, hu, run, threadSetState]

section Small

variable {k₁ : Core} {front : Option ℕ} {st : ThreadState}
  (small : queueSize (k.sched.queue k.sched.currQueue) ≤ 1)
  (hfront : queueFront (k.sched.queue k.sched.currQueue) = .ok front)

include small hfront

theorem setContext_small (h : schSetContextForNextThread k st = .ok k₁) :
    schSwitchContext (picked k front) k.sched.currThread st = .ok k₁ ∧
      k₁.sched.currThread.isSome = true := by
  obtain ⟨p, k₂, hpick, hswitch, hsome, hk₁⟩ := setContext_eq_ok h
  rw [pickThread_of_small small hfront, Except.ok.injEq] at hpick
  subst hpick
  have hsize : ¬ queueSize (k₂.sched.queue k₂.sched.currQueue) > 1 := by
    rw [switchContext_sched hswitch, picked_sched]
    exact not_lt.mpr small
  rw [if_neg hsize] at hk₁
  subst hk₁
  exact ⟨hswitch, hsome⟩

variable (first :
    schSetContextForNextThread k (threadGetState k.threads k.sched.currThread) = .ok k₁)

include first

theorem first_sched : k₁.sched = { k.sched with
    currThread := (picked k front).sched.currThread, evalNewThread := false } := by
  rw [switchContext_sched (setContext_small small hfront first).1, picked_sched]

theorem first_state (u : ℕ) : (k₁.threads u).state =
    if (k.sched.currThread ≠ (picked k front).sched.currThread ∨ k.sched.evalNewThread = true) ∧
      (k.threads u).state = .running ∧ k.sched.currThread = some u then .ready
    else ((picked k front).threads u).state := by
  rw [switchContext_state (setContext_small small hfront first).1, picked_sched]
  refine if_congr (and_congr_right fun _ => and_congr_left fun hu => ?_) rfl rfl
  rw [hu]
  rfl

theorem first_state_of_not_runnable {u : ℕ} (hu : ¬ (k.threads u).state.Runnable) :
    (k₁.threads u).state = (k.threads u).state := by
  have hrun : (k.threads u).state ≠ .running := fun h => hu (.inr (.inr h))
  rw [first_state small hfront first, if_neg fun h => hrun h.2.1]
  unfold picked
  split
  next a _ =>
    split
    next ha =>
      have hua : u ≠ a := fun hua => hu (hua ▸ ha)
      simp [threadSetState, hua]
    · rfl
  · rfl

/-- The thread the second decision takes is the current one, which can run or is the idle
thread, or one that cannot run, and then the idle thread is current. -/
theorem second_candidate {u : ℕ} (hu : front.or k₁.sched.currThread = some u) :
    (k₁.sched.currThread = some u ∧
      ((k₁.threads u).state.Runnable ∨ k₁.sched.currThread = k.sched.idleThread)) ∨
      (k₁.sched.currThread = k.sched.idleThread ∧ ¬ (k₁.threads u).state.Runnable) := by
  have hcurr : k₁.sched.currThread = (picked k front).sched.currThread := by
    rw [first_sched small hfront first]
  cases hc : front.or k.sched.currThread with
  | none =>
    have hidle : k₁.sched.currThread = k.sched.idleThread := by simp [hcurr, picked, hc]
    obtain rfl : front = none := (Option.or_eq_none_iff.mp hc).1
    exact .inl ⟨by simpa using hu, .inr hidle⟩
  | some a =>
    by_cases ha : (k.threads a).state.Runnable
    · have ht : k₁.sched.currThread = some a := by simp [hcurr, picked, hc, ha]
      obtain rfl : u = a := by
        cases front with
        | none => simpa [ht] using hu.symm
        | some b =>
          obtain rfl : b = a := by simpa using hc
          simpa using hu.symm
      refine .inl ⟨ht, .inl ?_⟩
      rw [first_state small hfront first]
      split
      · exact .inl rfl
      rw [picked_state hc ha]
      exact .inr (.inr rfl)
    have hidle : k₁.sched.currThread = k.sched.idleThread := by simp [hcurr, picked, hc, ha]
    cases front with
    | none => exact .inl ⟨by simpa using hu, .inr hidle⟩
    | some b =>
      obtain rfl : b = a := by simpa using hc
      obtain rfl : b = u := by simpa using hu
      exact .inr ⟨hidle, by rwa [first_state_of_not_runnable small hfront first ha]⟩

/-- The second decision picks the thread that is current, and switches nothing. -/
theorem second_eq (st' : ThreadState) :
    schSetContextForNextThread k₁ st' = .ok (picked k₁ front) ∧
      (SameSchedule (picked k₁ front) k₁ ↔ ∀ u, front.or k₁.sched.currThread = some u →
        (k₁.threads u).state.Runnable → (k₁.threads u).state = .running) := by
  have hsched := first_sched small hfront first
  have hsome := (setContext_small small hfront first).2
  obtain ⟨u, hu⟩ : ∃ u, front.or k₁.sched.currThread = some u := by
    obtain ⟨v, hv⟩ := Option.isSome_iff_exists.mp hsome
    cases front with
    | none => exact ⟨v, hv⟩
    | some w => exact ⟨w, rfl⟩
  have hcand := second_candidate small hfront first hu
  have hidle : k₁.sched.idleThread = k.sched.idleThread := by rw [hsched]
  have hstay : (picked k₁ front).sched.currThread = k₁.sched.currThread := by
    simp only [picked, hu]
    split
    next hrun =>
      rcases hcand with ⟨hcurr, -⟩ | ⟨-, hnot⟩
      · exact hcurr.symm
      · exact absurd hrun hnot
    next hnot =>
      rcases hcand with ⟨-, hrun | hcurr⟩ | ⟨hcurr, -⟩
      · exact absurd hrun hnot
      · exact hidle.trans hcurr.symm
      · exact hidle.trans hcurr.symm
  have small' : queueSize (k₁.sched.queue k₁.sched.currQueue) ≤ 1 := by
    rw [hsched]
    exact small
  have hfront' : queueFront (k₁.sched.queue k₁.sched.currQueue) = .ok front := by
    rw [hsched]
    exact hfront
  have heval : (picked k₁ front).sched.evalNewThread = false := by
    rw [picked_sched, hsched]
  have hsize :
      ¬ queueSize ((picked k₁ front).sched.queue (picked k₁ front).sched.currQueue) > 1 := by
    rw [picked_sched]
    exact not_lt.mpr small'
  constructor
  · simp only [schSetContextForNextThread, pickThread_of_small small' hfront', ok_bind,
      ← hstay, switchContext_same heval, if_neg hsize]
    simp [kernelAssert, hstay, hsome]
  simp only [hu, Option.some.injEq, forall_eq']
  have hqueued : ∀ p, (picked k₁ front).queued p = k₁.queued p := fun p => by
    rw [Core.queued, picked_sched]
  constructor
  · intro same hrun
    rw [← same.state u]
    simp [picked, hu, hrun, threadSetState]
  intro hrunning
  have hthreads : (picked k₁ front).threads = k₁.threads := by
    simp only [picked, hu]
    split
    next hrun =>
      rw [threadSetState, ← hrunning hrun]
      exact Function.update_eq_self u k₁.threads
    · rfl
  refine ⟨hstay, hqueued, fun t => by rw [hthreads], fun t => by rw [hthreads], ?_⟩
  simp only [picked, hu]
  split <;> rfl

theorem small_iff_of_runnable {a : ℕ} (hc : front.or k.sched.currThread = some a)
    (run : (k.threads a).state.Runnable) :
    (∀ u, front.or k₁.sched.currThread = some u → (k₁.threads u).state.Runnable →
      (k₁.threads u).state = .running) ↔
    ¬ (k.sched.currThread = some a ∧ (k.threads a).state = .running ∧
      k.sched.evalNewThread = true) := by
  have hpicked : (picked k front).sched.currThread = some a := by simp [picked, hc, run]
  have hcurr : k₁.sched.currThread = some a := by rw [first_sched small hfront first, hpicked]
  have hcand : front.or k₁.sched.currThread = some a := by
    cases front with
    | none => exact hcurr
    | some b => exact hc
  simp only [hcand, Option.some.injEq, forall_eq', first_state small hfront first a, hpicked,
    picked_state hc run]
  split
  next hready =>
    refine iff_of_false (fun h => by simpa using h (.inl rfl)) (not_not.mpr ?_)
    obtain ⟨hne | heval, hstate, hcurr'⟩ := hready
    · exact absurd hcurr' hne
    · exact ⟨hcurr', hstate, heval⟩
  next hready =>
    exact iff_of_true (fun _ => rfl) fun ⟨hcurr', hstate, heval⟩ =>
      hready ⟨.inr heval, hstate, hcurr'⟩

theorem small_iff_of_idle (hnone : front = none)
    (stuck : ¬ (threadGetState k.threads k.sched.currThread).Runnable) :
    (∀ u, front.or k₁.sched.currThread = some u → (k₁.threads u).state.Runnable →
      (k₁.threads u).state = .running) ↔
    threadGetState k.threads k.sched.idleThread ≠ .ready ∧
      threadGetState k.threads k.sched.idleThread ≠ .system := by
  subst hnone
  have hpicked : picked k none =
      { k with sched := { k.sched with currThread := k.sched.idleThread } } := by
    unfold picked
    cases hc : k.sched.currThread with
    | none => rfl
    | some c =>
      rw [hc] at stuck
      exact if_neg stuck
  have hcurr : k₁.sched.currThread = k.sched.idleThread := by
    rw [first_sched small hfront first, hpicked]
  have hstate : ∀ u, (k₁.threads u).state = (k.threads u).state := by
    intro u
    rw [first_state small hfront first, hpicked, if_neg]
    rintro ⟨-, hstate, hu⟩
    rw [hu] at stuck
    exact stuck (.inr (.inr hstate))
  obtain ⟨i, hi⟩ := Option.isSome_iff_exists.mp (setContext_small small hfront first).2
  simp only [Option.none_or, hi, Option.some.injEq, forall_eq', hstate, ← hcurr, threadGetState,
    ThreadState.Runnable]
  constructor
  · intro h
    refine ⟨fun hready => ?_, fun hsystem => ?_⟩
    · simpa [hready] using h (.inl hready)
    · simpa [hsystem] using h (.inr (.inl hsystem))
  rintro ⟨hready, hsystem⟩ (h | h | h)
  · exact absurd h hready
  · exact absurd h hsystem
  · exact h

/-- With at most one thread in the queue, the second decision changes nothing exactly in the
states `TickOk`. -/
theorem small_iff : (∀ u, front.or k₁.sched.currThread = some u →
    (k₁.threads u).state.Runnable → (k₁.threads u).state = .running) ↔ TickOk k := by
  have hhead : (k.queued k.sched.currQueue).head? = front := head?_items_of_listGet hfront
  have hnil : k.queued k.sched.currQueue = [] ↔ front = none := by
    rw [← hhead, List.head?_eq_none_iff]
  simp only [TickOk, small, true_and, hhead, hnil]
  by_cases hstuck : front = none ∧ ¬ (threadGetState k.threads k.sched.currThread).Runnable
  · obtain ⟨hnone, stuck⟩ := hstuck
    rw [small_iff_of_idle small hfront first hnone stuck]
    refine ⟨fun h => ⟨fun c hc hstate => ?_, fun _ _ => h⟩, fun h => h.2 hnone stuck⟩
    rw [hc] at stuck
    exact absurd (.inr (.inr hstate)) stuck
  obtain ⟨a, ha⟩ : ∃ a, front.or k.sched.currThread = some a := by
    cases front with
    | some b => exact ⟨b, rfl⟩
    | none =>
      cases hc : k.sched.currThread with
      | some c => exact ⟨c, rfl⟩
      | none => simp [hc, threadGetState, ThreadState.Runnable] at hstuck
  have hthird : front = none → ¬ (threadGetState k.threads k.sched.currThread).Runnable →
      threadGetState k.threads k.sched.idleThread ≠ .ready ∧
        threadGetState k.threads k.sched.idleThread ≠ .system :=
    fun hnone stuck => absurd ⟨hnone, stuck⟩ hstuck
  by_cases run : (k.threads a).state.Runnable
  · rw [small_iff_of_runnable small hfront first ha run]
    refine ⟨fun h => ⟨fun c hc hstate heval hagain => h ?_, hthird⟩, fun h hagain => ?_⟩
    · have hca : c = a := by
        rw [hc] at ha
        cases front with
        | none => simpa using ha
        | some b => exact hagain.symm.trans (by simpa using ha)
      exact hca ▸ ⟨hc, hstate, heval⟩
    obtain ⟨hc, hstate, heval⟩ := hagain
    refine h.1 a hc hstate heval ?_
    cases front with
    | none => rfl
    | some b => simpa using ha
  -- the head of the queue cannot run, before as after the first decision
  have hsome : front = some a := by
    cases front with
    | some b => simpa using ha
    | none =>
      have hc : k.sched.currThread = some a := ha
      rw [hc] at hstuck
      exact absurd ⟨rfl, run⟩ hstuck
  refine iff_of_true (fun u hu hrun => absurd hrun ?_) ⟨fun c hc hstate _ hagain => ?_, hthird⟩
  · obtain rfl : a = u := by simpa [hsome] using hu
    rwa [first_state_of_not_runnable small hfront first run]
  obtain rfl : a = c := by simpa [hsome] using hagain
  exact run (.inr (.inr hstate))

end Small

/-! ## The tick -/

/-- An interrupt of the schedule timer fails as a single decision fails. Where a single
decision returns, the tick leaves the same schedule if and only if the state is `TickOk`. -/
theorem tick_iff (routes : Routes m intc t) (schedule : IsScheduleTimer m t)
    (ends : EndsDiffer (m.core.sched.queue m.core.sched.currQueue)) :
    (∀ f, schSetContextForNextThread m.core
        (threadGetState m.core.threads m.core.sched.currThread) = .error f →
      intHandleExternalVector drivers (some intc) m = .error f) ∧
    ∀ k, schSetContextForNextThread m.core
        (threadGetState m.core.threads m.core.sched.currThread) = .ok k →
      ((∃ r m', intHandleExternalVector drivers (some intc) m = .ok (r, m') ∧
        SameSchedule m'.core k) ↔ TickOk m.core) := by
  obtain ⟨after, hcore, htick⟩ := tick_eq drivers routes schedule
  constructor
  · intro f hf
    simp [htick, intContextSwitchInterrupt, hf]
  · intro k first
    have hresult : (∃ r m', intHandleExternalVector drivers (some intc) m = .ok (r, m') ∧
        SameSchedule m'.core k) ↔ ∃ k₂, schSetContextForNextThread k
          (threadGetState k.threads m.core.sched.currThread) = .ok k₂ ∧ SameSchedule k₂ k := by
      rw [htick, intContextSwitchInterrupt, first, ok_bind]
      cases schSetContextForNextThread k (threadGetState k.threads m.core.sched.currThread) with
      | error f => simp
      | ok k₂ =>
        simp only [ok_bind, pure_eq_ok, Except.ok.injEq, Prod.mk.injEq, exists_eq_left']
        refine ⟨?_, fun same => ⟨_, _, ⟨rfl, rfl⟩, by rwa [hcore]⟩⟩
        rintro ⟨r, m', ⟨-, rfl⟩, same⟩
        rwa [hcore] at same
    rw [hresult]
    by_cases small : queueSize (m.core.sched.queue m.core.sched.currQueue) ≤ 1
    · obtain ⟨k₁, k₂, hpick, -⟩ := setContext_eq_ok first
      obtain ⟨front, hfront, -⟩ := of_bind hpick
      obtain ⟨hsecond, hsame⟩ := second_eq small hfront first
        (threadGetState k.threads m.core.sched.currThread)
      rw [← small_iff small hfront first, ← hsame, hsecond]
      simp
    · refine iff_of_false ?_ fun h => small h.1
      rintro ⟨k₂, second, same⟩
      exact not_sameSchedule_of_two ends (not_le.mp small) first second same

def timerIntc : Intc := .mk 0 fun _ => .timer (some 0)

def timerMachine (k : Core) : Machine where
  core := k
  timers := fun _ => some ⟨some .bspSchedulerTimeout, 1⟩
  status := fun _ => true
  pending := fun _ => some 1

def idleDrivers : Drivers where
  ackCause := fun _ _ pending => pending
  deviceIsr := fun _ _ m => .ok (.noError, m)
  pipeSend := fun _ _ m => .ok (.noError, m)
  alarmCallback := fun m => .ok m

theorem routes_timerMachine (k : Core) : Routes (timerMachine k) timerIntc 0 :=
  show Routes _ (.mk 0 fun _ => .timer (some 0)) 0 from .timer rfl (by decide) rfl

theorem isScheduleTimer_timerMachine (k : Core) : IsScheduleTimer (timerMachine k) 0 :=
  ⟨_, rfl, rfl, by decide⟩

/-- With the idle thread alone a tick is one decision. -/
theorem tick_iff_idle : ∃ k r m', schSetContextForNextThread bootedCore .notCreated = .ok k ∧
    intHandleExternalVector idleDrivers (some timerIntc) (timerMachine bootedCore) = .ok (r, m') ∧
    SameSchedule m'.core k := by
  obtain ⟨k, hk⟩ : ∃ k, schSetContextForNextThread bootedCore .notCreated = .ok k :=
    ⟨_, rfl⟩
  have ok : TickOk bootedCore := by
    refine ⟨by decide, fun c hc => by simp [bootedCore] at hc, fun hnil => ?_⟩
    exact absurd hnil (by decide)
  obtain ⟨r, m', htick, same⟩ := ((tick_iff idleDrivers (routes_timerMachine bootedCore)
    (isScheduleTimer_timerMachine bootedCore) (fun h => absurd h (by decide))).2 k hk).mpr ok
  exact ⟨k, r, m', hk, htick, same⟩

/-- Two threads of priority 1: a single decision dispatches the first one, a tick the
second. -/
theorem not_tick : ∃ drivers m intc t k, Routes m intc t ∧ IsScheduleTimer m t ∧
    EndsDiffer (m.core.sched.queue m.core.sched.currQueue) ∧
    schSetContextForNextThread m.core
      (threadGetState m.core.threads m.core.sched.currThread) = .ok k ∧
    ¬ ∃ r m', intHandleExternalVector drivers (some intc) m = .ok (r, m') ∧
      SameSchedule m'.core k := by
  obtain ⟨k, -, hk⟩ := exists_run_of_replay SchedEvent.apply
    (fun k e => e.Admitted 0 k) bootedCore [.newThread 1 (.ready 1), .newThread 2 (.ready 1)]
    (fun k =>
      (k.sched.queue k.sched.currQueue).itemAt (k.sched.queue k.sched.currQueue).head = some 1 ∧
      (k.sched.queue k.sched.currQueue).itemAt (k.sched.queue k.sched.currQueue).tail = some 2 ∧
      ((schSetContextForNextThread k (threadGetState k.threads k.sched.currThread)).map
        fun k => k.sched.currThread) = .ok (some 1) ∧
      ((intHandleExternalVector idleDrivers (some timerIntc) (timerMachine k)).map
        fun r => r.2.core.sched.currThread) = .ok (some 2)) (by decide +kernel)
  obtain ⟨hhead, htail, hsingle, htick⟩ := of_decide_eq_true hk
  cases hfirst : schSetContextForNextThread k (threadGetState k.threads k.sched.currThread) with
  | error f => simp [hfirst, Except.map] at hsingle
  | ok k₁ =>
    refine ⟨idleDrivers, timerMachine k, timerIntc, 0, k₁, routes_timerMachine k,
      isScheduleTimer_timerMachine k, fun _ => ⟨1, 2, hhead, htail, by decide⟩, hfirst, ?_⟩
    rintro ⟨r, m', hm', same⟩
    simp only [hfirst, hm', Except.map, Except.ok.injEq] at hsingle htick
    rw [same.currThread, hsingle] at htick
    simp at htick

end Tinker
