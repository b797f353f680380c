import Tinker.Scheduler.Selection

/-!
# Round robin

As many calls of `sch_set_context_for_next_thread` as there are threads in the queue being served
should dispatch each of them once. `list_head_to_tail` makes the ends of the queue change places, so
this holds for a queue of one thread only. With two threads the one dispatched first is no longer
met by a walk over the queue; with three or more the first and the last thread alternate.
-/

namespace Tinker

variable {calls : List (TgtContext × ThreadState)}

open Tinker.Lib Tinker.Collections

/-- Consecutive calls of `sch_set_context_for_next_thread`. Each call is given the registers
and the state of the thread it interrupts; the result lists the states after the calls. -/
def dispatchAll : Core → List (TgtContext × ThreadState) → Exec (List Core)
  | _, [] => .ok []
  | k, (context, st) :: calls => do
    let k ← schSetContextForNextThread { k with context := context } st
    let ks ← dispatchAll k calls
    return k :: ks

/-- The queue being served holds exactly the threads `ts`, which are distinct and runnable. -/
structure Serves (k : Core) (ts : List ℕ) : Prop where
  queue : IsQueue (k.sched.queue k.sched.currQueue) ts
  nodup : ts.Nodup
  runnable : ∀ t ∈ ts, (k.threads t).state.Runnable

/-- The calls return, dispatch each of the threads `ts` exactly once, and after every call
the queue still holds exactly these threads. -/
def RoundRobin (k : Core) (ts : List ℕ) (calls : List (TgtContext × ThreadState)) : Prop :=
  ∃ ks, dispatchAll k calls = .ok ks ∧
    (ks.map fun k' => k'.sched.currThread).Perm (ts.map some) ∧
    ∀ k' ∈ ks, (k'.sched.queue k.sched.currQueue).items.Perm ts

variable {k : Core} {ts : List ℕ} {t u : ℕ} {st : ThreadState} {context : TgtContext}

theorem Serves.setContext {l : ListT ℕ} (h : Serves k (t :: ts)) (context : TgtContext)
    (legal : CallLegal k st)
    (rotate : listHeadToTail (k.sched.queue k.sched.currQueue) = .ok (true, l)) :
    ∃ k', schSetContextForNextThread { k with context := context } st = .ok k' ∧
      k'.sched.currThread = some t ∧ k'.sched.currQueue = k.sched.currQueue ∧
      k'.sched.queue k.sched.currQueue = l ∧
      ∀ u, (k.threads u).state.Runnable → (k'.threads u).state.Runnable := by
  obtain ⟨k', eval, hk', hsched, hrun⟩ := setContext_of_rotate (k := { k with context := context })
    legal h.queue.listGet_zero (h.runnable t (by simp)) rotate
  refine ⟨k', hk', by rw [hsched], by rw [hsched]; rfl, ?_, hrun⟩
  simp [hsched, Scheduler.queue, Scheduler.setQueue]

theorem Serves.setContext_error (h : Serves k (t :: ts))
    (stale : (k.sched.queue k.sched.currQueue).TailStale) :
    schSetContextForNextThread { k with context := context } st = .error .badPointer :=
  setContext_of_rotate_error (k := { k with context := context }) h.queue.listGet_zero
    (h.queue.listHeadToTail_of_stale stale)

theorem Serves.setContext_swap (h : Serves k (t :: (ts ++ [u]))) (hts : ts ≠ [])
    (live : ¬ (k.sched.queue k.sched.currQueue).TailStale) (legal : CallLegal k st) :
    ∃ k', schSetContextForNextThread { k with context := context } st = .ok k' ∧
      k'.sched.currThread = some t ∧ Serves k' (u :: (ts ++ [t])) ∧
      ¬ (k'.sched.queue k'.sched.currQueue).TailStale := by
  obtain ⟨l, hrotate, hl, hlive⟩ := h.queue.listHeadToTail_swap hts live
  obtain ⟨k', hk', hcurr, hqueue, hsame, hrun⟩ := h.setContext context legal hrotate
  have hperm : (u :: (ts ++ [t])).Perm (t :: (ts ++ [u])) :=
    calc (u :: (ts ++ [t])).Perm (u :: t :: ts) := (List.perm_append_singleton t ts).cons u
      _ |>.Perm (t :: u :: ts) := List.Perm.swap t u ts
      _ |>.Perm (t :: (ts ++ [u])) := (List.perm_append_singleton u ts).symm.cons t
  refine ⟨k', hk', hcurr, ⟨by rw [hqueue, hsame]; exact hl, hperm.nodup_iff.mpr h.nodup,
    fun v hv => hrun v (h.runnable v (hperm.mem_iff.mp hv))⟩, by rw [hqueue, hsame]; exact hlive⟩

theorem callLegal_of_currThread (h : k.sched.currThread = some t) : CallLegal k st := fun _ => by
  simp [h]

theorem dispatchAll_cons {ks : List Core} (h : dispatchAll k ((context, st) :: calls) = .ok ks) :
    ∃ k' ks', schSetContextForNextThread { k with context := context } st = .ok k' ∧
      dispatchAll k' calls = .ok ks' ∧ ks = k' :: ks' := by
  obtain ⟨k', hk', hrest⟩ := Exec.of_bind h
  obtain ⟨ks', hks', heq⟩ := Exec.of_bind hrest
  exact ⟨k', ks', hk', hks', (Except.ok.inj heq).symm⟩

theorem roundRobin_singleton (h : Serves k [t]) (legal : CallLegal k st) :
    RoundRobin k [t] [(context, st)] := by
  have hrotate := listHeadToTail_of_size_le (l := k.sched.queue k.sched.currQueue)
    (by simp [h.queue.size_eq])
  obtain ⟨k', hk', hcurr, -, hsame, -⟩ := h.setContext context legal hrotate
  refine ⟨[k'], by simp [dispatchAll, hk'], by simp [hcurr], ?_⟩
  simp [hsame, h.queue.items_eq]

/-- With two threads, the first call hides the thread it dispatches. -/
theorem not_roundRobin_pair (h : Serves k [t, u]) (legal : CallLegal k st) :
    ¬ RoundRobin k [t, u] ((context, st) :: calls) := by
  rintro ⟨ks, hks, -, hqueue⟩
  obtain ⟨k₁, ks₁, hk₁, -, rfl⟩ := dispatchAll_cons hks
  by_cases stale : (k.sched.queue k.sched.currQueue).TailStale
  · rw [h.setContext_error stale] at hk₁
    cases hk₁
  obtain ⟨l, hrotate, hitems⟩ := h.queue.listHeadToTail_pair stale
  obtain ⟨k', hk', -, -, hsame, -⟩ := h.setContext context legal hrotate
  cases hk₁.symm.trans hk'
  have hperm := hqueue k₁ (by simp)
  rw [hsame, hitems] at hperm
  have hnodup := hperm.nodup_iff.mpr h.nodup
  simp at hnodup

/-- With three or more threads, the first and the third call dispatch the same thread. -/
theorem not_roundRobin_swap {c₁ c₂ c₃ : TgtContext × ThreadState} (h : Serves k (t :: (ts ++ [u])))
    (hts : ts ≠ []) (legal : CallLegal k c₁.2) :
    ¬ RoundRobin k (t :: (ts ++ [u])) (c₁ :: c₂ :: c₃ :: calls) := by
  rintro ⟨ks, hks, hperm, -⟩
  obtain ⟨k₁, ks₁, hk₁, hks₁, rfl⟩ := dispatchAll_cons hks
  by_cases stale : (k.sched.queue k.sched.currQueue).TailStale
  · rw [h.setContext_error stale] at hk₁
    cases hk₁
  obtain ⟨k', hk', hcurr₁, h₁, live₁⟩ := h.setContext_swap hts stale legal
  cases hk₁.symm.trans hk'
  obtain ⟨k₂, ks₂, hk₂, hks₂, rfl⟩ := dispatchAll_cons hks₁
  obtain ⟨k', hk', hcurr₂, h₂, live₂⟩ :=
    h₁.setContext_swap hts live₁ (callLegal_of_currThread hcurr₁)
  cases hk₂.symm.trans hk'
  obtain ⟨k₃, ks₃, hk₃, hks₃, rfl⟩ := dispatchAll_cons hks₂
  obtain ⟨k', hk', hcurr₃, -, -⟩ :=
    h₂.setContext_swap hts live₂ (callLegal_of_currThread hcurr₂)
  cases hk₃.symm.trans hk'
  have hnodup := hperm.nodup_iff.mpr (h.nodup.map (Option.some_injective ℕ))
  simp [hcurr₁, hcurr₂, hcurr₃] at hnodup

/-- As many calls as there are threads in the queue being served dispatch each of them once,
and keep the queue, if and only if there is one thread. -/
theorem roundRobin_iff {calls : List (TgtContext × ThreadState)} (h : Serves k ts)
    (hlen : calls.length = ts.length) (hne : ts ≠ []) (legal : ∀ c ∈ calls.head?, CallLegal k c.2) :
    RoundRobin k ts calls ↔ ts.length = 1 := by
  match ts, calls, hlen with
  | [t], [c], _ => exact iff_of_true (roundRobin_singleton h (legal c rfl)) rfl
  | [t, u], [c₁, c₂], _ => exact iff_of_false (not_roundRobin_pair h (legal c₁ rfl)) (by simp)
  | t :: v :: w :: ts, c₁ :: c₂ :: c₃ :: calls, _ =>
    obtain ⟨ts', u, hts⟩ := (List.eq_nil_or_concat' (w :: ts)).resolve_left (by simp)
    have hsplit : t :: v :: w :: ts = t :: ((v :: ts') ++ [u]) := by simp [hts]
    rw [hsplit] at h ⊢
    exact iff_of_false (not_roundRobin_swap h (by simp) (legal c₁ rfl)) (by simp)

theorem serves_of_servesTop {idle : ℕ} (inv : ServesTop idle k) :
    Serves k (k.queued k.sched.currQueue) := by
  obtain ⟨queues, above, wf, -, -⟩ := inv
  rw [wf.queued_eq]
  exact ⟨wf.queue _, wf.nodup _, wf.runnable _⟩

theorem serves_of_arrivals {es : List SchedEvent} {k' : Core}
    (run : Run SchedEvent.apply (fun k e => e.Admitted 0 k ∧ StepOk k e) bootedCore es k') :
    Serves k' (k'.queued k'.sched.currQueue) :=
  serves_of_servesTop (servesTop_of_run booted_bootedCore run)

/-- One thread of priority 1 next to the idle thread. -/
theorem roundRobin_iff_one : ∃ k, Serves k [1] ∧ RoundRobin k [1] [(default, .notCreated)] := by
  obtain ⟨k, run, hitems⟩ := exists_run_of_replay SchedEvent.apply
    (fun k e => e.Admitted 0 k ∧ StepOk k e) bootedCore [.newThread 1 (.ready 1)]
    (fun k => k.queued k.sched.currQueue = [1]) (by decide +kernel)
  have h := of_decide_eq_true hitems ▸ serves_of_arrivals run
  exact ⟨k, h, (roundRobin_iff h rfl (by simp) (by simp [CallLegal])).mpr rfl⟩

/-- Three threads of priority 1: three calls dispatch the first one twice and the second one
not at all. -/
theorem not_roundRobin : ∃ k ts calls, Serves k ts ∧ calls.length = ts.length ∧ ts ≠ [] ∧
    (∀ c ∈ calls.head?, CallLegal k c.2) ∧ ¬ RoundRobin k ts calls := by
  obtain ⟨k, run, hitems⟩ := exists_run_of_replay SchedEvent.apply
    (fun k e => e.Admitted 0 k ∧ StepOk k e) bootedCore
    [.newThread 1 (.ready 1), .newThread 2 (.ready 1), .newThread 3 (.ready 1)]
    (fun k => k.queued k.sched.currQueue = [1, 2, 3]) (by decide +kernel)
  have h := of_decide_eq_true hitems ▸ serves_of_arrivals run
  have legal : CallLegal k .notCreated := by simp [CallLegal]
  exact ⟨k, [1, 2, 3], List.replicate 3 (default, .notCreated), h, rfl, by simp,
    by simpa using legal,
    not_roundRobin_swap (show Serves k (1 :: ([2] ++ [3])) from h) (by simp) legal⟩

end Tinker
