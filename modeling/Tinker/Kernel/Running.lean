import Tinker.Kernel.Quiet
import Tinker.Scheduler.Dispatch

/-!
# One running thread

Between two dispatches no thread is set running, so if any thread is running it is the current
one. A dispatch sets the thread that it takes running and then, if another thread was current
and is said to be running, sets that one ready; if the two are the same thread, it is left ready.
-/

namespace Tinker

open Tinker.Lib Tinker.Collections Exec KernelEvent

/-- The current thread is running, or it is the idle thread and in the state that is kept for
it, and no other thread is running. -/
def OneRunning (k : ThreadSys) : Prop :=
  ∃ c, k.sched.currThread = some c ∧
    ((k.threads c).state = .running ∨
      k.sched.idleThread = some c ∧ (k.threads c).state = .system) ∧
    ∀ t, (k.threads t).state = .running → t = c

def Core.front (k : Core) : Option ℕ := (k.sched.queue k.sched.currQueue).items.head?

/-- If neither the head of the queue being served nor, for want of one, the current thread can
run, the idle thread is in a state of its own or running. If the thread that was current stays
current and is said to be running, no event has been noted. If it does not stay current but is
running, it is said to be running. -/
def Core.KeepsOne (k : Core) (st : ThreadState) : Prop :=
  ((threadGetState k.threads (k.front.or k.sched.currThread)).Runnable ∨
      threadGetState k.threads k.sched.idleThread = .system ∨
      threadGetState k.threads k.sched.idleThread = .running) ∧
    (k.next k.front = k.sched.currThread → st = .running → k.sched.evalNewThread = false) ∧
    (k.next k.front ≠ k.sched.currThread →
      threadGetState k.threads k.sched.currThread = .running → st = .running)

deriving instance Decidable for Core.KeepsOne

def OnlyCurrentRuns (k : ThreadSys) : Prop :=
  ∀ t, (k.threads t).state = .running → k.sched.currThread = some t

/-! ## One dispatch -/

section Dispatch

variable {k k' : Core} {st : ThreadState} {front : Option ℕ} {l : ListT ℕ} {n : ℕ}

theorem Core.next_of_not_runnable (k : Core)
    (h : ¬ (threadGetState k.threads (front.or k.sched.currThread)).Runnable) :
    k.next front = k.sched.idleThread := by
  unfold Core.next
  cases htry : front.or k.sched.currThread with
  | none => rfl
  | some u =>
    rw [htry] at h
    exact if_neg h

theorem Dispatched.front_eq (d : Dispatched k st front l k') : k.front = front :=
  head?_items_of_listGet d.head

theorem Dispatched.state_next (d : Dispatched k st front l k') (hn : k.next front = some n) :
    (k'.threads n).state =
      if k.sched.currThread = some n ∧ k.sched.evalNewThread = true ∧ st = .running then .ready
      else if (threadGetState k.threads (front.or k.sched.currThread)).Runnable then .running
      else (k.threads n).state := by
  have htakes : k.Takes front n ↔
      (threadGetState k.threads (front.or k.sched.currThread)).Runnable := by
    unfold Core.Takes
    unfold Core.next at hn
    cases htry : front.or k.sched.currThread with
    | none => simp [threadGetState, ThreadState.Runnable]
    | some u =>
      simp only [htry] at hn
      by_cases hrun : (k.threads u).state.Runnable
      · rw [if_pos hrun] at hn
        cases hn
        simp [threadGetState, hrun]
      simp only [threadGetState, hrun, iff_false, not_and, Option.some.injEq]
      rintro rfl
      exact hrun
  have hswitch : k.Switches front ∧ st = .running ∧ k.sched.currThread = some n ↔
      k.sched.currThread = some n ∧ k.sched.evalNewThread = true ∧ st = .running := by
    unfold Core.Switches
    rw [hn]
    tauto
  rw [d.state n]
  simp only [htakes, hswitch]

theorem Dispatched.oneRunning_iff (d : Dispatched k st front l k')
    (only : ∀ t, (k.threads t).state = .running → k.sched.currThread = some t)
    (objThreads : ℕ → ObjThread) :
    OneRunning ⟨k'.threads, k'.sched, objThreads⟩ ↔ k.KeepsOne st := by
  obtain ⟨n, hn⟩ := Option.isSome_iff_exists.mp d.isSome
  have hnext : k.next front = some n := d.next.symm.trans hn
  have hself := d.state_next hnext
  -- another thread is running afterwards if it was the current one and is not set ready
  have hother : (∀ t, (k'.threads t).state = .running → t = n) ↔
      (k.next front ≠ k.sched.currThread →
        threadGetState k.threads k.sched.currThread = .running → st = .running) := by
    rw [hnext]
    constructor
    · intro hall hne hrun
      cases hcur : k.sched.currThread with
      | none =>
        rw [hcur] at hrun
        cases hrun
      | some c =>
        rw [hcur] at hne hrun
        by_contra hst
        refine hne (congrArg some (hall c ?_).symm)
        rw [d.state c, if_neg fun e => hst e.2.1]
        split
        · rfl
        · exact hrun
    intro hleft t ht
    by_contra hne
    have hnot : ¬ k.Takes front t := by
      rintro ⟨htry, hrun⟩
      unfold Core.next at hnext
      rw [htry] at hnext
      simp only [hrun, if_true, Option.some.injEq] at hnext
      exact hne hnext
    rw [d.state t, if_neg hnot] at ht
    split at ht
    · cases ht
    next hkeep =>
      have hcur := only t ht
      refine hkeep ⟨.inl ?_, hleft ?_ ?_, hcur⟩
      · rw [hcur, hnext]
        exact fun e => hne (Option.some.inj e)
      · rw [hcur]
        exact fun e => hne (Option.some.inj e).symm
      rw [hcur]
      exact ht
  unfold Core.KeepsOne
  rw [d.front_eq]
  constructor
  · rintro ⟨c, hc, hstate, hall⟩
    cases hn.symm.trans hc
    have hnotReady : ¬ (k.sched.currThread = some n ∧ k.sched.evalNewThread = true ∧
        st = .running) := by
      intro hready
      rw [if_pos hready] at hself
      simp [hself] at hstate
    rw [if_neg hnotReady] at hself
    refine ⟨?_, fun heq hst => ?_, hother.mp hall⟩
    · by_cases hrun : (threadGetState k.threads (front.or k.sched.currThread)).Runnable
      · exact .inl hrun
      rw [if_neg hrun] at hself
      rw [← k.next_of_not_runnable hrun, hnext]
      rcases hstate with hrunning | ⟨-, hsystem⟩
      · exact .inr (.inr (hself.symm.trans hrunning))
      · exact .inr (.inl (hself.symm.trans hsystem))
    rw [hnext] at heq
    exact Bool.eq_false_iff.mpr fun heval => hnotReady ⟨heq.symm, heval, hst⟩
  rintro ⟨hidle, hstay, hleave⟩
  refine ⟨n, hn, ?_, hother.mpr hleave⟩
  rw [if_neg] at hself
  · by_cases hrun : (threadGetState k.threads (front.or k.sched.currThread)).Runnable
    · rw [if_pos hrun] at hself
      exact .inl hself
    rw [if_neg hrun] at hself
    have hnidle := (k.next_of_not_runnable hrun).symm.trans hnext
    have hstate := hidle.resolve_left hrun
    rw [hnidle] at hstate
    rcases hstate with hsystem | hrunning
    · exact .inr ⟨d.idle.trans hnidle, hself.trans hsystem⟩
    · exact .inl (hself.trans hrunning)
  rintro ⟨hcur, heval, hst⟩
  rw [hstay (hnext.trans hcur.symm) hst] at heval
  cases heval

end Dispatch

/-! ## One step -/

/-- If a step dispatches, it is of the kind described. -/
def KernelEvent.KeepsOne (s : System) (e : KernelEvent) : Prop :=
  ∀ st ∈ e.dispatches? s, s.core.KeepsOne st

instance KernelEvent.decidableKeepsOne (s : System) (e : KernelEvent) : Decidable (e.KeepsOne s) :=
  inferInstanceAs (Decidable (∀ st ∈ (e.dispatches? s : Option _), _))

section Steps

variable {s s' : System} {k k' : Kernel} {e : KernelEvent}

theorem OneRunning.only (h : OneRunning k.toThreadSys) : OnlyCurrentRuns k.toThreadSys := by
  obtain ⟨c, hc, -, hall⟩ := h
  intro t ht
  rw [hall t ht, hc]

theorem OnlyCurrentRuns.quiet {S : ℕ → Prop} {sys sys' : ThreadSys} (only : OnlyCurrentRuns sys)
    (quiet : Quiet S sys sys') : OnlyCurrentRuns sys' := by
  intro t ht
  have hcur := only t (quiet.running t ht)
  rcases quiet.current with heq | ⟨-, hgone⟩
  · rw [heq, hcur]
  · exact absurd ht (hgone t hcur).1

theorem OnlyCurrentRuns.setContext {st : ThreadState} (only : OnlyCurrentRuns k.toThreadSys)
    (h : k.setContext st = .ok k') :
    (OneRunning k'.toThreadSys ↔ k.core.KeepsOne st) ∧
      (k.core.KeepsOne st → OnlyCurrentRuns k'.toThreadSys) := by
  obtain ⟨core, hcore, rfl⟩ := Kernel.setContext_eq_ok h
  obtain ⟨front, l, d⟩ := exists_dispatched hcore
  have hiff := d.oneRunning_iff only k.objThreads
  exact ⟨hiff, fun hkeeps => OneRunning.only (hiff.mpr hkeeps)⟩

theorem OnlyCurrentRuns.fired {sys sys' : AlarmSys} (only : OnlyCurrentRuns sys.toThreadSys)
    (fired : sys.Fired sys') : OnlyCurrentRuns sys'.toThreadSys := by
  intro t ht
  rw [fired.current]
  rcases fired.state t with hsame | hready
  · exact only t (hsame.symm.trans ht)
  rw [hready] at ht
  cases ht

theorem OnlyCurrentRuns.call {c : SystemCall} {t : ℕ} {ret : ReturnT}
    (only : OnlyCurrentRuns k.toThreadSys) (hcaller : k.sched.currThread = some t)
    (h : c.body k t = .ok (ret, k')) : OnlyCurrentRuns k'.toThreadSys := by
  by_cases hload : c.api = .loadThread
  · cases c with
    | loadThread =>
      cases h
      exact only
    | _ => cases hload
  · exact only.quiet (SystemCall.body_quiet hcaller hload h).threads

theorem OnlyCurrentRuns.finish {api : Api} {t : ℕ} {ret : ReturnT} {dispatched : Bool}
    (only : OnlyCurrentRuns k.toThreadSys)
    (h : syscallFinish k api t ret = .ok (dispatched, k')) :
    ((k.stateAfter api t = .system ∨ k.stateAfter api t = .running) ∧ dispatched = false ∧
      OnlyCurrentRuns k'.toThreadSys) ∨
    (k.stateAfter api t ≠ .system ∧ k.stateAfter api t ≠ .running ∧
      (OneRunning k'.toThreadSys ↔ k.core.KeepsOne (k.stateAfter api t)) ∧
      (k.core.KeepsOne (k.stateAfter api t) → OnlyCurrentRuns k'.toThreadSys)) := by
  rcases syscallFinish_cases h with ⟨hstate, hdispatched, rfl⟩ |
    ⟨hsystem, hrunning, -, k₁, hset, rfl⟩
  · refine .inl ⟨hstate, hdispatched, ?_⟩
    split <;> exact only
  have hthreads : (if api = .other then k₁ else { k₁ with scheduleTimer := true }).toThreadSys =
      k₁.toThreadSys := by
    split <;> rfl
  rw [hthreads]
  -- the registers do not matter for what is dispatched
  exact .inr ⟨hsystem, hrunning, OnlyCurrentRuns.setContext (k := k.setReturn ret) only hset⟩

/-- A step that dispatches leaves one thread running exactly if it is of the kind described;
and as long as the steps are of that kind, no thread but the current one is running. -/
theorem OnlyCurrentRuns.step (only : OnlyCurrentRuns s.toThreadSys) (h : e.step s = .ok s') :
    (s'.dispatched = true → (OneRunning s'.toThreadSys ↔ e.KeepsOne s)) ∧
      (e.KeepsOne s → OnlyCurrentRuns s'.toThreadSys) := by
  -- the events that do not fit change nothing and do not dispatch
  have hidle : ∀ P : Prop, s' = { s with dispatched := false } →
      (s'.dispatched = true → (OneRunning s'.toThreadSys ↔ P)) ∧
        (P → OnlyCurrentRuns s'.toThreadSys) := by
    rintro P rfl
    exact ⟨nofun, fun _ => only⟩
  cases e with
  | execute context =>
    simp only [step] at h
    split at h
    · cases h
      exact ⟨nofun, fun _ => only⟩
    · exact hidle _ (Except.ok.inj h).symm
  | call c =>
    simp only [step] at h
    split at h
    next t hmode hcaller =>
      obtain ⟨⟨ret, k⟩, hbody, h⟩ := of_bind h
      cases h
      exact ⟨nofun, fun _ => only.call hcaller hbody⟩
    · exact hidle _ (Except.ok.inj h).symm
  | finish =>
    simp only [step] at h
    simp only [KeepsOne, dispatches?]
    split at h
    next api t ret hmode =>
      obtain ⟨⟨dispatched, k⟩, hfinish, h⟩ := of_bind h
      cases h
      rcases only.finish hfinish with ⟨-, rfl, only'⟩ | ⟨hsystem, hrunning, hiff, hkeep⟩
      · exact ⟨nofun, fun _ => only'⟩
      rw [if_pos ⟨hsystem, hrunning⟩]
      simp only [Option.mem_some_iff, forall_eq']
      exact ⟨fun _ => hiff, hkeep⟩
    · exact hidle _ (Except.ok.inj h).symm
  | interrupt source =>
    simp only [step] at h
    split at h
    next hmode =>
      obtain ⟨⟨dispatched, k⟩, hhandle, h⟩ := of_bind h
      cases h
      cases source with
      | device =>
        obtain ⟨rfl, rfl⟩ := pair_inj hhandle
        exact ⟨nofun, fun _ => only⟩
      | pipe p cause =>
        obtain ⟨⟨r, k₁⟩, hsend, hhandle⟩ := of_bind hhandle
        obtain ⟨rfl, rfl⟩ := pair_inj hhandle
        have quiet : s.toKernel.Quiet (fun _ => False) k₁ :=
          .onPipes hsend fun _ => objPipeSendMessage_quiet
        exact ⟨nofun, fun _ => only.quiet quiet.threads⟩
      | scheduleTimer =>
        obtain ⟨k₁, hset, hhandle⟩ := of_bind hhandle
        cases hhandle
        obtain ⟨hiff, hkeep⟩ := only.setContext hset
        simp only [KeepsOne, dispatches?, if_pos hmode, Option.mem_some_iff, forall_eq']
        exact ⟨fun _ => hiff, hkeep⟩
      | alarmTimer =>
        obtain ⟨k₁, halarm, hhandle⟩ := of_bind hhandle
        cases hhandle
        obtain ⟨sys, hsys, rfl⟩ := Kernel.alarmTimeout_eq_ok halarm
        exact ⟨nofun, fun _ => only.fired (alarmTimeout_fired hsys)⟩
    · exact hidle _ (Except.ok.inj h).symm
  | leave =>
    simp only [step] at h
    simp only [KeepsOne, dispatches?]
    split at h
    next currentThread hmode =>
      obtain ⟨k, hset, h⟩ := of_bind h
      cases h
      simp only [Option.mem_some_iff, forall_eq']
      obtain ⟨hiff, hkeep⟩ := only.setContext hset
      exact ⟨fun _ => hiff, hkeep⟩
    · exact hidle _ (Except.ok.inj h).symm

end Steps

/-! ## Runs -/

/-- No thread but the current one is running, and after a dispatch that one is. -/
structure System.SoleRunner (s : System) : Prop where
  only : OnlyCurrentRuns s.toThreadSys
  one : s.dispatched = true → OneRunning s.toThreadSys

theorem System.Started.soleRunner {idle : ℕ} {s : System} (started : s.Started idle) :
    s.SoleRunner := by
  refine ⟨fun t ht => absurd ht (started.state t).1, fun h => ?_⟩
  rw [started.dispatched] at h
  cases h

/-- Let system calls, alarms and interrupts follow each other from the start of the kernel. As
long as every dispatch is of the kind described, the current thread is running after each of
them and no other one is; and the first dispatch of another kind ends that. -/
theorem oneRunning_of_run {idle : ℕ} {s₀ s : System} {es : List KernelEvent}
    (started : s₀.Started idle)
    (run : Run KernelEvent.step (fun s e => e.KeepsOne s) s₀ es s) :
    (s.dispatched = true → OneRunning s.toThreadSys) ∧
      ∀ e s', KernelEvent.step s e = .ok s' → s'.dispatched = true →
        (OneRunning s'.toThreadSys ↔ e.KeepsOne s) := by
  have sole : s.SoleRunner := by
    refine run.invariant started.soleRunner ?_
    intro s e s' sole hkeeps hstep
    obtain ⟨hiff, honly⟩ := sole.only.step hstep
    exact ⟨honly hkeeps, fun h => (hiff h).mpr hkeeps⟩
  exact ⟨sole.one, fun e s' hstep => (sole.only.step hstep).1⟩

/-- The idle thread creates a thread, an interrupt dispatches it, it goes to sleep and is woken
again. -/
theorem oneRunning_of_run_woken : ∃ s₀ s : System, System.boot = .ok s₀ ∧
    Run KernelEvent.step (fun s e => e.KeepsOne s) s₀
      [.call (.createThread ⟨1, 0, 1, 0x8000, 0x100, 0x200, 0x300, true, true, true, true⟩),
        .finish, .interrupt .device, .leave,
        .call (.sleep true ⟨0, 0⟩ (some ⟨10, 0⟩) true), .finish, .interrupt .alarmTimer, .leave] s ∧
    s.sched.currThread = some 1 ∧ OneRunning s.toThreadSys := by
  refine exists_run_from_and (fun s => s.sched.currThread = some 1 ∧ s.dispatched = true)
    (by decide +kernel) fun s₀ s start run hend => ?_
  exact ⟨hend.1, (oneRunning_of_run (System.started_of_boot start) run).1 hend.2⟩

/-- A thread creates a timer, which takes the thread of the timer out of its queue and so notes an
event. At the next interrupt the thread stays current, but it is set ready. -/
theorem not_oneRunning : ∃ s₀ s : System, System.boot = .ok s₀ ∧
    Run KernelEvent.step (fun _ _ => True) s₀
      [.call (.createThread ⟨1, 0, 1, 0x8000, 0x100, 0x200, 0x300, true, true, true, true⟩),
        .finish, .interrupt .device, .leave,
        .call (.createTimer ⟨2, 0, 2, 0x9000, 0x100, 0x200, 0x300, true, true, true, true⟩ ⟨0, 0⟩
          ⟨10, 0⟩ (some 0x400) 0 true 0), .finish, .interrupt .device, .leave] s ∧
    s.dispatched = true ∧ s.sched.currThread = some 1 ∧ s.sched.idleThread = some 0 ∧
    (s.threads 1).state = .ready := by
  exact exists_run_from_and _ (by decide +kernel) fun _ _ _ _ => id

end Tinker
