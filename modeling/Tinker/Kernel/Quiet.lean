import Tinker.Kernel.Calls
import Tinker.Objects.PipeSteps
import Tinker.Scheduler.Queues

/-!
# What system calls leave alone

Only a dispatch sets a thread running, saves registers or makes a thread current. Everything
else that the kernel does to threads is quiet: it blocks, readies, terminates and moves them. A
thread that exits stops being the current one, and a thread that is created gets new registers;
those are the two things to look out for.
-/

namespace Tinker

open Tinker.Lib Exec SystemCall

/-- No thread has been set running or declared dead, and the registers are the same. A thread
that was terminated still is, unless it is the one that calls; and the current thread is still
current, unless it has been terminated. The threads `S` have been created. -/
structure Quiet (S : ℕ → Prop) (k k' : ThreadSys) : Prop where
  running : ∀ t, (k'.threads t).state = .running → (k.threads t).state = .running
  dead : ∀ t, (k'.threads t).state = .dead → (k.threads t).state = .dead
  terminated : ∀ t, k.sched.currThread ≠ some t → ¬ S t → (k.threads t).state = .terminated →
    (k'.threads t).state = .terminated
  context : ∀ t, ¬ S t → (k'.threads t).context = (k.threads t).context
  current : k'.sched.currThread = k.sched.currThread ∨
    k'.sched.currThread = none ∧ ∀ c, k.sched.currThread = some c →
      (k'.threads c).state ≠ .running ∧ (S c ∨ (k'.threads c).state = .terminated)

section Threads

variable {threads : Threads} {s' : Scheduler} {sema sema' : Sema}

variable {S : ℕ → Prop} {k k' k'' : ThreadSys} {s : Scheduler} {r : ReturnT} {o : Option ℕ}
  {t : ℕ} {reg reg' : Registry ObjRef}

namespace Quiet

theorem refl (k : ThreadSys) : Quiet S k k :=
  ⟨fun _ => id, fun _ => id, fun _ _ _ => id, fun _ _ => rfl, .inl rfl⟩

theorem trans (h : Quiet S k k') (h' : Quiet S k' k'') : Quiet S k k'' := by
  refine ⟨fun t ht => h.running t (h'.running t ht), fun t ht => h.dead t (h'.dead t ht),
    fun t hcur hS ht => ?_, fun t hS => (h'.context t hS).trans (h.context t hS), ?_⟩
  · refine h'.terminated t ?_ hS (h.terminated t hcur hS ht)
    rcases h.current with heq | ⟨hnone, -⟩
    · rwa [heq]
    rw [hnone]
    nofun
  rcases h.current with heq | ⟨hnone, hgone⟩
  · rw [← heq]
    exact h'.current
  -- the current thread has gone in the first half, and nobody brings it back
  have hnone' : k''.sched.currThread = none := by
    rcases h'.current with heq | ⟨hnone', -⟩
    · rw [heq, hnone]
    · exact hnone'
  refine .inr ⟨hnone', fun c hc => ?_⟩
  obtain ⟨hrun, hterm⟩ := hgone c hc
  refine ⟨fun hr => hrun (h'.running c hr), ?_⟩
  by_cases hS : S c
  · exact .inl hS
  · exact .inr (h'.terminated c (by rw [hnone]; nofun) hS (hterm.resolve_left hS))

theorem mono {S' : ℕ → Prop} (h : Quiet S k k') (hS : ∀ t, S t → S' t) : Quiet S' k k' := by
  refine ⟨h.running, h.dead, fun t hcur hS' => h.terminated t hcur fun ht => hS' (hS t ht),
    fun t hS' => h.context t fun ht => hS' (hS t ht), ?_⟩
  rcases h.current with heq | ⟨hnone, hgone⟩
  · exact .inl heq
  · exact .inr ⟨hnone, fun c hc => ⟨(hgone c hc).1, (hgone c hc).2.imp (hS c) id⟩⟩

theorem of_update (hcur : k'.sched.currThread = k.sched.currThread ∨
      k'.sched.currThread = none ∧ k.sched.currThread = some t ∧ (k'.threads t).state = .terminated)
    (hthreads : ∀ u, u ≠ t → k'.threads u = k.threads u)
    (hrun : (k'.threads t).state = .running → (k.threads t).state = .running)
    (hdead : (k'.threads t).state = .dead → (k.threads t).state = .dead)
    (hterm : k.sched.currThread ≠ some t → ¬ S t → (k.threads t).state = .terminated →
      (k'.threads t).state = .terminated)
    (hctx : ¬ S t → (k'.threads t).context = (k.threads t).context) : Quiet S k k' := by
  have hgone : k'.sched.currThread = k.sched.currThread ∨ k'.sched.currThread = none ∧
      ∀ c, k.sched.currThread = some c →
        (k'.threads c).state ≠ .running ∧ (S c ∨ (k'.threads c).state = .terminated) := by
    refine hcur.imp_right fun ⟨hnone, hself, hterm⟩ => ⟨hnone, fun c hc => ?_⟩
    cases hself.symm.trans hc
    exact ⟨by rw [hterm]; decide, .inr hterm⟩
  refine ⟨fun u => ?_, fun u => ?_, fun u => ?_, fun u => ?_, hgone⟩
  all_goals
    by_cases hu : u = t
    · subst hu
      assumption
    rw [hthreads u hu]
    simp

end Quiet

/-! ## Threads -/

theorem schNotifyNewThread_current {s : Scheduler} (h : schNotifyNewThread threads s t = .ok s') :
    s'.currThread = s.currThread := by
  obtain ⟨_, _, _, _, same⟩ := schNotifyNewThread_cases h
  exact same.current

theorem schNotifyExitThread_current {s : Scheduler} (h : schNotifyExitThread threads s t = .ok s') :
    s'.currThread = s.currThread := by
  obtain ⟨_, _, _, same⟩ := schNotifyExitThread_cases h
  exact same.current

theorem schNotifyChangePriority_current {s : Scheduler} {p : Priority}
    (h : schNotifyChangePriority threads s t p = .ok s') : s'.currThread = s.currThread := by
  obtain ⟨_, _, _, _, _, same⟩ := schNotifyChangePriority_cases h
  exact same.current

theorem objSetThreadReady_quiet (h : objSetThreadReady k o = .ok (r, k')) : Quiet S k k' := by
  cases o with
  | none =>
    cases h
    exact .refl k
  | some t =>
    simp only [objSetThreadReady] at h
    split at h
    next hwaiting =>
      obtain ⟨sched, hsched, h⟩ := of_bind h
      cases h
      refine .of_update (t := t) (.inl (schNotifyNewThread_current hsched)) (fun u hu => ?_)
        ?_ ?_ ?_ ?_
      · simp [threadSetState, threadSetWaitingOn, hu]
      all_goals simp [threadSetState, threadSetWaitingOn, hwaiting]
    cases h
    exact .refl k

theorem objSetThreadWaiting_quiet {w : Option ObjRef}
    (h : objSetThreadWaiting k o w = .ok (r, k')) : Quiet S k k' := by
  cases o with
  | none =>
    cases h
    exact .refl k
  | some t =>
    simp only [objSetThreadWaiting] at h
    split at h
    next hblock =>
      obtain ⟨sched, hsched, h⟩ := of_bind h
      cases h
      refine .of_update (t := t) (.inl (schNotifyExitThread_current hsched)) (fun u hu => ?_) ?_ ?_
        (fun _ _ hterm => ?_) ?_
      · simp [threadSetState, threadSetWaitingOn, hu]
      · simp [threadSetState, threadSetWaitingOn]
      · simp [threadSetState, threadSetWaitingOn]
      · rw [hterm] at hblock
        exact absurd hblock (by decide)
      · simp [threadSetState, threadSetWaitingOn]
    cases h
    exact .refl k

theorem quiet_setPriority {p : Priority} (hthreads : k'.threads = threadSetPriority k.threads t p)
    (hcur : k'.sched.currThread = k.sched.currThread) : Quiet S k k' := by
  refine .of_update (t := t) (.inl hcur) (fun u hu => ?_) ?_ ?_ ?_ ?_
  · simp [hthreads, threadSetPriority, hu]
  all_goals simp [hthreads, threadSetPriority]

theorem objSetThreadPriority_quiet {p : Priority}
    (h : objSetThreadPriority k o p = .ok (r, k')) : Quiet S k k' := by
  cases o with
  | none =>
    cases h
    exact .refl k
  | some t =>
    simp only [objSetThreadPriority] at h
    split at h
    · obtain ⟨sched, hsched, h⟩ := of_bind h
      cases h
      exact quiet_setPriority rfl (schNotifyChangePriority_current hsched)
    cases h
    exact .refl k

theorem objResetThreadOriginalPriority_quiet
    (h : objResetThreadOriginalPriority k o = .ok (r, k')) : Quiet S k k' := by
  cases o with
  | none =>
    cases h
    exact .refl k
  | some t =>
    obtain ⟨sched, hsched, h⟩ := of_bind h
    cases h
    exact quiet_setPriority rfl (schNotifyChangePriority_current hsched)

theorem objSetThreadOriginalPriority_quiet : Quiet S k (objSetThreadOriginalPriority k o).2 := by
  cases o with
  | none => exact .refl k
  | some t => exact ⟨fun _ => id, fun _ => id, fun _ _ _ => id, fun _ _ => rfl, .inl rfl⟩

theorem objExitThread_quiet (h : objExitThread k o = .ok (r, k')) : Quiet S k k' := by
  cases o with
  | none =>
    cases h
    exact .refl k
  | some t =>
    simp only [objExitThread] at h
    split at h
    · obtain ⟨sched, hsched, h⟩ := of_bind h
      cases h
      have hcur := schNotifyExitThread_current hsched
      refine .of_update (t := t) ?_ (fun u hu => ?_) ?_ ?_ ?_ ?_
      · dsimp only [schNotifyTerminated]
        split
        next hcurrent => exact .inr ⟨rfl, hcur ▸ hcurrent, by simp [threadSetState]⟩
        · exact .inl hcur
      · simp [threadSetState, hu]
      all_goals simp [threadSetState]
    cases h
    exact .refl k

theorem procCreateThread_quiet {new : NewThread} {created : Option ℕ}
    (h : procCreateThread k new = .ok (r, created, k')) : Quiet (· = new.thread) k k' := by
  rcases procCreateThread_cases h with ⟨-, -, -, rfl⟩ | ⟨-, hthreads, -, -, hcases⟩
  · exact .refl _
  have hsched : k'.sched.currThread = k.sched.currThread := by
    rcases hcases with ⟨-, -, hsched, -⟩ | ⟨-, hsched, -⟩
    · exact schNotifyNewThread_current hsched
    · rw [hsched]
  have hself : k'.threads new.thread = new.record := by simp [hthreads]
  refine .of_update (t := new.thread) (.inl hsched) (fun u hu => ?_) ?_ ?_ ?_ ?_
  · simp [hthreads, hu]
  · rw [hself, NewThread.record]
    cases new.stack <;> simp
  · rw [hself, NewThread.record]
    cases new.stack <;> simp
  · intro _ hS
    exact absurd rfl hS
  intro hS
  exact absurd rfl hS

/-! ## The registry -/

theorem wakeQueue_quiet {ts : List ℕ} (h : wakeQueue k ts = .ok k') : Quiet S k k' := by
  induction ts generalizing k with
  | nil =>
    obtain rfl := Except.ok.inj h
    exact .refl k
  | cons t ts ih =>
    obtain ⟨⟨r, k₁⟩, hready, hrest⟩ := of_bind h
    exact (objSetThreadReady_quiet hready).trans (ih hrest)

theorem regsiteryAdd_quiet {name : Name} {entry : ObjRef} {room : Bool}
    (h : regsiteryAdd k reg name entry room = .ok (r, k', reg')) : Quiet S k k' := by
  simp only [regsiteryAdd] at h
  split at h
  · split at h
    · obtain ⟨⟨k₁, reg₁⟩, hnotify, h⟩ := of_bind h
      cases h
      unfold registryNotify at hnotify
      split at hnotify
      · obtain ⟨k₂, hwake, hnotify⟩ := of_bind hnotify
        cases hnotify
        exact wakeQueue_quiet hwake
      cases hnotify
      exact .refl k
    cases h
    exact .refl k
  cases h
  exact .refl k

theorem registryWaitFor_quiet {name : Name} {room : Bool}
    (h : registryWaitFor k reg t name room = .ok (k', reg')) : Quiet S k k' := by
  obtain ⟨⟨r, k₁⟩, hwait, h⟩ := of_bind h
  cases h
  exact objSetThreadWaiting_quiet hwait

/-! ## Semaphores -/

theorem semaLendPriority_quiet {p : Priority} (h : semaLendPriority k o p = .ok k') :
    Quiet S k k' := by
  obtain ⟨⟨r, k₁⟩, hprio, h⟩ := of_bind h
  have hlent : Quiet S k k₁ :=
    objSetThreadOriginalPriority_quiet.trans (objSetThreadPriority_quiet hprio)
  dsimp only at h
  split at h
  · obtain ⟨⟨r', k₂⟩, hready, h⟩ := of_bind h
    cases h
    exact hlent.trans (objSetThreadReady_quiet hready)
  cases h
  exact hlent

theorem semaInherit_quiet (h : semaInherit k sema t = .ok (k', sema')) : Quiet S k k' := by
  simp only [semaInherit] at h
  split at h
  · obtain ⟨k₁, hlend, h⟩ := of_bind h
    cases h
    exact semaLendPriority_quiet hlend
  cases h
  exact .refl k

theorem semaTake_quiet {id : ℕ} (h : semaTake k id sema t = .ok (k', sema')) : Quiet S k k' := by
  simp only [semaTake] at h
  split at h
  · obtain ⟨⟨r, k₁⟩, hwait, h⟩ := of_bind h
    cases h
    exact objSetThreadWaiting_quiet hwait
  cases h
  exact .refl k

theorem semaGiveBack_quiet (h : semaGiveBack k sema o = .ok (k', sema')) : Quiet S k k' := by
  simp only [semaGiveBack] at h
  split at h
  · obtain ⟨⟨r, k₁⟩, hreset, h⟩ := of_bind h
    cases h
    exact objResetThreadOriginalPriority_quiet hreset
  split at h
  all_goals
    cases h
    exact .refl k

theorem semaRaiseOwner_quiet (h : semaRaiseOwner k sema t = .ok (k', sema')) : Quiet S k k' := by
  simp only [semaRaiseOwner] at h
  split at h
  · obtain ⟨⟨r, k₁⟩, hprio, h⟩ := of_bind h
    cases h
    exact objSetThreadOriginalPriority_quiet.trans (objSetThreadPriority_quiet hprio)
  cases h
  exact .refl k

theorem objNotifySemaphoreListener_quiet (h : objNotifySemaphoreListener k sema = .ok (k', sema')) :
    Quiet S k k' := by
  unfold objNotifySemaphoreListener at h
  split at h
  · obtain ⟨⟨r, k₁⟩, hready, h⟩ := of_bind h
    obtain ⟨⟨k₂, sema₂⟩, hraise, h⟩ := of_bind h
    cases h
    exact (objSetThreadReady_quiet hready).trans (semaRaiseOwner_quiet hraise)
  cases h
  exact .refl k

end Threads

section Semaphores

variable {S : ℕ → Prop} {k k' : SemaSys} {r : ReturnT} {thread semaphore : Option ℕ}

theorem objGetSemaphore_quiet (h : objGetSemaphore k thread semaphore = .ok (r, k')) :
    Quiet S k.toThreadSys k'.toThreadSys := by
  unfold objGetSemaphore at h
  split at h
  · obtain ⟨obj, -, h⟩ := of_bind h
    split at h
    · obtain ⟨⟨id, sema⟩, -, h⟩ := of_bind h
      obtain ⟨⟨sys, sema₁⟩, hinherit, h⟩ := of_bind h
      obtain ⟨⟨sys', sema₂⟩, htake, h⟩ := of_bind h
      cases h
      exact (semaInherit_quiet hinherit).trans (semaTake_quiet htake)
    cases h
    exact .refl _
  cases h
  exact .refl _

theorem objReleaseSemaphore_quiet (h : objReleaseSemaphore k thread semaphore = .ok (r, k')) :
    Quiet S k.toThreadSys k'.toThreadSys := by
  unfold objReleaseSemaphore at h
  split at h
  · obtain ⟨⟨id, sema⟩, -, h⟩ := of_bind h
    dsimp only at h
    split at h
    · obtain ⟨⟨sys, sema₁⟩, hback, h⟩ := of_bind h
      obtain ⟨⟨sys', sema₂⟩, hnotify, h⟩ := of_bind h
      cases h
      exact (semaGiveBack_quiet hback).trans (objNotifySemaphoreListener_quiet hnotify)
    cases h
    exact .refl _
  cases h
  exact .refl _

theorem objCreateSemaphore_quiet {name : Name} {initialCount : ℕ} {room : Bool}
    (h : objCreateSemaphore k name initialCount room = .ok (r, k')) :
    Quiet S k.toThreadSys k'.toThreadSys := by
  obtain ⟨-, -, added, hadd⟩ := objCreateSemaphore_cases h
  exact regsiteryAdd_quiet hadd

theorem objOpenSemaphore_quiet (name : Name) :
    Quiet S k.toThreadSys (objOpenSemaphore k name).2.toThreadSys := by
  rcases objOpenSemaphore_cases k name with heq | ⟨other, heq⟩ <;> rw [heq] <;> exact .refl _

theorem objectDeleteSemaphore_quiet (h : objectDeleteSemaphore k semaphore = .ok (r, k')) :
    Quiet S k.toThreadSys k'.toThreadSys := by
  unfold objectDeleteSemaphore at h
  split at h
  · obtain ⟨obj, -, h⟩ := of_bind h
    cases obj <;>
    · cases h
      exact .refl _
  cases h
  exact .refl _

end Semaphores

/-! ## Pipes -/

section Pipes

variable {pipe : Option ℕ} {message : List UInt8} {block : Bool}

variable {S : ℕ → Prop} {k k' : PipeSys} {r : ReturnT} {p thread : ℕ}

theorem pipeNotifySenders_quiet {senders : List ℕ} (h : pipeNotifySenders k senders = .ok k') :
    Quiet S k.toThreadSys k'.toThreadSys := by
  induction senders generalizing k with
  | nil =>
    cases h
    exact .refl _
  | cons s rest ih =>
    obtain ⟨sender, -, h⟩ := of_bind h
    obtain ⟨⟨r, sys⟩, hready, hrest⟩ := of_bind h
    exact (objSetThreadReady_quiet hready).trans (ih hrest)

theorem objPipeReceivedMessage_quiet (h : objPipeReceivedMessage k p = .ok k') :
    Quiet S k.toThreadSys k'.toThreadSys := by
  obtain ⟨pipe, -, h⟩ := of_bind h
  simpa using pipeNotifySenders_quiet (S := S) h

theorem pipeCopyOut_toThreadSys {pipe : Pipe} {message messageSize : Option ℕ}
    (h : pipeCopyOut k p pipe message messageSize = .ok k') :
    k'.toThreadSys = k.toThreadSys := by
  obtain ⟨size, -, h⟩ := of_bind h
  obtain ⟨bytes, -, h⟩ := of_bind h
  split at h
  · cases h
    rfl
  · cases h

theorem pipeHandOver_quiet (h : pipeHandOver k p = .ok k') :
    Quiet S k.toThreadSys k'.toThreadSys := by
  obtain ⟨receiver, -, h⟩ := of_bind h
  obtain ⟨⟨r, sys⟩, hready, h⟩ := of_bind h
  obtain ⟨k₁, hcopy, h⟩ := of_bind h
  obtain ⟨k₂, hreceived, h⟩ := of_bind h
  cases h
  have hready : Quiet S k.toThreadSys k₁.toThreadSys := by
    rw [pipeCopyOut_toThreadSys hcopy]
    exact objSetThreadReady_quiet hready
  simpa using hready.trans (objPipeReceivedMessage_quiet hreceived)

theorem pipeReceiveMessage_quiet (h : pipeReceiveMessage k p message = .ok k') :
    Quiet S k.toThreadSys k'.toThreadSys := by
  obtain ⟨receiver, -, h⟩ := of_bind h
  obtain ⟨receiver', -, h⟩ := of_bind h
  dsimp only at h
  split at h
  · simpa using pipeHandOver_quiet (S := S) h
  cases h
  exact .refl _

theorem pipeDeliverAll_quiet {readers : List ℕ} (h : pipeDeliverAll k message readers = .ok k') :
    Quiet S k.toThreadSys k'.toThreadSys := by
  induction readers generalizing k with
  | nil =>
    cases h
    exact .refl _
  | cons reader rest ih =>
    obtain ⟨k₁, hdeliver, hrest⟩ := of_bind h
    refine Quiet.trans ?_ (ih hrest)
    obtain ⟨receiver, -, hdeliver⟩ := of_bind hdeliver
    split at hdeliver
    · exact pipeReceiveMessage_quiet hdeliver
    cases hdeliver
    exact .refl _

theorem pipeCanSendLoop_toThreadSys {blocking all all' : Bool} {readers : List ℕ}
    (h : pipeCanSendLoop k p blocking readers all = .ok (all', k')) :
    k'.toThreadSys = k.toThreadSys := by
  induction readers generalizing k all with
  | nil =>
    cases h
    rfl
  | cons reader rest ih =>
    obtain ⟨receiver, -, h⟩ := of_bind h
    rw [ih h]
    split <;> rfl

theorem pipeCheckSend_quiet {sendKind : PipeSendKind}
    (h : pipeCheckSend k p thread sendKind block = .ok (r, k')) :
    Quiet S k.toThreadSys k'.toThreadSys := by
  cases sendKind with
  | sendAvailable =>
    cases h
    exact .refl _
  | sendAll =>
    obtain ⟨⟨all, k₁⟩, hloop, h⟩ := of_bind h
    obtain ⟨pipe, -, hloop⟩ := of_bind hloop
    rw [← pipeCanSendLoop_toThreadSys hloop]
    dsimp only at h
    split at h
    · cases h
      exact .refl _
    split at h
    · obtain ⟨⟨r', sys⟩, hwait, h⟩ := of_bind h
      cases h
      simpa using objSetThreadWaiting_quiet (S := S) hwait
    cases h
    exact .refl _

theorem objPipeSendMessage_quiet {sendKind : PipeSendKind}
    (h : objPipeSendMessage k pipe thread sendKind message block = .ok (r, k')) :
    Quiet S k.toThreadSys k'.toThreadSys := by
  unfold objPipeSendMessage at h
  split at h
  · obtain ⟨pipe, -, h⟩ := of_bind h
    split at h
    · obtain ⟨⟨result, k₁⟩, hcheck, h⟩ := of_bind h
      have hchecked : Quiet S k.toThreadSys k₁.toThreadSys := pipeCheckSend_quiet hcheck
      dsimp only at h
      split at h
      · obtain ⟨pipe', -, h⟩ := of_bind h
        obtain ⟨k₂, hdeliver, h⟩ := of_bind h
        cases h
        exact hchecked.trans (pipeDeliverAll_quiet hdeliver)
      cases h
      exact hchecked
    cases h
    exact .refl _
  cases h
  exact .refl _

theorem pipeTakeMessage_quiet {pipe : Pipe} {message messageSize maxSize : ℕ}
    (h : pipeTakeMessage k p pipe message messageSize maxSize = .ok (r, k')) :
    Quiet S k.toThreadSys k'.toThreadSys := by
  obtain ⟨size, -, h⟩ := of_bind h
  split at h
  · cases h
    exact .refl _
  obtain ⟨k₁, hcopy, h⟩ := of_bind h
  obtain ⟨k₂, hreceived, h⟩ := of_bind h
  cases h
  rw [← pipeCopyOut_toThreadSys hcopy]
  exact objPipeReceivedMessage_quiet hreceived

theorem pipeAwaitMessage_quiet {message messageSize : ℕ}
    (h : pipeAwaitMessage k p thread message messageSize block = .ok (r, k')) :
    Quiet S k.toThreadSys k'.toThreadSys := by
  unfold pipeAwaitMessage at h
  split at h
  · obtain ⟨⟨r', sys⟩, hwait, h⟩ := of_bind h
    cases h
    simpa using objSetThreadWaiting_quiet (S := S) hwait
  cases h
  exact .refl _

theorem objPipeReceiveMessage_quiet {message messageSize : Option ℕ} {maxSize : ℕ}
    (h : objPipeReceiveMessage k pipe thread message messageSize maxSize block = .ok (r, k')) :
    Quiet S k.toThreadSys k'.toThreadSys := by
  unfold objPipeReceiveMessage at h
  split at h
  · obtain ⟨pipe, -, h⟩ := of_bind h
    split at h
    · split at h
      · exact pipeTakeMessage_quiet h
      · exact pipeAwaitMessage_quiet h
    cases h
    exact .refl _
  all_goals
    cases h
    exact .refl _

variable {name : Name} {direction : PipeDirection} {messageSize messages : ℕ}
  {memory : Option ℕ} {room : Bool}

theorem objCreatePipe_quiet
    (h : objCreatePipe k name direction messageSize messages memory room = .ok (r, k')) :
    Quiet S k.toThreadSys k'.toThreadSys := by
  unfold objCreatePipe at h
  split at h
  · obtain ⟨⟨result, sys, reg⟩, hadd, h⟩ := of_bind h
    cases h
    exact regsiteryAdd_quiet hadd
  cases h
  exact .refl _

theorem pipeLink_toThreadSys {no other : ℕ} :
    (pipeLink k direction no other).toThreadSys = k.toThreadSys := by
  cases direction <;> rfl

theorem objOpenPipe_quiet
    (h : objOpenPipe k thread name direction messageSize messages memory room = .ok (r, k')) :
    Quiet S k.toThreadSys k'.toThreadSys := by
  rcases objOpenPipe_cases h with ⟨rfl, -⟩ | ⟨other, otherPipe, pipe, -, -, -, -, -, rfl⟩ |
    ⟨-, -, sys, reg, hwait, rfl⟩
  · exact .refl _
  · rw [pipeLink_toThreadSys]
    exact .refl _
  · exact registryWaitFor_quiet hwait

theorem objDeletePipe_quiet (h : objDeletePipe k pipe = .ok (r, k')) :
    Quiet S k.toThreadSys k'.toThreadSys := by
  rcases objDeletePipe_cases h with rfl | ⟨p, pipe, -, -, rfl⟩ <;> exact .refl _

end Pipes

/-! ## Timers -/

section Timers

variable {S : ℕ → Prop} {k k' : AlarmSys} {r : ReturnT} {timer : Option ℕ}

theorem objThreadSleep_quiet {o : Option ℕ} {now : TinkerTime} {duration : Option TinkerTime}
    {room : Bool} (hcaller : ∀ t, o = some t → k.sched.currThread = some t)
    (h : objThreadSleep k o now duration room = .ok (r, k')) :
    Quiet S k.toThreadSys k'.toThreadSys := by
  rcases objThreadSleep_cases h with ⟨-, -, rfl⟩ | ⟨t, d, ho, -, -, hthreads, hsched, -⟩
  · exact .refl _
  refine .of_update (t := t) (.inl (schNotifyExitThread_current hsched)) (fun u hu => ?_) ?_ ?_
    (fun hne => ?_) ?_
  · simp [hthreads, hu]
  · simp [hthreads]
  · simp [hthreads]
  · exact absurd (hcaller t ho) hne
  · simp [hthreads]

theorem objTimerDeleteThread_quiet {sys sys' : ThreadSys} {timer : Timer}
    (h : objTimerDeleteThread sys timer = .ok sys') : Quiet S sys sys' := by
  unfold objTimerDeleteThread at h
  split at h
  · obtain ⟨sched, hsched, h⟩ := of_bind h
    obtain ⟨⟨r, sys₁⟩, hexit, h⟩ := of_bind h
    cases h
    refine Quiet.trans ?_ (objExitThread_quiet hexit)
    have hcur : sched.currThread = sys.sched.currThread := by
      split at hsched
      · exact schNotifyExitThread_current hsched
      · rw [← Except.ok.inj hsched]
    exact ⟨fun _ => id, fun _ => id, fun _ _ _ => id, fun _ _ => rfl, .inl hcur⟩
  · cases h

theorem objCancelTimer_quiet (h : objCancelTimer k timer = .ok (r, k')) :
    Quiet S k.toThreadSys k'.toThreadSys := by
  obtain rfl | ⟨id, timer, -, ended⟩ := objCancelTimer_cases h
  · exact .refl _
  · exact objTimerDeleteThread_quiet ended.threads

theorem objDeleteTimer_quiet (h : objDeleteTimer k timer = .ok (r, k')) :
    Quiet S k.toThreadSys k'.toThreadSys := by
  obtain rfl | ⟨id, timer, -, ended | ⟨-, -, rfl⟩⟩ := objDeleteTimer_cases h
  · exact .refl _
  · exact objTimerDeleteThread_quiet ended.threads
  · exact .refl _

theorem objCreateTimer_quiet {new : NewThread} {now timeout : TinkerTime}
    {callback : Option (BitVec 32)} {parameter : BitVec 32} {room : Bool} {uninitialised : ℕ}
    (h : objCreateTimer k new now timeout callback parameter room uninitialised = .ok (r, k')) :
    Quiet (· = new.thread) k.toThreadSys k'.toThreadSys := by
  rcases objCreateTimer_cases h with ⟨-, rfl⟩ | ⟨-, r₁, created, sys, hcreate, hcases⟩
  · exact .refl _
  refine (procCreateThread_quiet hcreate).trans ?_
  rcases hcases with ⟨-, rfl⟩ | ⟨-, -, hthreads, hsched, -⟩
  · exact .refl _
  refine .of_update (t := new.thread) (.inl (schNotifyExitThread_current hsched))
    (fun u hu => ?_) ?_ ?_ ?_ ?_
  · simp [hthreads, hu]
  · simp [hthreads]
  · simp [hthreads]
  · intro _ hS
    exact absurd rfl hS
  intro hS
  exact absurd rfl hS

/-- The registers of a thread once the alarm timer has expired: the thread of a timer finds the
callback and its parameter there. -/
def AlarmSys.withParams (k : AlarmSys) (t : ℕ) (context : TgtContext) : TgtContext :=
  match k.alarms.nextAlarm with
  | some next =>
    match next.usrData with
    | .timer id =>
      match k.timers id with
      | some timer =>
        if next.id = timer.alarmId ∧ timer.callbackThread = t then
          tgtSetContextParam (tgtSetContextParam context 0 (timer.callback.getD 0)) 1
            timer.parameter
        else context
      | none => context
    | .sleeper _ => context
  | none => context

/-- The expiry of the alarm timer readies a thread at most, and writes no other registers. -/
structure AlarmSys.Fired (k k' : AlarmSys) : Prop where
  state : ∀ u, (k'.threads u).state = (k.threads u).state ∨ (k'.threads u).state = .ready
  context : ∀ u, (k'.threads u).context = k.withParams u (k.threads u).context
  current : k'.sched.currThread = k.sched.currThread

theorem alarmTimeout_fired (h : alarmTimeout k = .ok k') : k.Fired k' := by
  rcases alarmTimeout_cases h with ⟨hnone, rfl⟩ | ⟨next, k₁, hnext, hcall, rfl⟩
  · exact ⟨fun _ => .inl rfl, fun u => by simp [AlarmSys.withParams, hnone], rfl⟩
  cases huser : next.usrData with
  | sleeper t =>
    have hparams : ∀ u context, k.withParams u context = context := fun u context => by
      simp [AlarmSys.withParams, hnext, huser]
    rw [huser] at hcall
    rcases objThreadSleepCallback_cases hcall with ⟨-, rfl⟩ | ⟨-, hthreads, hsched, -⟩
    · exact ⟨fun _ => .inl rfl, fun u => (hparams u _).symm, rfl⟩
    refine ⟨fun u => ?_, fun u => ?_, schNotifyNewThread_current hsched⟩
    · by_cases hu : u = t
      · subst hu
        exact .inr (by simp [hthreads])
      · exact .inl (by simp [hthreads, hu])
    rw [hparams]
    by_cases hu : u = t
    · subst hu
      simp [hthreads]
    · simp [hthreads, hu]
  | timer id =>
    rw [huser] at hcall
    obtain ⟨timer, htimer, hcases⟩ := objTimerTimeout_cases hcall
    have hparams : ∀ u context, k.withParams u context =
        if next.id = timer.alarmId ∧ timer.callbackThread = u then
          tgtSetContextParam (tgtSetContextParam context 0 (timer.callback.getD 0)) 1
            timer.parameter
        else context := fun u context => by
      simp [AlarmSys.withParams, hnext, huser, htimer]
    rcases hcases with ⟨hid, rfl⟩ | ⟨hid, hthreads, hsched, -⟩
    · refine ⟨fun _ => .inl rfl, fun u => ?_, rfl⟩
      rw [hparams, if_neg fun e => hid e.1]
    refine ⟨fun u => ?_, fun u => ?_, schNotifyNewThread_current hsched⟩
    · by_cases hu : u = timer.callbackThread
      · subst hu
        exact .inr (by simp [hthreads, Timer.handed])
      · exact .inl (by simp [hthreads, hu])
    rw [hparams]
    by_cases hu : u = timer.callbackThread
    · subst hu
      simp [hthreads, Timer.handed, hid]
    · simp [hthreads, hu, Ne.symm hu]

end Timers

/-! ## System calls -/

section Calls

variable {S : ℕ → Prop} {k k' : Kernel} {r : ReturnT} {t : ℕ}

/-- Quiet changes to the threads of the kernel, whose own registers are left alone. -/
structure Kernel.Quiet (S : ℕ → Prop) (k k' : Kernel) : Prop where
  threads : Tinker.Quiet S k.toThreadSys k'.toThreadSys
  context : k'.context = k.context

namespace Kernel.Quiet

theorem refl (k : Kernel) : k.Quiet S k := ⟨.refl _, rfl⟩

theorem trans {k'' : Kernel} (h : k.Quiet S k') (h' : k'.Quiet S k'') : k.Quiet S k'' :=
  ⟨h.threads.trans h'.threads, h'.context.trans h.context⟩

theorem mono {S' : ℕ → Prop} (h : k.Quiet S k') (hS : ∀ t, S t → S' t) : k.Quiet S' k' :=
  ⟨h.threads.mono hS, h.context⟩

theorem onThreads {f : ThreadSys → Exec (ReturnT × ThreadSys)}
    (h : k.onThreads f = .ok (r, k'))
    (hf : ∀ sys, f k.toThreadSys = .ok (r, sys) → Tinker.Quiet S k.toThreadSys sys) :
    k.Quiet S k' := by
  obtain ⟨sys, hsys, rfl⟩ := Kernel.onThreads_eq_ok h
  exact ⟨hf sys hsys, rfl⟩

theorem onAlarms {f : AlarmSys → Exec (ReturnT × AlarmSys)}
    (h : k.onAlarms f = .ok (r, k'))
    (hf : ∀ sys, f k.toAlarmSys = .ok (r, sys) → Tinker.Quiet S k.toThreadSys sys.toThreadSys) :
    k.Quiet S k' := by
  obtain ⟨sys, hsys, rfl⟩ := Kernel.onAlarms_eq_ok h
  exact ⟨hf sys hsys, rfl⟩

theorem onSemas {f : SemaSys → Exec (ReturnT × SemaSys)}
    (h : k.onSemas f = .ok (r, k'))
    (hf : ∀ sys, f k.semaSys = .ok (r, sys) → Tinker.Quiet S k.toThreadSys sys.toThreadSys) :
    k.Quiet S k' := by
  obtain ⟨sys, hsys, rfl⟩ := Kernel.onSemas_eq_ok h
  exact ⟨hf sys hsys, rfl⟩

theorem onPipes {f : PipeSys → Exec (ReturnT × PipeSys)}
    (h : k.onPipes f = .ok (r, k'))
    (hf : ∀ sys, f k.pipeSys = .ok (r, sys) → Tinker.Quiet S k.toThreadSys sys.toThreadSys) :
    k.Quiet S k' := by
  obtain ⟨sys, hsys, rfl⟩ := Kernel.onPipes_eq_ok h
  exact ⟨hf sys hsys, rfl⟩

end Kernel.Quiet

theorem objDeleteShm_quiet {shm : Option (Option Name)} {r : ReturnT}
    (h : objDeleteShm k shm = .ok (r, k')) : k.Quiet S k' := by
  rcases shm with - | - | name <;> cases h <;> exact .refl k

theorem ProcessObject.delete_quiet {object : ProcessObject} (h : object.delete k = .ok k') :
    k.Quiet S k' := by
  cases object with
  | thread t isTimer =>
    simp only [ProcessObject.delete] at h
    split at h
    · cases h
      exact .refl k
    obtain ⟨⟨r, k₁⟩, hexit, h⟩ := of_bind h
    cases h
    exact .onThreads hexit fun _ => objExitThread_quiet
  | sema id =>
    obtain ⟨⟨r, k₁⟩, hdelete, h⟩ := of_bind h
    cases h
    exact .onSemas hdelete fun _ => objectDeleteSemaphore_quiet
  | process =>
    cases h
    exact .refl k
  | pipe p =>
    obtain ⟨⟨r, k₁⟩, hdelete, h⟩ := of_bind h
    cases h
    exact .onPipes hdelete fun _ => objDeletePipe_quiet
  | shm name =>
    obtain ⟨⟨r, k₁⟩, hdelete, h⟩ := of_bind h
    cases h
    exact objDeleteShm_quiet hdelete
  | timer id =>
    obtain ⟨⟨r, k₁⟩, hdelete, h⟩ := of_bind h
    cases h
    exact .onAlarms hdelete fun _ => objDeleteTimer_quiet

theorem processExit_quiet {objects : List ProcessObject} (h : processExit k objects = .ok k') :
    k.Quiet S k' := by
  induction objects generalizing k with
  | nil =>
    obtain rfl := Except.ok.inj h
    exact .refl k
  | cons object rest ih =>
    obtain ⟨k₁, hdelete, hrest⟩ := of_bind h
    exact (ProcessObject.delete_quiet hdelete).trans (ih hrest)

theorem procCreateProcess_quiet {new : NewProcess} (h : procCreateProcess k new = .ok (r, k')) :
    k.Quiet (· = new.main.thread) k' := by
  unfold procCreateProcess at h
  split at h
  · cases h
    exact .refl k
  obtain ⟨⟨ret, created, sys⟩, hcreate, h⟩ := of_bind h
  have hquiet : k.Quiet (· = new.main.thread) { k with toThreadSys := sys } :=
    ⟨procCreateThread_quiet hcreate, rfl⟩
  dsimp only at h
  split at h
  · split at h
    · cases h
      exact hquiet
    obtain ⟨k₁, hexit, h⟩ := of_bind h
    cases h
    exact hquiet.trans (processExit_quiet hexit)
  obtain ⟨k₁, hexit, h⟩ := of_bind h
  cases h
  exact hquiet.trans (processExit_quiet hexit)

theorem objProcessThreadExit_quiet {left : Option (List ProcessObject)}
    (h : objProcessThreadExit k t left = .ok (r, k')) : k.Quiet S k' := by
  obtain ⟨⟨ret, k₁⟩, hexit, h⟩ := of_bind h
  have hquiet : k.Quiet S k₁ := .onThreads hexit fun _ => objExitThread_quiet
  cases left with
  | none =>
    cases h
    exact hquiet
  | some objects =>
    obtain ⟨k₂, hleft, h⟩ := of_bind h
    cases h
    exact hquiet.trans (processExit_quiet hleft)

def SystemCall.Creates (c : SystemCall) (u : ℕ) : Prop :=
  ∃ new, c.creates? = some new ∧ u = new.thread

/-- The caller of `SYSCALL_WAIT_THREAD` leaves its queue and waits. -/
theorem SystemCall.waitThread_quiet {S : ℕ → Prop} (hcaller : k.sched.currThread = some t)
    (h : SystemCall.waitThread.body k t = .ok (r, k')) : k.Quiet S k' := by
  obtain ⟨sched, hsched, h⟩ := of_bind h
  cases h
  refine ⟨.of_update (t := t) (.inl (schNotifyExitThread_current hsched)) (fun u hu => ?_) ?_ ?_
    (fun hne => ?_) ?_, rfl⟩
  · simp [threadSetState, hu]
  · simp [threadSetState]
  · simp [threadSetState]
  · exact absurd hcaller hne
  · simp [threadSetState]

theorem SystemCall.createShm_quiet {S : ℕ → Prop} {failed : Option ReturnT} {name : Name} {id : ℕ}
    {room : Bool} (h : (SystemCall.createShm failed name id room).body k t = .ok (r, k')) :
    k.Quiet S k' := by
  cases failed with
  | some ret =>
    cases h
    exact .refl k
  | none =>
    obtain ⟨⟨ret, sys, reg⟩, hadd, h⟩ := of_bind h
    cases h
    exact ⟨regsiteryAdd_quiet hadd, rfl⟩

/-- Every system call is quiet, apart from the one that loads the registers of the caller. -/
theorem SystemCall.body_quiet {c : SystemCall} (hcaller : k.sched.currThread = some t)
    (hload : c.api ≠ .loadThread) (h : c.body k t = .ok (r, k')) : k.Quiet c.Creates k' := by
  cases c with
  | createProcess new =>
    refine (procCreateProcess_quiet h).mono fun u hu => ?_
    exact ⟨new.main, rfl, hu⟩
  | createThread new =>
    obtain ⟨⟨ret, created, sys⟩, hcreate, h⟩ := of_bind h
    cases h
    refine Kernel.Quiet.mono ⟨procCreateThread_quiet hcreate, rfl⟩ fun u hu => ?_
    exact ⟨new, rfl, hu⟩
  | exitThread found left =>
    rw [body] at h
    split at h
    · exact objProcessThreadExit_quiet h
    cases h
    exact .refl k
  | waitThread => exact waitThread_quiet hcaller h
  | createSemaphore name initialCount room =>
    rw [body] at h
    exact .onSemas h fun _ => objCreateSemaphore_quiet
  | openSemaphore name =>
    rw [body] at h
    refine .onSemas h fun sys hopen => ?_
    obtain rfl := congrArg Prod.snd (Except.ok.inj hopen)
    exact objOpenSemaphore_quiet (k := k.semaSys) name
  | getSemaphore semaphore found =>
    rw [body] at h
    split at h
    · exact .onSemas h fun _ => objGetSemaphore_quiet
    cases h
    exact .refl k
  | releaseSemaphore semaphore found =>
    rw [body] at h
    split at h
    · exact .onSemas h fun _ => objReleaseSemaphore_quiet
    cases h
    exact .refl k
  | closeSemaphore semaphore removed =>
    obtain ⟨⟨ret, k₁⟩, hdelete, h⟩ := of_bind h
    cases h
    exact .onSemas hdelete fun _ => objectDeleteSemaphore_quiet
  | createPipe name direction messageSize messages memory room =>
    rw [body] at h
    exact .onPipes h fun _ => objCreatePipe_quiet
  | openPipe name direction messageSize messages memory room =>
    rw [body] at h
    exact .onPipes h fun _ => objOpenPipe_quiet
  | deletePipe pipe removed =>
    obtain ⟨⟨ret, k₁⟩, hdelete, h⟩ := of_bind h
    cases h
    exact .onPipes hdelete fun _ => objDeletePipe_quiet
  | sendMessage pipe sendKind message block =>
    rw [body] at h
    exact .onPipes h fun _ => objPipeSendMessage_quiet
  | receiveMessage pipe message messageSize maxSize block =>
    rw [body] at h
    exact .onPipes h fun _ => objPipeReceiveMessage_quiet
  | createShm failed name id room => exact createShm_quiet h
  | destroyShm shm removed =>
    obtain ⟨⟨ret, k₁⟩, hdelete, h⟩ := of_bind h
    cases h
    exact objDeleteShm_quiet hdelete
  | createTimer new now timeout callback parameter room uninitialised =>
    rw [body] at h
    refine Kernel.Quiet.mono (.onAlarms h fun _ => objCreateTimer_quiet) fun u hu => ?_
    exact ⟨new, rfl, hu⟩
  | cancelTimer timer =>
    rw [body] at h
    exact .onAlarms h fun _ => objCancelTimer_quiet
  | deleteTimer timer removed =>
    obtain ⟨⟨ret, k₁⟩, hdelete, h⟩ := of_bind h
    cases h
    exact .onAlarms hdelete fun _ => objDeleteTimer_quiet
  | sleep found now duration room =>
    rw [body] at h
    refine .onAlarms h fun _ => objThreadSleep_quiet fun u hu => ?_
    split at hu
    · rw [← Option.some.inj hu]
      exact hcaller
    · cases hu
  | loadThread => exact absurd rfl hload
  | other ret =>
    cases h
    exact .refl k

end Calls

end Tinker
