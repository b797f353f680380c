import Tinker.Kernel.Quiet
import Tinker.Scheduler.Dispatch

/-!
# The registers of a thread are its own

Every thread is given back the registers that it had when it stopped being the current one. This
is followed beside the kernel: what each thread had then, the result that it has not looked at yet,
and every set of registers that has been its own.

A dispatch saves the registers of the thread that was current, unless it is told that this thread
is dead. It is told so after `SYSCALL_EXIT_THREAD`, whether or not the thread has exited; so every
such call is taken to succeed.
-/

namespace Tinker

open Tinker.Lib Tinker.Collections Exec SystemCall NewThread

/-- The system, with a record of the registers of each thread. -/
structure Isolation extends System where
  /-- The registers that a thread had when it last stopped being current, or starts with. -/
  last : ℕ → TgtContext
  /-- The result of the call that a thread has made, until it goes on. -/
  owed : ℕ → Option ReturnT
  exited : ℕ → Bool
  /-- The registers that have been the thread's own: those that it starts with or has computed,
  and what the kernel writes for it. -/
  own : ℕ → TgtContext → Prop

open Isolation

/-- The thread that a call starts: there has to be memory for it, and for what comes first. -/
def SystemCall.starts? : SystemCall → Option NewThread
  | createProcess new => if new.refused = none ∧ new.main.memory then some new.main else none
  | createThread new => if new.memory then some new else none
  | createTimer new _ timeout callback _ _ _ =>
    if ((timeout.seconds ≠ 0 ∨ timeout.nanoseconds ≠ 0) ∧ callback.isSome) ∧ new.memory then
      some new
    else none
  | _ => none

def KernelEvent.starts? (s : System) : KernelEvent → Option NewThread
  | call c => if s.mode = .user ∧ s.sched.currThread.isSome then c.starts? else none
  | _ => none

def KernelEvent.contextAt (s : System) : KernelEvent → TgtContext
  | finish =>
    match s.mode with
    | .syscall _ _ ret => tgtSetSyscallReturn s.context ret.code
    | _ => s.context
  | _ => s.context

def KernelEvent.FiresAlarm (s : System) : KernelEvent → Prop
  | interrupt .alarmTimer => s.mode = .user
  | _ => False

instance KernelEvent.decidableFiresAlarm (s : System) :
    (e : KernelEvent) → Decidable (e.FiresAlarm s)
  | interrupt .alarmTimer => inferInstanceAs (Decidable (s.mode = .user))
  | interrupt .device | interrupt (.pipe _ _) | interrupt .scheduleTimer | execute _ | call _
  | finish | leave => isFalse id

namespace Isolation

/-- A thread that has been started begins with its initial registers; an alarm writes the
parameters of a callback; and a dispatch is where the thread that was current may stop being so. -/
def lastAfter (i : Isolation) (e : KernelEvent) (s : System) (t : ℕ) : TgtContext :=
  match e.starts? i.toSystem with
  | some new => if t = new.thread then new.context else i.last t
  | none =>
    if e.FiresAlarm i.toSystem then i.withParams t (i.last t)
    else if i.sched.currThread = some t ∧ s.sched.currThread ≠ some t then
      e.contextAt i.toSystem
    else i.last t

/-- A result is owed to the caller once its call is done, until it computes or calls again. -/
def owedAfter (i : Isolation) (e : KernelEvent) (t : ℕ) : Option ReturnT :=
  match e, i.mode with
  | .execute _, .user | .call _, .user =>
    if i.sched.currThread = some t ∨ (e.starts? i.toSystem).any (·.thread = t) then none
    else i.owed t
  | .finish, .syscall api thisThread ret =>
    if t = thisThread then (if api = .other then some ret else none) else i.owed t
  | _, _ => i.owed t

/-- A thread has exited once it is found terminated, until its memory is used again. -/
def exitedAfter (i : Isolation) (e : KernelEvent) (s : System) (t : ℕ) : Bool :=
  if (e.starts? i.toSystem).any (·.thread = t) then false
  else i.exited t || (s.threads t).state = .terminated

/-- What a thread computes, the results that it is given and the parameters that are written for
it are its own. -/
def ownAfter (i : Isolation) (e : KernelEvent) (t : ℕ) (context : TgtContext) : Prop :=
  match e.starts? i.toSystem with
  | some new => if t = new.thread then context = new.context else i.own t context
  | none =>
    i.own t context ∨
      (e.FiresAlarm i.toSystem ∧ ∃ before, i.own t before ∧ context = i.withParams t before) ∨
      match e, i.mode with
      | .execute computed, .user => i.sched.currThread = some t ∧ context = computed
      | .finish, .syscall _ thisThread ret =>
        t = thisThread ∧ ∃ before, i.own t before ∧ context = tgtSetSyscallReturn before ret.code
      | _, _ => False

def after (i : Isolation) (e : KernelEvent) (s : System) : Isolation where
  toSystem := s
  last := i.lastAfter e s
  owed := i.owedAfter e
  exited := i.exitedAfter e s
  own := i.ownAfter e

def step (i : Isolation) (e : KernelEvent) : Exec Isolation := do
  let s ← e.step i.toSystem
  return i.after e s

def start (s : System) : Isolation where
  toSystem := s
  last := fun t => (s.threads t).context
  owed := fun _ => none
  exited := fun _ => false
  own := fun t context => context = (s.threads t).context

end Isolation

def Mode.ExitOk : Mode → Prop
  | .syscall .exitThread _ ret => ret = .noError
  | _ => True

instance Mode.decidableExitOk (mode : Mode) : Decidable mode.ExitOk := by
  unfold ExitOk
  split <;> infer_instance

/-- A thread is created in memory that is free, and every exit succeeds. -/
def KernelEvent.Called (s : System) : KernelEvent → Prop
  | call c => ∀ new ∈ c.creates?, s.Free new
  | finish => s.mode.ExitOk
  | execute _ | interrupt _ | leave => True

instance KernelEvent.decidableCalled (s : System) (e : KernelEvent) : Decidable (e.Called s) := by
  unfold Called
  split <;> infer_instance

/-! ## One dispatch -/

section Dispatch

variable {k k' : Core} {st : ThreadState} {front : Option ℕ} {l : ListT ℕ} {n u : ℕ}

section

variable (d : Dispatched k st front l k')
include d

/-- A thread that becomes current finds its saved registers, and one that stays current those
that it had. -/
theorem Dispatched.installed (hsave : st ≠ .dead ∨ k.sched.currThread = none)
    (hn : k'.sched.currThread = some n) :
    k'.context = if k.sched.currThread = some n then k.context else (k.threads n).context := by
  have hnext : k.next front = some n := d.next.symm.trans hn
  rw [d.loaded n hnext, d.saved n]
  by_cases hcur : k.sched.currThread = some n
  · have hst : st ≠ .dead := hsave.resolve_right (by rw [hcur]; nofun)
    simp only [hcur, hst, ne_eq, not_false_eq_true, and_true, if_true]
    split
    · rfl
    next hswitch => rfl
  have hswitch : k.Switches front := .inl (by rw [hnext]; exact hcur)
  rw [if_pos hswitch, if_neg fun e => hcur e.2.2, if_neg hcur]

/-- A thread that is not current afterwards has the registers with which it was left, and one
that was not current before has those that it had. -/
theorem Dispatched.kept (hsave : st ≠ .dead ∨ k.sched.currThread = none)
    (hu : k'.sched.currThread ≠ some u) :
    (k'.threads u).context =
      if k.sched.currThread = some u then k.context else (k.threads u).context := by
  rw [d.saved u]
  by_cases hcur : k.sched.currThread = some u
  · have hst : st ≠ .dead := hsave.resolve_right (by rw [hcur]; nofun)
    have hswitch : k.Switches front := by
      refine .inl fun heq => hu ?_
      rw [d.next, ← heq, hcur]
    rw [if_pos ⟨hswitch, hst, hcur⟩, if_pos hcur]
  · rw [if_neg fun e => hcur e.2.2, if_neg hcur]

theorem Dispatched.saved_or (u : ℕ) :
    (k'.threads u).context = (k.threads u).context ∨
      k.sched.currThread = some u ∧ (k'.threads u).context = k.context := by
  rw [d.saved u]
  split
  next h => exact .inr ⟨h.2.2, rfl⟩
  · exact .inl rfl

theorem Dispatched.ne_dead (h : (k.threads u).state ≠ .dead) : (k'.threads u).state ≠ .dead := by
  rw [d.state u]
  split
  · decide
  split
  · decide
  · exact h

end

end Dispatch

/-! ## The registers that a call writes -/

section Calls

variable {k k' : Kernel} {c : SystemCall} {t u : ℕ} {r : ReturnT}

def NewThread.contextOf (new? : Option NewThread) (u : ℕ) (context : TgtContext) : TgtContext :=
  match new? with
  | some new => if u = new.thread then new.context else context
  | none => context

theorem procCreateThread_context {sys sys' : ThreadSys} {new : NewThread} {created : Option ℕ}
    (h : procCreateThread sys new = .ok (r, created, sys')) :
    (sys'.threads u).context =
      contextOf (if new.memory = true then some new else none) u
        (sys.threads u).context := by
  rcases procCreateThread_cases h with ⟨hmemory, -, -, rfl⟩ | ⟨hmemory, hthreads, -⟩
  · simp [hmemory, contextOf]
  by_cases hu : u = new.thread
  · subst hu
    simp [hmemory, hthreads, contextOf, record]
  · simp [hmemory, hthreads, contextOf, hu]

theorem SystemCall.body_context (hcaller : k.sched.currThread = some t)
    (h : c.body k t = .ok (r, k')) (u : ℕ) :
    (k'.threads u).context = contextOf c.starts? u (k.threads u).context := by
  -- what follows the creation of a thread does not write any registers
  have hquiet : ∀ {k₁ k₂ : Kernel}, k₁.Quiet (fun _ => False) k₂ →
      (k₂.threads u).context = (k₁.threads u).context := fun quiet => quiet.threads.context u id
  cases c with
  | createProcess new =>
    simp only [body, procCreateProcess] at h
    cases hrefused : new.refused with
    | some ret =>
      simp only [hrefused] at h
      cases h
      simp [starts?, hrefused, contextOf]
    | none =>
      simp only [hrefused] at h
      obtain ⟨⟨ret, created, sys⟩, hcreate, h⟩ := of_bind h
      have hstarted := procCreateThread_context (u := u) hcreate
      have hk' : (k'.threads u).context = (sys.threads u).context := by
        split at h
        · split at h
          · cases h
            rfl
          obtain ⟨k₁, hexit, h⟩ := of_bind h
          cases h
          exact hquiet (processExit_quiet hexit)
        obtain ⟨k₁, hexit, h⟩ := of_bind h
        cases h
        exact hquiet (processExit_quiet hexit)
      rw [hk', hstarted]
      simp [starts?, hrefused]
  | createThread new =>
    obtain ⟨⟨ret, created, sys⟩, hcreate, h⟩ := of_bind h
    cases h
    exact procCreateThread_context hcreate
  | createTimer new now timeout callback parameter room uninitialised =>
    rw [body] at h
    obtain ⟨sys, hsys, rfl⟩ := Kernel.onAlarms_eq_ok h
    rcases objCreateTimer_cases hsys with ⟨hargs, rfl⟩ | ⟨hargs, r₁, created, sys₁, hcreate, hcases⟩
    · simp only [starts?, hargs, false_and, if_false, contextOf]
    have hstarted := procCreateThread_context (u := u) hcreate
    simp only [starts?, hargs, true_and]
    rw [← hstarted]
    rcases hcases with ⟨-, rfl⟩ | ⟨-, -, hthreads, -⟩
    · rfl
    by_cases hu : u = new.thread
    · subst hu
      simp [hthreads]
    · simp [hthreads, hu]
  | loadThread =>
    cases h
    rfl
  | _ =>
    refine (body_quiet hcaller ?_ h).threads.context u ?_
    · simp [api]
    rintro ⟨new, hnew, -⟩
    cases hnew

theorem objExitThread_current {sys sys' : ThreadSys} (hcaller : sys.sched.currThread = some t)
    (h : objExitThread sys (some t) = .ok (.noError, sys')) : sys'.sched.currThread = none := by
  simp only [objExitThread] at h
  split at h
  · obtain ⟨sched, hsched, h⟩ := of_bind h
    cases h
    have hcur := (schNotifyExitThread_current hsched).trans hcaller
    simp [schNotifyTerminated, hcur]
  · cases (pair_inj h).1

theorem SystemCall.exit_current (hcaller : k.sched.currThread = some t)
    (hexit : c.api = .exitThread) (h : c.body k t = .ok (.noError, k')) :
    k'.sched.currThread = none := by
  cases c with
  | exitThread found left =>
    rw [body] at h
    split at h
    · obtain ⟨⟨ret, k₁⟩, hthread, h⟩ := of_bind h
      obtain ⟨sys, hsys, rfl⟩ := Kernel.onThreads_eq_ok hthread
      have hnone : ret = .noError → sys.sched.currThread = none := by
        rintro rfl
        exact objExitThread_current hcaller hsys
      cases left with
      | none =>
        cases h
        exact hnone rfl
      | some objects =>
        obtain ⟨k₂, hleft, h⟩ := of_bind h
        cases h
        have quiet := (processExit_quiet (S := fun _ => False) hleft).threads.current
        rcases quiet with heq | ⟨hgone, -⟩
        · rw [heq]
          exact hnone rfl
        · exact hgone
    · cases (pair_inj h).1
  | _ => cases hexit

end Calls

/-! ## One step -/

/-- The record describes the registers of every thread that has not exited, and the caller of a
system call is still current unless it has exited. -/
structure Isolated (i : Isolation) : Prop where
  saved : ∀ t, i.exited t = false → i.sched.currThread ≠ some t → (i.threads t).context = i.last t
  result : ∀ t r, i.exited t = false → i.sched.currThread ≠ some t → i.owed t = some r →
    (i.threads t).context.gpr 0 = r.code
  found : ∀ t r, i.exited t = false → i.sched.currThread = some t → i.owed t = some r →
    i.context.gpr 0 = r.code
  ownSaved : ∀ t, i.exited t = false → i.own t (i.threads t).context
  ownFound : ∀ t, i.exited t = false → i.sched.currThread = some t → i.own t i.context
  alive : ∀ t, (i.threads t).state ≠ .dead
  caller : ∀ api t ret, i.mode = .syscall api t ret →
    (i.sched.currThread = some t ∧ (api = .exitThread → ret ≠ .noError)) ∨
      (i.sched.currThread = none ∧ i.exited t = true)

open Isolated

section Steps

variable {i i' : Isolation} {e : KernelEvent} {t u : ℕ}

theorem Isolation.exited_of_after {s : System} (hstarts : e.starts? i.toSystem = none)
    (h : i.exitedAfter e s u = false) : i.exited u = false ∧ (s.threads u).state ≠ .terminated := by
  simpa [exitedAfter, hstarts] using h

theorem Isolation.own_after (hstarts : e.starts? i.toSystem = none) {context : TgtContext}
    (h : i.own u context) : i.ownAfter e u context := by
  simp only [ownAfter, hstarts]
  exact .inl h

theorem Isolated.dispatch {st : ThreadState} {context : TgtContext} {k : Kernel} (inv : Isolated i)
    (hset : { i.toKernel with context := context }.setContext st = .ok k)
    (hsave : st ≠ .dead ∨ i.sched.currThread = none)
    (hthreads : i'.toThreadSys = k.toThreadSys) (hcontext : i'.context = k.context)
    (hmode : ∀ api t ret, i'.mode ≠ .syscall api t ret)
    (hlive : ∀ u, i'.exited u = false → i.exited u = false)
    (hlast : ∀ u, i'.last u =
      if i.sched.currThread = some u ∧ i'.sched.currThread ≠ some u then context else i.last u)
    (howed : ∀ u r, i'.exited u = false → i'.owed u = some r →
      if i.sched.currThread = some u then context.gpr 0 = r.code else i.owed u = some r)
    (hown : ∀ u c, i.own u c → i'.own u c)
    (hownContext : ∀ u, i'.exited u = false → i.sched.currThread = some u → i'.own u context) :
    Isolated i' ∧ ∀ n, i'.exited n = false → i'.sched.currThread = some n →
      i'.context = if i.sched.currThread = some n then context else i.last n := by
  obtain ⟨core, hcore, rfl⟩ := Kernel.setContext_eq_ok hset
  obtain ⟨front, l, d⟩ := exists_dispatched hcore
  have hcur : i'.sched.currThread = core.sched.currThread := by rw [hthreads]; rfl
  have hctx : ∀ u, (i'.threads u).context = (core.threads u).context := fun u => by
    rw [hthreads]; rfl
  -- the registers that the thread which is now current finds
  have hinstalled : ∀ n, i'.sched.currThread = some n →
      i'.context = if i.sched.currThread = some n then context else (i.threads n).context :=
    fun n hn => hcontext.trans (d.installed hsave (hcur.symm.trans hn))
  have hkept : ∀ u, i'.sched.currThread ≠ some u → (i'.threads u).context =
      if i.sched.currThread = some u then context else (i.threads u).context :=
    fun u hu => (hctx u).trans (d.kept hsave (hcur ▸ hu))
  refine ⟨⟨fun u hu hcu => ?_, fun u r hu hcu hr => ?_, fun u r hu hcu hr => ?_, fun u hu => ?_,
    fun u hu hcu => ?_, fun u => ?_, fun api t ret hm => absurd hm (hmode api t ret)⟩, ?_⟩
  · rw [hkept u hcu, hlast u]
    by_cases hwas : i.sched.currThread = some u
    · rw [if_pos hwas, if_pos ⟨hwas, hcu⟩]
    · rw [if_neg hwas, if_neg fun h => hwas h.1, inv.saved u (hlive u hu) hwas]
  · rw [hkept u hcu]
    have howed := howed u r hu hr
    by_cases hwas : i.sched.currThread = some u
    · rw [if_pos hwas] at howed ⊢
      exact howed
    rw [if_neg hwas] at howed ⊢
    exact inv.result u r (hlive u hu) hwas howed
  · rw [hinstalled u hcu]
    have howed := howed u r hu hr
    by_cases hwas : i.sched.currThread = some u
    · rw [if_pos hwas] at howed ⊢
      exact howed
    rw [if_neg hwas] at howed ⊢
    exact inv.result u r (hlive u hu) hwas howed
  · rw [hctx u]
    rcases d.saved_or u with hsame | ⟨hwas, hsaved⟩
    · rw [hsame]
      exact hown u _ (inv.ownSaved u (hlive u hu))
    rw [hsaved]
    exact hownContext u hu hwas
  · rw [hinstalled u hcu]
    split
    next hwas => exact hownContext u hu hwas
    · exact hown u _ (inv.ownSaved u (hlive u hu))
  · rw [hthreads]
    exact d.ne_dead (inv.alive u)
  intro n hn hcn
  rw [hinstalled n hcn]
  by_cases hwas : i.sched.currThread = some n
  · rw [if_pos hwas, if_pos hwas]
  · rw [if_neg hwas, if_neg hwas, inv.saved n (hlive n hn) hwas]

theorem Isolated.quiet (inv : Isolated i)
    (hctx : ∀ u, (i'.threads u).context = (i.threads u).context) (hcontext : i'.context = i.context)
    (hcurrent : i'.sched.currThread = i.sched.currThread ∨ i'.sched.currThread = none ∧
      ∀ c, i.sched.currThread = some c → i'.exited c = true)
    (halive : ∀ u, (i'.threads u).state ≠ .dead)
    (hmode : ∀ api t ret, i'.mode = .syscall api t ret →
      i.mode = .syscall api t ret ∧ i'.sched.currThread = i.sched.currThread)
    (hlive : ∀ u, i'.exited u = false → i.exited u = false)
    (hlast : ∀ u, i.sched.currThread ≠ some u → i'.last u = i.last u)
    (howed : ∀ u, i'.owed u = i.owed u) (hown : ∀ u c, i.own u c → i'.own u c) : Isolated i' := by
  -- a thread that is alive and not current was not current before
  have hwas : ∀ u, i'.exited u = false → i'.sched.currThread ≠ some u →
      i.sched.currThread ≠ some u := by
    intro u hu hcu hc
    rcases hcurrent with heq | ⟨-, hgone⟩
    · exact hcu (heq.trans hc)
    rw [hgone u hc] at hu
    cases hu
  have hstays : ∀ u, i'.sched.currThread = some u → i.sched.currThread = some u := by
    intro u hcu
    rcases hcurrent with heq | ⟨hnone, -⟩
    · exact heq.symm.trans hcu
    rw [hnone] at hcu
    cases hcu
  refine ⟨fun u hu hcu => ?_, fun u r hu hcu hr => ?_, fun u r hu hcu hr => ?_, fun u hu => ?_,
    fun u hu hcu => ?_, halive, fun api t ret hm => ?_⟩
  · have hne := hwas u hu hcu
    rw [hctx, hlast u hne, inv.saved u (hlive u hu) hne]
  · rw [hctx]
    exact inv.result u r (hlive u hu) (hwas u hu hcu) ((howed u).symm.trans hr)
  · rw [hcontext]
    exact inv.found u r (hlive u hu) (hstays u hcu) ((howed u).symm.trans hr)
  · rw [hctx]
    exact hown u _ (inv.ownSaved u (hlive u hu))
  · rw [hcontext]
    exact hown u _ (inv.ownFound u (hlive u hu) (hstays u hcu))
  obtain ⟨hmode, heq⟩ := hmode api t ret hm
  rw [heq]
  refine (inv.caller api t ret hmode).imp_right fun ⟨hnone, hexited⟩ => ⟨hnone, ?_⟩
  by_contra hnot
  rw [hlive t (Bool.eq_false_iff.mpr hnot)] at hexited
  cases hexited

/-- The thread that was current when a step that is no dispatch began is either still current or
has been terminated. -/
theorem SystemCall.body_caller {k k' : Kernel} {c : SystemCall} {r : ReturnT}
    (hcaller : k.sched.currThread = some t) (hfree : ∀ new ∈ c.creates?, k.Free new)
    (h : c.body k t = .ok (r, k')) :
    k'.sched.currThread = some t ∨
      (k'.sched.currThread = none ∧ (k'.threads t).state = .terminated) := by
  by_cases hload : c.api = .loadThread
  · cases c with
    | loadThread =>
      cases h
      exact .inl hcaller
    | _ => cases hload
  rcases (body_quiet hcaller hload h).threads.current with heq | ⟨hnone, hgone⟩
  · exact .inl (heq.trans hcaller)
  refine .inr ⟨hnone, (hgone t hcaller).2.resolve_left ?_⟩
  rintro ⟨new, hnew, rfl⟩
  exact (hfree new hnew).2 hcaller

theorem SystemCall.creates_of_starts {c : SystemCall} {new : NewThread} (h : c.starts? = some new) :
    c.creates? = some new := by
  cases c with
  | createProcess _ | createThread _ | createTimer _ _ _ _ _ _ _ =>
    simp only [starts?] at h
    split at h
    · exact h
    · cases h
  | _ => cases h

theorem SystemCall.body_alive {k k' : Kernel} {c : SystemCall} {r : ReturnT}
    (hcaller : k.sched.currThread = some t) (h : c.body k t = .ok (r, k'))
    (halive : ∀ u, (k.threads u).state ≠ .dead) (u : ℕ) : (k'.threads u).state ≠ .dead := by
  by_cases hload : c.api = .loadThread
  · cases c with
    | loadThread =>
      cases h
      exact halive u
    | _ => cases hload
  · exact fun hd => halive u ((body_quiet hcaller hload h).threads.dead u hd)

/-- The registers of the processor after the switch: `SYSCALL_LOAD_THREAD` takes those that were
saved for the caller. -/
theorem SystemCall.body_processor {k k' : Kernel} {c : SystemCall} {r : ReturnT}
    (hcaller : k.sched.currThread = some t) (h : c.body k t = .ok (r, k')) :
    k'.context = k.context ∨ k'.context = (k.threads t).context := by
  by_cases hload : c.api = .loadThread
  · cases c with
    | loadThread =>
      cases h
      exact .inr rfl
    | _ => cases hload
  · exact .inl (body_quiet hcaller hload h).context

section Call

variable {c : SystemCall} {k : Kernel} {ret : ReturnT} (hmode : i.mode = .user)
  (hcaller : i.sched.currThread = some t)
include hmode hcaller

theorem KernelEvent.starts_call : (KernelEvent.call c).starts? i.toSystem = c.starts? := by
  simp [KernelEvent.starts?, hmode, hcaller]

/-- The record of the thread that a call starts. -/
theorem Isolation.call_new {new : NewThread} (h : c.body i.toKernel t = .ok (ret, k))
    (hnew : c.starts? = some new) :
    i.lastAfter (.call c) ⟨k, .syscall c.api t ret, false⟩ new.thread =
        (k.threads new.thread).context ∧
      i.ownAfter (.call c) new.thread (k.threads new.thread).context ∧
      i.owedAfter (.call c) new.thread = none := by
  have hstarts := KernelEvent.starts_call (c := c) hmode hcaller
  rw [body_context hcaller h]
  refine ⟨?_, ?_, ?_⟩
  · simp [lastAfter, hstarts, hnew, contextOf]
  · simp [ownAfter, hstarts, hnew, contextOf]
  · simp [owedAfter, hmode, hstarts, hnew]

/-- The record of any other thread after a call. -/
theorem Isolation.call_old (h : c.body i.toKernel t = .ok (ret, k))
    (hu : ∀ new, c.starts? = some new → u ≠ new.thread) :
    (k.threads u).context = (i.threads u).context ∧
      (u ≠ t → i.lastAfter (.call c) ⟨k, .syscall c.api t ret, false⟩ u = i.last u) ∧
      (∀ context, i.own u context → i.ownAfter (.call c) u context) ∧
      (i.exitedAfter (.call c) ⟨k, .syscall c.api t ret, false⟩ u = false →
        i.exited u = false ∧ (k.threads u).state ≠ .terminated) := by
  have hstarts := KernelEvent.starts_call (c := c) hmode hcaller
  have hctx := body_context hcaller h u
  cases hs : c.starts? with
  | none =>
    refine ⟨by rw [hctx, hs]; rfl, fun hut => ?_, fun _ => i.own_after (hstarts.trans hs),
      exited_of_after (hstarts.trans hs)⟩
    simp [lastAfter, hstarts, hs, KernelEvent.FiresAlarm, hcaller, Ne.symm hut]
  | some new =>
    have hne := hu new hs
    refine ⟨by rw [hctx, hs]; exact if_neg hne, fun _ => ?_, fun _ hown => ?_, fun he => ?_⟩
    · simp [lastAfter, hstarts, hs, hne]
    · simpa [ownAfter, hstarts, hs, hne] using hown
    · simpa [exitedAfter, hstarts, hs, Ne.symm hne] using he

/-- No result is owed to the caller or to the thread that it starts. -/
theorem Isolation.call_owed {r : ReturnT} (hr : i.owedAfter (.call c) u = some r) :
    u ≠ t ∧ (∀ new, c.starts? = some new → u ≠ new.thread) ∧ i.owed u = some r := by
  have hstarts := KernelEvent.starts_call (c := c) hmode hcaller
  simp only [owedAfter, hmode, hstarts, hcaller] at hr
  split at hr
  · cases hr
  next hnot =>
    refine ⟨?_, ?_, hr⟩
    · rintro rfl
      exact hnot (.inl rfl)
    · rintro new hs rfl
      exact hnot (.inr (by simp [hs]))

theorem Isolated.call (inv : Isolated i) (hfree : ∀ new ∈ c.creates?, i.Free new)
    (h : c.body i.toKernel t = .ok (ret, k)) :
    Isolated (i.after (.call c) ⟨k, .syscall c.api t ret, false⟩) := by
  have hcurrent := body_caller hcaller hfree h
  have hnew {new : NewThread} (hs : c.starts? = some new) := call_new hmode hcaller h hs
  have hold (u : ℕ) := call_old (u := u) hmode hcaller h
  have howed {u : ℕ} {r : ReturnT} := call_owed (c := c) (u := u) (r := r) hmode hcaller
  have hcallerNe : ∀ new, c.starts? = some new → t ≠ new.thread := by
    rintro new hs rfl
    exact (hfree new (creates_of_starts hs)).2 hcaller
  have hother : ∀ u, u ≠ t → i.sched.currThread ≠ some u := fun u hu => by
    rw [hcaller]
    exact fun e => hu (Option.some.inj e).symm
  have hcallerOf : ∀ u, k.sched.currThread = some u → u = t := by
    intro u hcu
    rcases hcurrent with hcur | ⟨hnone, -⟩
    · exact Option.some.inj (hcu.symm.trans hcur)
    · cases hnone.symm.trans hcu
  -- a thread that is alive and not current is not the caller
  have hnot : ∀ u, (∀ new, c.starts? = some new → u ≠ new.thread) →
      i.exitedAfter (.call c) ⟨k, .syscall c.api t ret, false⟩ u = false →
      k.sched.currThread ≠ some u → u ≠ t := by
    rintro u hu he hcu rfl
    rcases hcurrent with hcur | ⟨-, hterm⟩
    · exact hcu hcur
    · exact ((hold u hu).2.2.2 he).2 hterm
  refine ⟨fun u he hcu => ?_, fun u r he hcu hr => ?_, fun u r he hcu hr => ?_, fun u he => ?_,
    fun u he hcu => ?_, body_alive hcaller h inv.alive, fun api t' ret' hm => ?_⟩
  · by_cases hu : ∃ new, c.starts? = some new ∧ u = new.thread
    · obtain ⟨new, hs, rfl⟩ := hu
      exact (hnew hs).1.symm
    push Not at hu
    have hut := hnot u hu he hcu
    obtain ⟨hsame, hlast, -, hexited⟩ := hold u hu
    exact hsame.trans ((inv.saved u (hexited he).1 (hother u hut)).trans (hlast hut).symm)
  · obtain ⟨hut, hu, hr⟩ := howed hr
    obtain ⟨hsame, -, -, hexited⟩ := hold u hu
    show (k.threads u).context.gpr 0 = _
    rw [hsame]
    exact inv.result u r (hexited he).1 (hother u hut) hr
  · exact absurd (hcallerOf u hcu) (howed hr).1
  · by_cases hu : ∃ new, c.starts? = some new ∧ u = new.thread
    · obtain ⟨new, hs, rfl⟩ := hu
      exact (hnew hs).2.1
    push Not at hu
    obtain ⟨hsame, -, hown, hexited⟩ := hold u hu
    show i.ownAfter _ u (k.threads u).context
    rw [hsame]
    exact hown _ (inv.ownSaved u (hexited he).1)
  · obtain rfl := hcallerOf u hcu
    obtain ⟨-, -, hown, hexited⟩ := hold u hcallerNe
    show i.ownAfter _ u k.context
    rcases body_processor hcaller h with heq | heq
    · rw [heq]
      exact hown _ (inv.ownFound u (hexited he).1 hcaller)
    rw [heq]
    exact hown _ (inv.ownSaved u (hexited he).1)
  obtain ⟨rfl, rfl, rfl⟩ := Mode.syscall.inj hm
  rcases hcurrent with hcur | ⟨hnone, hterm⟩
  · refine .inl ⟨hcur, ?_⟩
    rintro hexit rfl
    rw [exit_current hcaller hexit h] at hcur
    cases hcur
  refine .inr ⟨hnone, ?_⟩
  by_contra hnot
  exact ((hold t hcallerNe).2.2.2 (Bool.eq_false_iff.mpr hnot)).2 hterm

end Call

/-- What every step keeps, and what every dispatch installs. -/
def Isolated.StepOk (i : Isolation) (e : KernelEvent) (i' : Isolation) : Prop :=
  Isolated i' ∧ (i'.dispatched = true → ∀ n, i'.exited n = false → i'.sched.currThread = some n →
    i'.context = if i.sched.currThread = some n then e.contextAt i.toSystem else i.last n)

theorem Isolation.lastAfter_dispatch {s : System} (hstarts : e.starts? i.toSystem = none)
    (halarm : ¬ e.FiresAlarm i.toSystem) (u : ℕ) :
    i.lastAfter e s u =
      if i.sched.currThread = some u ∧ s.sched.currThread ≠ some u then e.contextAt i.toSystem
      else i.last u := by
  simp [lastAfter, hstarts, halarm]

theorem Isolated.dispatchInterrupt {s : System} {st : ThreadState} (inv : Isolated i)
    (hset : i.toKernel.setContext st = .ok s.toKernel) (hst : st ≠ .dead)
    (hmode : ∀ api t ret, s.mode ≠ .syscall api t ret) (hstarts : e.starts? i.toSystem = none)
    (halarm : ¬ e.FiresAlarm i.toSystem) (hat : e.contextAt i.toSystem = i.context)
    (howed : ∀ u, i.owedAfter e u = i.owed u) : StepOk i e (i.after e s) := by
  have hlive : ∀ u, i.exitedAfter e s u = false → i.exited u = false :=
    fun u hu => (exited_of_after hstarts hu).1
  refine (inv.dispatch hset (.inl hst) rfl rfl hmode hlive ?_ ?_ ?_ ?_).imp_right ?_
  · intro u
    rw [← hat]
    exact lastAfter_dispatch hstarts halarm u
  · intro u r hu hr
    have hr : i.owed u = some r := (howed u).symm.trans hr
    split
    next hcu => exact inv.found u r (hlive u hu) hcu hr
    · exact hr
  · exact fun u c => own_after hstarts
  · exact fun u hu hcu => own_after hstarts (inv.ownFound u (hlive u hu) hcu)
  intro installed _ n hn hcn
  rw [hat]
  exact installed n hn hcn

section Finish

variable {api : Api} {ret : ReturnT} (inv : Isolated i) (hmode : i.mode = .syscall api t ret)

omit inv in
include hmode in
theorem Isolation.owedAfter_finish (u : ℕ) : i.owedAfter .finish u =
    if u = t then (if api = .other then some ret else none) else i.owed u := by
  simp [owedAfter, hmode]

include inv hmode

/-- A thread that is current when a call ends has made it. -/
theorem Isolated.caller_of_current (hu : i.sched.currThread = some u) : u = t := by
  rcases inv.caller api t ret hmode with ⟨hcur, -⟩ | ⟨hnone, -⟩
  · exact Option.some.inj (hu.symm.trans hcur)
  · cases hnone.symm.trans hu

theorem Isolated.current_of_caller (ht : i.exited t = false) : i.sched.currThread = some t := by
  rcases inv.caller api t ret hmode with ⟨hcur, -⟩ | ⟨-, hexited⟩
  · exact hcur
  · cases ht.symm.trans hexited

/-- The registers with the result are the caller's own. -/
theorem Isolated.own_result (ht : i.exited t = false) :
    i.ownAfter .finish t (tgtSetSyscallReturn i.context ret.code) := by
  simp only [ownAfter, KernelEvent.starts?, hmode]
  exact .inr (.inr ⟨trivial, _, inv.ownFound t ht (inv.current_of_caller hmode ht), rfl⟩)

/-- The caller goes on, and finds the result unless it has loaded its registers. -/
theorem Isolated.finish_return {s : System} (hthreads : s.toThreadSys = i.toThreadSys)
    (hcontext : s.context =
      if api = .loadThread then i.context else tgtSetSyscallReturn i.context ret.code)
    (huser : s.mode = .user) : Isolated (i.after .finish s) := by
  have hlive : ∀ u, i.exitedAfter .finish s u = false → i.exited u = false :=
    fun u hu => (exited_of_after rfl hu).1
  have hcurrent : s.sched.currThread = i.sched.currThread := by rw [hthreads]
  refine ⟨fun u hu hcu => ?_, fun u r hu hcu hr => ?_, fun u r hu hcu hr => ?_, fun u hu => ?_,
    fun u hu hcu => ?_, fun u => ?_, fun _ _ _ hm => Mode.noConfusion (huser.symm.trans hm)⟩
  · show (s.threads u).context = i.lastAfter .finish _ u
    have hne : i.sched.currThread ≠ some u := hcurrent ▸ hcu
    rw [lastAfter_dispatch (e := .finish) rfl id, if_neg fun h => hne h.1, hthreads,
      inv.saved u (hlive u hu) hne]
  · have hne : i.sched.currThread ≠ some u := hcurrent ▸ hcu
    have hut : u ≠ t := by
      rintro rfl
      exact hne (inv.current_of_caller hmode (hlive u hu))
    have hr := (owedAfter_finish hmode u).symm.trans hr
    rw [if_neg hut] at hr
    show (s.threads u).context.gpr 0 = _
    rw [hthreads]
    exact inv.result u r (hlive u hu) hne hr
  · have hr := (owedAfter_finish hmode u).symm.trans hr
    rw [if_pos (inv.caller_of_current hmode (hcurrent.symm.trans hcu))] at hr
    split at hr
    next hother =>
      show s.context.gpr 0 = _
      rw [hcontext, hother, if_neg (by decide), ← Option.some.inj hr]
      simp [tgtSetSyscallReturn]
    · cases hr
  · show i.ownAfter .finish u (s.threads u).context
    rw [hthreads]
    exact own_after rfl (inv.ownSaved u (hlive u hu))
  · have hcu := hcurrent.symm.trans hcu
    obtain rfl := inv.caller_of_current hmode hcu
    show i.ownAfter .finish u s.context
    rw [hcontext]
    split
    · exact own_after rfl (inv.ownFound u (hlive u hu) hcu)
    · exact inv.own_result hmode (hlive u hu)
  show (s.threads u).state ≠ .dead
  rw [hthreads]
  exact inv.alive u

/-- The caller does not go on, or not at once: its registers are saved with the result. -/
theorem Isolated.finish_dispatch {s : System} {k : Kernel} (hexit : i.mode.ExitOk)
    (hset : { i.toKernel with context := tgtSetSyscallReturn i.context ret.code }.setContext
      (i.stateAfter api t) = .ok k)
    (hthreads : s.toThreadSys = k.toThreadSys) (hcontext : s.context = k.context)
    (huser : s.mode = .user) : StepOk i .finish (i.after .finish s) := by
  have hat : KernelEvent.finish.contextAt i.toSystem = tgtSetSyscallReturn i.context ret.code := by
    simp [KernelEvent.contextAt, hmode]
  have hlive : ∀ u, i.exitedAfter .finish s u = false → i.exited u = false :=
    fun u hu => (exited_of_after rfl hu).1
  have hsave : i.stateAfter api t ≠ .dead ∨ i.sched.currThread = none := by
    by_cases happi : api = .exitThread
    · subst happi
      rw [hmode] at hexit
      rcases inv.caller _ t ret hmode with ⟨-, hfail⟩ | ⟨hnone, -⟩
      · exact absurd hexit (hfail rfl)
      · exact .inr hnone
    refine .inl ?_
    rw [Kernel.stateAfter, if_neg happi]
    exact inv.alive t
  refine (inv.dispatch hset hsave hthreads hcontext ?_ hlive ?_ ?_ ?_ ?_).imp_right ?_
  · exact fun _ _ _ hm => Mode.noConfusion (huser.symm.trans hm)
  · intro u
    rw [← hat]
    exact lastAfter_dispatch (e := .finish) rfl id u
  · intro u r hu hr
    have hr := (owedAfter_finish hmode u).symm.trans hr
    by_cases hut : u = t
    · subst hut
      rw [if_pos rfl] at hr
      rw [if_pos (inv.current_of_caller hmode (hlive u hu))]
      split at hr
      · rw [← Option.some.inj hr]
        simp [tgtSetSyscallReturn]
      · cases hr
    rw [if_neg hut] at hr
    rw [if_neg fun hc => hut (inv.caller_of_current hmode hc)]
    exact hr
  · exact fun u c => own_after (e := .finish) rfl
  · rintro u hu hcu
    obtain rfl := inv.caller_of_current hmode hcu
    exact inv.own_result hmode (hlive u hu)
  intro installed _ n hn hcn
  rw [hat]
  exact installed n hn hcn

theorem Isolated.finish {dispatched : Bool} {k : Kernel} (hexit : i.mode.ExitOk)
    (h : syscallFinish i.toKernel api t ret = .ok (dispatched, k)) :
    StepOk i .finish (i.after .finish ⟨k, .user, dispatched⟩) := by
  rcases syscallFinish_cases h with ⟨-, rfl, rfl⟩ | ⟨-, -, rfl, k₁, hset, rfl⟩
  · refine ⟨inv.finish_return hmode ?_ ?_ rfl, fun h => absurd h Bool.false_ne_true⟩
    · split <;> rfl
    · split <;> rfl
  · refine inv.finish_dispatch hmode hexit hset ?_ ?_ rfl
    · split <;> rfl
    · split <;> rfl

end Finish

theorem Isolated.quietStep {s : System} (inv : Isolated i)
    (quiet : i.toKernel.Quiet (fun _ => False) s.toKernel)
    (hmode : (∀ api t ret, s.mode ≠ .syscall api t ret) ∨
      s.mode = i.mode ∧ s.sched.currThread = i.sched.currThread)
    (hdispatched : s.dispatched = false) (hstarts : e.starts? i.toSystem = none)
    (halarm : ¬ e.FiresAlarm i.toSystem) (howed : ∀ u, i.owedAfter e u = i.owed u) :
    StepOk i e (i.after e s) := by
  refine ⟨inv.quiet (fun u => quiet.threads.context u id) quiet.context ?_ ?_ ?_ ?_ ?_ howed ?_, ?_⟩
  · refine quiet.threads.current.imp_right fun ⟨hnone, hgone⟩ => ⟨hnone, fun c hc => ?_⟩
    have hterm : (s.threads c).state = .terminated := (hgone c hc).2.resolve_left id
    show i.exitedAfter e s c = true
    simp [exitedAfter, hstarts, hterm]
  · exact fun u hd => inv.alive u (quiet.threads.dead u hd)
  · intro api t ret hm
    rcases hmode with hnot | ⟨hsame, hcurrent⟩
    · exact absurd hm (hnot api t ret)
    · exact ⟨hsame.symm.trans hm, hcurrent⟩
  · exact fun u hu => (exited_of_after hstarts hu).1
  · intro u hu
    exact (lastAfter_dispatch hstarts halarm u).trans (if_neg fun h => hu h.1)
  · exact fun u c => own_after hstarts
  intro h
  rw [show (i.after e s).dispatched = false from hdispatched] at h
  cases h

theorem Isolated.unfit (inv : Isolated i) (hstarts : e.starts? i.toSystem = none)
    (halarm : ¬ e.FiresAlarm i.toSystem) (howed : ∀ u, i.owedAfter e u = i.owed u) :
    StepOk i e (i.after e { i.toSystem with dispatched := false }) :=
  inv.quietStep (.refl _) (.inr ⟨rfl, rfl⟩) rfl hstarts halarm howed

theorem Isolated.execute {computed : TgtContext} (inv : Isolated i) (hmode : i.mode = .user) :
    StepOk i (.execute computed) (i.after (.execute computed)
      { i.toSystem with context := computed, dispatched := false }) := by
  have hlive : ∀ u, i.exitedAfter (.execute computed)
      { i.toSystem with context := computed, dispatched := false } u = false → i.exited u = false :=
    fun u hu => (exited_of_after rfl hu).1
  have howed : ∀ u, i.owedAfter (.execute computed) u =
      if i.sched.currThread = some u then none else i.owed u := fun u => by
    simp [owedAfter, hmode, KernelEvent.starts?]
  refine ⟨⟨fun u hu hcu => ?_, fun u r hu hcu hr => ?_, fun u r hu hcu hr => ?_, fun u hu => ?_,
    fun u hu hcu => ?_, inv.alive, fun api t ret hm => ?_⟩, nofun⟩
  · refine (inv.saved u (hlive u hu) hcu).trans ?_
    exact ((lastAfter_dispatch (e := .execute computed) rfl id u).trans
      (if_neg fun h => hcu h.1)).symm
  · refine inv.result u r (hlive u hu) hcu ?_
    exact (if_neg hcu).symm.trans ((howed u).symm.trans hr)
  · have hnone : i.owedAfter (.execute computed) u = none := (howed u).trans (if_pos hcu)
    cases hnone.symm.trans hr
  · exact own_after (e := .execute computed) rfl (inv.ownSaved u (hlive u hu))
  · show i.ownAfter (.execute computed) u computed
    simp only [ownAfter, KernelEvent.starts?, hmode]
    exact .inr (.inr ⟨hcu, trivial⟩)
  · cases hmode.symm.trans hm

theorem AlarmSys.withParams_result (k : AlarmSys) (u : ℕ) (context : TgtContext) :
    (k.withParams u context).gpr 0 = context.gpr 0 := by
  simp only [AlarmSys.withParams]
  split
  · split
    · split
      · split
        · simp [tgtSetContextParam]
        · rfl
      · rfl
    · rfl
  · rfl

theorem Isolated.alarm {sys : AlarmSys} {s : System} (inv : Isolated i) (hmode : i.mode = .user)
    (fired : i.toAlarmSys.Fired sys) (hthreads : s.toThreadSys = sys.toThreadSys)
    (hcontext : s.context = i.context) (hnot : ∀ api t ret, s.mode ≠ .syscall api t ret)
    (hdispatched : s.dispatched = false) :
    StepOk i (.interrupt .alarmTimer) (i.after (.interrupt .alarmTimer) s) := by
  have hlive : ∀ u, i.exitedAfter (.interrupt .alarmTimer) s u = false → i.exited u = false :=
    fun u hu => (exited_of_after rfl hu).1
  have hcurrent : s.sched.currThread = i.sched.currThread := by
    rw [hthreads]
    exact fired.current
  have hsaved : ∀ u, (s.threads u).context = i.withParams u (i.threads u).context := fun u => by
    rw [hthreads]
    exact fired.context u
  have hlast : ∀ u, i.lastAfter (.interrupt .alarmTimer) s u = i.withParams u (i.last u) :=
    fun u => if_pos hmode
  refine ⟨⟨fun u hu hcu => ?_, fun u r hu hcu hr => ?_, fun u r hu hcu hr => ?_, fun u hu => ?_,
    fun u hu hcu => ?_, fun u => ?_, fun api t ret hm => absurd hm (hnot api t ret)⟩, ?_⟩
  · have hne : i.sched.currThread ≠ some u := hcurrent ▸ hcu
    refine (hsaved u).trans (Eq.trans ?_ (hlast u).symm)
    rw [inv.saved u (hlive u hu) hne]
  · have hne : i.sched.currThread ≠ some u := hcurrent ▸ hcu
    show (s.threads u).context.gpr 0 = _
    rw [hsaved, AlarmSys.withParams_result]
    exact inv.result u r (hlive u hu) hne hr
  · show s.context.gpr 0 = _
    rw [hcontext]
    exact inv.found u r (hlive u hu) (hcurrent.symm.trans hcu) hr
  · show i.ownAfter (.interrupt .alarmTimer) u (s.threads u).context
    rw [hsaved]
    exact .inr (.inl ⟨hmode, _, inv.ownSaved u (hlive u hu), rfl⟩)
  · show i.ownAfter (.interrupt .alarmTimer) u s.context
    rw [hcontext]
    exact own_after rfl (inv.ownFound u (hlive u hu) (hcurrent.symm.trans hcu))
  · show (s.threads u).state ≠ .dead
    rw [hthreads]
    rcases fired.state u with heq | heq
    · rw [heq]
      exact inv.alive u
    rw [heq]
    decide
  intro h
  rw [show (i.after (.interrupt .alarmTimer) s).dispatched = false from hdispatched] at h
  cases h

theorem Isolated.state_ne_dead (inv : Isolated i) (o : Option ℕ) :
    threadGetState i.threads o ≠ .dead := by
  cases o with
  | none => nofun
  | some u => exact inv.alive u

theorem Isolated.interrupt {source : Source} {dispatched : Bool} {k : Kernel} (inv : Isolated i)
    (hmode : i.mode = .user) (h : source.handle i.toKernel = .ok (dispatched, k)) :
    StepOk i (.interrupt source)
      (i.after (.interrupt source) ⟨k, .interrupt i.sched.currThread, dispatched⟩) := by
  cases source with
  | device =>
    obtain ⟨rfl, rfl⟩ := pair_inj h
    exact inv.quietStep (.refl _) (.inl nofun) rfl rfl id fun _ => rfl
  | pipe p cause =>
    obtain ⟨⟨r, k₁⟩, hsend, h⟩ := of_bind h
    obtain ⟨rfl, rfl⟩ := pair_inj h
    have quiet : i.toKernel.Quiet (fun _ => False) k₁ :=
      .onPipes hsend fun _ => objPipeSendMessage_quiet
    exact inv.quietStep quiet (.inl nofun) rfl rfl id fun _ => rfl
  | scheduleTimer =>
    obtain ⟨k₁, hset, h⟩ := of_bind h
    cases h
    exact inv.dispatchInterrupt hset (inv.state_ne_dead _) nofun rfl id rfl fun _ => rfl
  | alarmTimer =>
    obtain ⟨k₁, halarm, h⟩ := of_bind h
    cases h
    obtain ⟨sys, hsys, rfl⟩ := Kernel.alarmTimeout_eq_ok halarm
    exact inv.alarm hmode (alarmTimeout_fired hsys) rfl rfl nofun rfl

theorem Isolation.owedAfter_kernel (hmode : i.mode ≠ .user) (he : e ≠ .finish) :
    i.owedAfter e u = i.owed u := by
  cases hm : i.mode with
  | user => exact absurd hm hmode
  | syscall _ _ _ | interrupt _ =>
    cases e with
    | finish => exact absurd rfl he
    | execute _ | call _ | interrupt _ | leave => simp [owedAfter, hm]

/-- The record describes the registers after every step, and what a dispatch installs is what the
thread had. -/
theorem Isolated.step (inv : Isolated i) (hcalled : e.Called i.toSystem)
    (h : i.step e = .ok i') : StepOk i e i' := by
  obtain ⟨s, hstep, h⟩ := of_bind h
  cases h
  cases e with
  | execute computed =>
    simp only [KernelEvent.step] at hstep
    split at hstep
    next hmode =>
      cases hstep
      exact inv.execute hmode
    next hmode =>
      cases hstep
      exact inv.unfit rfl id fun u => owedAfter_kernel hmode nofun
  | call c =>
    simp only [KernelEvent.step] at hstep
    split at hstep
    next t hmode hcaller =>
      obtain ⟨⟨ret, k⟩, hbody, hstep⟩ := of_bind hstep
      cases hstep
      exact ⟨inv.call hmode hcaller hcalled hbody, nofun⟩
    next hnot =>
      cases hstep
      have hstarts : (KernelEvent.call c).starts? i.toSystem = none := by
        refine if_neg fun ⟨hmode, hsome⟩ => ?_
        obtain ⟨t, hcaller⟩ := Option.isSome_iff_exists.mp hsome
        exact hnot t hmode hcaller
      refine inv.unfit hstarts id fun u => ?_
      by_cases hmode : i.mode = .user
      · have hcaller : i.sched.currThread ≠ some u := hnot u hmode
        simp [owedAfter, hmode, hstarts, hcaller]
      · exact owedAfter_kernel hmode nofun
  | finish =>
    simp only [KernelEvent.step] at hstep
    split at hstep
    next api t ret hmode =>
      obtain ⟨⟨dispatched, k⟩, hfinish, hstep⟩ := of_bind hstep
      cases hstep
      exact inv.finish hmode hcalled hfinish
    next hmode =>
      cases hstep
      refine inv.unfit rfl id fun u => ?_
      cases hm : i.mode with
      | syscall api t ret => exact (hmode api t ret hm).elim
      | user | interrupt _ => simp [owedAfter, hm]
  | interrupt source =>
    simp only [KernelEvent.step] at hstep
    split at hstep
    next hmode =>
      obtain ⟨⟨dispatched, k⟩, hhandle, hstep⟩ := of_bind hstep
      cases hstep
      exact inv.interrupt hmode hhandle
    next hmode =>
      cases hstep
      refine inv.unfit rfl (fun halarm => ?_) fun _ => rfl
      cases source with
      | alarmTimer => exact hmode halarm
      | device | pipe _ _ | scheduleTimer => exact halarm
  | leave =>
    simp only [KernelEvent.step] at hstep
    split at hstep
    next currentThread hmode =>
      obtain ⟨k, hset, hstep⟩ := of_bind hstep
      cases hstep
      exact inv.dispatchInterrupt hset (inv.state_ne_dead _) nofun rfl id rfl fun _ => rfl
    cases hstep
    exact inv.unfit rfl id fun _ => rfl

end Steps

/-! ## Runs -/

theorem Isolated.start {idle : ℕ} {s : System} (started : s.Started idle) :
    Isolated (start s) := by
  refine ⟨fun _ _ _ => rfl, nofun, nofun, fun _ _ => rfl, fun t _ hcur => ?_,
    fun t => (started.state t).2, fun api t ret hm => ?_⟩
  · cases started.current.symm.trans hcur
    exact started.context
  · cases started.mode.symm.trans hm

/-- Let system calls and interrupts follow each other from when the first thread is loaded. A
thread that a dispatch makes current finds the registers that it had when it stopped being
current. It finds the result of its call, and registers that are its own. -/
theorem isolation_of_run {idle : ℕ} {s₀ : System} {es : List KernelEvent} {i : Isolation}
    (started : s₀.Started idle)
    (run : Run Isolation.step (fun i e => e.Called i.toSystem) (Isolation.start s₀) es i) :
    (∀ e i', e.Called i.toSystem → i.step e = .ok i' → i'.dispatched = true →
      ∀ t, i'.exited t = false → i'.sched.currThread = some t →
        i'.context = if i.sched.currThread = some t then e.contextAt i.toSystem else i.last t) ∧
    (∀ t r, i.exited t = false → i.sched.currThread = some t → i.owed t = some r →
      i.context.gpr 0 = r.code) ∧
    (∀ t, i.exited t = false → i.sched.currThread = some t → i.own t i.context) := by
  have inv : Isolated i :=
    run.invariant (Isolated.start started) fun _ _ _ inv hcalled h => (inv.step hcalled h).1
  exact ⟨fun e i' hcalled h => (inv.step hcalled h).2, inv.found, inv.ownFound⟩

/-- Thread 1 computes and goes to sleep, and the idle thread computes. When thread 1 has been
woken it finds the registers with which it went to sleep, and the result. -/
theorem isolation_of_run_woken : ∃ (s₀ : System) (i i' : Isolation), System.boot = .ok s₀ ∧
    Run Isolation.step (fun i e => e.Called i.toSystem) (Isolation.start s₀)
      [.call (.createThread ⟨1, 0, 1, 0x8000, 0x100, 0x200, 0x300, true, true, true, true⟩),
        .finish, .interrupt .device, .leave, .execute ⟨0x8000, 0, 0x10, fun _ => 7, 0x104⟩,
        .call (.sleep true ⟨0, 0⟩ (some ⟨10, 0⟩) true), .finish,
        .execute ⟨0, 0, 0x10, fun _ => 9, 0x504⟩, .interrupt .alarmTimer] i ∧
    i.step .leave = .ok i' ∧ i'.sched.currThread = some 1 ∧ i'.context = i.last 1 ∧
    i'.context.gpr 0 = ReturnT.noError.code ∧ i'.own 1 i'.context := by
  obtain ⟨_, i, start, run, hend⟩ := exists_run_from (Isolation.start <$> System.boot)
    Isolation.step (fun i e => e.Called i.toSystem)
    [.call (.createThread ⟨1, 0, 1, 0x8000, 0x100, 0x200, 0x300, true, true, true, true⟩),
      .finish, .interrupt .device, .leave, .execute ⟨0x8000, 0, 0x10, fun _ => 7, 0x104⟩,
      .call (.sleep true ⟨0, 0⟩ (some ⟨10, 0⟩) true), .finish,
      .execute ⟨0, 0, 0x10, fun _ => 9, 0x504⟩, .interrupt .alarmTimer]
    (fun i => decide (i.sched.currThread = some 0) &&
      (i.step .leave).toOption.any fun i' : Isolation => decide (i'.dispatched = true ∧
        i'.exited 1 = false ∧ i'.sched.currThread = some 1 ∧ i'.owed 1 = some .noError))
    (by decide +kernel)
  obtain ⟨s₀, hboot, rfl⟩ : ∃ s₀, System.boot = .ok s₀ ∧ Isolation.start s₀ = _ := by
    cases hboot : System.boot with
    | error f => simp [hboot] at start
    | ok s₀ => exact ⟨s₀, rfl, by simpa [hboot] using start⟩
  have started := System.started_of_boot hboot
  obtain ⟨hidle, hleave⟩ := Bool.and_eq_true_iff.mp hend
  obtain ⟨i', hstep, hi'⟩ := exists_of_any hleave
  obtain ⟨hdispatched, hexited, hcurrent, howed⟩ := of_decide_eq_true hi'
  have hother : i.sched.currThread ≠ some 1 := by
    rw [of_decide_eq_true hidle]
    decide
  have hcalled : KernelEvent.leave.Called i.toSystem := trivial
  have run' := run.snoc hcalled hstep
  refine ⟨s₀, i, i', hboot, run, hstep, hcurrent, ?_, ?_, ?_⟩
  · refine ((isolation_of_run started run).1 .leave i' hcalled hstep hdispatched 1 hexited
      hcurrent).trans (if_neg hother)
  · exact (isolation_of_run started run').2.1 1 .noError hexited hcurrent howed
  · exact (isolation_of_run started run').2.2 1 hexited hcurrent

end Tinker
