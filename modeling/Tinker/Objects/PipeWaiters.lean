import Tinker.Objects.PipeNet

/-!
# Who is blocked on a pipe

A receiving pipe remembers one thread that is blocked in a receive, a sending pipe one that is
blocked in a send. The kernel still knows each blocked thread as long as no thread blocks on a pipe
on which another one is blocked in the same way, as every reader that can not receive has a list of
senders, and as no pipe is deleted that a thread is blocked on. `WaitOk` says so for one call, and
it is exact: a second thread that blocks on a pipe takes the place of the first one.
-/

namespace Tinker

open Tinker.Lib Exec PipeSys
open Function (update update_self update_of_ne)

variable {k k' : PipeSys} {p q r t thread : ℕ} {pipe : Pipe} {message : List UInt8}
  {result : ReturnT}

/-! ## What the pipes keep -/

/-- The pipes of `k` still remember in `k'` who is blocked on them, apart from a receiver that
has been woken. -/
structure KeepsWaiters (k k' : PipeSys) : Prop where
  sending : ∀ p pipe, k.pipes p = some pipe →
    ∃ pipe', k'.pipes p = some pipe' ∧ pipe'.txData.sendingThread = pipe.txData.sendingThread
  receiving : ∀ r pipe t, k.pipes r = some pipe →
    pipe.rxData.blockedInfo.blockedOwner = some t → (k'.threads t).state = .waiting →
    ∃ pipe', k'.pipes r = some pipe' ∧ pipe'.rxData.blockedInfo = pipe.rxData.blockedInfo
  senders : ∀ r q, q ∈ k.sendersOf r → q ∈ k'.sendersOf r

/-- In addition, threads have only been woken. -/
structure OnlyWakes (k k' : PipeSys) : Prop extends KeepsWaiters k k' where
  woken : ∀ t, (k'.threads t).state = .waiting → k'.threads t = k.threads t

theorem KeepsWaiters.of_pipes (h : k'.pipes = k.pipes) : KeepsWaiters k k' := by
  refine ⟨fun p pipe hp => ⟨pipe, by rw [h, hp], rfl⟩,
    fun r pipe t hr _ _ => ⟨pipe, by rw [h, hr], rfl⟩, fun r q hq => ?_⟩
  simpa [PipeSys.sendersOf, h] using hq

namespace OnlyWakes

theorem refl (k : PipeSys) : OnlyWakes k k := ⟨.of_pipes rfl, fun _ _ => rfl⟩

theorem trans {a b c : PipeSys} (h : OnlyWakes a b) (h' : OnlyWakes b c) : OnlyWakes a c where
  woken t hw := by
    have hb := h'.woken t hw
    exact hb.trans (h.woken t (hb ▸ hw))
  sending p pipe hp := by
    obtain ⟨pipe₁, hp₁, hsame₁⟩ := h.sending p pipe hp
    obtain ⟨pipe₂, hp₂, hsame₂⟩ := h'.sending p pipe₁ hp₁
    exact ⟨pipe₂, hp₂, hsame₂.trans hsame₁⟩
  receiving r pipe t hr hown hw := by
    -- a thread that is blocked at the end was blocked in between
    obtain ⟨pipe₁, hr₁, hsame₁⟩ := h.receiving r pipe t hr hown (h'.woken t hw ▸ hw)
    obtain ⟨pipe₂, hr₂, hsame₂⟩ := h'.receiving r pipe₁ t hr₁ (by rw [hsame₁, hown]) hw
    exact ⟨pipe₂, hr₂, hsame₂.trans hsame₁⟩
  senders r q hq := h'.senders r q (h.senders r q hq)

/-- The pipe at `p` is stored back with the same links and the same sending thread, and with
the same blocked receiver unless that has been woken. -/
theorem update {pipe' : Pipe} {k' : PipeSys} (hp : k.pipes p = some pipe)
    (stored : k'.pipes = update k.pipes p (some pipe'))
    (woken : ∀ t, (k'.threads t).state = .waiting → k'.threads t = k.threads t)
    (links : pipe'.links = pipe.links)
    (sending : pipe'.txData.sendingThread = pipe.txData.sendingThread)
    (receiving : ∀ t, pipe.rxData.blockedInfo.blockedOwner = some t →
      (k'.threads t).state = .waiting → pipe'.rxData.blockedInfo = pipe.rxData.blockedInfo) :
    OnlyWakes k k' := by
  have hself : k'.pipes p = some pipe' := by rw [stored, update_self]
  have hother : ∀ q, q ≠ p → k'.pipes q = k.pipes q :=
    fun q hq => by rw [stored, update_of_ne hq]
  refine ⟨⟨fun q qPipe hq => ?_, fun r rPipe t hr hown hw => ?_, fun r q hmem => ?_⟩, woken⟩
  · by_cases hqp : q = p
    · subst hqp
      cases hp.symm.trans hq
      exact ⟨pipe', hself, sending⟩
    · exact ⟨qPipe, by rw [hother q hqp, hq], rfl⟩
  · by_cases hrp : r = p
    · subst hrp
      cases hp.symm.trans hr
      exact ⟨pipe', hself, receiving t hown hw⟩
    · exact ⟨rPipe, by rw [hother r hrp, hr], rfl⟩
  by_cases hrp : r = p
  · subst hrp
    have hlist : pipe'.rxData.senders = pipe.rxData.senders :=
      congrArg (fun l => l.2.2) links
    simpa [PipeSys.sendersOf, hp, hself, Pipe.senders, hlist] using hmem
  · simpa [PipeSys.sendersOf, hother r hrp] using hmem

theorem map {f : ℕ → Pipe → Pipe} {k' : PipeSys}
    (stored : ∀ q, k'.pipes q = (k.pipes q).map (f q)) (threads : k'.threads = k.threads)
    (receiving : ∀ q pipe, (f q pipe).rxData.blockedInfo = pipe.rxData.blockedInfo)
    (sending : ∀ q pipe, (f q pipe).txData.sendingThread = pipe.txData.sendingThread)
    (senders : ∀ q pipe, pipe.senders ⊆ (f q pipe).senders) : OnlyWakes k k' := by
  refine ⟨⟨fun p pipe hp => ⟨f p pipe, by simp [stored, hp], sending p pipe⟩,
    fun r pipe t hr _ _ => ⟨f r pipe, by simp [stored, hr], receiving r pipe⟩, fun r q hq => ?_⟩,
    fun t _ => by rw [threads]⟩
  cases hr : k.pipes r with
  | none => simp [PipeSys.sendersOf, hr] at hq
  | some pipe =>
    simp only [PipeSys.sendersOf, hr, Option.map_some, Option.getD_some] at hq
    simpa [PipeSys.sendersOf, stored, hr] using senders r pipe hq

end OnlyWakes

theorem pipeReceiveMessage_onlyWakes (h : pipeReceiveMessage k r message = .ok k') :
    OnlyWakes k k' := by
  obtain ⟨pipe, pipe', hr, hwrite, hcases⟩ := pipeReceiveMessage_cases h
  have hlinks := pipeWrite_links hwrite
  obtain ⟨memory, rfl⟩ := pipeWrite_cases hwrite
  rcases hcases with ⟨-, rfl⟩ | ⟨-, b, s, size, bytes, sys, -, -, -, -, rfl, -, hthreads⟩
  · exact .update hr rfl (fun _ _ => rfl) hlinks rfl fun _ _ _ => by simp
  refine .update hr rfl (fun t hw => ?_) (by simpa using hlinks) rfl fun t hown hw => ?_
  · have hw : (sys.threads t).state = .waiting := hw
    change sys.threads t = _
    rw [hthreads] at hw ⊢
    have hall := wakeAll_of_waiting hw
    rw [hall] at hw ⊢
    exact wake_of_waiting hw
  -- the receiver has been woken
  have hw : (sys.threads t).state = .waiting := hw
  rw [hthreads, wakeAll_of_waiting (hthreads ▸ hw)] at hw
  simp only [pipeAdvanceWrite_blockedInfo, hown] at hw
  exact absurd hw wake_self_ne_waiting

theorem pipeDeliverAll_onlyWakes {rs : List ℕ} (h : pipeDeliverAll k message rs = .ok k') :
    OnlyWakes k k' :=
  pipeDeliverAll_invariant h (.refl k) fun _ _ _ _ kept _ hdeliver =>
    kept.trans (pipeReceiveMessage_onlyWakes hdeliver)

theorem onlyWakes_acknowledged {ts : List ℕ} {k' : PipeSys} (hp : k.pipes p = some pipe)
    (stored : k'.pipes = update k.pipes p (some pipe.acknowledged))
    (threads : k'.threads = wakeAll k.threads ts) : OnlyWakes k k' := by
  refine .update hp stored (fun t hw => ?_) Pipe.links_acknowledged rfl fun _ _ _ => ?_
  · rw [threads] at hw ⊢
    exact wakeAll_of_waiting hw
  · simp [Pipe.acknowledged]

theorem onlyWakes_modify {f : Pipe → Pipe}
    (receiving : ∀ pipe, (f pipe).rxData.blockedInfo = pipe.rxData.blockedInfo)
    (sending : ∀ pipe, (f pipe).txData.sendingThread = pipe.txData.sendingThread)
    (senders : ∀ pipe, pipe.senders ⊆ (f pipe).senders) : OnlyWakes k (k.modify p f) := by
  refine .map (f := fun q => if q = p then f else id) (fun q => ?_) rfl (fun q pipe => ?_)
    (fun q pipe => ?_) fun q pipe => ?_
  · by_cases hq : q = p
    · subst hq
      simp [PipeSys.modify]
    · simp [PipeSys.modify, hq]
  all_goals split
  · exact receiving pipe
  · rfl
  · exact sending pipe
  · rfl
  · exact senders pipe
  · exact List.Subset.refl _

theorem onlyWakes_addReader : OnlyWakes k (k.modify p (·.addReader r)) :=
  onlyWakes_modify (fun _ => rfl) (fun _ => rfl) fun _ => List.Subset.refl _

theorem onlyWakes_addSender : OnlyWakes k (k.modify p (·.addSender r)) := by
  refine onlyWakes_modify (fun _ => rfl) (fun _ => rfl) fun pipe q hq => ?_
  cases hs : pipe.rxData.senders with
  | none => simp [Pipe.senders, hs] at hq
  | some senders =>
    simp only [Pipe.senders, hs, Option.getD_some] at hq
    simp [Pipe.senders, Pipe.addSender, hs, hq]

theorem onlyWakes_link {direction : PipeDirection} {no other : ℕ} :
    OnlyWakes k (pipeLink k direction no other) := by
  cases direction with
  | unknown => exact .refl k
  | send => exact onlyWakes_addSender.trans onlyWakes_addReader
  | receive => exact onlyWakes_addReader.trans onlyWakes_addSender
  | sendReceive =>
    exact ((onlyWakes_addReader.trans onlyWakes_addSender).trans onlyWakes_addReader).trans
      onlyWakes_addSender

theorem NetOk.onlyWakes_addPipe (ok : NetOk k) (new : FreshPipe pipe) :
    OnlyWakes k (k.addPipe pipe) := by
  have hother : ∀ q qPipe, k.pipes q = some qPipe → (k.addPipe pipe).pipes q = some qPipe := by
    intro q qPipe hq
    simpa [PipeSys.addPipe, (ok.lt_of_live hq).ne] using hq
  refine ⟨⟨fun q qPipe hq => ⟨qPipe, hother q qPipe hq, rfl⟩,
    fun r rPipe t hr _ _ => ⟨rPipe, hother r rPipe hr, rfl⟩, fun r q hq => ?_⟩, fun _ _ => rfl⟩
  rwa [addPipe_sendersOf (ok.fresh _ le_rfl) new.senders]

theorem NetOk.create_onlyWakes {name : Name} {direction : PipeDirection}
    {messageSize messages : ℕ} {memory : Option ℕ} {room : Bool} (ok : NetOk k)
    (h : objCreatePipe k name direction messageSize messages memory room = .ok (result, k')) :
    OnlyWakes k k' := by
  rcases objCreatePipe_cases h with rfl | ⟨pipe, sys, reg, hsetup, hadd, rfl⟩
  · exact .refl _
  refine (ok.onlyWakes_addPipe (freshPipe_of_createSetup hsetup)).trans
    ⟨.of_pipes rfl, fun t hw => ?_⟩
  have hw : (sys.threads t).state = .waiting := hw
  change sys.threads t = k.threads t
  rcases regsiteryAdd_cases hadd with ⟨-, -, rfl, -⟩ | ⟨-, -, hthreads, -⟩
  · rfl
  rw [hthreads] at hw ⊢
  exact wakeAll_of_waiting hw

/-! ## The record -/

inductive PipeWait
  /-- A receive on the pipe `r`; where the message and its size go. -/
  | receiving (r : ℕ) (buffer sizeOut : ℕ)
  /-- A send on the pipe `p`, which found the readers `full` unable to receive. -/
  | sending (p : ℕ) (full : List ℕ)
  deriving DecidableEq

structure PipeWaits where
  sys : PipeSys
  /-- Why a thread is blocked, if it is blocked in a call on a pipe. -/
  why : ℕ → Option PipeWait

open PipeWaits

/-- The caller of a receive or a send, and what it is blocked on if the call blocks it. -/
def PipeCall.wait (k : PipeSys) : PipeCall → Option (ℕ × PipeWait)
  | .sendMessage (some p) thread _ _ _ =>
    some (thread, .sending p (k.refused (k.readersOf p)))
  | .receiveMessage (some r) thread (some b) (some s) _ _ => some (thread, .receiving r b s)
  | _ => none

def PipeCall.caller : PipeCall → Option ℕ
  | .openPipe thread _ _ _ _ _ _ => some thread
  | .sendMessage _ thread _ _ _ => some thread
  | .receiveMessage _ thread _ _ _ _ => some thread
  | _ => none

/-- The threads as the rest of the kernel leaves them. -/
def PipeCall.outside : PipeCall → Option ThreadSys
  | .elsewhere sys => some sys
  | _ => none

namespace PipeWaits

/-- The pipes after a call that has left `k`, with the record of who is blocked. -/
def after (w : PipeWaits) (c : PipeCall) (k : PipeSys) : PipeWaits :=
  ⟨k, whyAfter w.why (c.wait w.sys) k.threads⟩

def step (w : PipeWaits) (c : PipeCall) : Exec PipeWaits := do
  let (_, k) ← c.apply w.sys
  return w.after c k

/-- The calls that can be made: the caller runs, and the rest of the kernel does not turn a
thread that stays blocked to another object. -/
def Admitted (w : PipeWaits) (c : PipeCall) : Prop :=
  (∀ t ∈ c.caller, (w.sys.threads t).state.Runnable) ∧
    ∀ sys ∈ c.outside, ∀ t, w.why t ≠ none → (sys.threads t).state = .waiting →
      (sys.threads t).waitingOn = (w.sys.threads t).waitingOn

def receivingOn (w : PipeWaits) (r t : ℕ) : Bool :=
  match w.why t with
  | some (.receiving r' _ _) => r' = r
  | _ => false

def sendingOn (w : PipeWaits) (p t : ℕ) : Bool :=
  match w.why t with
  | some (.sending p' _) => p' = p
  | _ => false

/-- The thread is blocked sending on the pipe `p` because of the reader `r`. -/
def sendingTo (w : PipeWaits) (p r t : ℕ) : Bool :=
  match w.why t with
  | some (.sending p' full) => p' = p ∧ r ∈ full
  | _ => false

/-- The calls that keep every blocked thread known. A receive that blocks finds no other
thread recorded as blocked receiving on the pipe; a send that blocks finds no other thread
recorded as blocked sending on the pipe, and a list of senders in each reader that can not
receive; a pipe that is deleted has nobody blocked on it. -/
def WaitOk (w : PipeWaits) : PipeCall → Prop
  | .receiveMessage (some r) _ (some _) (some _) _ true =>
    ∀ pipe ∈ w.sys.pipes r, pipeIsReceiver pipe →
      pipe.rxData.totalMessages ≤ pipe.rxData.freeMessages →
      ∀ t ∈ pipe.rxData.blockedInfo.blockedOwner, w.receivingOn r t = false
  | .sendMessage (some p) _ .sendAll _ true =>
    ∀ pipe ∈ w.sys.pipes p, pipeIsSender pipe → w.sys.refused pipe.readers ≠ [] →
      (∀ t ∈ pipe.txData.sendingThread, w.sendingOn p t = false) ∧
        ∀ r ∈ w.sys.refused pipe.readers, w.sys.hasSenders r
  | .deletePipe (some p) =>
    ∀ pipe ∈ w.sys.pipes p,
      (∀ t ∈ pipe.rxData.blockedInfo.blockedOwner, w.receivingOn p t = false) ∧
      (∀ t ∈ pipe.txData.sendingThread, w.sendingOn p t = false) ∧
      ∀ q ∈ pipe.senders, ∀ sender ∈ w.sys.pipes q, ∀ t ∈ sender.txData.sendingThread,
        w.sendingTo q p t = false
  | _ => True

def Blocked (w : PipeWaits) : Prop := ∀ t, w.why t ≠ none → (w.sys.threads t).state = .waiting

end PipeWaits

/-- The kernel knows that the thread is blocked. A receiver is the blocked owner of its pipe,
with its own buffers; a sender is the sending thread of its pipe, and the pipe is listed as a
sender by each reader that could not receive. -/
def Known (k : PipeSys) (t : ℕ) : PipeWait → Prop
  | .receiving r b s => (k.threads t).waitingOn = some (.pipe r) ∧
      ∃ pipe, k.pipes r = some pipe ∧ pipe.rxData.blockedInfo = ⟨some t, some b, some s⟩
  | .sending p full => (∃ pipe, k.pipes p = some pipe ∧ pipe.txData.sendingThread = some t) ∧
      ∀ r ∈ full, p ∈ k.sendersOf r

def Remembered (w : PipeWaits) : Prop := ∀ t x, w.why t = some x → Known w.sys t x

/-! ## What a call does to the record -/

section Record

variable {w : PipeWaits} {c : PipeCall} {x : PipeWait}

theorem PipeCall.caller_of_wait (h : c.wait k = some (t, x)) : c.caller = some t := by
  unfold PipeCall.wait at h
  split at h
  · exact congrArg some (Prod.mk.inj (Option.some.inj h)).1
  · exact congrArg some (Prod.mk.inj (Option.some.inj h)).1
  · cases h

theorem PipeWaits.blocked_after : (w.after c k).Blocked := by
  intro t hwhy
  obtain ⟨x, hx⟩ := Option.ne_none_iff_exists'.mp hwhy
  exact (whyAfter_eq_some hx).1

theorem PipeWaits.Blocked.why_of_runnable (blocked : w.Blocked)
    (runs : (w.sys.threads t).state.Runnable) : w.why t = none := by
  by_contra hwhy
  exact runs.ne_waiting (blocked t hwhy)

theorem PipeWaits.Blocked.after_block {on : Option ObjRef} (blocked : w.Blocked)
    (threads : k.threads = block w.sys.threads thread on)
    (runs : (w.sys.threads thread).state.Runnable) (wait : c.wait w.sys = some (thread, x)) :
    (w.after c k).why = update w.why thread (some x) := by
  funext t
  change whyAfter w.why (c.wait w.sys) k.threads t = _
  rw [wait]
  by_cases ht : t = thread
  · subst ht
    rw [update_self]
    exact whyAfter_caller (by rw [threads, block_self runs.canBlock])
  rw [update_of_ne ht]
  have hsame : k.threads t = w.sys.threads t := by rw [threads, block_of_ne ht]
  by_cases hw : (k.threads t).state = .waiting
  · exact whyAfter_of_waiting hw fun y e => ht (Prod.mk.inj (Option.some.inj e)).1.symm
  rw [whyAfter_of_not_waiting hw]
  by_contra hwhy
  exact hw (hsame ▸ blocked t (Ne.symm hwhy))

theorem Known.keep (known : Known k t x) (kept : KeepsWaiters k k')
    (waiting : (k'.threads t).state = .waiting)
    (on : (k'.threads t).waitingOn = (k.threads t).waitingOn) : Known k' t x := by
  cases x with
  | receiving r b s =>
    obtain ⟨hpipe, pipe, hr, hinfo⟩ := known
    obtain ⟨pipe', hr', hsame⟩ := kept.receiving r pipe t hr (by rw [hinfo]) waiting
    exact ⟨on.trans hpipe, pipe', hr', hsame.trans hinfo⟩
  | sending p full =>
    obtain ⟨⟨pipe, hp, hthread⟩, hfull⟩ := known
    obtain ⟨pipe', hp', hsame⟩ := kept.sending p pipe hp
    exact ⟨⟨pipe', hp', hsame.trans hthread⟩, fun r hr => kept.senders r p (hfull r hr)⟩

/-- A call that does not block its caller on a pipe, and leaves the threads that stay blocked
on their objects, keeps the blocked ones known. -/
theorem Remembered.after (rem : Remembered w)
    (quiet : ∀ t x, c.wait w.sys = some (t, x) → (k.threads t).state ≠ .waiting)
    (kept : KeepsWaiters w.sys k)
    (on : ∀ t, w.why t ≠ none → (k.threads t).state = .waiting →
      (k.threads t).waitingOn = (w.sys.threads t).waitingOn) :
    Remembered (w.after c k) := by
  intro t x hwhy
  obtain ⟨hwaiting, hnew | hold⟩ := whyAfter_eq_some hwhy
  · exact absurd hwaiting (quiet t x hnew)
  · exact (rem t x hold).keep kept hwaiting (on t (by simp [hold]) hwaiting)

theorem Remembered.onlyWakes (rem : Remembered w) (admitted : w.Admitted c)
    (kept : OnlyWakes w.sys k) : Remembered (w.after c k) := by
  refine rem.after (fun t x hwait hwaiting => ?_) kept.toKeepsWaiters fun t _ hwaiting => by
    rw [kept.woken t hwaiting]
  -- the caller still runs
  have runs := admitted.1 t (PipeCall.caller_of_wait hwait)
  rw [← kept.woken t hwaiting] at runs
  exact runs.ne_waiting hwaiting

theorem PipeWaits.Blocked.remembered_block {on : Option ObjRef} (blocked : w.Blocked)
    (runs : (w.sys.threads thread).state.Runnable)
    (threads : k.threads = block w.sys.threads thread on) (wait : c.wait w.sys = some (thread, x)) :
    Remembered (w.after c k) ↔
      Known k thread x ∧ ∀ t y, w.why t = some y → Known k t y := by
  have hafter := blocked.after_block threads runs wait
  have hrunning := blocked.why_of_runnable runs
  constructor
  · intro rem
    refine ⟨rem thread x (by rw [hafter, update_self]), fun t y hwhy => rem t y ?_⟩
    have hne : t ≠ thread := by
      rintro rfl
      rw [hrunning] at hwhy
      cases hwhy
    rw [hafter, update_of_ne hne, hwhy]
  rintro ⟨hnew, hold⟩ t y hwhy
  rw [hafter] at hwhy
  by_cases ht : t = thread
  · subst ht
    rw [update_self] at hwhy
    cases hwhy
    exact hnew
  · exact hold t y (by rwa [update_of_ne ht] at hwhy)

theorem PipeWaits.receivingOn_iff : w.receivingOn r t = true ↔
    ∃ b s, w.why t = some (.receiving r b s) := by
  unfold receivingOn
  split
  next r' b s hwhy => simp [hwhy]
  next hno =>
    refine iff_of_false (by simp) ?_
    rintro ⟨b, s, hwhy⟩
    exact hno r b s hwhy

theorem PipeWaits.sendingOn_iff : w.sendingOn p t = true ↔
    ∃ full, w.why t = some (.sending p full) := by
  unfold sendingOn
  split
  next p' full hwhy => simp [hwhy]
  next hno =>
    refine iff_of_false (by simp) ?_
    rintro ⟨full, hwhy⟩
    exact hno p full hwhy

theorem PipeWaits.sendingTo_iff : w.sendingTo p r t = true ↔
    ∃ full, w.why t = some (.sending p full) ∧ r ∈ full := by
  unfold sendingTo
  split
  next p' full hwhy =>
    rw [decide_eq_true_iff]
    constructor
    · rintro ⟨rfl, hr⟩
      exact ⟨full, hwhy, hr⟩
    rintro ⟨full', hwhy', hr⟩
    rw [hwhy] at hwhy'
    cases hwhy'
    exact ⟨rfl, hr⟩
  next hno =>
    refine iff_of_false (by simp) ?_
    rintro ⟨full, hwhy, -⟩
    exact hno p full hwhy

theorem PipeWaits.Blocked.block_of_why (on : Option ObjRef) (blocked : w.Blocked)
    (runs : (w.sys.threads thread).state.Runnable) (hwhy : w.why t = some x) :
    block w.sys.threads thread on t = w.sys.threads t := by
  refine block_of_ne ?_
  rintro rfl
  rw [blocked.why_of_runnable runs] at hwhy
  cases hwhy

theorem Remembered.receive_iff {b s maxSize : ℕ} (rem : Remembered w) (blocked : w.Blocked)
    (runs : (w.sys.threads thread).state.Runnable) (hp : w.sys.pipes p = some pipe)
    (receiver : pipeIsReceiver pipe = true)
    (empty : pipe.rxData.totalMessages ≤ pipe.rxData.freeMessages)
    (stored : k.pipes = update w.sys.pipes p (some (pipe.setBlocked ⟨some thread, some b, some s⟩)))
    (threads : k.threads = block w.sys.threads thread (some (.pipe p))) :
    Remembered (w.after (.receiveMessage (some p) thread (some b) (some s) maxSize true) k) ↔
      w.WaitOk (.receiveMessage (some p) thread (some b) (some s) maxSize true) := by
  have hself : k.pipes p = some (pipe.setBlocked ⟨some thread, some b, some s⟩) := by
    rw [stored, update_self]
  have hother : ∀ q, q ≠ p → k.pipes q = w.sys.pipes q :=
    fun q hq => by rw [stored, update_of_ne hq]
  have hnew : Known k thread (.receiving p b s) :=
    ⟨by rw [threads, block_self runs.canBlock], _, hself, rfl⟩
  have hcall : PipeCall.wait w.sys (.receiveMessage (some p) thread (some b) (some s) maxSize
    true) = some (thread, .receiving p b s) := rfl
  rw [blocked.remembered_block runs threads hcall, and_iff_right hnew]
  constructor
  · -- a thread that was recorded would still be blocked, but recorded no more
    intro known pipe' hpipe' _ _ t hown
    rw [Bool.eq_false_iff]
    intro hon
    obtain ⟨b', s', ht⟩ := receivingOn_iff.mp hon
    obtain ⟨-, pipe₁, hpipe₁, hinfo⟩ := known t _ ht
    cases hself.symm.trans hpipe₁
    obtain rfl := Option.some.inj (congrArg RxBlocked.blockedOwner hinfo)
    rw [blocked.why_of_runnable runs] at ht
    cases ht
  intro ok t y hwhy
  have hthread := blocked.block_of_why (some (.pipe p)) runs hwhy
  cases y with
  | receiving r b' s' =>
    obtain ⟨hon, pipe₁, hpipe₁, hinfo⟩ := rem t _ hwhy
    have hrp : r ≠ p := by
      rintro rfl
      cases hp.symm.trans hpipe₁
      have hoff := ok pipe hp receiver empty t (by simp [hinfo])
      rw [receivingOn_iff.mpr ⟨b', s', hwhy⟩] at hoff
      cases hoff
    exact ⟨by rw [threads, hthread, hon], pipe₁, by rw [hother r hrp, hpipe₁], hinfo⟩
  | sending q full =>
    obtain ⟨⟨pipe₁, hpipe₁, hsender⟩, hfull⟩ := rem t _ hwhy
    refine ⟨?_, fun r hr => ?_⟩
    · by_cases hq : q = p
      · subst hq
        cases hp.symm.trans hpipe₁
        exact ⟨_, hself, hsender⟩
      · exact ⟨pipe₁, by rw [hother q hq, hpipe₁], hsender⟩
    have hlist := hfull r hr
    by_cases hrp : r = p
    · subst hrp
      simpa [PipeSys.sendersOf, hself, hp, Pipe.senders, Pipe.setBlocked] using hlist
    · simpa [PipeSys.sendersOf, hother r hrp] using hlist

theorem blockedSend_pipes (rs : List ℕ) (thread : ℕ) (sys : ThreadSys) (q : ℕ) :
    (((k.noteSender p rs).modify p (·.setSendingThread (some thread))).withThreads sys).pipes q =
      (k.pipes q).map fun pipe =>
        if q = p then (pipe.addSenders p (rs.count q)).setSendingThread (some thread)
        else pipe.addSenders p (rs.count q) := by
  by_cases hq : q = p
  · subst hq
    cases hk : k.pipes q <;> simp [PipeSys.modify, PipeSys.noteSender, hk]
  · simp [PipeSys.modify, PipeSys.noteSender, hq]

/-- The thread that blocks in a send takes the place of the one that is recorded, and is known
to the readers that have a list of senders. -/
theorem Remembered.send_iff {sys : ThreadSys} (rem : Remembered w) (blocked : w.Blocked)
    (runs : (w.sys.threads thread).state.Runnable) (hp : w.sys.pipes p = some pipe)
    (sender : pipeIsSender pipe = true) (refused : w.sys.refused pipe.readers ≠ [])
    (hk : k = ((w.sys.noteSender p (w.sys.refused pipe.readers)).modify p
      (·.setSendingThread (some thread))).withThreads sys)
    (threads : sys.threads = block w.sys.threads thread (some (.pipe p))) :
    Remembered (w.after (.sendMessage (some p) thread .sendAll message true) k) ↔
      w.WaitOk (.sendMessage (some p) thread .sendAll message true) := by
  have hmem : ∀ q r, q ∈ k.sendersOf r ↔ q ∈ w.sys.sendersOf r ∨
      (q = p ∧ r ∈ w.sys.refused pipe.readers ∧ w.sys.hasSenders r = true) := by
    intro q r
    rw [hk, (sameLinks_blockedSend thread sys hp).sendersOf, mem_sendersOf_noteSender]
  have hstored : ∀ q, k.pipes q = (w.sys.pipes q).map fun pipe' =>
      if q = p then (pipe'.addSenders p ((w.sys.refused pipe.readers).count q)).setSendingThread
        (some thread)
      else pipe'.addSenders p ((w.sys.refused pipe.readers).count q) :=
    fun q => hk ▸ blockedSend_pipes (w.sys.refused pipe.readers) thread sys q
  have hself := hstored p
  rw [hp, Option.map_some, if_pos rfl] at hself
  have hthreads : k.threads = block w.sys.threads thread (some (.pipe p)) := hk ▸ threads
  have hcall : PipeCall.wait w.sys (.sendMessage (some p) thread .sendAll message true) =
      some (thread, .sending p (w.sys.refused pipe.readers)) := by
    have hreaders : w.sys.readersOf p = pipe.readers := by simp [PipeSys.readersOf, hp]
    rw [← hreaders]
    rfl
  rw [blocked.remembered_block runs hthreads hcall]
  constructor
  · rintro ⟨⟨-, hfull⟩, known⟩ pipe' hpipe' - -
    cases hp.symm.trans hpipe'
    refine ⟨fun t hown => ?_, fun r hr => ?_⟩
    · rw [Bool.eq_false_iff]
      intro hon
      obtain ⟨full, ht⟩ := sendingOn_iff.mp hon
      obtain ⟨⟨pipe₁, hpipe₁, hthread⟩, -⟩ := known t _ ht
      cases hself.symm.trans hpipe₁
      cases hthread
      rw [blocked.why_of_runnable runs] at ht
      cases ht
    rcases (hmem p r).mp (hfull r hr) with hold | ⟨-, -, hlist⟩
    · exact hasSenders_of_mem hold
    · exact hlist
  intro ok
  obtain ⟨hfree, hlists⟩ := ok pipe hp sender refused
  refine ⟨⟨⟨_, hself, rfl⟩, fun r hr => (hmem p r).mpr (.inr ⟨rfl, hr, hlists r hr⟩)⟩, ?_⟩
  intro t y hwhy
  cases y with
  | receiving r b s =>
    obtain ⟨hon, pipe₁, hpipe₁, hinfo⟩ := rem t _ hwhy
    refine ⟨by rw [hthreads, blocked.block_of_why _ runs hwhy, hon], ?_⟩
    have hr := hstored r
    rw [hpipe₁, Option.map_some] at hr
    refine ⟨_, hr, ?_⟩
    split <;> exact hinfo
  | sending q full =>
    obtain ⟨⟨pipe₁, hpipe₁, hthread⟩, hfull⟩ := rem t _ hwhy
    have hqp : q ≠ p := by
      rintro rfl
      cases hp.symm.trans hpipe₁
      have hoff := hfree t hthread
      rw [sendingOn_iff.mpr ⟨full, hwhy⟩] at hoff
      cases hoff
    have hq := hstored q
    rw [hpipe₁, Option.map_some, if_neg hqp] at hq
    exact ⟨⟨_, hq, hthread⟩, fun r hr => (hmem q r).mpr (.inl (hfull r hr))⟩

theorem Remembered.delete_iff (rem : Remembered w) (blocked : w.Blocked)
    (hp : w.sys.pipes p = some pipe) (stored : k.pipes = update w.sys.pipes p none)
    (threads : k.threads = w.sys.threads) :
    Remembered (w.after (.deletePipe (some p)) k) ↔ w.WaitOk (.deletePipe (some p)) := by
  have hdead : k.pipes p = none := by rw [stored, update_self]
  have hother : ∀ q, q ≠ p → k.pipes q = w.sys.pipes q :=
    fun q hq => by rw [stored, update_of_ne hq]
  -- nothing changes in the record
  have hwhy : w.after (.deletePipe (some p)) k = ⟨k, w.why⟩ := by
    refine congrArg (mk k) (funext fun t => ?_)
    by_cases hw : (k.threads t).state = .waiting
    · exact whyAfter_of_waiting hw fun _ h => by cases h
    rw [whyAfter_of_not_waiting hw]
    by_contra hne
    exact hw (threads ▸ blocked t (Ne.symm hne))
  rw [hwhy]
  constructor
  · intro known pipe' hpipe'
    refine ⟨fun t _ => ?_, fun t _ => ?_, fun q _ sender _ t _ => ?_⟩ <;> rw [Bool.eq_false_iff]
    · intro hon
      obtain ⟨b, s, ht⟩ := receivingOn_iff.mp hon
      obtain ⟨-, pipe₁, hpipe₁, -⟩ := known t _ ht
      exact absurd (hdead.symm.trans hpipe₁) (by simp)
    · intro hon
      obtain ⟨full, ht⟩ := sendingOn_iff.mp hon
      obtain ⟨⟨pipe₁, hpipe₁, -⟩, -⟩ := known t _ ht
      exact absurd (hdead.symm.trans hpipe₁) (by simp)
    intro hon
    obtain ⟨full, ht, hfull⟩ := sendingTo_iff.mp hon
    have hlist := (known t _ ht).2 p hfull
    have hnone : k.sendersOf p = [] := by simp [PipeSys.sendersOf, hdead]
    rw [hnone] at hlist
    cases hlist
  intro ok t y (ht : w.why t = some y)
  obtain ⟨hreceiving, hsending, hfull⟩ := ok pipe hp
  cases y with
  | receiving r b s =>
    obtain ⟨hon, pipe₁, hpipe₁, hinfo⟩ := rem t _ ht
    have hrp : r ≠ p := by
      rintro rfl
      cases hp.symm.trans hpipe₁
      have hoff := hreceiving t (by simp [hinfo])
      rw [receivingOn_iff.mpr ⟨b, s, ht⟩] at hoff
      cases hoff
    exact ⟨by rw [threads, hon], pipe₁, by rw [hother r hrp, hpipe₁], hinfo⟩
  | sending q full =>
    obtain ⟨⟨pipe₁, hpipe₁, hthread⟩, hlists⟩ := rem t _ ht
    have hqp : q ≠ p := by
      rintro rfl
      cases hp.symm.trans hpipe₁
      have hoff := hsending t hthread
      rw [sendingOn_iff.mpr ⟨full, ht⟩] at hoff
      cases hoff
    refine ⟨⟨pipe₁, by rw [hother q hqp, hpipe₁], hthread⟩, fun r hr => ?_⟩
    have hrp : r ≠ p := by
      rintro rfl
      have hmem : q ∈ pipe.senders := by simpa [PipeSys.sendersOf, hp] using hlists r hr
      have hoff := hfull q hmem pipe₁ hpipe₁ t hthread
      rw [sendingTo_iff.mpr ⟨full, ht, hr⟩] at hoff
      cases hoff
    simpa [PipeSys.sendersOf, hother r hrp] using hlists r hr

/-! ## Every call -/

section

variable (rem : Remembered w) (blocked : w.Blocked)
include rem blocked

theorem Remembered.receive {pipeArg buffer sizeOut : Option ℕ} {maxSize : ℕ} {blocking : Bool}
    (admitted : w.Admitted (.receiveMessage pipeArg thread buffer sizeOut maxSize blocking))
    (h : objPipeReceiveMessage w.sys pipeArg thread buffer sizeOut maxSize blocking =
      .ok (result, k)) :
    Remembered (w.after (.receiveMessage pipeArg thread buffer sizeOut maxSize blocking) k) ↔
      w.WaitOk (.receiveMessage pipeArg thread buffer sizeOut maxSize blocking) := by
  have runs := admitted.1 thread rfl
  rcases objPipeReceiveMessage_cases h with ⟨hresult, hsame⟩ |
    ⟨p, b, s, pipe, rfl, rfl, rfl, hp, receiver, hcases⟩
  · refine iff_of_true (rem.onlyWakes admitted (hsame ▸ .refl _)) ?_
    -- a call that would have blocked is not refused
    unfold WaitOk
    split
    next hcall =>
      cases hcall
      intro pipe hp receiver empty
      exact absurd (objPipeReceiveMessage_blocks hp receiver empty h) hresult
    next hcall => cases hcall
    next hcall => cases hcall
    · trivial
  rcases hcases with ⟨hfull, size, -, htake⟩ | ⟨hempty, rfl, -, sys, rfl, -, hthreads⟩
  · refine iff_of_true (rem.onlyWakes admitted ?_) ?_
    · rcases htake with ⟨-, -, rfl⟩ | ⟨-, -, bytes, sys, -, rfl, -, hthreads⟩
      · exact ⟨.of_pipes rfl, fun _ _ => rfl⟩
      · exact onlyWakes_acknowledged hp rfl hthreads
    cases blocking with
    | false => trivial
    | true =>
      intro pipe' hpipe' _ hempty
      cases hp.symm.trans hpipe'
      exact absurd hfull (Nat.not_lt.mpr hempty)
  · exact rem.receive_iff blocked runs hp receiver hempty rfl hthreads

theorem Remembered.send {pipeArg : Option ℕ} {sendKind : PipeSendKind} {blocking : Bool}
    (admitted : w.Admitted (.sendMessage pipeArg thread sendKind message blocking))
    (h : objPipeSendMessage w.sys pipeArg thread sendKind message blocking = .ok (result, k)) :
    Remembered (w.after (.sendMessage pipeArg thread sendKind message blocking) k) ↔
      w.WaitOk (.sendMessage pipeArg thread sendKind message blocking) := by
  have runs := admitted.1 thread rfl
  rcases objPipeSendMessage_cases h with
    ⟨rfl, ⟨-, rfl⟩ | ⟨-, p, pipe, rfl, hp, hdir⟩⟩ | ⟨p, pipe, rfl, hp, sender, hcases⟩
  · exact iff_of_true (rem.onlyWakes admitted (.refl _)) trivial
  · refine iff_of_true (rem.onlyWakes admitted (.refl _)) ?_
    cases sendKind <;> cases blocking <;> try trivial
    intro pipe' hpipe' hsender
    cases hp.symm.trans hpipe'
    rw [hdir] at hsender
    cases hsender
  rcases hcases with ⟨rfl, hrefused, ⟨rfl, -, rfl⟩ | ⟨rfl, -, sys, hk, -, hthreads⟩⟩ |
    ⟨-, hall, hdeliver⟩
  · exact iff_of_true (rem.onlyWakes admitted (.refl _)) trivial
  · exact rem.send_iff blocked runs hp sender hrefused hk hthreads
  refine iff_of_true (rem.onlyWakes admitted (pipeDeliverAll_onlyWakes hdeliver)) ?_
  cases sendKind <;> cases blocking <;> try trivial
  intro pipe' hpipe' _ hrefused
  cases hp.symm.trans hpipe'
  exact absurd (refused_eq_nil_iff.mpr (hall rfl)) hrefused

theorem Remembered.openPipe {name : Name} {direction : PipeDirection} {messageSize messages : ℕ}
    {memory : Option ℕ} {room : Bool} (ok : NetOk w.sys)
    (admitted : w.Admitted (.openPipe thread name direction messageSize messages memory room))
    (h : objOpenPipe w.sys thread name direction messageSize messages memory room =
      .ok (result, k)) :
    Remembered (w.after (.openPipe thread name direction messageSize messages memory room) k) := by
  rcases objOpenPipe_cases h with ⟨rfl, -, -⟩ |
    ⟨other, otherPipe, pipe, -, -, -, hsetup, -, rfl⟩ | ⟨-, -, sys, reg, hwait, rfl⟩
  · exact rem.onlyWakes admitted (.refl _)
  · have fresh := (freshPipe_of_openSetup hsetup).1
    exact rem.onlyWakes admitted ((ok.onlyWakes_addPipe fresh).trans onlyWakes_link)
  -- the caller waits for the name, not for a pipe
  have runs := admitted.1 thread rfl
  obtain ⟨hthreads, -, -⟩ := registryWaitFor_cases hwait
  refine rem.after (fun _ _ hwait => by cases hwait) (.of_pipes rfl) fun t hwhy _ => ?_
  obtain ⟨x, hx⟩ := Option.ne_none_iff_exists'.mp hwhy
  change (sys.threads t).waitingOn = _
  rw [hthreads, blocked.block_of_why _ runs hx]

/-- Every call keeps the blocked threads known exactly if it meets `WaitOk`. -/
theorem Remembered.step_iff (ok : NetOk w.sys) (admitted : w.Admitted c)
    (h : c.apply w.sys = .ok (result, k)) : Remembered (w.after c k) ↔ w.WaitOk c := by
  cases c with
  | createPipe name direction messageSize messages memory room =>
    exact iff_of_true (rem.onlyWakes admitted (ok.create_onlyWakes h)) trivial
  | openPipe thread name direction messageSize messages memory room =>
    exact iff_of_true (rem.openPipe blocked ok admitted h) trivial
  | sendMessage pipe thread sendKind message block => exact rem.send blocked admitted h
  | receiveMessage pipe thread message messageSize maxSize block =>
    exact rem.receive blocked admitted h
  | deletePipe pipe =>
    cases pipe with
    | none =>
      cases h
      exact iff_of_true (rem.onlyWakes admitted (.refl _)) trivial
    | some p =>
      obtain ⟨pipe, hload, h⟩ := of_bind h
      obtain ⟨_, -, h⟩ := of_bind h
      cases h
      exact rem.delete_iff blocked (load_eq_ok hload) rfl rfl
  | elsewhere sys =>
    cases h
    exact iff_of_true (rem.after (fun _ _ hwait => by cases hwait) (.of_pipes rfl)
      (admitted.2 sys rfl)) trivial

end

end Record

/-! ## What being known means -/

/-- The next delivery makes a receiver that is known ready, and hands a message to it. -/
theorem Known.delivered {b s : ℕ} (known : Known k t (.receiving r b s))
    (waiting : (k.threads t).state = .waiting) (h : pipeReceiveMessage k r message = .ok k') :
    (k'.threads t).state = .ready ∧ ∃ size bytes,
      k'.trace = k.trace ++ [.delivered r message, .handedOut r b s size bytes] := by
  obtain ⟨hon, pipe, hr, hinfo⟩ := known
  obtain ⟨pipe₁, pipe', hr₁, hwrite, hcases⟩ := pipeReceiveMessage_cases h
  cases hr.symm.trans hr₁
  obtain ⟨memory, rfl⟩ := pipeWrite_cases hwrite
  simp only [pipeAdvanceWrite_blockedInfo, hinfo] at hcases
  rcases hcases with ⟨hoff, -⟩ | ⟨-, b', s', size, bytes, sys, hb, hs, -, -, rfl, -, hthreads⟩
  · simp [objThreadIsWaitingOn, hon] at hoff
  cases hb
  cases hs
  refine ⟨?_, size, bytes, by simp⟩
  have hready : (wake k.threads (some t) t).state = .ready := by
    rw [wake_self_of_waiting waiting]
  change (sys.threads t).state = .ready
  rw [hthreads, wakeAll_of_runnable (.inl hready), hready]

/-- The next slot that is freed in a full reader makes a sender that is known ready. -/
theorem Known.freed {full : List ℕ} (known : Known k t (.sending p full))
    (waiting : (k.threads t).state = .waiting) (hr : r ∈ full)
    (h : objPipeReceivedMessage k r = .ok k') : (k'.threads t).state = .ready := by
  obtain ⟨⟨pipe, hp, hthread⟩, hfull⟩ := known
  obtain ⟨reader, sys, hreader, rfl, -, hthreads⟩ := objPipeReceivedMessage_cases h
  have hsender : p ∈ reader.senders := by simpa [PipeSys.sendersOf, hreader] using hfull r hr
  have hmem : t ∈ k.sendingThreads reader.senders :=
    List.mem_filterMap.mpr ⟨p, hsender, by simp [hp, hthread]⟩
  change (sys.threads t).state = .ready
  rw [hthreads]
  exact wakeAll_ready waiting hmem

/-! ## Runs -/

/-- The blocked threads are known, with what the proof needs besides. -/
structure PipeWaits.Watched (w : PipeWaits) : Prop where
  remembered : Remembered w
  blocked : w.Blocked
  net : NetOk w.sys

theorem PipeWaits.Watched.step {w w' : PipeWaits} {c : PipeCall} (watched : w.Watched)
    (guard : w.Admitted c ∧ w.WaitOk c) (h : w.step c = .ok w') : w'.Watched := by
  obtain ⟨⟨result, k⟩, happly, h⟩ := of_bind h
  cases h
  exact ⟨(watched.remembered.step_iff watched.blocked watched.net guard.1 happly).mpr guard.2,
    blocked_after, watched.net.step happly⟩

structure PipeWaits.Fresh (w : PipeWaits) : Prop where
  pipes : ∀ p, w.sys.pipes p = none
  why : ∀ t, w.why t = none

/-- In every run whose calls meet `WaitOk` the kernel knows every thread that is blocked on a
pipe: the next delivery makes a blocked receiver ready and hands it a message, and the next
slot that is freed in a full reader makes a blocked sender ready. In each state of such a
run a further call keeps that exactly if it meets `WaitOk`. -/
theorem remembered_of_run {w w' : PipeWaits} {calls : List PipeCall} (start : w.Fresh)
    (run : Run PipeWaits.step (fun w c => w.Admitted c ∧ w.WaitOk c) w calls w') :
    Remembered w' ∧
      (∀ t r b s, w'.why t = some (.receiving r b s) → ∀ message k,
        pipeReceiveMessage w'.sys r message = .ok k → (k.threads t).state = .ready ∧
          ∃ size bytes, k.trace =
            w'.sys.trace ++ [.delivered r message, .handedOut r b s size bytes]) ∧
      (∀ t p full, w'.why t = some (.sending p full) → ∀ r ∈ full, ∀ k,
        objPipeReceivedMessage w'.sys r = .ok k → (k.threads t).state = .ready) ∧
      ∀ c w'', w'.Admitted c → w'.step c = .ok w'' → (Remembered w'' ↔ w'.WaitOk c) := by
  have watched : w'.Watched := by
    refine run.invariant ⟨fun t x hwhy => ?_, fun t hwhy => absurd (start.why t) hwhy,
      netOk_of_none start.pipes⟩ fun _ _ _ watched guard h => watched.step guard h
    rw [start.why] at hwhy
    cases hwhy
  obtain ⟨remembered, blocked, net⟩ := watched
  refine ⟨remembered, fun t r b s hwhy message k h => ?_, fun t p full hwhy r hr k h => ?_,
    fun c w'' admitted h => ?_⟩
  · exact (remembered t _ hwhy).delivered (blocked t (by simp [hwhy])) h
  · exact (remembered t _ hwhy).freed (blocked t (by simp [hwhy])) hr h
  · obtain ⟨⟨result, k⟩, happly, h⟩ := of_bind h
    cases h
    exact remembered.step_iff blocked net admitted happly

def PipeWaits.boot : Exec PipeWaits := do
  let k ← PipeSys.boot
  return ⟨k, fun _ => none⟩

theorem PipeWaits.fresh_of_boot {w : PipeWaits} (start : boot = .ok w) : w.Fresh := by
  obtain ⟨k, hk, start⟩ := of_bind start
  cases start
  exact ⟨pipes_of_boot hk, fun _ => rfl⟩

/-- A call by a thread that runs, not by the rest of the kernel. -/
def PipeWaits.Called (w : PipeWaits) (c : PipeCall) : Prop :=
  (∀ t ∈ c.caller, (w.sys.threads t).state.Runnable) ∧ c.outside.isNone

deriving instance Decidable for Called

theorem PipeWaits.Called.admitted {w : PipeWaits} {c : PipeCall} (h : w.Called c) :
    w.Admitted c := by
  refine ⟨h.1, fun sys hsys => ?_⟩
  rw [Option.isNone_iff_eq_none.mp h.2] at hsys
  cases hsys

instance (w : PipeWaits) (c : PipeCall) : Decidable (w.WaitOk c) :=
  match c with
  | .receiveMessage (some r) _ (some _) (some _) _ true =>
    inferInstanceAs (Decidable (∀ pipe ∈ w.sys.pipes r, _ → _ → _))
  | .sendMessage (some p) _ .sendAll _ true =>
    inferInstanceAs (Decidable (∀ pipe ∈ w.sys.pipes p, _ → _ → _))
  | .deletePipe (some p) => inferInstanceAs (Decidable (∀ pipe ∈ w.sys.pipes p, _))
  | .receiveMessage none _ _ _ _ _ | .receiveMessage (some _) _ none _ _ _
  | .receiveMessage (some _) _ (some _) none _ _
  | .receiveMessage (some _) _ (some _) (some _) _ false
  | .sendMessage none _ _ _ _ | .sendMessage (some _) _ .sendAvailable _ _
  | .sendMessage (some _) _ .sendAll _ false | .deletePipe none | .createPipe _ _ _ _ _ _
  | .openPipe _ _ _ _ _ _ _ | .elsewhere _ => inferInstanceAs (Decidable True)

/-- A receiver is blocked and gets a message; later a sender is blocked by a reader that is
full. -/
theorem remembered_of_run_sender : ∃ w w', PipeWaits.boot = .ok w ∧
    Run PipeWaits.step (fun w c => w.Admitted c ∧ w.WaitOk c) w
      [.createPipe [97] .send 4 1 none true, .openPipe 2 [97] .receive 4 1 (some 4096) true,
        .receiveMessage (some 1) 1 (some 10) (some 20) 4 true,
        .sendMessage (some 0) 3 .sendAll [5] true, .sendMessage (some 0) 3 .sendAll [6] true,
        .sendMessage (some 0) 3 .sendAll [7] true] w' ∧
    w'.why 3 = some (.sending 0 [1]) ∧ Remembered w' := by
  obtain ⟨w, w', start, run, hwhy⟩ := exists_run_from PipeWaits.boot PipeWaits.step
    (fun w c => w.Called c ∧ w.WaitOk c)
    [.createPipe [97] .send 4 1 none true, .openPipe 2 [97] .receive 4 1 (some 4096) true,
      .receiveMessage (some 1) 1 (some 10) (some 20) 4 true,
      .sendMessage (some 0) 3 .sendAll [5] true, .sendMessage (some 0) 3 .sendAll [6] true,
      .sendMessage (some 0) 3 .sendAll [7] true]
    (fun w => w.why 3 = some (.sending 0 [1])) (by decide +kernel)
  have admitted : Run PipeWaits.step (fun w c => w.Admitted c ∧ w.WaitOk c) w _ w' :=
    run.mono fun _ _ h => ⟨h.1.admitted, h.2⟩
  exact ⟨w, w', start, admitted, of_decide_eq_true hwhy,
    (remembered_of_run (PipeWaits.fresh_of_boot start) admitted).1⟩

/-- Threads 1 and 2 block receiving on a pipe and two messages are delivered to it. Thread 2
has taken the place of thread 1 and gets the first message; the second one stays in the ring,
and thread 1 is still blocked. -/
theorem not_remembered : ∃ w w₁ w₂, w.Fresh ∧
    (∃ calls, Run PipeWaits.step PipeWaits.Admitted w calls w₁) ∧
    w₁.why 1 = some (.receiving 1 10 20) ∧ w₁.why 2 = some (.receiving 1 30 40) ∧
    (∃ calls, Run PipeWaits.step PipeWaits.Admitted w₁ calls w₂) ∧
    w₂.sys.trace = [.delivered 1 [5], .handedOut 1 30 40 1 [5], .delivered 1 [6]] ∧
    (w₂.sys.threads 1).state = .waiting ∧ ¬ Remembered w₂ := by
  obtain ⟨w, w₁, start, run, hlast⟩ := exists_run_from PipeWaits.boot PipeWaits.step
    PipeWaits.Called
    [.createPipe [97] .send 4 2 none true, .openPipe 3 [97] .receive 4 2 (some 4096) true,
      .receiveMessage (some 1) 1 (some 10) (some 20) 4 true,
      .receiveMessage (some 1) 2 (some 30) (some 40) 4 true]
    (fun w => w.why 1 = some (.receiving 1 10 20) ∧ w.why 2 = some (.receiving 1 30 40) ∧
      (replay PipeWaits.step PipeWaits.Called w
        [.sendMessage (some 0) 3 .sendAll [5] false,
          .sendMessage (some 0) 3 .sendAll [6] false]).any fun w =>
        w.sys.trace = [.delivered 1 [5], .handedOut 1 30 40 1 [5], .delivered 1 [6]] ∧
          (w.sys.threads 1).state = .waiting ∧ w.why 1 = some (.receiving 1 10 20) ∧
          (w.sys.pipes 1).all fun pipe => pipe.rxData.blockedInfo.blockedOwner = none)
    (by decide +kernel)
  obtain ⟨hfirst, hsecond, hsends⟩ := of_decide_eq_true hlast
  obtain ⟨w₂, run₂, hlast⟩ := exists_run_of_replay PipeWaits.step PipeWaits.Called w₁ _ _ hsends
  obtain ⟨htrace, hwaiting, hwhy, hforgotten⟩ := of_decide_eq_true hlast
  refine ⟨w, w₁, w₂, PipeWaits.fresh_of_boot start, ⟨_, run.mono fun _ _ h => h.admitted⟩,
    hfirst, hsecond, ⟨_, run₂.mono fun _ _ h => h.admitted⟩, htrace, hwaiting, fun rem => ?_⟩
  obtain ⟨-, pipe, hpipe, hinfo⟩ := rem 1 _ hwhy
  rw [hpipe] at hforgotten
  simp [hinfo] at hforgotten

end Tinker
