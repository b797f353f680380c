import Tinker.Objects.PipeNet

/-!
# Whom the pipe operations wake

A delivery wakes the thread that is recorded as blocked on the receiving pipe, and every
slot that is freed wakes the threads that the senders of the pipe remember. This file says
which threads a send can wake, and whom the pipes remember after each operation.
-/

namespace Tinker

open Tinker.Lib

variable {k k' : PipeSys} {p q r t thread : ℕ} {pipe : Pipe} {message : List UInt8}
  {result : ReturnT}

namespace PipeSys

def ownerOf (k : PipeSys) (r : ℕ) : Option ℕ :=
  (k.pipes r).bind (·.rxData.blockedInfo.blockedOwner)

def sendingOf (k : PipeSys) (p : ℕ) : Option ℕ := (k.pipes p).bind (·.txData.sendingThread)

/-- A message delivered to the pipe is handed over at once: the recorded thread waits on it. -/
def handsOver (k : PipeSys) (r : ℕ) : Bool :=
  objThreadIsWaitingOn k.toThreadSys (k.ownerOf r) (some (.pipe r))

theorem mem_sendingThreads {ps : List ℕ} :
    t ∈ k.sendingThreads ps ↔ ∃ p ∈ ps, k.sendingOf p = some t :=
  List.mem_filterMap

end PipeSys

/-! ## Delivering -/

/-- No pipe has changed its links or the sending thread it remembers. -/
structure SameSides (k k' : PipeSys) : Prop extends SameLinks k k' where
  sending : ∀ p, k'.sendingOf p = k.sendingOf p

namespace SameSides

theorem refl (k : PipeSys) : SameSides k k := ⟨.refl k, fun _ => rfl⟩

theorem trans {a b c : PipeSys} (h : SameSides a b) (h' : SameSides b c) : SameSides a c :=
  ⟨h.toSameLinks.trans h'.toSameLinks, fun p => (h'.sending p).trans (h.sending p)⟩

theorem update {pipe' : Pipe} (hp : k.pipes p = some pipe)
    (stored : k'.pipes = Function.update k.pipes p (some pipe')) (brk : k'.pipeBrk = k.pipeBrk)
    (links : pipe'.links = pipe.links)
    (sending : pipe'.txData.sendingThread = pipe.txData.sendingThread) : SameSides k k' := by
  refine ⟨.update hp links stored brk, fun q => ?_⟩
  rw [PipeSys.sendingOf, stored]
  by_cases hq : q = p
  · subst hq
    simp [PipeSys.sendingOf, hp, sending]
  · simp [PipeSys.sendingOf, hq]

end SameSides

theorem pipeReceiveMessage_sameSides (h : pipeReceiveMessage k r message = .ok k') :
    SameSides k k' := by
  obtain ⟨pipe, pipe', hr, hwrite, hcases⟩ := pipeReceiveMessage_cases h
  have hlinks := pipeWrite_links hwrite
  obtain ⟨memory, rfl⟩ := pipeWrite_cases hwrite
  rcases hcases with ⟨-, rfl⟩ | ⟨-, b, s, size, bytes, sys, -, -, -, -, rfl, -, -⟩
  · exact .update hr rfl rfl hlinks rfl
  · exact .update hr rfl rfl (by simpa using hlinks) rfl

theorem ownerOf_update {pipe' : Pipe}
    (stored : k'.pipes = Function.update k.pipes p (some pipe')) :
    k'.ownerOf q =
      if q = p then pipe'.rxData.blockedInfo.blockedOwner else k.ownerOf q := by
  by_cases hq : q = p
  · subst hq
    simp [PipeSys.ownerOf, stored]
  · simp [PipeSys.ownerOf, stored, hq]

/-- A delivery wakes nobody, or it wakes the recorded receiver, which is then forgotten, and the
threads that the senders of the pipe remember. -/
theorem pipeReceiveMessage_wakes (h : pipeReceiveMessage k r message = .ok k') :
    k'.reg = k.reg ∧ ((k'.threads = k.threads ∧ k'.trace = k.trace ++ [.delivered r message] ∧
      ∀ q, k'.ownerOf q = k.ownerOf q) ∨
    (k.handsOver r = true ∧
      k'.threads = wakeAll (wake k.threads (k.ownerOf r)) (k.sendingThreads (k.sendersOf r)) ∧
      (∃ b s size bytes,
        k'.trace = k.trace ++ [.delivered r message, .handedOut r b s size bytes]) ∧
      ∀ q, k'.ownerOf q = if q = r then none else k.ownerOf q)) := by
  obtain ⟨pipe, pipe', hr, hwrite, hcases⟩ := pipeReceiveMessage_cases h
  obtain ⟨memory, rfl⟩ := pipeWrite_cases hwrite
  have howner : k.ownerOf r = pipe.rxData.blockedInfo.blockedOwner := by
    simp [PipeSys.ownerOf, hr]
  simp only [pipeAdvanceWrite_blockedInfo, ← howner] at hcases
  rcases hcases with ⟨-, rfl⟩ | ⟨hwaits, b, s, size, bytes, sys, -, -, -, -, rfl, -, hthreads⟩
  · refine ⟨rfl, .inl ⟨rfl, rfl, fun q => ?_⟩⟩
    rw [ownerOf_update (k := k) rfl]
    split
    next hq => simp [hq, howner]
    · rfl
  refine ⟨rfl, .inr ⟨hwaits, ?_, ⟨b, s, size, bytes, by simp⟩, fun q => ?_⟩⟩
  swap
  · rw [ownerOf_update (k := k) rfl]
    rfl
  rw [sendingThreads_setPipe hr] at hthreads
  · simpa [PipeSys.sendersOf, hr, Pipe.senders] using hthreads
  · rfl

def eventsSince (before after : List PipeEvent) : List PipeEvent := after.drop before.length

def MessageFor (events : List PipeEvent) (r : ℕ) : Prop := ∃ message, .delivered r message ∈ events

def SlotFreed (events : List PipeEvent) (r : ℕ) : Prop :=
  ∃ b s size bytes, .handedOut r b s size bytes ∈ events

/-- The threads that a slot freed in the pipe wakes, if they are blocked. -/
def PipeSys.Notified (k : PipeSys) (r t : ℕ) : Prop := ∃ q ∈ k.sendersOf r, k.sendingOf q = some t

/-- Deliveries to some of the readers `rs` have led from `k` to `k'`. -/
structure Delivered (k k' : PipeSys) (rs : List ℕ) : Prop where
  reg : k'.reg = k.reg
  sides : SameSides k k'
  owner : ∀ r, k'.ownerOf r = k.ownerOf r ∨ k'.ownerOf r = none
  waitingOn : ∀ t o, (k'.threads t).waitingOn = some o → (k.threads t).waitingOn = some o
  trace : ∃ events, k'.trace = k.trace ++ events
  /-- Who has been woken was a recorded receiver, or was notified as a sender. -/
  woken : ∀ t, (k.threads t).state = .waiting → (k'.threads t).state ≠ .waiting →
    (∃ r, k.ownerOf r = some t ∧ k'.ownerOf r = none ∧
      MessageFor (eventsSince k.trace k'.trace) r) ∨
    ∃ r ∈ rs, k.handsOver r = true ∧ k.Notified r t ∧ SlotFreed (eventsSince k.trace k'.trace) r

theorem eventsSince_append (before events : List PipeEvent) :
    eventsSince before (before ++ events) = events :=
  List.drop_left

theorem eventsSince_self (before : List PipeEvent) : eventsSince before before = [] :=
  List.drop_length

theorem woken_of_handOver {threads : Threads} {o : Option ℕ} {ts : List ℕ}
    (waiting : (threads t).state = .waiting)
    (woken : (wakeAll (wake threads o) ts t).state ≠ .waiting) : o = some t ∨ t ∈ ts := by
  by_contra hno
  rw [not_or] at hno
  rw [wakeAll_of_notMem hno.2, wake_of_ne hno.1] at woken
  exact woken waiting

namespace Delivered

variable {rs : List ℕ}

theorem refl (k : PipeSys) (rs : List ℕ) : Delivered k k rs :=
  ⟨rfl, .refl k, fun _ => .inl rfl, fun _ _ h => h, ⟨[], by simp⟩, fun _ hw hno => absurd hw hno⟩

/-- What was handed over in between would have been handed over at the start. -/
theorem handsOver (delivered : Delivered k k' rs) (h : k'.handsOver r = true) :
    k.handsOver r = true := by
  unfold PipeSys.handsOver at h ⊢
  rcases delivered.owner r with howner | hnone
  · rw [howner] at h
    cases hown : k.ownerOf r with
    | none =>
      rw [hown] at h
      cases h
    | some t =>
      rw [hown] at h
      have hon : (k'.threads t).waitingOn = some (.pipe r) := of_decide_eq_true h
      exact decide_eq_true (delivered.waitingOn t _ hon)
  rw [hnone] at h
  cases h

theorem woken_mono {k'' : PipeSys} {events : List PipeEvent} (delivered : Delivered k k' rs)
    (trace : k''.trace = k'.trace ++ events)
    (owner : ∀ r, k''.ownerOf r = k'.ownerOf r ∨ k''.ownerOf r = none)
    (waiting : (k.threads t).state = .waiting) (woken : (k'.threads t).state ≠ .waiting) :
    (∃ r, k.ownerOf r = some t ∧ k''.ownerOf r = none ∧
      MessageFor (eventsSince k.trace k''.trace) r) ∨
    ∃ r ∈ rs, k.handsOver r = true ∧ k.Notified r t ∧
      SlotFreed (eventsSince k.trace k''.trace) r := by
  obtain ⟨earlier, hearlier⟩ := delivered.trace
  have hmore : ∀ e ∈ eventsSince k.trace k'.trace, e ∈ eventsSince k.trace k''.trace := by
    rw [trace, hearlier, List.append_assoc, eventsSince_append, eventsSince_append]
    exact fun e he => List.mem_append_left _ he
  rcases delivered.woken t waiting woken with ⟨r, hown, hnone, message, hmem⟩ |
    ⟨r, hr, hands, notified, b, s, size, bytes, hmem⟩
  · refine .inl ⟨r, hown, ?_, message, hmore _ hmem⟩
    rcases owner r with h | h
    · exact h.trans hnone
    · exact h
  · exact .inr ⟨r, hr, hands, notified, b, s, size, bytes, hmore _ hmem⟩

theorem receive {k'' : PipeSys} (delivered : Delivered k k' rs) (hr : r ∈ rs)
    (h : pipeReceiveMessage k' r message = .ok k'') : Delivered k k'' rs := by
  have sides := delivered.sides.trans (pipeReceiveMessage_sameSides h)
  obtain ⟨earlier, hearlier⟩ := delivered.trace
  obtain ⟨hreg, hcases⟩ := pipeReceiveMessage_wakes h
  have reg := hreg.trans delivered.reg
  rcases hcases with ⟨hthreads, htrace, howner⟩ |
    ⟨hands, hthreads, ⟨b, s, size, bytes, htrace⟩, howner⟩
  · refine ⟨reg, sides, fun q => ?_, fun t o hon => ?_, ⟨earlier ++ [.delivered r message], ?_⟩,
      fun t hw hno => ?_⟩
    · rw [howner]
      exact delivered.owner q
    · rw [hthreads] at hon
      exact delivered.waitingOn t o hon
    · rw [htrace, hearlier, List.append_assoc]
    rw [hthreads] at hno
    exact delivered.woken_mono htrace (fun q => .inl (howner q)) hw hno
  have hsame : ∀ q, k''.ownerOf q = k'.ownerOf q ∨ k''.ownerOf q = none := by
    intro q
    rw [howner]
    split
    · exact .inr rfl
    · exact .inl rfl
  refine ⟨reg, sides, fun q => ?_, fun t o hon => ?_, ⟨earlier ++ [.delivered r message,
    .handedOut r b s size bytes], ?_⟩, fun t hw hno => ?_⟩
  · rcases hsame q with hq | hq
    · rw [hq]
      exact delivered.owner q
    · exact .inr hq
  · rw [hthreads] at hon
    exact delivered.waitingOn t o (waitingOn_of_wake (waitingOn_of_wakeAll hon))
  · rw [htrace, hearlier, List.append_assoc]
  by_cases hstill : (k'.threads t).state = .waiting
  · -- the thread is woken by this delivery
    have hevents : eventsSince k.trace k''.trace =
        earlier ++ [.delivered r message, .handedOut r b s size bytes] := by
      rw [htrace, hearlier, List.append_assoc, eventsSince_append]
    rw [hthreads] at hno
    rw [hevents]
    rcases woken_of_handOver hstill hno with hown | hmem
    · refine .inl ⟨r, ?_, by rw [howner, if_pos rfl], message, by simp⟩
      rcases delivered.owner r with hsame | hnone
      · rw [← hsame, hown]
      rw [hnone] at hown
      cases hown
    obtain ⟨q, hq, hsending⟩ := PipeSys.mem_sendingThreads.mp hmem
    rw [delivered.sides.sendersOf] at hq
    rw [delivered.sides.sending] at hsending
    exact .inr ⟨r, hr, delivered.handsOver hands, ⟨q, hq, hsending⟩, b, s, size, bytes, by simp⟩
  · exact delivered.woken_mono htrace hsame hw hstill

end Delivered

theorem delivered_of_deliverAll {rs : List ℕ} (h : pipeDeliverAll k message rs = .ok k') :
    Delivered k k' (rs.filter k.canReceive) := by
  -- a delivery makes no pipe able to receive that was not before
  have keep : ∀ r ∈ rs, ∀ k₁ k₂,
      (Delivered k k₁ (rs.filter k.canReceive) ∧ ∀ q, k₁.canReceive q → k.canReceive q) →
      k₁.canReceive r = true → pipeReceiveMessage k₁ r message = .ok k₂ →
      Delivered k k₂ (rs.filter k.canReceive) ∧ ∀ q, k₂.canReceive q → k.canReceive q := by
    rintro r hr k₁ k₂ ⟨delivered, could⟩ can hdeliver
    refine ⟨delivered.receive (List.mem_filter.mpr ⟨hr, could r can⟩) hdeliver, fun q hq => ?_⟩
    rcases eq_or_ne q r with rfl | hne
    · exact could q can
    · rw [PipeSys.canReceive, pipeReceiveMessage_of_ne hdeliver hne] at hq
      exact could q hq
  exact (pipeDeliverAll_invariant h ⟨.refl k _, fun _ => id⟩ keep).1

/-! ## What the other operations leave -/

theorem ownerOf_modify {f : Pipe → Pipe}
    (receiving : ∀ pipe, (f pipe).rxData.blockedInfo = pipe.rxData.blockedInfo) :
    (k.modify p f).ownerOf r = k.ownerOf r := by
  by_cases hr : r = p
  · subst hr
    cases hk : k.pipes r <;> simp [PipeSys.ownerOf, PipeSys.modify, hk, receiving]
  · simp [PipeSys.ownerOf, PipeSys.modify, hr]

theorem ownerOf_link {direction : PipeDirection} {no other : ℕ} :
    (pipeLink k direction no other).ownerOf r = k.ownerOf r := by
  have hreader : ∀ (k : PipeSys) (p q : ℕ), (k.modify p (·.addReader q)).ownerOf r = k.ownerOf r :=
    fun _ _ _ => ownerOf_modify fun _ => rfl
  have hsender : ∀ (k : PipeSys) (p q : ℕ), (k.modify p (·.addSender q)).ownerOf r = k.ownerOf r :=
    fun _ _ _ => ownerOf_modify fun _ => rfl
  cases direction <;> simp only [pipeLink, hreader, hsender]

theorem ownerOf_blockedSend {rs : List ℕ} {sys : ThreadSys} :
    (((k.noteSender p rs).modify p (·.setSendingThread (some thread))).withThreads
      sys).ownerOf r = k.ownerOf r := by
  have hmodify : ∀ k : PipeSys, (k.modify p (·.setSendingThread (some thread))).ownerOf r =
      k.ownerOf r := fun _ => ownerOf_modify fun _ => rfl
  refine (hmodify _).trans ?_
  cases hr : k.pipes r <;> simp [PipeSys.ownerOf, PipeSys.noteSender, hr, Pipe.addSenders]

theorem ownerOf_addPipe (new : FreshPipe pipe) (h : (k.addPipe pipe).ownerOf r = some t) :
    k.ownerOf r = some t := by
  by_cases hr : r = k.pipeBrk
  · subst hr
    simp [PipeSys.ownerOf, PipeSys.addPipe, new.idle.2] at h
  · simpa [PipeSys.ownerOf, PipeSys.addPipe, hr] using h

theorem ownerOf_delete {reg : Registry ObjRef}
    (h : PipeSys.ownerOf { k.withReg reg with pipes := Function.update k.pipes p none } r =
      some t) : k.ownerOf r = some t := by
  by_cases hr : r = p
  · subst hr
    simp [PipeSys.ownerOf] at h
  · simpa [PipeSys.ownerOf, hr] using h

end Tinker
