import Mathlib.Data.List.Count
import Tinker.Objects.Pipe

/-!
# What a pipe operation can do

For every operation of `Tinker.Objects.Pipe` the complete list of what it can do to the
pipes, to the threads and to the trace. The later files use these lists and do not look
into the operations again.
-/

namespace Tinker

variable {maxSize : ℕ} {pipeArg : Option ℕ} {blocking : Bool}

open Tinker.Lib Function Exec PipeSys Pipe

variable {k k' : PipeSys} {p r thread : ℕ} {pipe : Pipe} {message : List UInt8} {result : ReturnT}

/-! ## Small facts -/

namespace PipeSys

theorem load_eq_ok (h : k.load p = .ok pipe) : k.pipes p = some pipe := by
  unfold load at h
  split at h
  next pipe' hpipe => rw [hpipe, Except.ok.inj h]
  · cases h

theorem modify_of_some {f : Pipe → Pipe} (h : k.pipes p = some pipe) :
    k.modify p f = k.setPipe p (f pipe) := by
  simp [modify, setPipe, h]

@[simp] theorem withThreads_toThreadSys (sys : ThreadSys) : (k.withThreads sys).toThreadSys = sys :=
  rfl

@[simp] theorem withThreads_pipes (sys : ThreadSys) : (k.withThreads sys).pipes = k.pipes := rfl

@[simp] theorem withThreads_trace (sys : ThreadSys) : (k.withThreads sys).trace = k.trace := rfl

@[simp] theorem withReg_pipes (reg : Registry ObjRef) : (k.withReg reg).pipes = k.pipes := rfl

@[simp] theorem withReg_toThreadSys (reg : Registry ObjRef) :
    (k.withReg reg).toThreadSys = k.toThreadSys := rfl

@[simp] theorem setPipe_toThreadSys : (k.setPipe p pipe).toThreadSys = k.toThreadSys := rfl

@[simp] theorem setPipe_pipes : (k.setPipe p pipe).pipes = update k.pipes p (some pipe) :=
  rfl

@[simp] theorem setPipe_trace : (k.setPipe p pipe).trace = k.trace := rfl

@[simp] theorem modify_toThreadSys (f : Pipe → Pipe) :
    (k.modify p f).toThreadSys = k.toThreadSys := rfl

@[simp] theorem modify_trace (f : Pipe → Pipe) : (k.modify p f).trace = k.trace := rfl

@[simp] theorem record_toThreadSys (e : PipeEvent) : (k.record e).toThreadSys = k.toThreadSys := rfl

@[simp] theorem record_pipes (e : PipeEvent) : (k.record e).pipes = k.pipes := rfl

@[simp] theorem record_trace (e : PipeEvent) : (k.record e).trace = k.trace ++ [e] := rfl

def sendingThreads (k : PipeSys) (ps : List ℕ) : List ℕ :=
  ps.filterMap fun p => (k.pipes p).bind (·.txData.sendingThread)

theorem sendingThreads_congr {ps : List ℕ}
    (h : ∀ p, (k'.pipes p).map (·.txData) = (k.pipes p).map (·.txData)) :
    k'.sendingThreads ps = k.sendingThreads ps := by
  refine List.filterMap_congr fun p _ => ?_
  have hp := h p
  cases hk : k.pipes p <;> cases hk' : k'.pipes p <;> simp_all

end PipeSys

def Pipe.acknowledged (pipe : Pipe) : Pipe :=
  { pipe with rxData := pipeAdvanceRead pipe.rxData pipe.memory.base }

section Ring

variable (rx : RxData) (home : ℕ)

@[simp] theorem pipeAdvanceWrite_blockedInfo :
    (pipeAdvanceWrite rx home).blockedInfo = rx.blockedInfo := by
  unfold pipeAdvanceWrite
  split <;> rfl

@[simp] theorem pipeAdvanceWrite_senders : (pipeAdvanceWrite rx home).senders = rx.senders := by
  unfold pipeAdvanceWrite
  split <;> rfl

@[simp] theorem pipeAdvanceRead_blockedInfo :
    (pipeAdvanceRead rx home).blockedInfo = rx.blockedInfo := by
  unfold pipeAdvanceRead
  split <;> rfl

@[simp] theorem pipeAdvanceRead_senders : (pipeAdvanceRead rx home).senders = rx.senders := by
  unfold pipeAdvanceRead
  split <;> rfl

end Ring

theorem pipeWrite_cases {pipe' : Pipe} (h : pipeWrite pipe message = .ok pipe') :
    ∃ memory, pipe' = { pipe with
      memory := memory, rxData := pipeAdvanceWrite pipe.rxData memory.base } := by
  obtain ⟨_, -, h⟩ := of_bind h
  obtain ⟨memory, -, h⟩ := of_bind h
  exact ⟨memory, (Except.ok.inj h).symm⟩

/-! ## Acknowledging -/

theorem pipeNotifySenders_cases {ps : List ℕ} (h : pipeNotifySenders k ps = .ok k') :
    ∃ sys, k' = k.withThreads sys ∧ sys.objThreads = k.objThreads ∧
      sys.threads = wakeAll k.threads (k.sendingThreads ps) ∧ ∀ p ∈ ps, (k.pipes p).isSome := by
  induction ps generalizing k with
  | nil =>
    obtain rfl := Except.ok.inj h
    exact ⟨k.toThreadSys, rfl, rfl, rfl, by simp⟩
  | cons s rest ih =>
    obtain ⟨sender, hload, h⟩ := of_bind h
    obtain ⟨⟨_, sys⟩, hready, h⟩ := of_bind h
    obtain ⟨hthreads, hobj⟩ := objSetThreadReady_threads hready
    obtain ⟨sys', rfl, hobj', hthreads', hlive⟩ := ih h
    have hs := load_eq_ok hload
    refine ⟨sys', rfl, hobj'.trans hobj, ?_, ?_⟩
    · rw [hthreads']
      change wakeAll sys.threads (k.sendingThreads rest) = _
      rw [hthreads]
      cases hst : sender.txData.sendingThread with
      | none => simp [PipeSys.sendingThreads, hs, hst]
      | some t => simp [PipeSys.sendingThreads, hs, hst]
    intro p hp
    rcases List.mem_cons.mp hp with rfl | hp
    · simp [hs]
    · exact hlive p hp

theorem objPipeReceivedMessage_cases (h : objPipeReceivedMessage k p = .ok k') :
    ∃ pipe sys, k.pipes p = some pipe ∧
      k' = (k.setPipe p pipe.acknowledged).withThreads sys ∧
      sys.objThreads = k.objThreads ∧
      sys.threads = wakeAll k.threads (k.sendingThreads pipe.senders) := by
  obtain ⟨pipe, hload, h⟩ := of_bind h
  obtain ⟨sys, rfl, hobj, hthreads, -⟩ := pipeNotifySenders_cases h
  have hp := load_eq_ok hload
  have hsenders : (k.setPipe p pipe.acknowledged).sendingThreads pipe.acknowledged.senders =
      k.sendingThreads pipe.senders := by
    have hlist : pipe.acknowledged.senders = pipe.senders := by
      simp [acknowledged, senders]
    rw [hlist]
    refine sendingThreads_congr fun q => ?_
    by_cases hq : q = p
    · subst hq
      simp [PipeSys.setPipe, hp, acknowledged]
    · simp [PipeSys.setPipe, hq]
  exact ⟨pipe, sys, hp, rfl, hobj, hthreads.trans (congrArg _ hsenders)⟩

theorem pipeCopyOut_cases {buffer sizeOut : Option ℕ}
    (h : pipeCopyOut k p pipe buffer sizeOut = .ok k') :
    ∃ b s size bytes, buffer = some b ∧ sizeOut = some s ∧ pipeReadSize pipe = .ok size ∧
      pipeReadMessage pipe size = .ok bytes ∧ k' = k.record (.handedOut p b s size bytes) := by
  obtain ⟨size, hsize, h⟩ := of_bind h
  obtain ⟨bytes, hbytes, h⟩ := of_bind h
  cases buffer with
  | none => cases h
  | some b =>
    cases sizeOut with
    | none => cases h
    | some s =>
      cases h
      exact ⟨b, s, size, bytes, rfl, rfl, hsize, hbytes, rfl⟩

/-! ## Delivering -/

theorem acknowledged_setBlocked (info : RxBlocked) :
    (pipe.setBlocked info).acknowledged = pipe.acknowledged.setBlocked info := by
  by_cases hlast : pipe.rxData.readMsgPosition + 1 = pipe.rxData.totalMessages <;>
    simp [acknowledged, setBlocked, pipeAdvanceRead, hlast]

theorem sendingThreads_setPipe {pipe' : Pipe} {ps : List ℕ} (hp : k.pipes p = some pipe)
    (tx : pipe'.txData = pipe.txData) :
    (k.setPipe p pipe').sendingThreads ps = k.sendingThreads ps := by
  refine sendingThreads_congr fun q => ?_
  by_cases hq : q = p
  · subst hq
    simp [PipeSys.setPipe, hp, tx]
  · simp [PipeSys.setPipe, hq]

/-- Handing over wakes the blocked owner, copies the oldest message to it, acknowledges it
and forgets the owner. -/
theorem pipeHandOver_cases (h : pipeHandOver k r = .ok k') (hr : k.pipes r = some pipe) :
    ∃ b s size bytes sys, pipe.rxData.blockedInfo.message = some b ∧
      pipe.rxData.blockedInfo.messageSize = some s ∧ pipeReadSize pipe = .ok size ∧
      pipeReadMessage pipe size = .ok bytes ∧
      k' = ((k.setPipe r (pipe.acknowledged.setBlocked ⟨none, none, none⟩)).record
        (.handedOut r b s size bytes)).withThreads sys ∧
      sys.objThreads = k.objThreads ∧
      sys.threads = wakeAll (wake k.threads pipe.rxData.blockedInfo.blockedOwner)
        (k.sendingThreads pipe.senders) := by
  obtain ⟨receiver, hload, h⟩ := of_bind h
  obtain rfl : receiver = pipe := by simpa [hr] using (load_eq_ok hload).symm
  obtain ⟨⟨_, sys₁⟩, hready, h⟩ := of_bind h
  obtain ⟨k₂, hcopy, h⟩ := of_bind h
  obtain ⟨k₃, hack, h⟩ := of_bind h
  cases h
  obtain ⟨b, s, size, bytes, hb, hs, hsize, hbytes, rfl⟩ := pipeCopyOut_cases hcopy
  obtain ⟨pipe₂, sys, hpipe₂, rfl, hobj, hthreads⟩ := objPipeReceivedMessage_cases hack
  obtain ⟨hthreads₁, hobj₁⟩ := objSetThreadReady_threads hready
  -- what is acknowledged is the pipe with its blocked owner cleared
  obtain rfl : receiver.setBlocked { receiver.rxData.blockedInfo with blockedOwner := none } =
      pipe₂ := by
    simpa [PipeSys.record, PipeSys.setPipe] using hpipe₂
  refine ⟨b, s, size, bytes, sys, hb, hs, hsize, hbytes, ?_, hobj.trans hobj₁, ?_⟩
  · rw [acknowledged_setBlocked]
    simp [PipeSys.modify, PipeSys.setPipe, PipeSys.record, PipeSys.withThreads, setBlocked]
  rw [hthreads]
  change wakeAll sys₁.threads (PipeSys.sendingThreads (k.setPipe r _) receiver.senders) = _
  rw [hthreads₁, sendingThreads_setPipe hr]
  rfl

/-- A delivery writes the message to the ring. If the remembered thread is blocked on the
pipe, the oldest message is handed over to it at once. -/
theorem pipeReceiveMessage_cases (h : pipeReceiveMessage k r message = .ok k') :
    ∃ pipe pipe', k.pipes r = some pipe ∧ pipeWrite pipe message = .ok pipe' ∧
      ((objThreadIsWaitingOn k.toThreadSys pipe'.rxData.blockedInfo.blockedOwner
            (some (.pipe r)) = false ∧
          k' = (k.setPipe r pipe').record (.delivered r message)) ∨
        (objThreadIsWaitingOn k.toThreadSys pipe'.rxData.blockedInfo.blockedOwner
            (some (.pipe r)) = true ∧
          ∃ b s size bytes sys, pipe'.rxData.blockedInfo.message = some b ∧
            pipe'.rxData.blockedInfo.messageSize = some s ∧ pipeReadSize pipe' = .ok size ∧
            pipeReadMessage pipe' size = .ok bytes ∧
            k' = (((k.setPipe r (pipe'.acknowledged.setBlocked ⟨none, none, none⟩)).record
              (.delivered r message)).record (.handedOut r b s size bytes)).withThreads sys ∧
            sys.objThreads = k.objThreads ∧
            sys.threads = wakeAll (wake k.threads pipe'.rxData.blockedInfo.blockedOwner)
              ((k.setPipe r pipe').sendingThreads pipe'.senders))) := by
  obtain ⟨pipe, hload, h⟩ := of_bind h
  obtain ⟨pipe', hwrite, h⟩ := of_bind h
  refine ⟨pipe, pipe', load_eq_ok hload, hwrite, ?_⟩
  dsimp only at h
  split at h
  next hwait =>
    have hstored : ((k.setPipe r pipe').record (.delivered r message)).pipes r = some pipe' := by
      simp
    obtain ⟨b, s, size, bytes, sys, hb, hs, hsize, hbytes, rfl, hobj, hthreads⟩ :=
      pipeHandOver_cases h hstored
    refine .inr ⟨hwait, b, s, size, bytes, sys, hb, hs, hsize, hbytes, ?_, hobj, hthreads⟩
    simp [PipeSys.record, PipeSys.setPipe]
  next hwait =>
    cases h
    exact .inl ⟨Bool.eq_false_iff.mpr hwait, rfl⟩

theorem pipeReceiveMessage_of_ne {q : ℕ} (h : pipeReceiveMessage k r message = .ok k')
    (hq : q ≠ r) : k'.pipes q = k.pipes q := by
  obtain ⟨_, _, -, -, ⟨-, rfl⟩ | ⟨-, _, _, _, _, _, -, -, -, -, rfl, -, -⟩⟩ :=
    pipeReceiveMessage_cases h <;> exact update_of_ne hq _ _

/-! ## Receiving -/

theorem pipeTakeMessage_cases {b s : ℕ} (hp : k.pipes p = some pipe)
    (h : pipeTakeMessage k p pipe b s maxSize = .ok (result, k')) :
    ∃ size, pipeReadSize pipe = .ok size ∧
      ((maxSize < size ∧ result = .parametersOutOfRange ∧ k' = k.record (.sizeTold p s size)) ∨
        (size ≤ maxSize ∧ result = .noError ∧ ∃ bytes sys, pipeReadMessage pipe size = .ok bytes ∧
          k' = ((k.setPipe p pipe.acknowledged).record (.handedOut p b s size bytes)).withThreads
            sys ∧
          sys.objThreads = k.objThreads ∧
          sys.threads = wakeAll k.threads (k.sendingThreads pipe.senders))) := by
  obtain ⟨size, hsize, h⟩ := of_bind h
  refine ⟨size, hsize, ?_⟩
  split at h
  next hlarge =>
    cases h
    exact .inl ⟨hlarge, rfl, rfl⟩
  next hfits =>
    obtain ⟨k₁, hcopy, h⟩ := of_bind h
    obtain ⟨k₂, hack, h⟩ := of_bind h
    cases h
    obtain ⟨b', s', size', bytes, hb, hs, hsize', hbytes, rfl⟩ := pipeCopyOut_cases hcopy
    cases hb
    cases hs
    obtain rfl : size = size' := Except.ok.inj (hsize.symm.trans hsize')
    obtain ⟨pipe', sys, hpipe', rfl, hobj, hthreads⟩ := objPipeReceivedMessage_cases hack
    obtain rfl : pipe = pipe' := Option.some.inj (hp.symm.trans hpipe')
    exact .inr ⟨Nat.le_of_not_lt hfits, rfl, bytes, sys, hbytes, rfl, hobj, hthreads⟩

/-- A receive is refused, tells the size of a message that is too large, takes the oldest
message, or blocks the caller on an empty ring. -/
theorem objPipeReceiveMessage_cases {message messageSize : Option ℕ}
    (h : objPipeReceiveMessage k pipeArg thread message messageSize maxSize blocking =
      .ok (result, k')) :
    (result ≠ .noError ∧ k' = k) ∨
    ∃ p b s pipe, pipeArg = some p ∧ message = some b ∧ messageSize = some s ∧
      k.pipes p = some pipe ∧ pipeIsReceiver pipe = true ∧
      ((pipe.rxData.freeMessages < pipe.rxData.totalMessages ∧
          ∃ size, pipeReadSize pipe = .ok size ∧
            ((maxSize < size ∧ result = .parametersOutOfRange ∧
                k' = k.record (.sizeTold p s size)) ∨
              (size ≤ maxSize ∧ result = .noError ∧
                ∃ bytes sys, pipeReadMessage pipe size = .ok bytes ∧
                  k' = ((k.setPipe p pipe.acknowledged).record
                    (.handedOut p b s size bytes)).withThreads sys ∧
                  sys.objThreads = k.objThreads ∧
                  sys.threads = wakeAll k.threads (k.sendingThreads pipe.senders)))) ∨
        (pipe.rxData.totalMessages ≤ pipe.rxData.freeMessages ∧ blocking = true ∧
          result = .noError ∧
          ∃ sys, k' = (k.setPipe p (pipe.setBlocked ⟨some thread, some b, some s⟩)).withThreads
              sys ∧
            sys.objThreads = k.objThreads ∧
            sys.threads = block k.threads thread (some (.pipe p)))) := by
  unfold objPipeReceiveMessage at h
  split at h
  next p b s =>
    obtain ⟨pipe, hload, h⟩ := of_bind h
    have hp := load_eq_ok hload
    split at h
    next hrecv =>
      split at h
      next hfree =>
        exact .inr ⟨p, b, s, pipe, rfl, rfl, rfl, hp, hrecv, .inl ⟨hfree,
          pipeTakeMessage_cases hp h⟩⟩
      next hempty =>
        unfold pipeAwaitMessage at h
        split at h
        next hblock =>
          obtain ⟨⟨_, sys⟩, hwait, h⟩ := of_bind h
          cases h
          obtain ⟨hthreads, hobj⟩ := objSetThreadWaiting_threads hwait
          refine .inr ⟨p, b, s, pipe, rfl, rfl, rfl, hp, hrecv, .inr ⟨Nat.le_of_not_lt hempty,
            hblock, rfl, sys, ?_, hobj, hthreads⟩⟩
          exact modify_of_some hp
        cases h
        exact .inl ⟨by decide, rfl⟩
    cases h
    exact .inl ⟨by decide, rfl⟩
  · cases h
    exact .inl ⟨by decide, rfl⟩
  cases h
  exact .inl ⟨by decide, rfl⟩

theorem objPipeReceiveMessage_blocks {b s : ℕ} (hp : k.pipes p = some pipe)
    (receiver : pipeIsReceiver pipe = true)
    (empty : pipe.rxData.totalMessages ≤ pipe.rxData.freeMessages)
    (h : objPipeReceiveMessage k (some p) thread (some b) (some s) maxSize true =
      .ok (result, k')) : result = .noError := by
  obtain ⟨pipe', hload, h⟩ := of_bind h
  obtain rfl : pipe = pipe' := Option.some.inj (hp.symm.trans (load_eq_ok hload))
  rw [if_pos receiver, if_neg (Nat.not_lt.mpr empty), pipeAwaitMessage, if_pos rfl] at h
  obtain ⟨_, -, h⟩ := of_bind h
  exact (pair_inj h).1.symm

/-! ## Sending -/

/-- A pipe whose list of senders has been extended by `n` entries for `p`. -/
def Pipe.addSenders (pipe : Pipe) (p n : ℕ) : Pipe :=
  { pipe with rxData := { pipe.rxData with
      senders := pipe.rxData.senders.map (· ++ List.replicate n p) } }

theorem Pipe.addSenders_zero : pipe.addSenders p 0 = pipe := by
  simp [addSenders]

theorem Pipe.addSenders_addSender (n : ℕ) :
    (pipe.addSender p).addSenders p n = pipe.addSenders p (n + 1) := by
  simp [addSenders, addSender, List.replicate_succ, comp_def]

namespace PipeSys

def canReceive (k : PipeSys) (r : ℕ) : Bool := (k.pipes r).any pipeCanReceive

def refused (k : PipeSys) (rs : List ℕ) : List ℕ := rs.filter fun r => !k.canReceive r

/-- The pipe `p` has been added to the senders of the given readers. -/
def noteSender (k : PipeSys) (p : ℕ) (rs : List ℕ) : PipeSys :=
  { k with pipes := fun q => (k.pipes q).map (·.addSenders p (rs.count q)) }

theorem noteSender_nil : k.noteSender p [] = k := by
  simp [noteSender, addSenders_zero]

theorem noteSender_cons {rs : List ℕ} :
    (k.modify r (·.addSender p)).noteSender p rs = k.noteSender p (r :: rs) := by
  simp only [noteSender, modify]
  congr 1
  funext q
  by_cases hq : q = r
  · subst hq
    cases k.pipes q <;> simp [addSenders_addSender]
  · rw [update_of_ne hq, List.count_cons_of_ne (Ne.symm hq)]

theorem canReceive_modify (q : ℕ) : (k.modify r (·.addSender p)).canReceive q = k.canReceive q := by
  by_cases hq : q = r
  · subst hq
    cases hr : k.pipes q <;>
      simp [canReceive, modify, hr, addSender, pipeCanReceive, pipeIsReceiver]
  · simp [canReceive, modify, hq]

theorem refused_eq_nil_iff {rs : List ℕ} :
    k.refused rs = [] ↔ ∀ r ∈ rs, k.canReceive r = true := by
  simp [refused]

end PipeSys

/-- The check whether all readers can receive finds those that can not. When blocking, it
adds the pipe to the senders of each of them, whether or not it is there already. -/
theorem pipeCanSendLoop_cases {canSendAll c : Bool} {rs : List ℕ}
    (h : pipeCanSendLoop k p blocking rs canSendAll = .ok (c, k')) :
    c = (canSendAll && (k.refused rs).isEmpty) ∧
      k' = k.noteSender p (if blocking then k.refused rs else []) := by
  induction rs generalizing k canSendAll with
  | nil =>
    cases h
    simp [PipeSys.refused, noteSender_nil]
  | cons r rest ih =>
    obtain ⟨receiver, hload, h⟩ := of_bind h
    have hcan : pipeCanReceive receiver = k.canReceive r := by
      simp [PipeSys.canReceive, load_eq_ok hload]
    simp only [hcan] at h
    cases hr : k.canReceive r with
    | true =>
      obtain ⟨rfl, rfl⟩ := ih (by simpa [hr] using h)
      simp [PipeSys.refused, hr]
    | false =>
      cases blocking with
      | false =>
        obtain ⟨rfl, rfl⟩ := ih (by simpa [hr] using h)
        simp [PipeSys.refused, hr]
      | true =>
        obtain ⟨rfl, rfl⟩ := ih (by simpa [hr] using h)
        have hrest : (k.modify r (·.addSender p)).refused rest = k.refused rest := by
          simp only [PipeSys.refused, canReceive_modify]
        have hcons : k.refused (r :: rest) = r :: k.refused rest := by simp [PipeSys.refused, hr]
        simp [hrest, hcons, noteSender_cons]

theorem pipeCheckSend_cases {sendKind : PipeSendKind} (hp : k.pipes p = some pipe)
    (h : pipeCheckSend k p thread sendKind blocking = .ok (result, k')) :
    (result = .noError ∧ k' = k ∧
        (sendKind = .sendAll → ∀ r ∈ pipe.readers, k.canReceive r = true)) ∨
      (sendKind = .sendAll ∧ k.refused pipe.readers ≠ [] ∧
        ((blocking = false ∧ result = .pipeReceiversFull ∧ k' = k) ∨
          (blocking = true ∧ result = .blockedRetry ∧
            ∃ sys, k' = ((k.noteSender p (k.refused pipe.readers)).modify p
                (·.setSendingThread (some thread))).withThreads sys ∧
              sys.objThreads = k.objThreads ∧
              sys.threads = block k.threads thread (some (.pipe p))))) := by
  cases sendKind with
  | sendAvailable =>
    cases h
    exact .inl ⟨rfl, rfl, fun hkind => by cases hkind⟩
  | sendAll =>
    obtain ⟨⟨c, k₁⟩, hall, h⟩ := of_bind h
    obtain ⟨pipe', hload, hloop⟩ := of_bind hall
    obtain rfl : pipe = pipe' := Option.some.inj (hp.symm.trans (load_eq_ok hload))
    obtain ⟨rfl, rfl⟩ := pipeCanSendLoop_cases hloop
    simp only [Bool.true_and, List.isEmpty_iff] at h
    split at h
    next hnone =>
      cases h
      refine .inl ⟨rfl, ?_, fun _ => refused_eq_nil_iff.mp hnone⟩
      simp [hnone, noteSender_nil]
    next hsome =>
      refine .inr ⟨rfl, hsome, ?_⟩
      cases blocking with
      | false =>
        cases h
        exact .inl ⟨rfl, rfl, noteSender_nil⟩
      | true =>
        obtain ⟨⟨_, sys⟩, hwait, h⟩ := of_bind h
        cases h
        obtain ⟨hthreads, hobj⟩ := objSetThreadWaiting_threads hwait
        exact .inr ⟨rfl, rfl, sys, rfl, hobj, hthreads⟩

theorem pipeDeliverAll_invariant {inv : PipeSys → Prop} {rs : List ℕ}
    (h : pipeDeliverAll k message rs = .ok k') (start : inv k)
    (keep : ∀ r ∈ rs, ∀ k k', inv k → k.canReceive r = true →
      pipeReceiveMessage k r message = .ok k' → inv k') : inv k' := by
  induction rs generalizing k with
  | nil =>
    cases h
    exact start
  | cons r rest ih =>
    obtain ⟨k₁, hdeliver, hrest⟩ := of_bind h
    refine ih hrest ?_ fun r' hr' => keep r' (List.mem_cons_of_mem _ hr')
    obtain ⟨receiver, hload, hdeliver⟩ := of_bind hdeliver
    split at hdeliver
    next hcan =>
      refine keep r List.mem_cons_self k k₁ start ?_ hdeliver
      simp [PipeSys.canReceive, load_eq_ok hload, hcan]
    cases hdeliver
    exact start

theorem objPipeSendMessage_cases {sendKind : PipeSendKind}
    (h : objPipeSendMessage k pipeArg thread sendKind message blocking = .ok (result, k')) :
    (k' = k ∧ (result = .invalidObject ∧ pipeArg = none ∨ result = .pipePolarityWrong ∧
        ∃ p pipe, pipeArg = some p ∧ k.pipes p = some pipe ∧ pipeIsSender pipe = false)) ∨
    ∃ p pipe, pipeArg = some p ∧ k.pipes p = some pipe ∧ pipeIsSender pipe = true ∧
      ((sendKind = .sendAll ∧ k.refused pipe.readers ≠ [] ∧
          ((blocking = false ∧ result = .pipeReceiversFull ∧ k' = k) ∨
            (blocking = true ∧ result = .blockedRetry ∧
              ∃ sys, k' = ((k.noteSender p (k.refused pipe.readers)).modify p
                  (·.setSendingThread (some thread))).withThreads sys ∧
                sys.objThreads = k.objThreads ∧
                sys.threads = block k.threads thread (some (.pipe p))))) ∨
        (result = .noError ∧ (sendKind = .sendAll → ∀ r ∈ pipe.readers, k.canReceive r = true) ∧
          pipeDeliverAll k message pipe.readers = .ok k')) := by
  cases pipeArg with
  | none =>
    cases h
    exact .inl ⟨rfl, .inl ⟨rfl, rfl⟩⟩
  | some p =>
    obtain ⟨pipe, hload, h⟩ := of_bind h
    have hp := load_eq_ok hload
    split at h
    next hsender =>
      refine .inr ⟨p, pipe, rfl, hp, hsender, ?_⟩
      obtain ⟨⟨result₁, k₁⟩, hcheck, hsend⟩ := of_bind h
      dsimp only at hsend
      rcases pipeCheckSend_cases hp hcheck with ⟨rfl, rfl, hall⟩ | ⟨hkind, hsome, hcases⟩
      · rw [if_pos rfl] at hsend
        obtain ⟨pipe', hload', hsend⟩ := of_bind hsend
        obtain rfl : pipe = pipe' := Option.some.inj (hp.symm.trans (load_eq_ok hload'))
        obtain ⟨k₂, hdeliver, hsend⟩ := of_bind hsend
        cases hsend
        exact .inr ⟨rfl, hall, hdeliver⟩
      have hne : result₁ ≠ .noError := by
        rcases hcases with ⟨-, rfl, -⟩ | ⟨-, rfl, -⟩ <;> decide
      rw [if_neg hne] at hsend
      cases hsend
      exact .inl ⟨hkind, hsome, hcases⟩
    next hother =>
      cases h
      exact .inl ⟨rfl, .inr ⟨rfl, p, pipe, rfl, hp, Bool.eq_false_iff.mpr hother⟩⟩

/-! ## Creating, opening and deleting -/

theorem objCreatePipe_cases {name : Name} {direction : PipeDirection} {messageSize messages : ℕ}
    {memory : Option ℕ} {room : Bool}
    (h : objCreatePipe k name direction messageSize messages memory room = .ok (result, k')) :
    k' = k ∨ ∃ pipe sys reg,
      pipeCreateSetup name direction messageSize messages memory = some pipe ∧
      regsiteryAdd k.toThreadSys k.reg name (.pipe k.pipeBrk) room = .ok (result, sys, reg) ∧
      k' = ((k.addPipe pipe).withThreads sys).withReg reg := by
  unfold objCreatePipe at h
  split at h
  next pipe hsetup =>
    obtain ⟨⟨result₁, sys, reg⟩, hadd, h⟩ := of_bind h
    cases h
    exact .inr ⟨pipe, sys, reg, hsetup, hadd, rfl⟩
  cases h
  exact .inl rfl

/-- An open fails, makes a new pipe and links it with the one that is registered, or blocks
the caller because there is none. -/
theorem objOpenPipe_cases {name : Name} {direction : PipeDirection} {messageSize messages : ℕ}
    {memory : Option ℕ} {room : Bool}
    (h : objOpenPipe k thread name direction messageSize messages memory room = .ok (result, k')) :
    (k' = k ∧ result ≠ .noError ∧ ∀ other otherPipe,
      k.reg.registry (registryKey name) = some (.pipe other) → k.pipes other = some otherPipe →
      pipeCheckDirection direction otherPipe = .noError →
      pipeOpenSetup name direction messageSize messages memory = none) ∨
    (∃ other otherPipe pipe, k.reg.registry (registryKey name) = some (.pipe other) ∧
      k.pipes other = some otherPipe ∧ pipeCheckDirection direction otherPipe = .noError ∧
      pipeOpenSetup name direction messageSize messages memory = some pipe ∧
      result = .noError ∧ k' = pipeLink (k.addPipe pipe) direction k.pipeBrk other) ∨
    (k.reg.registry (registryKey name) = none ∧ result = .blockedRetry ∧
      ∃ sys reg, registryWaitFor k.toThreadSys k.reg thread name room = .ok (sys, reg) ∧
        k' = (k.withThreads sys).withReg reg) := by
  unfold objOpenPipe registryGet at h
  cases hreg : k.reg.registry (registryKey name) with
  | none =>
    simp only [hreg] at h
    obtain ⟨⟨sys, reg⟩, hwait, h⟩ := of_bind h
    cases h
    exact .inr (.inr ⟨rfl, rfl, sys, reg, hwait, rfl⟩)
  | some entry =>
    cases entry with
    | sema id | timer id | shm id =>
      simp only [hreg] at h
      cases h
      exact .inl ⟨rfl, by decide, fun _ _ hother => by cases hother⟩
    | pipe other =>
      simp only [hreg] at h
      cases hother : k.pipes other with
      | none =>
        simp only [hother] at h
        cases h
        refine .inl ⟨rfl, by decide, fun o _ ho hpipe => ?_⟩
        cases ho
        simp [hother] at hpipe
      | some otherPipe =>
        simp only [hother] at h
        have hopen := Except.ok.inj h
        -- the pipe that is found is the only candidate
        have honly : ∀ o oPipe, some (ObjRef.pipe other) = some (.pipe o) →
            k.pipes o = some oPipe → oPipe = otherPipe := by
          rintro o oPipe ho hpipe
          cases ho
          exact Option.some.inj (hpipe.symm.trans hother)
        unfold pipeOpenOn at hopen
        split at hopen
        next hcheck =>
          split at hopen
          next pipe hsetup =>
            cases hopen
            exact .inr (.inl ⟨other, otherPipe, pipe, rfl, hother, hcheck, hsetup, rfl, rfl⟩)
          next hsetup =>
            cases hopen
            exact .inl ⟨rfl, by decide, fun _ _ _ _ _ => hsetup⟩
        next hcheck =>
          cases hopen
          refine .inl ⟨rfl, hcheck, fun o oPipe ho hpipe hok => ?_⟩
          rw [honly o oPipe ho hpipe] at hok
          exact absurd hok hcheck

theorem objDeletePipe_cases (h : objDeletePipe k pipeArg = .ok (result, k')) :
    k' = k ∨ ∃ p pipe, pipeArg = some p ∧ k.pipes p = some pipe ∧
      k' = { k.withReg (registryRemove k.reg pipe.name).2 with
        pipes := update k.pipes p none } := by
  cases pipeArg with
  | none =>
    cases h
    exact .inl rfl
  | some p =>
    obtain ⟨pipe, hload, h⟩ := of_bind h
    obtain ⟨_, -, h⟩ := of_bind h
    cases h
    exact .inr ⟨p, pipe, rfl, load_eq_ok hload, rfl⟩

/-! ## Calls -/

/-- A call of a pipe operation, or anything else that happens to the threads. -/
inductive PipeCall
  | createPipe (name : Name) (direction : PipeDirection) (messageSize messages : ℕ)
      (memory : Option ℕ) (room : Bool)
  | openPipe (thread : ℕ) (name : Name) (direction : PipeDirection) (messageSize messages : ℕ)
      (memory : Option ℕ) (room : Bool)
  | sendMessage (pipe : Option ℕ) (thread : ℕ) (sendKind : PipeSendKind) (message : List UInt8)
      (block : Bool)
  | receiveMessage (pipe : Option ℕ) (thread : ℕ) (message messageSize : Option ℕ)
      (maxSize : ℕ) (block : Bool)
  | deletePipe (pipe : Option ℕ)
  | elsewhere (sys : ThreadSys)

def PipeCall.apply (k : PipeSys) : PipeCall → Exec (ReturnT × PipeSys)
  | .createPipe name direction messageSize messages memory room =>
    objCreatePipe k name direction messageSize messages memory room
  | .openPipe thread name direction messageSize messages memory room =>
    objOpenPipe k thread name direction messageSize messages memory room
  | .sendMessage pipe thread sendKind message block =>
    objPipeSendMessage k pipe thread sendKind message block
  | .receiveMessage pipe thread message messageSize maxSize block =>
    objPipeReceiveMessage k pipe thread message messageSize maxSize block
  | .deletePipe pipe => objDeletePipe k pipe
  | .elsewhere sys => return (.noError, k.withThreads sys)

def PipeCall.step (k : PipeSys) (c : PipeCall) : Exec PipeSys := do
  let (_, k) ← c.apply k
  return k

theorem PipeCall.step_eq_ok {c : PipeCall} (h : c.step k = .ok k') :
    ∃ result, c.apply k = .ok (result, k') := by
  obtain ⟨⟨result, k₁⟩, happly, h⟩ := of_bind h
  cases h
  exact ⟨result, happly⟩

def PipeSys.boot : Exec PipeSys := do
  let sys ← ThreadSys.boot (fun t => if t = 0 then 0 else 1) [1, 2, 3]
  return ⟨sys, registryCreate, fun _ => none, 0, []⟩

theorem PipeSys.pipes_of_boot (start : PipeSys.boot = .ok k) (p : ℕ) : k.pipes p = none := by
  cases start
  rfl

end Tinker
