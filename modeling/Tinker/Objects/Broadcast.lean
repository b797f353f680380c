import Tinker.Objects.PipeNet

/-!
# Sending to all readers

`obj_pipe_send_message` walks along the readers of a pipe twice, to see whether all of them can
receive and then to deliver the message. In between threads are made ready and messages
acknowledged. The two walks still agree: a delivery to one reader does not change whether another
one can receive, and no reader is listed twice.

A pipe that was created for sending only has free slots as well, and can be listed as a reader.
-/

namespace Tinker

open Tinker.Lib Exec PipeSys

variable {k k' : PipeSys} {p q r thread : ℕ} {pipe : Pipe} {message : List UInt8}
  {result : ReturnT}

/-! ## Deliveries -/

def deliveries (trace : List PipeEvent) : List (ℕ × List UInt8) :=
  trace.filterMap fun
    | .delivered r message => some (r, message)
    | _ => none

/-- The pipe has got one message more. It has been written to the ring; if a thread was
blocked on the pipe, the oldest message has been handed over to it at once. -/
def Appended (k k' : PipeSys) (r : ℕ) (message : List UInt8) : Prop :=
  ∃ pipe pipe', k.pipes r = some pipe ∧ pipeWrite pipe message = .ok pipe' ∧
    (k'.pipes r = some pipe' ∨
      k'.pipes r = some (pipe'.acknowledged.setBlocked ⟨none, none, none⟩))

/-- Each of the given pipes has got exactly one copy, and no other pipe has changed. -/
structure DeliversTo (k k' : PipeSys) (rs : List ℕ) (message : List UInt8) : Prop where
  once : rs.Nodup
  trace : deliveries k'.trace = deliveries k.trace ++ rs.map (·, message)
  appended : ∀ r ∈ rs, Appended k k' r message
  others : ∀ q, q ∉ rs → k'.pipes q = k.pipes q

def Pipe.ring (pipe : Pipe) : Buffer × ℕ × ℕ × ℕ × ℕ × ℕ :=
  (pipe.memory, pipe.rxData.freeMessages, pipe.rxData.readMsgPosition,
    pipe.rxData.writeMsgPosition, pipe.rxData.readMsgPtr, pipe.rxData.writeMsgPtr)

/-- No pipe has got or lost a message. -/
structure DeliversNothing (k k' : PipeSys) : Prop where
  trace : k'.trace = k.trace
  rings : ∀ q, (k'.pipes q).map Pipe.ring = (k.pipes q).map Pipe.ring

theorem DeliversTo.none (k : PipeSys) (message : List UInt8) : DeliversTo k k [] message :=
  ⟨List.nodup_nil, by simp, by simp, fun _ _ => rfl⟩

theorem DeliversTo.cons {k₁ : PipeSys} {rs : List ℕ} (first : DeliversTo k k₁ [r] message)
    (rest : DeliversTo k₁ k' rs message) (new : r ∉ rs) : DeliversTo k k' (r :: rs) message where
  once := List.nodup_cons.mpr ⟨new, rest.once⟩
  trace := by rw [rest.trace, first.trace]; simp
  appended q hq := by
    rcases List.mem_cons.mp hq with rfl | hmem
    · obtain ⟨pipe, pipe', hpipe, hwrite, hstored⟩ := first.appended q (List.mem_singleton_self q)
      exact ⟨pipe, pipe', hpipe, hwrite, by rwa [rest.others q new]⟩
    -- the first delivery went elsewhere
    have hne : q ∉ [r] := by
      rw [List.mem_singleton]
      rintro rfl
      exact new hmem
    obtain ⟨pipe, pipe', hpipe, hwrite, hstored⟩ := rest.appended q hmem
    exact ⟨pipe, pipe', by rwa [← first.others q hne], hwrite, hstored⟩
  others q hq := by
    obtain ⟨hne, hq⟩ := not_or.mp fun h => hq (List.mem_cons.mpr h)
    exact (rest.others q hq).trans (first.others q (by simpa using hne))

theorem pipeReceiveMessage_deliversTo (h : pipeReceiveMessage k r message = .ok k') :
    DeliversTo k k' [r] message := by
  obtain ⟨pipe, pipe', hr, hwrite, hcases⟩ := pipeReceiveMessage_cases h
  have hothers : ∀ (stored : Pipe) (q : ℕ), q ∉ [r] →
      Function.update k.pipes r (some stored) q = k.pipes q :=
    fun stored q hq => Function.update_of_ne (by simpa using hq) _ _
  rcases hcases with ⟨-, rfl⟩ | ⟨-, b, s, size, bytes, sys, -, -, -, -, rfl, -, -⟩
  · refine ⟨List.nodup_singleton r, by simp [deliveries], fun q hq => ?_, hothers _⟩
    obtain rfl := List.mem_singleton.mp hq
    exact ⟨pipe, pipe', hr, hwrite, .inl (by simp)⟩
  refine ⟨List.nodup_singleton r, by simp [deliveries], fun q hq => ?_, hothers _⟩
  obtain rfl := List.mem_singleton.mp hq
  exact ⟨pipe, pipe', hr, hwrite, .inr (by simp)⟩

/-- The walk along the readers delivers to those that could receive when it began. -/
theorem pipeDeliverAll_deliversTo {rs : List ℕ} (h : pipeDeliverAll k message rs = .ok k')
    (nodup : rs.Nodup) : DeliversTo k k' (rs.filter k.canReceive) message := by
  induction rs generalizing k with
  | nil =>
    obtain rfl := Except.ok.inj h
    exact .none k message
  | cons r rest ih =>
    obtain ⟨hnew, nodup⟩ := List.nodup_cons.mp nodup
    obtain ⟨k₁, hdeliver, hrest⟩ := of_bind h
    obtain ⟨receiver, hload, hdeliver⟩ := of_bind hdeliver
    have hcan : pipeCanReceive receiver = k.canReceive r := by
      simp [PipeSys.canReceive, load_eq_ok hload]
    rw [hcan] at hdeliver
    split at hdeliver
    next hr =>
      have first := pipeReceiveMessage_deliversTo hdeliver
      -- the readers behind this one are as they were
      have hsame : rest.filter k₁.canReceive = rest.filter k.canReceive := by
        refine List.filter_congr fun q hq => ?_
        have hne : q ∉ [r] := by
          rw [List.mem_singleton]
          rintro rfl
          exact hnew hq
        simp only [PipeSys.canReceive, first.others q hne]
      have behind := ih hrest nodup
      rw [hsame] at behind
      rw [List.filter_cons_of_pos hr]
      exact first.cons behind fun hmem => hnew (List.mem_of_mem_filter hmem)
    next hr =>
      cases hdeliver
      rw [List.filter_cons_of_neg hr]
      exact ih hrest nodup

/-! ## Sends -/

theorem DeliversNothing.refl (k : PipeSys) : DeliversNothing k k := ⟨rfl, fun _ => rfl⟩

theorem deliversNothing_blockedSend (rs : List ℕ) (thread : ℕ) (sys : ThreadSys) :
    DeliversNothing k
      (((k.noteSender p rs).modify p (·.setSendingThread (some thread))).withThreads sys) := by
  refine ⟨rfl, fun q => ?_⟩
  by_cases hq : q = p
  · subst hq
    cases hk : k.pipes q <;>
      simp [PipeSys.modify, PipeSys.noteSender, hk, Pipe.ring, Pipe.setSendingThread,
        Pipe.addSenders]
  cases hk : k.pipes q <;>
    simp [PipeSys.modify, PipeSys.noteSender, hk, hq, Pipe.ring, Pipe.addSenders]

/-- A send delivers one copy to each reader that can receive, which are all of them if it is to
all readers. Or it says that it can not, and delivers nothing. -/
theorem objPipeSendMessage_delivers {sendKind : PipeSendKind} {blocking : Bool}
    (nodup : (k.readersOf p).Nodup)
    (h : objPipeSendMessage k (some p) thread sendKind message blocking = .ok (result, k')) :
    (result = .noError ∧ k.isSender p = true ∧
        (sendKind = .sendAll → ∀ r ∈ k.readersOf p, k.canReceive r = true) ∧
        DeliversTo k k' ((k.readersOf p).filter k.canReceive) message) ∨
      (DeliversNothing k k' ∧ ((result = .pipePolarityWrong ∧ k.isSender p = false) ∨
        (sendKind = .sendAll ∧ k.refused (k.readersOf p) ≠ [] ∧
          result = if blocking then .blockedRetry else .pipeReceiversFull))) := by
  rcases objPipeSendMessage_cases h with
    ⟨rfl, ⟨-, hnone⟩ | ⟨rfl, p', pipe, hp', hp, hdir⟩⟩ | ⟨p', pipe, hp', hp, hsender, hcases⟩
  · cases hnone
  · cases hp'
    exact .inr ⟨.refl _, .inl ⟨rfl, by simp [PipeSys.isSender, hp, hdir]⟩⟩
  cases hp'
  have hreaders : pipe.readers = k.readersOf p := by simp [PipeSys.readersOf, hp]
  rw [hreaders] at hcases
  rcases hcases with ⟨hkind, hrefused, hcases⟩ | ⟨rfl, hall, hdeliver⟩
  · rcases hcases with ⟨rfl, rfl, rfl⟩ | ⟨rfl, rfl, sys, rfl, -, -⟩
    · exact .inr ⟨.refl _, .inr ⟨hkind, hrefused, rfl⟩⟩
    · exact .inr ⟨deliversNothing_blockedSend _ thread sys, .inr ⟨hkind, hrefused, rfl⟩⟩
  have hsending : k.isSender p = true := by simp [PipeSys.isSender, hp, hsender]
  exact .inl ⟨rfl, hsending, hall, pipeDeliverAll_deliversTo hdeliver nodup⟩

theorem NetOk.sendAll {blocking : Bool} (ok : NetOk k) (sending : k.isSender p = true)
    (h : objPipeSendMessage k (some p) thread .sendAll message blocking = .ok (result, k')) :
    (result = .noError ∧ DeliversTo k k' (k.readersOf p) message) ∨
      (result = (if blocking then .blockedRetry else .pipeReceiversFull) ∧
        DeliversNothing k k') := by
  rcases objPipeSendMessage_delivers (ok.lists.nodup p) h with ⟨hresult, -, hall, delivers⟩ |
    ⟨nothing, ⟨-, hdir⟩ | ⟨-, -, hresult⟩⟩
  · rw [List.filter_eq_self.mpr (hall rfl)] at delivers
    exact .inl ⟨hresult, delivers⟩
  · simp [sending] at hdir
  · exact .inr ⟨hresult, nothing⟩

theorem NetOk.sendAvailable {blocking : Bool} (ok : NetOk k) (sending : k.isSender p = true)
    (h : objPipeSendMessage k (some p) thread .sendAvailable message blocking = .ok (result, k')) :
    result = .noError ∧ DeliversTo k k' ((k.readersOf p).filter k.canReceive) message := by
  rcases objPipeSendMessage_delivers (ok.lists.nodup p) h with ⟨hresult, -, -, delivers⟩ |
    ⟨-, ⟨-, hdir⟩ | ⟨hkind, -⟩⟩
  · exact ⟨hresult, delivers⟩
  · simp [sending] at hdir
  · cases hkind

/-! ## Repeated sends -/

def PipeCall.keepsPipes : PipeCall → Bool
  | .deletePipe _ => false
  | _ => true

theorem NetOk.isSender_step {c : PipeCall} (ok : NetOk k) (keeps : c.keepsPipes = true)
    (h : c.apply k = .ok (result, k')) (sending : k.isSender p = true) :
    k'.isSender p = true := by
  have dead := ok.fresh _ le_rfl
  cases c with
  | createPipe name direction messageSize messages memory room =>
    rcases objCreatePipe_cases h with rfl | ⟨pipe, sys, reg, -, -, rfl⟩
    · exact sending
    · exact addPipe_any dead _ sending
  | openPipe thread name direction messageSize messages memory room =>
    rcases objOpenPipe_cases h with ⟨rfl, -, -⟩ | ⟨other, otherPipe, pipe, -, -, -, -, -, rfl⟩ |
      ⟨-, -, sys, reg, -, rfl⟩
    · exact sending
    · rw [(sameFrame_link _ _ _ _).isSender]
      exact addPipe_any dead _ sending
    · exact sending
  | sendMessage pipe thread sendKind message block =>
    rcases objPipeSendMessage_cases h with ⟨rfl, -⟩ | ⟨p', pipe, rfl, hp, -, hcases⟩
    · exact sending
    rcases hcases with ⟨-, -, ⟨-, -, rfl⟩ | ⟨-, -, sys, rfl, -, -⟩⟩ | ⟨-, -, hdeliver⟩
    · exact sending
    · rw [(sameLinks_blockedSend thread sys hp).isSender,
        (sameFrame_noteSender _ _ _).isSender]
      exact sending
    rw [(pipeDeliverAll_sameLinks hdeliver).isSender]
    exact sending
  | receiveMessage pipe thread message messageSize maxSize block =>
    rw [(objPipeReceiveMessage_sameLinks h).isSender]
    exact sending
  | deletePipe pipe => cases keeps
  | elsewhere sys =>
    cases h
    exact sending

def newDeliveries (k k' : PipeSys) : List (ℕ × List UInt8) :=
  (deliveries k'.trace).drop (deliveries k.trace).length

/-- `tinker_send_message` on a pipe: the send is repeated as long as the kernel answers
`BLOCKED_RETRY` or `UNKNOWN_ERROR`, and other calls come in between.
`TinkerSendMessage p thread sendKind message block k sent last result` says that the first
attempt is made in `k` and the last one in `last`, that all attempts together have delivered
`sent`, and that the answer is `result`. -/
inductive TinkerSendMessage (p thread : ℕ) (sendKind : PipeSendKind) (message : List UInt8)
    (block : Bool) : PipeSys → List (ℕ × List UInt8) → PipeSys → ReturnT → Prop
  | done {k k' : PipeSys} {result : ReturnT} :
      objPipeSendMessage k (some p) thread sendKind message block = .ok (result, k') →
      result ≠ .blockedRetry ∧ result ≠ .unknownError →
      TinkerSendMessage p thread sendKind message block k (newDeliveries k k') k result
  | again {k k₁ k₂ last : PipeSys} {sent : List (ℕ × List UInt8)} {result result' : ReturnT}
      {calls : List PipeCall} :
      objPipeSendMessage k (some p) thread sendKind message block = .ok (result, k₁) →
      result = .blockedRetry ∨ result = .unknownError →
      Run PipeCall.step (fun _ c => c.keepsPipes = true) k₁ calls k₂ →
      TinkerSendMessage p thread sendKind message block k₂ sent last result' →
      TinkerSendMessage p thread sendKind message block k (newDeliveries k k₁ ++ sent) last result'

def Sending (p : ℕ) (k : PipeSys) : Prop := NetOk k ∧ k.isSender p = true

theorem Sending.step {c : PipeCall} (h : Sending p k) (keeps : c.keepsPipes = true)
    (hstep : c.step k = .ok k') : Sending p k' := by
  obtain ⟨result, happly⟩ := PipeCall.step_eq_ok hstep
  exact ⟨h.1.step happly, h.1.isSender_step keeps happly h.2⟩

/-- Only the last attempt delivers anything. -/
theorem TinkerSendMessage.delivers {sent : List (ℕ × List UInt8)} {last : PipeSys}
    (h : TinkerSendMessage p thread .sendAll message true k sent last result) (ok : NetOk k)
    (sending : k.isSender p = true) :
    result = .noError ∧ (last.readersOf p).Nodup ∧
      sent = (last.readersOf p).map (·, message) := by
  induction h with
  | @done k k' result hsend hdone =>
    rcases ok.sendAll sending hsend with ⟨rfl, delivers⟩ | ⟨rfl, -⟩
    · exact ⟨rfl, delivers.once, by simp [newDeliveries, delivers.trace]⟩
    · exact absurd rfl hdone.1
  | @again k k₁ k₂ last sent result result' calls hsend hretry run _ ih =>
    have hnothing : newDeliveries k k₁ = [] := by
      rcases ok.sendAll sending hsend with ⟨rfl, -⟩ | ⟨-, nothing⟩
      · rcases hretry with h | h <;> cases h
      · simp [newDeliveries, nothing.trace]
    have h₁ : Sending p k₁ := ⟨ok.send hsend,
      ok.isSender_step (c := .sendMessage (some p) thread .sendAll message true) rfl hsend sending⟩
    obtain ⟨ok₂, sending₂⟩ : Sending p k₂ :=
      run.invariant h₁ fun _ _ _ h keeps hstep => h.step keeps hstep
    rw [hnothing, List.nil_append]
    exact ih ok₂ sending₂

/-! ## Runs -/

/-- In every network that has been built without deletions: a send to all readers delivers
exactly one copy to each of them, or says that it can not and delivers nothing; a blocking
`tinker_send_message` to all readers delivers exactly one copy to each reader that is linked
at its last attempt; and a send to the available readers delivers exactly one copy to each
reader that may receive and has a free slot, and leaves every other pipe as it was. -/
theorem broadcast_of_run {calls : List PipeCall} (start : ∀ p, k.pipes p = none)
    (run : Run PipeCall.step (fun _ c => c.keepsPipes = true) k calls k')
    (sending : k'.isSender p = true) (thread : ℕ) (message : List UInt8) :
    (∀ blocking result k'',
      objPipeSendMessage k' (some p) thread .sendAll message blocking = .ok (result, k'') →
        (result = .noError ∧ DeliversTo k' k'' (k'.readersOf p) message) ∨
          (result = (if blocking then .blockedRetry else .pipeReceiversFull) ∧
            DeliversNothing k' k'')) ∧
      (∀ sent last result,
        TinkerSendMessage p thread .sendAll message true k' sent last result →
          result = .noError ∧ (last.readersOf p).Nodup ∧
            sent = (last.readersOf p).map (·, message)) ∧
      ∀ blocking result k'',
        objPipeSendMessage k' (some p) thread .sendAvailable message blocking =
            .ok (result, k'') →
          result = .noError ∧
            DeliversTo k' k'' ((k'.readersOf p).filter k'.canReceive) message := by
  have ok : NetOk k' := by
    refine run.invariant (netOk_of_none start) fun k c k' ok _ hstep => ?_
    obtain ⟨result, happly⟩ := PipeCall.step_eq_ok hstep
    exact ok.step happly
  exact ⟨fun _ _ _ h => ok.sendAll sending h, fun _ _ _ h => h.delivers ok sending,
    fun _ _ _ h => ok.sendAvailable sending h⟩

/-- A pipe with two readers, one of which has room for one message: the first message goes to
both, the second one to neither. -/
theorem broadcast_of_run_twice : ∃ k k₁ k₂ k₃, PipeSys.boot = .ok k ∧
    Run PipeCall.step (fun _ c => c.keepsPipes = true) k
      [.createPipe [97] .send 4 2 none true, .openPipe 1 [97] .receive 4 2 (some 4096) true,
        .openPipe 2 [97] .receive 4 1 (some 8192) true] k₁ ∧
    objPipeSendMessage k₁ (some 0) 3 .sendAll [5] true = .ok (.noError, k₂) ∧
    DeliversTo k₁ k₂ [1, 2] [5] ∧
    objPipeSendMessage k₂ (some 0) 3 .sendAll [6] true = .ok (.blockedRetry, k₃) ∧
    DeliversNothing k₂ k₃ := by
  obtain ⟨k, k₁, start, run, hlast⟩ := exists_run_from PipeSys.boot PipeCall.step
    (fun _ c => c.keepsPipes = true)
    [.createPipe [97] .send 4 2 none true, .openPipe 1 [97] .receive 4 2 (some 4096) true,
      .openPipe 2 [97] .receive 4 1 (some 8192) true]
    (fun k => k.readersOf 0 = [1, 2] ∧ k.isSender 0 ∧
      (objPipeSendMessage k (some 0) 3 .sendAll [5] true).toOption.any fun x =>
        x.1 = .noError ∧ x.2.isSender 0 ∧
          (objPipeSendMessage x.2 (some 0) 3 .sendAll [6] true).toOption.any fun y =>
            y.1 = .blockedRetry) (by decide +kernel)
  obtain ⟨hreaders, hsending, hsend⟩ := of_decide_eq_true hlast
  obtain ⟨⟨result, k₂⟩, hfirst, hsend⟩ := exists_of_any hsend
  obtain ⟨rfl, hsending₂, hsend⟩ := of_decide_eq_true hsend
  obtain ⟨⟨result, k₃⟩, hsecond, hresult⟩ := exists_of_any hsend
  obtain rfl := of_decide_eq_true hresult
  have run₂ : Run PipeCall.step (fun _ c => c.keepsPipes = true) k₁
      [.sendMessage (some 0) 3 .sendAll [5] true] k₂ :=
    .cons rfl (by simp [PipeCall.step, PipeCall.apply, hfirst]) (.nil k₂)
  refine ⟨k, k₁, k₂, k₃, start, run, hfirst, ?_, hsecond, ?_⟩
  · have delivers := (broadcast_of_run (pipes_of_boot start) run hsending 3 [5]).1 _ _ _
      hfirst
    rw [hreaders] at delivers
    rcases delivers with ⟨-, delivers⟩ | ⟨h, -⟩
    · exact delivers
    · cases h
  · have delivers := (broadcast_of_run (pipes_of_boot start) (run.append run₂) hsending₂ 3
      [6]).1 _ _ _ hsecond
    rcases delivers with ⟨h, -⟩ | ⟨-, delivers⟩
    · cases h
    · exact delivers

/-- A pipe created for sending only is opened in both directions. It becomes a reader of the
new pipe and has free slots, but a send to the available readers does not deliver to it. -/
theorem not_deliversTo_free : ∃ k calls k' result k'', (∀ p, k.pipes p = none) ∧
    Run PipeCall.step (fun _ c => c.keepsPipes = true) k calls k' ∧ k'.isSender 1 = true ∧
    objPipeSendMessage k' (some 1) 3 .sendAvailable [5] false = .ok (result, k'') ∧
    ¬ DeliversTo k' k''
      ((k'.readersOf 1).filter fun r => (k'.pipes r).any (0 < ·.rxData.freeMessages)) [5] := by
  obtain ⟨k, k', start, run, hlast⟩ := exists_run_from PipeSys.boot PipeCall.step
    (fun _ c => c.keepsPipes = true)
    [.createPipe [97] .send 4 2 none true, .openPipe 1 [97] .sendReceive 4 2 (some 4096) true]
    (fun k => k.isSender 1 ∧
      ((k.readersOf 1).filter fun r => (k.pipes r).any (0 < ·.rxData.freeMessages)) = [0] ∧
      (objPipeSendMessage k (some 1) 3 .sendAvailable [5] false).toOption.any fun x =>
        x.2.trace = k.trace) (by decide +kernel)
  obtain ⟨hsending, hfree, hsend⟩ := of_decide_eq_true hlast
  obtain ⟨⟨result, k''⟩, hok, htrace⟩ := exists_of_any hsend
  refine ⟨k, _, k', result, k'', pipes_of_boot start, run, hsending,
    hok, fun delivers => ?_⟩
  -- nothing has been copied to any pipe
  have hnone := delivers.trace
  rw [hfree, of_decide_eq_true htrace] at hnone
  simp at hnone

end Tinker
