import Tinker.Objects.Broadcast
import Tinker.Objects.PipeFifo

/-!
# The slots of a pipe

What the kernel does not check about the ring of a pipe. The block of memory is to hold all slots:
`obj_create_pipe` computes its size on 32 bits, and `obj_open_pipe` forgets the size words. A
message is to stay inside its slot, but nothing compares its length with the message size of the
reader. And a message that is handed over to a blocked thread is not compared with the size of the
thread's buffer.
-/

namespace Tinker

open Tinker.Lib Exec

variable {k k' : PipeSys} {p r t thread : ℕ} {pipe pipe' : Pipe} {message : List UInt8}
  {result : ReturnT}

/-! ## The size of the block -/

/-- What is left of a number of bytes after rounding up to pages on 32 bits. -/
theorem le_pageRound_iff {n bytes : ℕ} (h : n ≤ bytes) : bytes ≤ pageRound (n % 2 ^ 32) ↔
    n ≤ 2 ^ 32 - 4096 ∧ bytes ≤ (n + 4095) / 4096 * 4096 := by
  unfold pageRound
  omega

section Setup

variable {name : Name} {direction : PipeDirection} {messageSize messages : ℕ}
  {memory : Option ℕ} {room : Bool}

theorem size_of_createSetup (receives : direction = .receive ∨ direction = .sendReceive)
    (h : pipeCreateSetup name direction messageSize messages memory = some pipe) :
    messageSize % 4 = 0 ∧
      pipe.memory.size = pageRound ((messageSize * messages + messages * 4) % 2 ^ 32) := by
  unfold pipeCreateSetup at h
  rcases receives with rfl | rfl <;> cases memory with
  | none => cases h
  | some base =>
    dsimp only at h
    split at h
    next haligned =>
      cases h
      exact ⟨haligned, rfl⟩
    · cases h

theorem size_of_openSetup (receives : direction = .receive ∨ direction = .sendReceive)
    (h : pipeOpenSetup name direction messageSize messages memory = some pipe) :
    pipe.memory.size = pageRound (messageSize * messages % 2 ^ 32) := by
  rcases receives with rfl | rfl <;> cases memory with
  | none => cases h
  | some base =>
    cases h
    rfl

theorem memory_modify {f : Pipe → Pipe} (hf : ∀ pipe, (f pipe).memory = pipe.memory) (q : ℕ) :
    ((k.modify p f).pipes q).map Pipe.memory = (k.pipes q).map Pipe.memory := by
  by_cases hq : q = p
  · subst hq
    cases hk : k.pipes q <;> simp [PipeSys.modify, hk, hf]
  · simp [PipeSys.modify, hq]

theorem memory_pipeLink (k : PipeSys) (direction : PipeDirection) (no other q : ℕ) :
    ((pipeLink k direction no other).pipes q).map Pipe.memory = (k.pipes q).map Pipe.memory := by
  have hreader (k : PipeSys) (p r : ℕ) : ((k.modify p (·.addReader r)).pipes q).map Pipe.memory =
      (k.pipes q).map Pipe.memory := memory_modify (f := (·.addReader r)) (fun _ => rfl) q
  have hsender (k : PipeSys) (p r : ℕ) : ((k.modify p (·.addSender r)).pipes q).map Pipe.memory =
      (k.pipes q).map Pipe.memory := memory_modify (f := (·.addSender r)) (fun _ => rfl) q
  cases direction <;> simp only [pipeLink, hreader, hsender]

/-- The block of a pipe that is created has room for the ring if and only if the number of bytes
and its page fit 32 bits. For a pipe that is opened, the rounding to a page must also make up for
the size words and for a message size that is not a multiple of four. -/
theorem messages_mul_stride_le_iff (receives : direction = .receive ∨ direction = .sendReceive) :
    (objCreatePipe k name direction messageSize messages memory room = .ok (.noError, k') →
      ∃ pipe, k'.pipes k.pipeBrk = some pipe ∧
        (messages * stride messageSize ≤ pipe.memory.size ↔
          messages * (messageSize + 4) ≤ 2 ^ 32 - 4096)) ∧
    (objOpenPipe k t name direction messageSize messages memory room = .ok (.noError, k') →
      ∃ pipe, k'.pipes k.pipeBrk = some pipe ∧
        (messages * stride messageSize ≤ pipe.memory.size ↔
          messages * messageSize ≤ 2 ^ 32 - 4096 ∧
            messages * stride messageSize ≤ (messages * messageSize + 4095) / 4096 * 4096)) := by
  refine ⟨fun h => ?_, fun h => ?_⟩
  · unfold objCreatePipe at h
    split at h
    · next pipe hsetup =>
      obtain ⟨⟨result, sys, reg⟩, -, h⟩ := of_bind h
      cases h
      obtain ⟨haligned, hsize⟩ := size_of_createSetup receives hsetup
      have hstride : stride messageSize = messageSize + 4 := by
        unfold stride alignedSize
        omega
      have hbytes : messageSize * messages + messages * 4 = messages * (messageSize + 4) := by ring
      refine ⟨pipe, by simp [PipeSys.addPipe], ?_⟩
      rw [hsize, hstride, hbytes, le_pageRound_iff le_rfl]
      omega
    · cases h
  · rcases objOpenPipe_cases h with ⟨-, hne, -⟩ |
      ⟨other, otherPipe, pipe, -, -, -, hsetup, -, rfl⟩ | ⟨-, hne, -⟩
    · exact absurd rfl hne
    · have hmemory := memory_pipeLink (k.addPipe pipe) direction k.pipeBrk other k.pipeBrk
      have hnew : (k.addPipe pipe).pipes k.pipeBrk = some pipe := by simp [PipeSys.addPipe]
      rw [hnew, Option.map_some] at hmemory
      obtain ⟨pipe', hpipe', hsame⟩ := Option.map_eq_some_iff.mp hmemory
      refine ⟨pipe', hpipe', ?_⟩
      have hle : messages * messageSize ≤ messages * stride messageSize :=
        Nat.mul_le_mul_left _ ((le_alignedSize messageSize).trans (Nat.le_add_right _ _))
      rw [hsame, size_of_openSetup receives hsetup, Nat.mul_comm messageSize, le_pageRound_iff hle]
    · cases hne

end Setup

/-- Two messages of four bytes fit the page of a pipe that is created. -/
theorem messages_mul_stride_le_two : ∃ k k' pipe, PipeSys.boot = .ok k ∧
    objCreatePipe k [97] .receive 4 2 (some 4096) true = .ok (.noError, k') ∧
    k'.pipes k.pipeBrk = some pipe ∧ 2 * stride 4 ≤ pipe.memory.size := by
  have hcreate : PipeSys.boot.toOption.any fun k =>
      (objCreatePipe k [97] .receive 4 2 (some 4096) true).toOption.any (·.1 = .noError) := by
    decide +kernel
  obtain ⟨k, start, hcreate⟩ := exists_of_any hcreate
  obtain ⟨⟨result, k'⟩, hcreate, hresult⟩ := exists_of_any hcreate
  obtain rfl := of_decide_eq_true hresult
  obtain ⟨pipe, hpipe, hroom⟩ :=
    (messages_mul_stride_le_iff (t := 0) (.inl rfl)).1 hcreate
  exact ⟨k, k', pipe, start, hcreate, hpipe, hroom.mpr (by decide)⟩

/-- A pipe that is opened for one message of 4096 bytes has a block of 4096 bytes, and the slot has
four more. -/
theorem page_lt_stride : ∃ k k₁ k₂ pipe, PipeSys.boot = .ok k ∧
    objCreatePipe k [97] .send 4 1 none true = .ok (.noError, k₁) ∧
    objOpenPipe k₁ 1 [97] .receive 4096 1 (some 8192) true = .ok (.noError, k₂) ∧
    k₂.pipes k₁.pipeBrk = some pipe ∧ pipe.memory.size = 4096 ∧ 1 * stride 4096 = 4100 := by
  have hopen : PipeSys.boot.toOption.any fun k =>
      (objCreatePipe k [97] .send 4 1 none true).toOption.any fun x => x.1 = .noError ∧
        (objOpenPipe x.2 1 [97] .receive 4096 1 (some 8192) true).toOption.any fun y =>
          y.1 = .noError ∧ (y.2.pipes x.2.pipeBrk).any (·.memory.size = 4096) := by
    decide +kernel
  obtain ⟨k, start, hopen⟩ := exists_of_any hopen
  obtain ⟨⟨result, k₁⟩, hcreate, hopen⟩ := exists_of_any hopen
  obtain ⟨rfl, hopen⟩ := of_decide_eq_true hopen
  obtain ⟨⟨result, k₂⟩, hopen, hlast⟩ := exists_of_any hopen
  obtain ⟨rfl, hsize⟩ := of_decide_eq_true hlast
  obtain ⟨pipe, hpipe, hsize⟩ := (Option.any_eq_true _ _).mp hsize
  exact ⟨k, k₁, k₂, pipe, start, hcreate, hopen, hpipe, of_decide_eq_true hsize, rfl⟩

/-! ## Messages in their slots -/

/-- The message is in the slot at the write position, with its size in front of it, and the other
bytes of the block are as they were. -/
structure InSlot (pipe pipe' : Pipe) (message : List UInt8) : Prop where
  small : message.length ≤ pipe.rxData.messageSize
  size : pipe'.memory.read (slotAddr pipe pipe.rxData.writeMsgPosition) 4 =
    .ok (encode32 message.length)
  bytes : pipe'.memory.read (slotAddr pipe pipe.rxData.writeMsgPosition + 4) message.length =
    .ok message
  others : ∀ addr n, addr + n ≤ slotAddr pipe pipe.rxData.writeMsgPosition ∨
    slotAddr pipe pipe.rxData.writeMsgPosition + stride pipe.rxData.messageSize ≤ addr →
    pipe'.memory.read addr n = pipe.memory.read addr n

/-- The reader has got the message, in a slot, or its ring is as it was and the sender is told. -/
def Confined (k k' : PipeSys) (result : ReturnT) (message : List UInt8) (r : ℕ) : Prop :=
  ∀ pipe, k.pipes r = some pipe → ∃ pipe', k'.pipes r = some pipe' ∧
    (((r, message) ∈ newDeliveries k k' ∧ InSlot pipe pipe' message) ∨
      (pipe'.ring = pipe.ring ∧ result ≠ .noError))

/-- The write pointer of the reader is that of its write position. -/
def Placed (k : PipeSys) (r : ℕ) : Prop :=
  ∀ pipe, k.pipes r = some pipe →
    pipe.rxData.writeMsgPtr = slotAddr pipe pipe.rxData.writeMsgPosition

/-- The reader can receive, the message is not larger than its message size, and in the slot at the
write position the message lies in the block of the ring. -/
def Accepts (k : PipeSys) (message : List UInt8) (r : ℕ) : Prop :=
  ∀ pipe, k.pipes r = some pipe →
    pipeCanReceive pipe = true ∧ message.length ≤ pipe.rxData.messageSize ∧
      pipe.memory.Within (slotAddr pipe pipe.rxData.writeMsgPosition) (4 + message.length)

/-- A write that is made at all lies in the block. -/
theorem within_of_pipeWrite (h : pipeWrite pipe message = .ok pipe') :
    pipe.memory.Within pipe.rxData.writeMsgPtr (4 + message.length) := by
  obtain ⟨m₁, h₁, h⟩ := of_bind h
  obtain ⟨m₂, h₂, -⟩ := of_bind h
  have hword := Buffer.within_of_write h₁
  have hbytes := (Buffer.within_write h₁ _ _).mp (Buffer.within_of_write h₂)
  exact ⟨hword.1, by have := hbytes.2; omega⟩

theorem Appended.confined (h : Appended k k' r message)
    (delivered : (r, message) ∈ newDeliveries k k') (placed : Placed k r)
    (accepts : Accepts k message r) : Confined k k' result message r := by
  intro pipe hpipe
  obtain ⟨pipe₁, pipe₂, hr, hwrite, hstored⟩ := h
  cases hpipe.symm.trans hr
  obtain ⟨-, small, -⟩ := accepts pipe hpipe
  have hslot := pipeWrite_slot hwrite small
  rw [placed pipe hpipe] at hslot
  obtain ⟨hsize, hbytes, hothers⟩ := hslot
  -- a hand-over moves the read position only
  rcases hstored with hstored | hstored
  · exact ⟨_, hstored, .inl ⟨delivered, small, hsize, hbytes, hothers⟩⟩
  · exact ⟨_, hstored, .inl ⟨delivered, small, hsize, hbytes, hothers⟩⟩

theorem DeliversNothing.confined (h : DeliversNothing k k') (told : result ≠ .noError) (r : ℕ) :
    Confined k k' result message r := by
  intro pipe hpipe
  have hring := h.rings r
  rw [hpipe, Option.map_some] at hring
  obtain ⟨pipe', hpipe', hsame⟩ := Option.map_eq_some_iff.mp hring
  exact ⟨pipe', hpipe', .inr ⟨hsame, told⟩⟩

theorem DeliversTo.mem_newDeliveries {rs : List ℕ} (h : DeliversTo k k' rs message) :
    (r, message) ∈ newDeliveries k k' ↔ r ∈ rs := by
  simp [newDeliveries, h.trace]

/-- After a send without an error, a reader that is confined has got the message, so it accepts
it. -/
theorem DeliversTo.accepts_of_confined {rs : List ℕ} (h : DeliversTo k k' rs message)
    (placed : Placed k r) (can : r ∈ rs → k.canReceive r = true)
    (confined : Confined k k' .noError message r) : Accepts k message r := by
  intro pipe hpipe
  obtain ⟨pipe', -, ⟨delivered, slot⟩ | ⟨-, told⟩⟩ := confined pipe hpipe
  · have hr := h.mem_newDeliveries.mp delivered
    obtain ⟨pipe₁, pipe₂, hpipe₁, hwrite, -⟩ := h.appended r hr
    cases hpipe.symm.trans hpipe₁
    have hcan := can hr
    have hwithin := within_of_pipeWrite hwrite
    rw [placed pipe hpipe] at hwithin
    exact ⟨by simpa [PipeSys.canReceive, hpipe] using hcan, slot.small, hwithin⟩
  · exact absurd rfl told

/-- A send that returns keeps the message inside one slot of each reader, or leaves the reader alone
and says so, if and only if nothing is delivered (the pipe does not send, or the message is for all
readers and one of them is full) or every reader accepts the message. -/
theorem send_confined_iff {sendKind : PipeSendKind} {blocking : Bool}
    (distinct : (k.readersOf p).Nodup) (placed : ∀ r ∈ k.readersOf p, Placed k r)
    (h : objPipeSendMessage k (some p) thread sendKind message blocking = .ok (result, k')) :
    (∀ r ∈ k.readersOf p, Confined k k' result message r) ↔
      k.isSender p = false ∨ (sendKind = .sendAll ∧ k.refused (k.readersOf p) ≠ []) ∨
        ∀ r ∈ k.readersOf p, Accepts k message r := by
  rcases objPipeSendMessage_delivers distinct h with ⟨rfl, hsender, hall, delivers⟩ |
    ⟨nothing, ⟨rfl, hsender⟩ | ⟨hkind, hrefused, rfl⟩⟩
  · constructor
    · intro confined
      refine .inr (.inr fun r hr => ?_)
      exact delivers.accepts_of_confined (placed r hr) (fun h => (List.mem_filter.mp h).2)
        (confined r hr)
    rintro (hnot | ⟨hkind, hrefused⟩ | accepts) r hr
    · simp [hsender] at hnot
    · exact absurd (PipeSys.refused_eq_nil_iff.mpr (hall hkind)) hrefused
    intro pipe hpipe
    have hmem : r ∈ (k.readersOf p).filter k.canReceive := by
      refine List.mem_filter.mpr ⟨hr, ?_⟩
      simp [PipeSys.canReceive, hpipe, (accepts r hr pipe hpipe).1]
    exact (delivers.appended r hmem).confined (delivers.mem_newDeliveries.mpr hmem) (placed r hr)
      (accepts r hr) pipe hpipe
  · exact iff_of_true (fun r _ => nothing.confined (by decide) r) (.inl hsender)
  · exact iff_of_true (fun r _ => nothing.confined (by split <;> decide) r)
      (.inr (.inl ⟨hkind, hrefused⟩))

def senderPipe : Pipe := pipeNew [] .send 4 1 noMemory none (some [0])

/-- A message of two bytes is sent to a pipe with a message size of four. -/
theorem send_confined_two : ∃ k k', bootFifo = .ok k ∧
    objPipeSendMessage (k.setPipe 1 senderPipe) (some 1) 3 .sendAll [5, 6] true =
      .ok (.noError, k') ∧
    Confined (k.setPipe 1 senderPipe) k' .noError [5, 6] 0 := by
  have hsend : bootFifo.toOption.any fun k => (objPipeSendMessage (k.setPipe 1 senderPipe) (some 1)
      3 .sendAll [5, 6] true).toOption.any (·.1 = .noError) := by decide +kernel
  obtain ⟨k, start, hsend⟩ := exists_of_any hsend
  obtain ⟨⟨result, k'⟩, hsend, hresult⟩ := exists_of_any hsend
  obtain rfl := of_decide_eq_true hresult
  have hreaders : (k.setPipe 1 senderPipe).readersOf 1 = [0] := by simp [PipeSys.readersOf]; rfl
  have hreader : ∀ r ∈ (k.setPipe 1 senderPipe).readersOf 1, (k.setPipe 1 senderPipe).pipes r =
      some (pipeNew [] .receive 4 2 (cleared 4096 4096) (some []) none) := by
    intro r hr
    obtain rfl : r = 0 := by simpa [hreaders] using hr
    rw [PipeSys.setPipe_pipes, Function.update_of_ne (by decide), (bootFifo_pipe start).1]
  refine ⟨k, k', start, hsend, (send_confined_iff (by simp [hreaders]) (fun r hr pipe hpipe => ?_)
    hsend).mpr (.inr (.inr fun r hr pipe hpipe => ?_)) 0 (by simp [hreaders])⟩
  all_goals
    cases (hreader r hr).symm.trans hpipe
    decide

/-- A message of eight bytes is sent to the same pipe: it goes on into the next slot, and the
sender is not told. -/
theorem not_confined_eight : ∃ k k' pipe', bootFifo = .ok k ∧
    objPipeSendMessage (k.setPipe 1 senderPipe) (some 1) 3 .sendAll [1, 2, 3, 4, 9, 9, 9, 9] true =
      .ok (.noError, k') ∧
    k'.pipes 0 = some pipe' ∧ pipe'.rxData.messageSize = 4 ∧
    (cleared 4096 4096).read (slotAddr pipe' 1) 4 = .ok [0, 0, 0, 0] ∧
    pipe'.memory.read (slotAddr pipe' 1) 4 = .ok [9, 9, 9, 9] := by
  have hsend : bootFifo.toOption.any fun k => (objPipeSendMessage (k.setPipe 1 senderPipe) (some 1)
      3 .sendAll [1, 2, 3, 4, 9, 9, 9, 9] true).toOption.any fun x => x.1 = .noError ∧
        (x.2.pipes 0).any fun pipe' => pipe'.rxData.messageSize = 4 ∧ slotAddr pipe' 1 = 4104 ∧
          (pipe'.memory.read (slotAddr pipe' 1) 4).toOption.any (· = [9, 9, 9, 9]) := by
    decide +kernel
  obtain ⟨k, start, hsend⟩ := exists_of_any hsend
  obtain ⟨⟨result, k'⟩, hsend, hlast⟩ := exists_of_any hsend
  obtain ⟨rfl, hlast⟩ := of_decide_eq_true hlast
  obtain ⟨pipe', hpipe', hlast⟩ := (Option.any_eq_true _ _).mp hlast
  obtain ⟨hsize, hslot, hread⟩ := of_decide_eq_true hlast
  obtain ⟨bytes, hread, hbytes⟩ := exists_of_any hread
  obtain rfl := of_decide_eq_true hbytes
  exact ⟨k, k', pipe', start, hsend, hpipe', hsize, by rw [hslot]; rfl, hread⟩

/-! ## Blocking and polling -/

/-- A thread blocks in a receive, and then a message is delivered. -/
def blockThenDeliver (k : PipeSys) (r thread buffer sizeOut maxSize : ℕ) (message : List UInt8) :
    Exec (ReturnT × PipeSys) := do
  let (result, k) ←
    objPipeReceiveMessage k (some r) thread (some buffer) (some sizeOut) maxSize true
  let k ← pipeReceiveMessage k r message
  return (result, k)

/-- A message is delivered, and then a thread receives without blocking. -/
def deliverThenPoll (k : PipeSys) (r thread buffer sizeOut maxSize : ℕ) (message : List UInt8) :
    Exec (ReturnT × PipeSys) := do
  let k ← pipeReceiveMessage k r message
  objPipeReceiveMessage k (some r) thread (some buffer) (some sizeOut) maxSize false

theorem pipeWrite_setBlocked (h : pipeWrite pipe message = .ok pipe') (info : RxBlocked) :
    pipeWrite (pipe.setBlocked info) message = .ok (pipe'.setBlocked info) := by
  obtain ⟨m₁, h₁, h⟩ := of_bind h
  obtain ⟨m₂, h₂, h⟩ := of_bind h
  cases h
  refine bind_of ⟨m₁, h₁, bind_of ⟨m₂, h₂, ?_⟩⟩
  by_cases hlast : pipe.rxData.writeMsgPosition + 1 = pipe.rxData.totalMessages <;>
    simp [Pipe.setBlocked, pipeAdvanceWrite, hlast]

section Poll

variable {buffer sizeOut maxSize : ℕ} (hr : k.pipes r = some pipe)
  (hwrite : pipeWrite pipe message = .ok pipe') (ok : RingOk pipe' [message])

include hr hwrite ok

/-- Whoever blocks on an empty ring gets the next message, however small its buffer is. -/
theorem blockThenDeliver_cases (empty : RingOk pipe [])
    (blocks : (k.threads thread).state.CanBlock)
    (h : blockThenDeliver k r thread buffer sizeOut maxSize message = .ok (result, k')) :
    result = .noError ∧ k'.trace = k.trace ++ [.delivered r message] ++
        [.handedOut r buffer sizeOut message.length message] ∧
      (k'.pipes r).map Pipe.ring = some pipe'.acknowledged.ring := by
  have hfree : pipe.rxData.totalMessages ≤ pipe.rxData.freeMessages := empty.free.ge
  obtain ⟨⟨r₁, k₁⟩, hreceive, h⟩ := of_bind h
  obtain ⟨k₂, hdeliver, h⟩ := of_bind h
  cases h
  obtain rfl := objPipeReceiveMessage_blocks hr empty.receiver hfree hreceive
  rcases objPipeReceiveMessage_cases hreceive with ⟨hne, -⟩ |
    ⟨_, b, s, pipe₀, hp, hb, hs, hpipe₀, -, hcases⟩
  · exact absurd rfl hne
  cases hp
  cases hb
  cases hs
  obtain rfl : pipe = pipe₀ := Option.some.inj (hr.symm.trans hpipe₀)
  rcases hcases with ⟨hlt, -⟩ | ⟨-, -, -, sys, rfl, -, hthreads⟩
  · omega
  obtain ⟨pipe₁, pipe₂, hr₁, hwrite₁, hcases⟩ := pipeReceiveMessage_cases hdeliver
  obtain rfl : pipe.setBlocked ⟨some thread, some buffer, some sizeOut⟩ = pipe₁ := by
    simpa using hr₁
  obtain rfl := Except.ok.inj ((pipeWrite_setBlocked hwrite _).symm.trans hwrite₁)
  rcases hcases with ⟨hnot, -⟩ | ⟨-, b, s, size, bytes, sys', hb, hs, hsize, hbytes, rfl, -, -⟩
  · simp [objThreadIsWaitingOn, Pipe.setBlocked, hthreads, block, blocks] at hnot
  cases hb
  cases hs
  -- what is handed over is the message that has just been written
  obtain rfl : message.length = size := Except.ok.inj (ok.read.1.symm.trans hsize)
  obtain rfl : message = bytes := Except.ok.inj (ok.read.2.symm.trans hbytes)
  refine ⟨rfl, by simp, ?_⟩
  rw [acknowledged_setBlocked]
  simp [Pipe.ring, Pipe.setBlocked]

/-- Whoever comes when the message is there gets it if its buffer is large enough. -/
theorem deliverThenPoll_cases
    (alone : objThreadIsWaitingOn k.toThreadSys pipe'.rxData.blockedInfo.blockedOwner
      (some (.pipe r)) = false)
    (h : deliverThenPoll k r thread buffer sizeOut maxSize message = .ok (result, k')) :
    (maxSize < message.length ∧ result = .parametersOutOfRange) ∨
      (message.length ≤ maxSize ∧ result = .noError ∧ k'.trace = k.trace ++
          [.delivered r message] ++ [.handedOut r buffer sizeOut message.length message] ∧
        (k'.pipes r).map Pipe.ring = some pipe'.acknowledged.ring) := by
  have hfree : pipe'.rxData.freeMessages < pipe'.rxData.totalMessages :=
    Nat.lt_of_succ_le ok.free.le
  obtain ⟨k₁, hdeliver, h⟩ := of_bind h
  obtain ⟨pipe₁, pipe₂, hr₁, hwrite₁, hcases⟩ := pipeReceiveMessage_cases hdeliver
  obtain rfl : pipe = pipe₁ := Option.some.inj (hr.symm.trans hr₁)
  obtain rfl : pipe' = pipe₂ := Except.ok.inj (hwrite.symm.trans hwrite₁)
  rcases hcases with ⟨-, rfl⟩ | ⟨hwait, -⟩
  · obtain ⟨pipe₃, hload, h⟩ := of_bind h
    have hr₃ := PipeSys.load_eq_ok hload
    obtain rfl : pipe' = pipe₃ := by simpa using hr₃
    rw [if_pos ok.receiver, if_pos hfree] at h
    obtain ⟨size, hsize, hcases⟩ := pipeTakeMessage_cases hr₃ h
    obtain rfl : message.length = size := Except.ok.inj (ok.read.1.symm.trans hsize)
    rcases hcases with ⟨hlarge, rfl, -⟩ | ⟨hsmall, rfl, bytes, sys, hbytes, rfl, -, -⟩
    · exact .inl ⟨hlarge, rfl⟩
    obtain rfl : message = bytes := Except.ok.inj (ok.read.2.symm.trans hbytes)
    exact .inr ⟨hsmall, rfl, by simp, by simp⟩
  rw [alone] at hwait
  cases hwait

end Poll

/-- On an empty ring that nobody waits for, blocking before the delivery and polling after it copy
the same bytes and the same size to the receiver, return the same and leave the same ring, if and
only if the message is not larger than the receiver allows. -/
theorem receives_agree_iff {buffer sizeOut maxSize : ℕ} {result₁ result₂ : ReturnT}
    {k₁ k₂ : PipeSys} (hr : k.pipes r = some pipe) (empty : RingOk pipe [])
    (fits : message.length ≤ pipe.rxData.messageSize)
    (alone : objThreadIsWaitingOn k.toThreadSys pipe.rxData.blockedInfo.blockedOwner
      (some (.pipe r)) = false)
    (blocks : (k.threads thread).state.CanBlock)
    (hblock : blockThenDeliver k r thread buffer sizeOut maxSize message = .ok (result₁, k₁))
    (hpoll : deliverThenPoll k r thread buffer sizeOut maxSize message = .ok (result₂, k₂)) :
    (k₁.trace = k₂.trace ∧ result₁ = result₂ ∧
      (k₁.pipes r).map Pipe.ring = (k₂.pipes r).map Pipe.ring) ↔ message.length ≤ maxSize := by
  have hroom : 0 < pipe.rxData.freeMessages := by
    have hfree := empty.free
    have hlt := empty.ring.write_lt
    rw [List.length_nil] at hfree
    omega
  obtain ⟨pipe', hwrite, ok, -, hinfo⟩ := empty.pipeWrite hroom fits
  rw [← hinfo] at alone
  obtain ⟨rfl, htrace, hring⟩ := blockThenDeliver_cases hr hwrite ok empty blocks hblock
  rcases deliverThenPoll_cases hr hwrite ok alone hpoll with
    ⟨hlarge, rfl⟩ | ⟨hsmall, rfl, htrace', hring'⟩
  · refine iff_of_false ?_ (Nat.not_le_of_lt hlarge)
    rintro ⟨-, hresult, -⟩
    cases hresult
  · exact iff_of_true ⟨htrace.trans htrace'.symm, rfl, hring.trans hring'.symm⟩ hsmall

/-- A message of three bytes for a buffer of four. -/
theorem receives_agree_four : ∃ k k₁ k₂, bootFifo = .ok k ∧
    blockThenDeliver k 0 3 300 400 4 [8, 9, 10] = .ok (.noError, k₁) ∧
    deliverThenPoll k 0 3 300 400 4 [8, 9, 10] = .ok (.noError, k₂) ∧ k₁.trace = k₂.trace := by
  have hreturns : bootFifo.toOption.any fun k => (k.threads 3).state.CanBlock ∧
      (blockThenDeliver k 0 3 300 400 4 [8, 9, 10]).toOption.any (·.1 = .noError) ∧
      (deliverThenPoll k 0 3 300 400 4 [8, 9, 10]).toOption.any (·.1 = .noError) := by
    decide +kernel
  obtain ⟨k, start, hreturns⟩ := exists_of_any hreturns
  obtain ⟨blocks, hblock, hpoll⟩ := of_decide_eq_true hreturns
  obtain ⟨⟨result₁, k₁⟩, hblock, hresult₁⟩ := exists_of_any hblock
  obtain rfl := of_decide_eq_true hresult₁
  obtain ⟨⟨result₂, k₂⟩, hpoll, hresult₂⟩ := exists_of_any hpoll
  obtain rfl := of_decide_eq_true hresult₂
  exact ⟨k, k₁, k₂, start, hblock, hpoll, ((receives_agree_iff (bootFifo_pipe start).1
    (ringOk_pipeNew (.inl rfl) (by decide) (by decide) (by decide)) (by decide) rfl blocks hblock
    hpoll).mpr (by decide)).1⟩

/-- A message of three bytes for a buffer of one byte: a thread that blocks gets all of it, and one
that polls is refused. -/
theorem receives_differ_one : ∃ k k₁ k₂, bootFifo = .ok k ∧
    blockThenDeliver k 0 3 300 400 1 [8, 9, 10] = .ok (.noError, k₁) ∧
    handedOutOf 0 k₁.trace = [(3, [8, 9, 10])] ∧
    deliverThenPoll k 0 3 300 400 1 [8, 9, 10] = .ok (.parametersOutOfRange, k₂) ∧
    handedOutOf 0 k₂.trace = [] := by
  have hreturns : bootFifo.toOption.any fun k =>
      ((blockThenDeliver k 0 3 300 400 1 [8, 9, 10]).toOption.any fun x =>
        x.1 = .noError ∧ handedOutOf 0 x.2.trace = [(3, [8, 9, 10])]) ∧
      (deliverThenPoll k 0 3 300 400 1 [8, 9, 10]).toOption.any fun x =>
        x.1 = .parametersOutOfRange ∧ handedOutOf 0 x.2.trace = [] := by
    decide +kernel
  obtain ⟨k, start, hreturns⟩ := exists_of_any hreturns
  obtain ⟨hblock, hpoll⟩ := of_decide_eq_true hreturns
  obtain ⟨⟨result₁, k₁⟩, hblock, hlast₁⟩ := exists_of_any hblock
  obtain ⟨rfl, htrace₁⟩ := of_decide_eq_true hlast₁
  obtain ⟨⟨result₂, k₂⟩, hpoll, hlast₂⟩ := exists_of_any hpoll
  obtain ⟨rfl, htrace₂⟩ := of_decide_eq_true hlast₂
  exact ⟨k, k₁, k₂, start, hblock, htrace₁, hpoll, htrace₂⟩

end Tinker
