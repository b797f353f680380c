import Tinker.Lib.Run
import Tinker.Objects.PipeSteps

/-!
# Pipes are first in, first out

A receiving pipe keeps its messages in a ring of slots, with a direct way to a blocked receiver.
Whatever is delivered and received in whatever order, the messages come out as they went in.

The block of memory must hold all the slots, and no message may be larger than the pipe's message
size; the kernel checks neither.
-/

namespace Tinker

open Tinker.Lib Exec PipeSys Buffer

/-! ## Slots -/

def alignedSize (messageSize : ℕ) : ℕ := (messageSize + 3) / 4 * 4

/-- The bytes of a slot: the size word and room for the largest message. -/
def stride (messageSize : ℕ) : ℕ := alignedSize messageSize + 4

theorem le_alignedSize (messageSize : ℕ) : messageSize ≤ alignedSize messageSize := by
  unfold alignedSize
  omega

theorem slotStride_eq {messageSize : ℕ} (h : 2 * stride messageSize ≤ 2 ^ 32) :
    slotStride messageSize = stride messageSize := by
  unfold slotStride align
  unfold stride alignedSize at h ⊢
  split <;> omega

def slotAddr (pipe : Pipe) (pos : ℕ) : ℕ :=
  pipe.memory.base + pos * stride pipe.rxData.messageSize

def SlotHolds (pipe : Pipe) (pos : ℕ) (message : List UInt8) : Prop :=
  message.length ≤ pipe.rxData.messageSize ∧
    pipe.memory.read (slotAddr pipe pos) 4 = .ok (encode32 message.length) ∧
    pipe.memory.read (slotAddr pipe pos + 4) message.length = .ok message

/-- The ring of the pipe holds the pending messages, oldest first, and its counters and
pointers agree with that. -/
structure RingOk (pipe : Pipe) (pending : List (List UInt8)) : Prop where
  receiver : pipeIsReceiver pipe = true
  free : pipe.rxData.freeMessages + pending.length = pipe.rxData.totalMessages
  ring : RingHolds (SlotHolds pipe) pipe.rxData.totalMessages pipe.rxData.readMsgPosition
    pipe.rxData.writeMsgPosition pending
  readPtr : pipe.rxData.readMsgPtr = slotAddr pipe pipe.rxData.readMsgPosition
  writePtr : pipe.rxData.writeMsgPtr = slotAddr pipe pipe.rxData.writeMsgPosition
  roomy : pipe.rxData.totalMessages * stride pipe.rxData.messageSize ≤ pipe.memory.size
  /-- The block lies in the address space. -/
  fits : pipe.memory.base + pipe.memory.size ≤ 2 ^ 32
  /-- A thread that is remembered as blocked has said where it wants the message. -/
  remembered : pipe.rxData.blockedInfo.blockedOwner ≠ none →
    pipe.rxData.blockedInfo.message ≠ none ∧ pipe.rxData.blockedInfo.messageSize ≠ none

variable {pipe pipe' : Pipe} {pending : List (List UInt8)} {message : List UInt8}

theorem slots_apart {s p q : ℕ} (h : p ≠ q) : p * s + s ≤ q * s ∨ q * s + s ≤ p * s := by
  rcases Nat.lt_or_gt_of_ne h with h | h
  · left
    calc p * s + s = (p + 1) * s := (Nat.succ_mul p s).symm
      _ ≤ q * s := Nat.mul_le_mul_right s h
  right
  calc q * s + s = (q + 1) * s := (Nat.succ_mul q s).symm
    _ ≤ p * s := Nat.mul_le_mul_right s h

namespace RingOk

theorem slot_end (ok : RingOk pipe pending) {pos : ℕ} (h : pos < pipe.rxData.totalMessages) :
    slotAddr pipe pos + stride pipe.rxData.messageSize ≤
      pipe.memory.base + pipe.memory.size := by
  have hend : (pos + 1) * stride pipe.rxData.messageSize ≤ pipe.memory.size :=
    (Nat.mul_le_mul_right _ h).trans ok.roomy
  rw [Nat.succ_mul] at hend
  unfold slotAddr
  omega

theorem slotStride (ok : RingOk pipe pending) {pos : ℕ}
    (h : pos + 1 < pipe.rxData.totalMessages) :
    Tinker.slotStride pipe.rxData.messageSize = stride pipe.rxData.messageSize := by
  apply slotStride_eq
  have htwo : 2 * stride pipe.rxData.messageSize ≤ pipe.memory.size :=
    (Nat.mul_le_mul_right _ (by omega)).trans ok.roomy
  have := ok.fits
  omega

theorem pipeAdvanceWrite_eq (ok : RingOk pipe pending) :
    pipeAdvanceWrite pipe.rxData pipe.memory.base = { pipe.rxData with
      writeMsgPosition := ringNext pipe.rxData.totalMessages pipe.rxData.writeMsgPosition
      writeMsgPtr := slotAddr pipe (ringNext pipe.rxData.totalMessages pipe.rxData.writeMsgPosition)
      freeMessages := pipe.rxData.freeMessages - 1 } := by
  have hlt := ok.ring.write_lt
  unfold pipeAdvanceWrite ringNext
  split
  · simp [slotAddr]
  rw [ok.slotStride (by omega : pipe.rxData.writeMsgPosition + 1 < _), ok.writePtr]
  simp [slotAddr, Nat.succ_mul, Nat.add_assoc]

theorem pipeAdvanceRead_eq (ok : RingOk pipe pending) :
    pipeAdvanceRead pipe.rxData pipe.memory.base = { pipe.rxData with
      readMsgPosition := ringNext pipe.rxData.totalMessages pipe.rxData.readMsgPosition
      readMsgPtr := slotAddr pipe (ringNext pipe.rxData.totalMessages pipe.rxData.readMsgPosition)
      freeMessages := pipe.rxData.freeMessages + 1 } := by
  have hlt := ok.ring.read_lt
  unfold pipeAdvanceRead ringNext
  split
  · simp [slotAddr]
  rw [ok.slotStride (by omega : pipe.rxData.readMsgPosition + 1 < _), ok.readPtr]
  simp [slotAddr, Nat.succ_mul, Nat.add_assoc]

end RingOk

/-! ## Writing and reading a slot -/

/-- What the ring does not change about a pipe. -/
structure SameShape (pipe pipe' : Pipe) : Prop where
  direction : pipe'.direction = pipe.direction
  totalMessages : pipe'.rxData.totalMessages = pipe.rxData.totalMessages
  messageSize : pipe'.rxData.messageSize = pipe.rxData.messageSize
  base : pipe'.memory.base = pipe.memory.base
  size : pipe'.memory.size = pipe.memory.size

theorem SameShape.refl (pipe : Pipe) : SameShape pipe pipe := ⟨rfl, rfl, rfl, rfl, rfl⟩

theorem SameShape.trans {a b c : Pipe} (h : SameShape a b) (h' : SameShape b c) : SameShape a c :=
  ⟨h'.direction.trans h.direction, h'.totalMessages.trans h.totalMessages,
    h'.messageSize.trans h.messageSize, h'.base.trans h.base, h'.size.trans h.size⟩

theorem SameShape.slotAddr (h : SameShape pipe pipe') (pos : ℕ) :
    slotAddr pipe' pos = Tinker.slotAddr pipe pos := by
  simp only [Tinker.slotAddr, h.base, h.messageSize]

def Pipe.wrote (pipe : Pipe) (memory : Buffer) : Pipe :=
  { pipe with
    memory := memory
    rxData := { pipe.rxData with
      writeMsgPosition := ringNext pipe.rxData.totalMessages pipe.rxData.writeMsgPosition
      writeMsgPtr := slotAddr pipe
        (ringNext pipe.rxData.totalMessages pipe.rxData.writeMsgPosition)
      freeMessages := pipe.rxData.freeMessages - 1 } }

/-- A message that is not too large is written between the write pointer and the end of the slot
there, and can be read back with its size. -/
theorem pipeWrite_slot (h : pipeWrite pipe message = .ok pipe')
    (small : message.length ≤ pipe.rxData.messageSize) :
    pipe'.memory.read pipe.rxData.writeMsgPtr 4 = .ok (encode32 message.length) ∧
      pipe'.memory.read (pipe.rxData.writeMsgPtr + 4) message.length = .ok message ∧
      ∀ addr n, addr + n ≤ pipe.rxData.writeMsgPtr ∨
        pipe.rxData.writeMsgPtr + stride pipe.rxData.messageSize ≤ addr →
        pipe'.memory.read addr n = pipe.memory.read addr n := by
  obtain ⟨m₁, h₁, h⟩ := of_bind h
  obtain ⟨m₂, h₂, h⟩ := of_bind h
  cases h
  have hstride : message.length + 4 ≤ stride pipe.rxData.messageSize :=
    Nat.add_le_add_right (small.trans (le_alignedSize _)) 4
  refine ⟨?_, read_write h₂, fun addr n apart => ?_⟩
  · -- the message is written behind the size word
    rw [read_write_of_disjoint h₂ (.inl le_rfl)]
    exact read_write h₁
  rw [read_write_of_disjoint h₂ (by omega),
    read_write_of_disjoint h₁ (by rw [length_encode32]; omega)]

/-- The write stays inside the slot at the write position, and the slot then reads back the
size and the message. -/
theorem RingOk.exists_wrote (ok : RingOk pipe pending)
    (small : message.length ≤ pipe.rxData.messageSize) :
    ∃ memory, pipeWrite pipe message = .ok (pipe.wrote memory) ∧
      memory.base = pipe.memory.base ∧ memory.size = pipe.memory.size ∧
      memory.read (slotAddr pipe pipe.rxData.writeMsgPosition) 4 = .ok (encode32 message.length) ∧
      memory.read (slotAddr pipe pipe.rxData.writeMsgPosition + 4) message.length = .ok message ∧
      ∀ addr n, addr + n ≤ slotAddr pipe pipe.rxData.writeMsgPosition ∨
        slotAddr pipe pipe.rxData.writeMsgPosition + stride pipe.rxData.messageSize ≤ addr →
        memory.read addr n = pipe.memory.read addr n := by
  have hend := ok.slot_end ok.ring.write_lt
  have hstride : message.length + 4 ≤ stride pipe.rxData.messageSize :=
    Nat.add_le_add_right (small.trans (le_alignedSize _)) 4
  have hbase : pipe.memory.base ≤ slotAddr pipe pipe.rxData.writeMsgPosition :=
    Nat.le_add_right _ _
  have hptr := ok.writePtr
  obtain ⟨m₁, h₁⟩ : ∃ m₁, pipe.memory.write pipe.rxData.writeMsgPtr
      (encode32 message.length) = .ok m₁ :=
    exists_write ⟨by omega, by rw [length_encode32]; omega⟩
  obtain ⟨m₂, h₂⟩ : ∃ m₂, m₁.write (pipe.rxData.writeMsgPtr + 4) message = .ok m₂ :=
    exists_write ((within_write h₁ _ _).mpr ⟨by omega, by omega⟩)
  obtain ⟨hbase₁, hsize₁⟩ := write_block h₁
  obtain ⟨hbase₂, hsize₂⟩ := write_block h₂
  have hwrite : pipeWrite pipe message = .ok (pipe.wrote m₂) := by
    refine bind_of ⟨m₁, h₁, bind_of ⟨m₂, h₂, ?_⟩⟩
    rw [show m₂.base = pipe.memory.base from hbase₂.trans hbase₁, ok.pipeAdvanceWrite_eq]
    rfl
  refine ⟨m₂, hwrite, hbase₂.trans hbase₁, hsize₂.trans hsize₁, ?_⟩
  rw [← hptr]
  exact pipeWrite_slot hwrite small

theorem RingOk.pipeWrite (ok : RingOk pipe pending) (room : 0 < pipe.rxData.freeMessages)
    (small : message.length ≤ pipe.rxData.messageSize) :
    ∃ pipe', Tinker.pipeWrite pipe message = .ok pipe' ∧ RingOk pipe' (pending ++ [message]) ∧
      SameShape pipe pipe' ∧ pipe'.rxData.blockedInfo = pipe.rxData.blockedInfo := by
  obtain ⟨memory, hwrite, hbase, hsize, hword, hbytes, hframe⟩ := ok.exists_wrote small
  have hshape : SameShape pipe (pipe.wrote memory) := ⟨rfl, rfl, rfl, hbase, hsize⟩
  have hfree := ok.free
  have hring : RingHolds (SlotHolds (pipe.wrote memory)) pipe.rxData.totalMessages
      pipe.rxData.readMsgPosition
      (ringNext pipe.rxData.totalMessages pipe.rxData.writeMsgPosition)
      (pending ++ [message]) := by
    refine ok.ring.push (by omega) ?_ ?_
    · -- the other slots are apart from the one written
      rintro pos m - hne ⟨hm, hword', hbytes'⟩
      have hm' : m.length + 4 ≤ stride pipe.rxData.messageSize :=
        Nat.add_le_add_right (hm.trans (le_alignedSize _)) 4
      have hapart := slots_apart (s := stride pipe.rxData.messageSize) hne
      have hw : slotAddr pipe pos + 4 + m.length ≤ slotAddr pipe pipe.rxData.writeMsgPosition ∨
          slotAddr pipe pipe.rxData.writeMsgPosition + stride pipe.rxData.messageSize ≤
            slotAddr pipe pos := by
        unfold slotAddr
        omega
      refine ⟨hm, ?_, ?_⟩ <;> rw [hshape.slotAddr] <;> change memory.read _ _ = _
      · rw [hframe _ _ (by omega), hword']
      · rw [hframe _ _ (by omega), hbytes']
    refine ⟨small, ?_, ?_⟩ <;> rw [hshape.slotAddr]
    · exact hword
    · exact hbytes
  refine ⟨_, hwrite, ⟨ok.receiver, ?_, hring, ?_, ?_, ?_, ?_, ok.remembered⟩, hshape, rfl⟩
  · simp [Pipe.wrote]
    omega
  · exact ok.readPtr.trans (hshape.slotAddr _).symm
  · exact (hshape.slotAddr _).symm
  · exact ok.roomy.trans_eq hsize.symm
  have hfits := ok.fits
  rwa [hbase.symm, hsize.symm] at hfits

theorem RingOk.read (ok : RingOk pipe (message :: pending)) :
    pipeReadSize pipe = .ok message.length ∧
      pipeReadMessage pipe message.length = .ok message := by
  obtain ⟨⟨hsmall, hword, hbytes⟩, -⟩ := ok.ring.pop
  have hlt : message.length < 2 ^ 32 := by
    have hend := ok.slot_end ok.ring.read_lt
    have hfits := ok.fits
    have hle := hsmall.trans (le_alignedSize _)
    unfold stride at hend
    omega
  constructor
  · rw [pipeReadSize, ok.readPtr, hword]
    exact congrArg Except.ok (decode32_encode32 hlt)
  · rw [pipeReadMessage, ok.readPtr, hbytes]

theorem RingOk.acknowledged (ok : RingOk pipe (message :: pending)) :
    RingOk pipe.acknowledged pending ∧ SameShape pipe pipe.acknowledged ∧
      pipe.acknowledged.rxData.blockedInfo = pipe.rxData.blockedInfo := by
  have hfree := ok.free
  rw [List.length_cons] at hfree
  unfold Pipe.acknowledged
  rw [ok.pipeAdvanceRead_eq]
  refine ⟨⟨ok.receiver, ?_, ok.ring.pop.2, rfl, ok.writePtr, ok.roomy, ok.fits, ok.remembered⟩,
    ⟨rfl, rfl, rfl, rfl, rfl⟩, rfl⟩
  dsimp only
  omega

theorem RingOk.setBlocked (ok : RingOk pipe pending) (info : RxBlocked)
    (remembered : info.blockedOwner ≠ none → info.message ≠ none ∧ info.messageSize ≠ none) :
    RingOk (pipe.setBlocked info) pending ∧ SameShape pipe (pipe.setBlocked info) :=
  ⟨⟨ok.receiver, ok.free, ok.ring, ok.readPtr, ok.writePtr, ok.roomy, ok.fits, remembered⟩,
    ⟨rfl, rfl, rfl, rfl, rfl⟩⟩

theorem ringOk_pipeNew {name : Name} {direction : PipeDirection} {messageSize messages : ℕ}
    {memory : Buffer} {senders readers : Option (List ℕ)}
    (receiving : direction = .receive ∨ direction = .sendReceive) (positive : 1 ≤ messages)
    (roomy : messages * stride messageSize ≤ memory.size)
    (fits : memory.base + memory.size ≤ 2 ^ 32) :
    RingOk (pipeNew name direction messageSize messages memory senders readers) [] := by
  refine ⟨?_, rfl, RingHolds.empty positive, ?_, ?_, roomy, fits, fun h => absurd rfl h⟩
  · rcases receiving with rfl | rfl <;> rfl
  · simp [pipeNew, slotAddr]
  · simp [pipeNew, slotAddr]

/-! ## Runs -/

inductive FifoCall
  | deliver (message : List UInt8)
  | receive (thread : ℕ) (message messageSize : Option ℕ) (maxSize : ℕ) (block : Bool)
  | elsewhere (sys : ThreadSys)

def FifoCall.apply (r : ℕ) (k : PipeSys) : FifoCall → Exec PipeSys
  | .deliver message => pipeReceiveMessage k r message
  | .receive thread message messageSize maxSize block => do
    let (_, k) ← objPipeReceiveMessage k (some r) thread message messageSize maxSize block
    return k
  | .elsewhere sys => return k.withThreads sys

/-- A delivery is guarded by `pipe_can_receive`, and the message is not larger than the
message size of the pipe. -/
def FifoCall.Admitted (r : ℕ) (k : PipeSys) : FifoCall → Prop
  | .deliver message => ∀ pipe ∈ k.pipes r, pipeCanReceive pipe = true ∧
      message.length ≤ pipe.rxData.messageSize
  | _ => True

instance FifoCall.decidableAdmitted (r : ℕ) (k : PipeSys) (c : FifoCall) :
    Decidable (c.Admitted r k) := by
  unfold Admitted
  split <;> infer_instance

def deliveredTo (r : ℕ) (trace : List PipeEvent) : List (List UInt8) :=
  trace.filterMap fun
    | .delivered p message => if p = r then some message else none
    | _ => none

def handedOutOf (r : ℕ) (trace : List PipeEvent) : List (ℕ × List UInt8) :=
  trace.filterMap fun
    | .handedOut p _ _ size message => if p = r then some (size, message) else none
    | _ => none

def sized (message : List UInt8) : ℕ × List UInt8 := (message.length, message)

/-- The pipe `r` has the shape of `home` and its ring holds what has been delivered to it and
not yet been handed out. -/
def Fifo (home : Pipe) (r : ℕ) (k : PipeSys) : Prop :=
  ∃ pipe pending, k.pipes r = some pipe ∧ SameShape home pipe ∧ RingOk pipe pending ∧
    (deliveredTo r k.trace).map sized = handedOutOf r k.trace ++ pending.map sized

section Trace

variable {r : ℕ} {trace : List PipeEvent} {b s size : ℕ} {bytes : List UInt8}

@[simp] theorem deliveredTo_delivered :
    deliveredTo r (trace ++ [.delivered r message]) = deliveredTo r trace ++ [message] := by
  simp [deliveredTo]

@[simp] theorem deliveredTo_handedOut {p : ℕ} :
    deliveredTo r (trace ++ [.handedOut p b s size bytes]) = deliveredTo r trace := by
  simp [deliveredTo]

@[simp] theorem deliveredTo_sizeTold {p : ℕ} :
    deliveredTo r (trace ++ [.sizeTold p s size]) = deliveredTo r trace := by
  simp [deliveredTo]

@[simp] theorem handedOutOf_delivered {p : ℕ} :
    handedOutOf r (trace ++ [.delivered p message]) = handedOutOf r trace := by
  simp [handedOutOf]

@[simp] theorem handedOutOf_handedOut :
    handedOutOf r (trace ++ [.handedOut r b s size bytes]) =
      handedOutOf r trace ++ [(size, bytes)] := by
  simp [handedOutOf]

@[simp] theorem handedOutOf_sizeTold {p : ℕ} :
    handedOutOf r (trace ++ [.sizeTold p s size]) = handedOutOf r trace := by
  simp [handedOutOf]

end Trace

namespace Fifo

variable {home : Pipe} {r : ℕ} {k k' : PipeSys}

theorem deliver (fifo : Fifo home r k) (admitted : (FifoCall.deliver message).Admitted r k)
    (h : pipeReceiveMessage k r message = .ok k') : Fifo home r k' := by
  obtain ⟨pipe, pending, hr, hshape, ok, hlog⟩ := fifo
  obtain ⟨hcan, hsmall⟩ := admitted pipe hr
  have hroom : 0 < pipe.rxData.freeMessages := by
    simp only [pipeCanReceive, decide_eq_true_eq] at hcan
    exact hcan.2
  obtain ⟨pipe', hwrite, ok', hshape', -⟩ := ok.pipeWrite hroom hsmall
  obtain ⟨q, q', hq, hq', hcases⟩ := pipeReceiveMessage_cases h
  obtain rfl : pipe = q := Option.some.inj (hr.symm.trans hq)
  obtain rfl : pipe' = q' := Except.ok.inj (hwrite.symm.trans hq')
  rcases hcases with ⟨-, rfl⟩ | ⟨-, b, s, size, bytes, sys, -, -, hsize, hbytes, rfl, -, -⟩
  · refine ⟨pipe', pending ++ [message], by simp, hshape.trans hshape', ok', ?_⟩
    simp [hlog, sized]
  -- the oldest pending message goes to the blocked receiver at once
  obtain ⟨oldest, rest, hpending⟩ : ∃ oldest rest, pending ++ [message] = oldest :: rest :=
    List.exists_cons_of_ne_nil (by simp)
  rw [hpending] at ok'
  obtain ⟨hread, hmessage⟩ := ok'.read
  obtain rfl : oldest.length = size := Except.ok.inj (hread.symm.trans hsize)
  obtain rfl : oldest = bytes := Except.ok.inj (hmessage.symm.trans hbytes)
  obtain ⟨ok'', hshape'', -⟩ := ok'.acknowledged
  obtain ⟨ok₃, hshape₃⟩ := ok''.setBlocked ⟨none, none, none⟩ (by simp)
  refine ⟨_, rest, by simp, ((hshape.trans hshape').trans hshape'').trans hshape₃, ok₃, ?_⟩
  have hall : (pending ++ [message]).map sized = sized oldest :: rest.map sized := by
    rw [hpending, List.map_cons]
  simp only [withThreads_trace, record_trace, setPipe_trace,
    deliveredTo_handedOut, deliveredTo_delivered, handedOutOf_handedOut, handedOutOf_delivered,
    List.map_append, hlog]
  rw [List.append_assoc, ← List.map_append, hall, List.append_assoc]
  rfl

theorem receive {thread maxSize : ℕ} {message messageSize : Option ℕ} {block : Bool}
    {result : ReturnT} (fifo : Fifo home r k)
    (h : objPipeReceiveMessage k (some r) thread message messageSize maxSize block =
      .ok (result, k')) : Fifo home r k' := by
  have hfifo := fifo
  obtain ⟨pipe, pending, hr, hshape, ok, hlog⟩ := fifo
  rcases objPipeReceiveMessage_cases h with
    ⟨-, rfl⟩ | ⟨p, b, s, q, hp, -, -, hq, -, hcases⟩
  · exact hfifo
  cases hp
  obtain rfl : pipe = q := Option.some.inj (hr.symm.trans hq)
  rcases hcases with ⟨hfull, size, hsize, hcases⟩ | ⟨-, -, -, sys, rfl, -, -⟩
  · obtain ⟨oldest, rest, rfl⟩ : ∃ oldest rest, pending = oldest :: rest := by
      refine List.exists_cons_of_ne_nil fun hnil => ?_
      have hfree := ok.free
      rw [hnil, List.length_nil] at hfree
      omega
    rcases hcases with ⟨-, -, rfl⟩ | ⟨-, -, bytes, sys, hbytes, rfl, -, -⟩
    · exact ⟨pipe, oldest :: rest, by simpa using hr, hshape, ok, by simpa using hlog⟩
    obtain ⟨hread, hmessage⟩ := ok.read
    obtain rfl : oldest.length = size := Except.ok.inj (hread.symm.trans hsize)
    obtain rfl : oldest = bytes := Except.ok.inj (hmessage.symm.trans hbytes)
    obtain ⟨ok', hshape', -⟩ := ok.acknowledged
    refine ⟨_, rest, by simp, hshape.trans hshape', ok', ?_⟩
    simp [hlog, sized]
  obtain ⟨ok', hshape'⟩ := ok.setBlocked ⟨some thread, some b, some s⟩ (by simp)
  exact ⟨_, pending, by simp, hshape.trans hshape', ok', by simpa using hlog⟩

/-- Every call on the pipe keeps the order of its messages. -/
theorem step {c : FifoCall} (fifo : Fifo home r k) (admitted : c.Admitted r k)
    (h : c.apply r k = .ok k') : Fifo home r k' := by
  cases c with
  | deliver message => exact fifo.deliver admitted h
  | receive thread message messageSize maxSize block =>
    obtain ⟨⟨result, k₁⟩, hreceive, h⟩ := of_bind h
    cases h
    exact fifo.receive hreceive
  | elsewhere sys =>
    cases h
    exact fifo

end Fifo

/-- Take a receiving pipe as it is initialised, with at least one slot and with memory for
all of them, and let messages be delivered to it and received from it in any order. The
messages handed out, with their sizes, are a prefix of those delivered, and the slots that
are not free are those of the others; both positions are in range, both pointers are where
the positions say, and the next delivery is written inside the memory. -/
theorem fifo_of_run {k k' : PipeSys} {r : ℕ} {name : Name} {direction : PipeDirection}
    {messageSize messages : ℕ} {memory : Buffer} {senders readers : Option (List ℕ)}
    {calls : List FifoCall}
    (created : k.pipes r =
      some (pipeNew name direction messageSize messages memory senders readers))
    (receiving : direction = .receive ∨ direction = .sendReceive)
    (positive : 1 ≤ messages)
    (roomy : messages * (alignedSize messageSize + 4) ≤ memory.size)
    (fits : memory.base + memory.size ≤ 2 ^ 32)
    (quiet : deliveredTo r k.trace = [] ∧ handedOutOf r k.trace = [])
    (run : Run (FifoCall.apply r) (fun k c => c.Admitted r k) k calls k') :
    ∃ (pipe : Pipe) (pending : List (List UInt8)), k'.pipes r = some pipe ∧
      (deliveredTo r k'.trace).map sized = handedOutOf r k'.trace ++ pending.map sized ∧
      pipe.rxData.freeMessages ≤ messages ∧
      pending.length = messages - pipe.rxData.freeMessages ∧
      pipe.rxData.readMsgPosition < messages ∧ pipe.rxData.writeMsgPosition < messages ∧
      pipe.rxData.readMsgPtr =
        memory.base + pipe.rxData.readMsgPosition * (alignedSize messageSize + 4) ∧
      pipe.rxData.writeMsgPtr =
        memory.base + pipe.rxData.writeMsgPosition * (alignedSize messageSize + 4) ∧
      ∀ message, (FifoCall.deliver message).Admitted r k' →
        ∃ pipe', pipeWrite pipe message = .ok pipe' := by
  have start : Fifo (pipeNew name direction messageSize messages memory senders readers) r k := by
    exact ⟨_, [], created, .refl _, ringOk_pipeNew receiving positive roomy fits, by simp [quiet]⟩
  obtain ⟨pipe, pending, hr, hshape, ok, hlog⟩ :=
    run.invariant start fun _ _ _ fifo admitted hstep => fifo.step admitted hstep
  have htotal : pipe.rxData.totalMessages = messages := hshape.totalMessages
  have hfree := ok.free
  have hread := ok.ring.read_lt
  have hwrite := ok.ring.write_lt
  refine ⟨pipe, pending, hr, hlog, by omega, by omega, by omega, by omega, ?_, ?_, ?_⟩
  · rw [ok.readPtr, hshape.slotAddr]
    rfl
  · rw [ok.writePtr, hshape.slotAddr]
    rfl
  · intro message admitted
    obtain ⟨memory', hwrite, -⟩ := ok.exists_wrote (admitted pipe hr).2
    exact ⟨_, hwrite⟩

def bootFifo : Exec PipeSys := do
  let sys ← ThreadSys.boot (fun t => if t = 0 then 0 else 1) [1, 2, 3]
  let pipe := pipeNew [] .receive 4 2 (cleared 4096 4096) (some []) none
  return ⟨sys, registryCreate, Function.update (fun _ => none) 0 (some pipe), 1, []⟩

theorem bootFifo_pipe {k : PipeSys} (start : bootFifo = .ok k) :
    k.pipes 0 = some (pipeNew [] .receive 4 2 (cleared 4096 4096) (some []) none) ∧
      k.trace = [] := by
  cases start
  simp

/-- Four messages go through the ring of two slots: the write position wraps, a receive with
too small a buffer leaves its message, and the last message goes directly to a blocked
thread. -/
theorem fifo_of_run_wraps : ∃ k k' pipe, bootFifo = .ok k ∧
    Run (FifoCall.apply 0) (fun k c => c.Admitted 0 k) k
      [.deliver [1, 2, 3, 4], .deliver [5], .receive 1 (some 100) (some 200) 4 false,
        .deliver [6, 7], .receive 1 (some 100) (some 200) 0 false,
        .receive 2 (some 100) (some 200) 4 true, .receive 2 (some 100) (some 200) 4 true,
        .receive 3 (some 300) (some 400) 4 true, .deliver [8, 9, 10]] k' ∧
    handedOutOf 0 k'.trace = [(4, [1, 2, 3, 4]), (1, [5]), (2, [6, 7]), (3, [8, 9, 10])] ∧
    k'.pipes 0 = some pipe ∧ pipe.rxData.writeMsgPosition < 2 := by
  obtain ⟨k, k', start, run, htrace⟩ := exists_run_from bootFifo (FifoCall.apply 0)
    (fun k c => c.Admitted 0 k)
    [.deliver [1, 2, 3, 4], .deliver [5], .receive 1 (some 100) (some 200) 4 false,
      .deliver [6, 7], .receive 1 (some 100) (some 200) 0 false,
      .receive 2 (some 100) (some 200) 4 true, .receive 2 (some 100) (some 200) 4 true,
      .receive 3 (some 300) (some 400) 4 true, .deliver [8, 9, 10]]
    (fun k => handedOutOf 0 k.trace = [(4, [1, 2, 3, 4]), (1, [5]), (2, [6, 7]), (3, [8, 9, 10])])
    (by decide +kernel)
  obtain ⟨created, quiet⟩ := bootFifo_pipe start
  obtain ⟨pipe, pending, hpipe, -, -, -, -, hwrite, -⟩ := fifo_of_run created (.inl rfl)
    (by decide) (by decide) (by decide) (by rw [quiet]; exact ⟨rfl, rfl⟩) run
  exact ⟨k, k', pipe, start, run, of_decide_eq_true htrace, hpipe, hwrite⟩

end Tinker
