import Tinker.Lib.Buffer
import Tinker.Lib.Ring
import Tinker.Objects.Registry

/-!
# Pipes

`obj_pipe.c`. A receiving pipe has a ring of messages in a block of memory, each slot a word with
the size of the message and the message itself; a sending pipe has a list of readers. A thread that
blocks in a call is remembered in one field of the pipe.

The lists of readers and senders are lists here, absent where the pipe has none. What the kernel
copies into the ring of a pipe and out to a receiver is recorded in `trace`.
-/

namespace Tinker

open Tinker.Lib

inductive PipeDirection
  | unknown
  | sendReceive
  | send
  | receive
  deriving DecidableEq, Repr

inductive PipeSendKind
  | sendAll
  | sendAvailable
  deriving DecidableEq, Repr

/-- The thread that blocked in a receive, and where it wants the message and its size. -/
structure RxBlocked where
  blockedOwner : Option ℕ
  message : Option ℕ
  messageSize : Option ℕ
  deriving DecidableEq

structure RxData where
  freeMessages : ℕ
  totalMessages : ℕ
  readMsgPosition : ℕ
  writeMsgPosition : ℕ
  messageSize : ℕ
  blockedInfo : RxBlocked
  readMsgPtr : ℕ
  writeMsgPtr : ℕ
  senders : Option (List ℕ)
  deriving DecidableEq

structure TxData where
  sendingThread : Option ℕ
  readers : Option (List ℕ)
  deriving DecidableEq

structure Pipe where
  direction : PipeDirection
  memory : Buffer
  rxData : RxData
  txData : TxData
  name : Name

/-- What is copied in and out of the ring of a pipe. -/
inductive PipeEvent
  /-- A message has been written to the ring. -/
  | delivered (pipe : ℕ) (message : List UInt8)
  /-- A size and a message have been copied to a receiver. -/
  | handedOut (pipe : ℕ) (buffer sizeOut : ℕ) (size : ℕ) (message : List UInt8)
  /-- Only the size has been copied: the message is too large for the receiver. -/
  | sizeTold (pipe : ℕ) (sizeOut : ℕ) (size : ℕ)
  deriving DecidableEq

structure PipeSys extends ThreadSys where
  reg : Registry ObjRef
  pipes : ℕ → Option Pipe
  pipeBrk : ℕ
  trace : List PipeEvent

namespace Pipe

/-- The readers of a pipe; a list that is not there has no elements. -/
def readers (pipe : Pipe) : List ℕ := pipe.txData.readers.getD []

def senders (pipe : Pipe) : List ℕ := pipe.rxData.senders.getD []

/-- `memory` as a pointer, which is null in a pipe that only sends. -/
def memoryPtr (pipe : Pipe) : Option ℕ :=
  if pipe.memory.base = 0 then none else some pipe.memory.base

/-- `list_add` to the readers; nothing is added to a list that is not there. -/
def addReader (pipe : Pipe) (r : ℕ) : Pipe :=
  { pipe with txData := { pipe.txData with readers := pipe.txData.readers.map (· ++ [r]) } }

def addSender (pipe : Pipe) (p : ℕ) : Pipe :=
  { pipe with rxData := { pipe.rxData with senders := pipe.rxData.senders.map (· ++ [p]) } }

def setBlocked (pipe : Pipe) (info : RxBlocked) : Pipe :=
  { pipe with rxData := { pipe.rxData with blockedInfo := info } }

def setSendingThread (pipe : Pipe) (thread : Option ℕ) : Pipe :=
  { pipe with txData := { pipe.txData with sendingThread := thread } }

end Pipe

namespace PipeSys

def load (k : PipeSys) (p : ℕ) : Exec Pipe :=
  match k.pipes p with
  | some pipe => .ok pipe
  | none => .error .badPointer

def setPipe (k : PipeSys) (p : ℕ) (pipe : Pipe) : PipeSys :=
  { k with pipes := Function.update k.pipes p (some pipe) }

def modify (k : PipeSys) (p : ℕ) (f : Pipe → Pipe) : PipeSys :=
  { k with pipes := Function.update k.pipes p ((k.pipes p).map f) }

def record (k : PipeSys) (e : PipeEvent) : PipeSys := { k with trace := k.trace ++ [e] }

def withThreads (k : PipeSys) (sys : ThreadSys) : PipeSys := { k with toThreadSys := sys }

def withReg (k : PipeSys) (reg : Registry ObjRef) : PipeSys := { k with reg := reg }

end PipeSys

/-! ## The ring of messages -/

def align (a b : ℕ) : ℕ := if a % b = 0 then a else (a + (b - a % b)) % 2 ^ 32

def slotStride (messageSize : ℕ) : ℕ := (align messageSize 4 + 4) % 2 ^ 32

def pipeIsReceiver (pipe : Pipe) : Bool :=
  pipe.direction = .receive ∨ pipe.direction = .sendReceive

def pipeIsSender (pipe : Pipe) : Bool :=
  pipe.direction = .send ∨ pipe.direction = .sendReceive

def pipeCanReceive (pipe : Pipe) : Bool := pipeIsReceiver pipe ∧ pipe.rxData.freeMessages > 0

def pipeAdvanceWrite (rx : RxData) (home : ℕ) : RxData :=
  if rx.writeMsgPosition + 1 = rx.totalMessages then
    { rx with writeMsgPosition := 0, writeMsgPtr := home, freeMessages := rx.freeMessages - 1 }
  else
    { rx with
      writeMsgPosition := rx.writeMsgPosition + 1
      writeMsgPtr := rx.writeMsgPtr + slotStride rx.messageSize
      freeMessages := rx.freeMessages - 1 }

def pipeAdvanceRead (rx : RxData) (home : ℕ) : RxData :=
  if rx.readMsgPosition + 1 = rx.totalMessages then
    { rx with readMsgPosition := 0, readMsgPtr := home, freeMessages := rx.freeMessages + 1 }
  else
    { rx with
      readMsgPosition := rx.readMsgPosition + 1
      readMsgPtr := rx.readMsgPtr + slotStride rx.messageSize
      freeMessages := rx.freeMessages + 1 }

/-- The first part of `pipe_receive_message`: write a message to the ring. -/
def pipeWrite (pipe : Pipe) (message : List UInt8) : Exec Pipe := do
  let memory ← pipe.memory.write pipe.rxData.writeMsgPtr (encode32 message.length)
  let memory ← memory.write (pipe.rxData.writeMsgPtr + 4) message
  return { pipe with memory := memory, rxData := pipeAdvanceWrite pipe.rxData memory.base }

def pipeReadSize (pipe : Pipe) : Exec ℕ := do
  let word ← pipe.memory.read pipe.rxData.readMsgPtr 4
  return decode32 word

def pipeReadMessage (pipe : Pipe) (size : ℕ) : Exec (List UInt8) :=
  pipe.memory.read (pipe.rxData.readMsgPtr + 4) size

/-! ## Delivering and acknowledging -/

/-- The loop of `obj_pipe_received_message`: make the thread that each sender remembers
ready. -/
def pipeNotifySenders (k : PipeSys) : List ℕ → Exec PipeSys
  | [] => .ok k
  | s :: rest => do
    let sender ← k.load s
    let (_, sys) ← objSetThreadReady k.toThreadSys sender.txData.sendingThread
    pipeNotifySenders (k.withThreads sys) rest

def objPipeReceivedMessage (k : PipeSys) (p : ℕ) : Exec PipeSys := do
  let pipe ← k.load p
  let pipe := { pipe with rxData := pipeAdvanceRead pipe.rxData pipe.memory.base }
  pipeNotifySenders (k.setPipe p pipe) pipe.senders

/-- Copy the size and the message at the read position to a receiver. -/
def pipeCopyOut (k : PipeSys) (p : ℕ) (pipe : Pipe) (message messageSize : Option ℕ) :
    Exec PipeSys := do
  let size ← pipeReadSize pipe
  let bytes ← pipeReadMessage pipe size
  match message, messageSize with
  | some buffer, some sizeOut => return k.record (.handedOut p buffer sizeOut size bytes)
  | _, _ => .error .badPointer

/-- The second part of `pipe_receive_message`: the message at the read position goes to the
thread that is blocked on the pipe. -/
def pipeHandOver (k : PipeSys) (r : ℕ) : Exec PipeSys := do
  let receiver ← k.load r
  let info := receiver.rxData.blockedInfo
  let (_, sys) ← objSetThreadReady k.toThreadSys info.blockedOwner
  let k := (k.withThreads sys).setPipe r (receiver.setBlocked { info with blockedOwner := none })
  let k ← pipeCopyOut k r receiver info.message info.messageSize
  let k ← objPipeReceivedMessage k r
  return k.modify r fun pipe =>
    pipe.setBlocked { pipe.rxData.blockedInfo with message := none, messageSize := none }

def pipeReceiveMessage (k : PipeSys) (r : ℕ) (message : List UInt8) : Exec PipeSys := do
  let receiver ← k.load r
  let receiver ← pipeWrite receiver message
  let k := (k.setPipe r receiver).record (.delivered r message)
  if objThreadIsWaitingOn k.toThreadSys receiver.rxData.blockedInfo.blockedOwner
      (some (.pipe r)) then
    pipeHandOver k r
  else
    return k

/-! ## Sending -/

/-- The loop of `pipe_can_send_to_all`. Every reader is looked at, also behind one that can
not receive; when blocking, the pipe is added to the senders of each reader that can not. -/
def pipeCanSendLoop (k : PipeSys) (p : ℕ) (blocking : Bool) :
    List ℕ → Bool → Exec (Bool × PipeSys)
  | [], canSendAll => return (canSendAll, k)
  | r :: rest, canSendAll => do
    let receiver ← k.load r
    let canSendPipe := pipeCanReceive receiver
    let k := if !canSendPipe && blocking then k.modify r (·.addSender p) else k
    pipeCanSendLoop k p blocking rest (if !canSendAll then canSendAll else canSendPipe)

def pipeCanSendToAll (k : PipeSys) (p : ℕ) (blocking : Bool) : Exec (Bool × PipeSys) := do
  let pipe ← k.load p
  pipeCanSendLoop k p blocking pipe.readers true

def pipeCheckSend (k : PipeSys) (p thread : ℕ) (sendKind : PipeSendKind) (block : Bool) :
    Exec (ReturnT × PipeSys) :=
  match sendKind with
  | .sendAvailable => return (.noError, k)
  | .sendAll => do
    let (canSendAll, k) ← pipeCanSendToAll k p block
    if canSendAll then
      return (.noError, k)
    else if block then do
      let k := k.modify p (·.setSendingThread (some thread))
      let (_, sys) ← objSetThreadWaiting k.toThreadSys (some thread) (some (.pipe p))
      return (.blockedRetry, k.withThreads sys)
    else
      return (.pipeReceiversFull, k)

/-- Deliver a message to a reader, if it can receive. -/
def pipeDeliver (k : PipeSys) (message : List UInt8) (r : ℕ) : Exec PipeSys := do
  let receiver ← k.load r
  if pipeCanReceive receiver then pipeReceiveMessage k r message else return k

def pipeDeliverAll (k : PipeSys) (message : List UInt8) : List ℕ → Exec PipeSys
  | [] => .ok k
  | r :: rest => do
    let k ← pipeDeliver k message r
    pipeDeliverAll k message rest

def objPipeSendMessage (k : PipeSys) (pipe : Option ℕ) (thread : ℕ) (sendKind : PipeSendKind)
    (message : List UInt8) (block : Bool) : Exec (ReturnT × PipeSys) :=
  match pipe with
  | some p => do
    let pipe ← k.load p
    if pipeIsSender pipe then do
      let (result, k) ← pipeCheckSend k p thread sendKind block
      if result = .noError then do
        let pipe ← k.load p
        let k ← pipeDeliverAll k message pipe.readers
        return (result, k)
      else
        return (result, k)
    else
      return (.pipePolarityWrong, k)
  | none => return (.invalidObject, k)

/-! ## Receiving -/

/-- The part of `obj_pipe_receive_message` for a ring that is not empty. The size is told
even if the message is then refused. -/
def pipeTakeMessage (k : PipeSys) (p : ℕ) (pipe : Pipe) (message messageSize maxSize : ℕ) :
    Exec (ReturnT × PipeSys) := do
  let size ← pipeReadSize pipe
  if size > maxSize then
    return (.parametersOutOfRange, k.record (.sizeTold p messageSize size))
  else do
    let k ← pipeCopyOut k p pipe (some message) (some messageSize)
    let k ← objPipeReceivedMessage k p
    return (.noError, k)

/-- The part of `obj_pipe_receive_message` for an empty ring. -/
def pipeAwaitMessage (k : PipeSys) (p thread message messageSize : ℕ) (block : Bool) :
    Exec (ReturnT × PipeSys) :=
  if block then do
    let (_, sys) ← objSetThreadWaiting k.toThreadSys (some thread) (some (.pipe p))
    let k := k.withThreads sys
    return (.noError, k.modify p (·.setBlocked ⟨some thread, some message, some messageSize⟩))
  else
    return (.pipeEmpty, k)

def objPipeReceiveMessage (k : PipeSys) (pipe : Option ℕ) (thread : ℕ)
    (message messageSize : Option ℕ) (maxSize : ℕ) (block : Bool) : Exec (ReturnT × PipeSys) :=
  match pipe, message, messageSize with
  | some p, some message, some messageSize => do
    let pipe ← k.load p
    if pipeIsReceiver pipe then
      if pipe.rxData.freeMessages < pipe.rxData.totalMessages then
        pipeTakeMessage k p pipe message messageSize maxSize
      else
        pipeAwaitMessage k p thread message messageSize block
    else
      return (.pipePolarityWrong, k)
  | some _, _, _ => return (.parametersInvalid, k)
  | none, _, _ => return (.invalidObject, k)

/-! ## Creating, opening and deleting -/

/-- The number of bytes rounded up to `MMU_PAGE_SIZE`, on 32 bits. -/
def pageRound (size : ℕ) : ℕ := ((size + 4095) / 4096 * 4096) % 2 ^ 32

def pipeNew (name : Name) (direction : PipeDirection) (messageSize messages : ℕ) (memory : Buffer)
    (senders readers : Option (List ℕ)) : Pipe where
  direction := direction
  memory := memory
  rxData := {
    freeMessages := messages
    totalMessages := messages
    readMsgPosition := 0
    writeMsgPosition := 0
    messageSize := messageSize
    blockedInfo := ⟨none, none, none⟩
    readMsgPtr := memory.base
    writeMsgPtr := memory.base
    senders := senders }
  txData := ⟨none, readers⟩
  name := name.take maxSharedObjectNameLength

def noMemory : Buffer := ⟨0, 0, fun _ => 0⟩

def cleared (base size : ℕ) : Buffer := ⟨base, size, fun _ => 0⟩

/-- The memory and the lists that `obj_create_pipe` sets up; it reports every failure as a
lack of memory. `memory` is what `mem_alloc_aligned` answers; the lists' own `list_create` is taken
to find room. The list of senders is missing if no byte of memory was asked for. -/
def pipeCreateSetup (name : Name) (direction : PipeDirection) (messageSize messages : ℕ)
    (memory : Option ℕ) : Option Pipe :=
  let totalSize := pageRound ((messageSize * messages + messages * 4) % 2 ^ 32)
  let senders := if totalSize > 0 then some [] else none
  match direction, memory with
  | .unknown, _ => none
  | .send, _ => some (pipeNew name .send messageSize messages noMemory none (some []))
  | _, none => none
  | .receive, some base =>
    if messageSize % 4 = 0 then
      some (pipeNew name .receive messageSize messages (cleared base totalSize) senders none)
    else none
  | .sendReceive, some base =>
    if messageSize % 4 = 0 then
      some (pipeNew name .sendReceive messageSize messages (cleared base totalSize) senders
        (some []))
    else none

def PipeSys.addPipe (k : PipeSys) (pipe : Pipe) : PipeSys :=
  { k.setPipe k.pipeBrk pipe with pipeBrk := k.pipeBrk + 1 }

/-- The pipe is there even if its name can not be registered. -/
def objCreatePipe (k : PipeSys) (name : Name) (direction : PipeDirection)
    (messageSize messages : ℕ) (memory : Option ℕ) (room : Bool) : Exec (ReturnT × PipeSys) :=
  match pipeCreateSetup name direction messageSize messages memory with
  | some pipe => do
    let no := k.pipeBrk
    let k := k.addPipe pipe
    let (result, sys, reg) ← regsiteryAdd k.toThreadSys k.reg name (.pipe no) room
    return (result, (k.withThreads sys).withReg reg)
  | none => return (.outOfMemory, k)

def pipeCheckDirection (direction : PipeDirection) (other : Pipe) : ReturnT :=
  match direction with
  | .unknown => .parametersInvalid
  | .send => if pipeIsReceiver other then .noError else .pipePolarityWrong
  | .receive => if pipeIsSender other then .noError else .pipePolarityWrong
  | .sendReceive =>
    if pipeIsReceiver other ∨ pipeIsSender other then .noError else .pipePolarityWrong

/-- The memory and the lists that `obj_open_pipe` sets up, `list_create` finding room as in
`pipeCreateSetup`. The memory has no room for the sizes of the messages. -/
def pipeOpenSetup (name : Name) (direction : PipeDirection) (messageSize messages : ℕ)
    (memory : Option ℕ) : Option Pipe :=
  let totalSize := pageRound ((messageSize * messages) % 2 ^ 32)
  match direction, memory with
  | .unknown, _ => none
  | .send, _ => some (pipeNew name .send messageSize messages noMemory none (some []))
  | _, none => none
  | .receive, some base =>
    some (pipeNew name .receive messageSize messages (cleared base totalSize) (some []) none)
  | .sendReceive, some base =>
    some (pipeNew name .sendReceive messageSize messages (cleared base totalSize) (some [])
      (some []))

/-- The links that `obj_open_pipe` makes between the new pipe and the other one. -/
def pipeLink (k : PipeSys) (direction : PipeDirection) (no other : ℕ) : PipeSys :=
  match direction with
  | .send => (k.modify other (·.addSender no)).modify no (·.addReader other)
  | .sendReceive =>
    (((k.modify other (·.addReader no)).modify other (·.addSender no)).modify no
      (·.addReader other)).modify no (·.addSender other)
  | .receive => (k.modify other (·.addReader no)).modify no (·.addSender other)
  | .unknown => k

/-- The second part of `obj_open_pipe`, once the other pipe has been found. -/
def pipeOpenOn (k : PipeSys) (other : ℕ) (otherPipe : Pipe) (name : Name)
    (direction : PipeDirection) (messageSize messages : ℕ) (memory : Option ℕ) :
    ReturnT × PipeSys :=
  match pipeCheckDirection direction otherPipe with
  | .noError =>
    match pipeOpenSetup name direction messageSize messages memory with
    | some pipe => (.noError, pipeLink (k.addPipe pipe) direction k.pipeBrk other)
    | none => (.outOfMemory, k)
  | result => (result, k)

/-- A thread that opens a name which is not registered waits for it. -/
def objOpenPipe (k : PipeSys) (thread : ℕ) (name : Name) (direction : PipeDirection)
    (messageSize messages : ℕ) (memory : Option ℕ) (room : Bool) : Exec (ReturnT × PipeSys) :=
  match registryGet k.reg name with
  | .ok (.pipe other) =>
    match k.pipes other with
    | some otherPipe =>
      return pipeOpenOn k other otherPipe name direction messageSize messages memory
    | none => return (.invalidObject, k)
  | .ok (.sema _) | .ok (.timer _) | .ok (.shm _) => return (.wrongObjType, k)
  | .error _ => do
    let (sys, reg) ← registryWaitFor k.toThreadSys k.reg thread name room
    return (.blockedRetry, (k.withThreads sys).withReg reg)

/-- The pipe stays in the lists of the pipes it was linked with. A ring is a block of the user pool
and is freed to the private one, so that only a pipe without a ring is deleted. -/
def objDeletePipe (k : PipeSys) (pipe : Option ℕ) : Exec (ReturnT × PipeSys) :=
  match pipe with
  | some p => do
    let pipe ← k.load p
    let k := k.withReg (registryRemove k.reg pipe.name).2
    memFreeForeign pipe.memoryPtr
    return (.noError, { k with pipes := Function.update k.pipes p none })
  | none => return (.invalidObject, k)

end Tinker
