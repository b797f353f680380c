import Tinker.Lib.Ledger
import Tinker.Lib.Run
import Tinker.Objects.Handles
import Tinker.Objects.Shared

/-!
# The memory of objects, by pool

A process has a private pool, from which the kernel allocates its objects, and a user pool for what
the process itself may see. What deletes a pipe or shared memory knows the private pool only. The
ledger follows the blocks of one object and those of its object table; everything else that
allocates and frees is around them.

Pointers of the object are the blocks that are held for their use: none where the pointer is null.
The memory of the registry and the sections of other processes are not followed.
-/

namespace Tinker

open Tinker.Lib Tinker.Collections

inductive PoolId
  | privatePool
  | userPool
  | other (n : ℕ)
  deriving DecidableEq

/-- What a block is for. An object has up to two queues or lists: a pipe has its readers and its
senders, shared memory its clients, a semaphore its listeners and its owners. -/
inductive BlockUse
  | object
  | memory
  | vmem
  | queue (second : Bool)
  | list (second : Bool)
  | node (second : Bool)
  | entry (objno : ObjectNumber)
  | bucket (index : Fin mapBucketCount)
  deriving DecidableEq

def BlockUse.pool : BlockUse → PoolId
  | .memory => .userPool
  | _ => .privatePool

/-- The blocks, the object table, and one object. -/
structure PoolSys extends Ledger PoolId BlockUse where
  table : HashedTable ℕ
  /-- The object, once it has been created. -/
  obj : Option (ObjectNumber × ObjType)
  /-- The items in the lists of the object: a process, if it is another one, and an object. -/
  items : Bool → List (Option ℕ × ℕ)

namespace PoolSys

def withLedger (s : PoolSys) (l : Ledger PoolId BlockUse) : PoolSys := { s with toLedger := l }

/-- `mem_alloc` -/
def memAlloc (s : PoolSys) (pool : PoolId) : Option ℕ × PoolSys :=
  ((s.alloc pool).1, s.withLedger (s.alloc pool).2)

/-- `mem_alloc` of a block for a use. -/
def allocFor (s : PoolSys) (use : BlockUse) : Option ℕ × PoolSys :=
  ((s.toLedger.allocFor use.pool use).1, s.withLedger (s.toLedger.allocFor use.pool use).2)

/-- `mem_free` -/
def memFree (s : PoolSys) (pool : PoolId) (b : ℕ) : PoolSys := s.withLedger (s.free pool b)

/-- `mem_free` of the pointers for a use, to the private pool; a null pointer is ignored. -/
def memFreeAll (s : PoolSys) (use : BlockUse) : PoolSys :=
  s.withLedger (s.release .privatePool use)

/-! ## Lists and queues -/

def listCreate (s : PoolSys) (second : Bool) : Option ℕ × PoolSys := s.allocFor (.list second)

/-- Nothing is added to a list that is not there. -/
def listAdd (s : PoolSys) (second : Bool) (item : Option ℕ × ℕ) : PoolSys :=
  if s.blocks (.list second) ≠ [] then
    match s.allocFor (.node second) with
    | (some _, s) => { s with items := Function.update s.items second (s.items second ++ [item]) }
    | (none, s) => s
  else s

def listRemove (s : PoolSys) (second : Bool) (index : ℕ) : PoolSys :=
  match (s.blocks (.node second))[index]? with
  | some b =>
    { s.withLedger (s.releaseOne .privatePool (.node second) b) with
      items := Function.update s.items second ((s.items second).eraseIdx index) }
  | none => s

def listDelete (s : PoolSys) (second : Bool) : PoolSys :=
  (s.memFreeAll (.node second)).memFreeAll (.list second)

def queueCreate (s : PoolSys) (second : Bool) : PoolSys :=
  match s.allocFor (.queue second) with
  | (some _, s) => (s.listCreate second).2
  | (none, s) => s

def queueDelete (s : PoolSys) (second : Bool) : PoolSys :=
  (s.listDelete second).memFreeAll (.queue second)

/-! ## The object table -/

/-- The bucket that `map_put` uses: a new one is allocated where there is none. -/
def bucketFor (s : PoolSys) (index : Fin mapBucketCount) : Bool × PoolSys :=
  if (s.table.theMap.buckets index).isNone then
    ((s.allocFor (.bucket index)).1.isSome, (s.allocFor (.bucket index)).2)
  else (true, s)

/-- Without memory for the entry a null pointer is cleared. -/
def objAddObject (s : PoolSys) (obj : Option ℕ) :
    Exec (ReturnT × Option ObjectNumber × PoolSys) :=
  match s.table.objAddObject obj with
  | (result, some objno, table) =>
    match s.bucketFor (mapIndexOf s.table.theMap (numberKey objno)) with
    | (true, s) =>
      match s.allocFor (.entry objno) with
      | (some _, s) => .ok (result, some objno, { s with table := table })
      | (none, _) => .error .badPointer
    | (false, s) => .ok (.objectAddFailed, none, s)
  | (result, none, table) => .ok (result, none, { s with table := table })

/-- The bucket goes with its last entry. -/
def objRemoveObject (s : PoolSys) (objno : ObjectNumber) : ReturnT × PoolSys :=
  let index := mapIndexOf s.table.theMap (numberKey objno)
  match s.table.objRemoveObject objno with
  | (.noError, table) =>
    let s := { s.memFreeAll (.entry objno) with table := table }
    (.noError, if (table.theMap.buckets index).isNone then s.memFreeAll (.bucket index) else s)
  | (result, table) => (result, { s with table := table })

end PoolSys

/-! ## Creating an object -/

structure FoundPipe where
  process : Option ℕ
  block : ℕ
  pipe : Pipe

inductive PipeLookup
  | pipe (found : FoundPipe)
  | otherType
  | noObject
  | notRegistered

def processGetMemPool : Option ℕ → PoolId
  | none => .privatePool
  | some n => .other n

/-- The calls that create an object, with what they are told by other parts of the kernel. -/
inductive PoolCall
  | createPipe (direction : PipeDirection) (messageSize messages : ℕ) (registered : ReturnT)
  | openPipe (lookup : PipeLookup) (direction : PipeDirection)
  /-- `vmem` is what `process_allocate_vmem` returns, which takes `pages` page tables. -/
  | createShm (size : BitVec 32) (vmem : ReturnT) (pages : ℕ)
  | createSemaphore

namespace PoolSys

/-- The list of readers. -/
def createSend (s : PoolSys) : ReturnT × PoolSys :=
  match s.listCreate false with
  | (some _, s) => (.noError, s)
  | (none, s) => (.outOfMemory, s)

/-- The memory and the list of senders that `obj_create_pipe` makes for `PIPE_RECEIVE`. -/
def createReceive (s : PoolSys) (messageSize messages : ℕ) (result : ReturnT) :
    ReturnT × PoolSys :=
  let result := if messageSize % 4 ≠ 0 then .pipeMessageSizeNotAligned else result
  if result = .noError then
    match s.allocFor .memory with
    | (some _, s) =>
      if 0 < pageRound ((messageSize * messages + messages * 4) % 2 ^ 32) then
        match s.listCreate true with
        | (some _, s) => (.noError, s)
        | (none, s) => (.outOfMemory, s)
      else (.noError, s)
    | (none, s) => (.outOfMemory, s)
  else (result, s)

/-- The switch of `obj_create_pipe`; `PIPE_SEND_RECEIVE` falls through to `PIPE_RECEIVE`. -/
def createParts (s : PoolSys) (direction : PipeDirection) (messageSize messages : ℕ) :
    ReturnT × PoolSys :=
  match direction with
  | .unknown => (.parametersInvalid, s)
  | .sendReceive => s.createSend.2.createReceive messageSize messages s.createSend.1
  | .receive => s.createReceive messageSize messages .noError
  | .send => s.createSend

/-- The memory and the list of senders. -/
def openReceive (s : PoolSys) (result : ReturnT) : ReturnT × PoolSys :=
  match s.allocFor .memory with
  | (memory, s) =>
    match s.listCreate true with
    | (some _, s) => (if memory.isSome then result else .outOfMemory, s)
    | (none, s) => (.outOfMemory, s)

def openParts (s : PoolSys) (direction : PipeDirection) : ReturnT × PoolSys :=
  match direction with
  | .unknown => (.parametersInvalid, s)
  | .sendReceive => s.createSend.2.openReceive s.createSend.1
  | .receive => s.openReceive .noError
  | .send => s.createSend

/-- Allocate the pipe and enter it in the table. -/
def addPipe (s : PoolSys) : Exec (ReturnT × PoolSys) := do
  match ← (s.allocFor .object).2.objAddObject (s.allocFor .object).1 with
  | (result, some objno, s) => return (result, { s with obj := some (objno, .pipe) })
  | (result, none, s) => return (result, s.memFreeAll .object)

def objCreatePipe (s : PoolSys) (direction : PipeDirection) (messageSize messages : ℕ)
    (registered : ReturnT) : Exec (ReturnT × PoolSys) :=
  match s.createParts direction messageSize messages with
  | (.noError, s) => do
    match ← s.addPipe with
    | (.noError, s) => return (registered, s)
    | (result, s) => return (result, s)
  | (_, s) => return (.outOfMemory, s)

def otherListAdd (s : PoolSys) (found : FoundPipe) (list : Option (List ℕ)) : PoolSys :=
  if list.isSome then (s.memAlloc (processGetMemPool found.process)).2 else s

/-- The links of `obj_open_pipe`. -/
def linkPipes (s : PoolSys) (found : FoundPipe) (direction : PipeDirection) : PoolSys :=
  let item := (found.process, found.block)
  match direction with
  | .send => (s.otherListAdd found found.pipe.rxData.senders).listAdd false item
  | .sendReceive =>
    (((s.otherListAdd found found.pipe.txData.readers).otherListAdd found
      found.pipe.rxData.senders).listAdd false item).listAdd true item
  | .receive => (s.otherListAdd found found.pipe.txData.readers).listAdd true item
  | .unknown => s

def objOpenPipe (s : PoolSys) (lookup : PipeLookup) (direction : PipeDirection) :
    Exec (ReturnT × PoolSys) :=
  match lookup with
  | .pipe found =>
    match pipeCheckDirection direction found.pipe with
    | .noError =>
      match s.openParts direction with
      | (.noError, s) => do
        match ← s.addPipe with
        | (.noError, s) => return (.noError, s.linkPipes found direction)
        | (result, s) => return (result, s)
      | (_, s) => return (.outOfMemory, s)
    | result => return (result, s)
  | .otherType => return (.wrongObjType, s)
  | .noObject => return (.invalidObject, s)
  | .notRegistered => return (.blockedRetry, s)

/-- Allocate page tables. -/
def mapPages (s : PoolSys) : ℕ → PoolSys
  | 0 => s
  | pages + 1 => (s.memAlloc .privatePool).2.mapPages pages

/-- The object, its memory, its section and its list. -/
def objCreateShm (s : PoolSys) (size : BitVec 32) (vmem : ReturnT) (pages : ℕ) :
    Exec (ReturnT × PoolSys) :=
  if size = 0 then return (.parametersNull, s)
  else
    match s.allocFor .object with
    | (some no, s) =>
      match s.allocFor .memory with
      | (some _, s) => do
        match ← s.objAddObject (some no) with
        | (_, some objno, s) =>
          let s := (s.allocFor .vmem).2.mapPages pages
          if vmem = .noError then
            return (.noError, { (s.listCreate false).2 with obj := some (objno, .sharedMemory) })
          else return (.outOfMemory, s)
        | (result, none, s) => return (result, s)
      | (none, s) => return (.outOfMemory, s.memFreeAll .object)
    | (none, s) => return (.outOfMemory, s)

/-- The object and its two queues. -/
def objCreateSemaphore (s : PoolSys) : Exec (ReturnT × PoolSys) :=
  match s.allocFor .object with
  | (some no, s) => do
    match ← s.objAddObject (some no) with
    | (_, some objno, s) =>
      return (.noError, { (s.queueCreate false).queueCreate true with
        obj := some (objno, .semaphore) })
    | (result, none, s) => return (result, s)
  | (none, s) => return (.outOfMemory, s)

/-- Create an object. What is given back from now on is noted. -/
def create (s : PoolSys) (call : PoolCall) : Exec (ReturnT × PoolSys) :=
  let s := { s with frees := [] }
  match call with
  | .createPipe direction messageSize messages registered =>
    s.objCreatePipe direction messageSize messages registered
  | .openPipe lookup direction => s.objOpenPipe lookup direction
  | .createShm size vmem pages => s.objCreateShm size vmem pages
  | .createSemaphore => s.objCreateSemaphore

/-! ## Deleting it -/

/-- Both blocks go to the pool of the pipe, and its lists stay. -/
def objDeletePipe (s : PoolSys) : PoolSys := (s.memFreeAll .memory).memFreeAll .object

/-- The loop of `obj_delete_shm` over its clients. Deleting a client takes it out of the list, and
then the next one is taken out as well. -/
def detachClients : ℕ → PoolSys → PoolSys
  | 0, s => s
  | rounds + 1, s =>
    match s.items false with
    | [] => s
    | client :: _ =>
      detachClients rounds (((s.listRemove false 0).memFree (processGetMemPool client.1)
        client.2).listRemove false 0)

/-- `finds` says whether the section is found. -/
def processFreeVmem (s : PoolSys) (finds : Bool) : PoolSys :=
  if finds then s.memFreeAll .vmem else s

/-- Without a list of clients it is taken for a client itself. -/
def objDeleteShm (s : PoolSys) (finds : Bool) : PoolSys :=
  if s.blocks (.list false) ≠ [] then
    ((((detachClients (s.items false).length s).listDelete false).processFreeVmem finds).memFreeAll
      .memory).memFreeAll .object
  else (s.processFreeVmem finds).memFreeAll .object

/-- The queues and the object. -/
def objectDeleteSemaphore (s : PoolSys) : PoolSys :=
  ((s.queueDelete false).queueDelete true).memFreeAll .object

def deleteObject (s : PoolSys) (finds : Bool) : ObjType → PoolSys
  | .pipe => s.objDeletePipe
  | .sharedMemory => s.objDeleteShm finds
  | .semaphore => s.objectDeleteSemaphore
  | .other => s

/-- The system calls that delete an object, and take its number out of the table. What is given
back from now on is noted. -/
def close (s : PoolSys) (finds : Bool) : ReturnT × PoolSys :=
  let s := { s with frees := [] }
  match s.obj with
  | some (objno, type) =>
    let (result, s) := (s.deleteObject finds type).objRemoveObject objno
    (result, { s with obj := none })
  | none => (.invalidObject, s)

end PoolSys

/-! ## What else may happen -/

/-- The other operations of the kernel, as far as they touch memory. -/
inductive PoolStep
  | alloc (pool : PoolId)
  | free (pool : PoolId) (b : ℕ)
  /-- Another object is added to the table or taken out. -/
  | addObject (obj : ℕ)
  | removeObject (objno : ObjectNumber)
  /-- The lists of the object change. -/
  | listAdd (second : Bool) (item : Option ℕ × ℕ)
  | listRemove (second : Bool) (index : ℕ)

namespace PoolSys

def step (s : PoolSys) : PoolStep → Exec PoolSys
  | .alloc pool => .ok (s.memAlloc pool).2
  | .free pool b => .ok (s.memFree pool b)
  | .addObject obj => do
    let (_, _, s) ← s.objAddObject (some obj)
    return s
  | .removeObject objno => .ok (s.objRemoveObject objno).2
  | .listAdd second item => .ok (s.listAdd second item)
  | .listRemove second index => .ok (s.listRemove second index)

/-- Other operations give back memory of their own only, and do not take the object out of the
table. -/
def OthersOnly (s : PoolSys) : PoolStep → Prop
  | .free _ b => ∀ use, b ∉ s.blocks use
  | .removeObject objno => ∀ objno' type, s.obj = some (objno', type) → objno ≠ objno'
  | _ => True

def start (live : ℕ → Option PoolId) (answers : List (Option ℕ)) (table : HashedTable ℕ) :
    PoolSys where
  live := live
  answers := answers
  blocks _ := []
  frees := []
  table := table
  obj := none
  items _ := []

end PoolSys

end Tinker
