import Tinker.Objects.Table
import Tinker.Objects.Pipe
import Tinker.Objects.Semaphore
import Tinker.Process.Sections

/-!
# Objects that processes share by name

Pipes, semaphores and shared memory are put into the object table of the process that creates
them, and their process and number into the registry under their name. Another process that opens
the name goes through the table of the creator to the object, and gets an object of its own: a pipe
linked with the other one, a link to the semaphore, or a view of the memory.

What the allocators and the maps answer to an operation is an argument of it. Using an object that
has been freed is a fault.
-/

namespace Tinker

open Tinker.Lib Function

/-! ## The registry -/

@[ext] structure RegistryEntry where
  process : ℕ
  objno : ℕ
  deriving DecidableEq

/-! ## Objects -/

structure Shm where
  process : ℕ
  realAddr : BitVec 32
  virtAddr : BitVec 32
  size : BitVec 32
  clientList : Option (List ℕ)
  /-- `parent_shm`; memory that is not a view has none. -/
  parentShm : Option ℕ
  name : Name

inductive ObjType
  | pipe
  | semaphore
  | sharedMemory
  /-- Any other type, and that of an object which has not been initialised. -/
  | other
  deriving DecidableEq

/-- The part of an object that depends on its type. -/
inductive ObjBody
  | pipe (pipe : Pipe)
  | sema (sema : SemaObj)
  | shm (shm : Shm)
  | other

def ObjBody.type : ObjBody → ObjType
  | pipe _ => .pipe
  | sema _ => .semaphore
  | shm _ => .sharedMemory
  | other => .other

def ObjBody.asPipe : ObjBody → Option Pipe
  | pipe p => some p
  | _ => none

def ObjBody.asSema : ObjBody → Option SemaObj
  | sema x => some x
  | _ => none

def ObjBody.asShm : ObjBody → Option Shm
  | shm x => some x
  | _ => none

/-- An object as `obj_initialise_object` leaves it, and what follows. -/
structure SharedObject where
  objectNumber : ℕ
  body : ObjBody

structure ObjSys extends ThreadSys where
  reg : Registry RegistryEntry
  tables : ℕ → ObjectTable
  memory : ℕ → ProcessMemory
  objects : ℕ → Option SharedObject
  brk : ℕ

structure Answers where
  object : Bool
  memory : Option ℕ
  memSection : Bool
  table : Bool
  /-- Whether `map_put` succeeds on the registry, or on the map of waiting threads. -/
  registry : Bool
  /-- Whether `list_create` and `list_add` succeed on the clients of a shared memory. -/
  clients : Bool

namespace ObjSys

def load (s : ObjSys) (o : ℕ) : Exec SharedObject :=
  match s.objects o with
  | some obj => .ok obj
  | none => .error .badPointer

/-- The casts of pointers to objects, which go by the type in the object: `kind` is what is left
of an object of the type. -/
def objCast {α : Type} (s : ObjSys) (kind : ObjBody → Option α) (o : Option ℕ) :
    Exec (Option (ℕ × α)) :=
  match o with
  | some o => do
    let obj ← s.load o
    return (kind obj.body).map fun x => (o, x)
  | none => return none

/-- Put a new object, which is in the table already, at the next pointer. -/
def addObject (s : ObjSys) (process : ℕ) (table : ObjectTable) (obj : SharedObject) : ObjSys :=
  { s with
    tables := update s.tables process table
    objects := update s.objects s.brk (some obj)
    brk := s.brk + 1 }

def setObject (s : ObjSys) (o : ℕ) (obj : SharedObject) : ObjSys :=
  { s with objects := update s.objects o (some obj) }

def freeObject (s : ObjSys) (o : ℕ) : ObjSys :=
  { s with objects := update s.objects o none }

def setMemory (s : ObjSys) (process : ℕ) (memory : ProcessMemory) : ObjSys :=
  { s with memory := update s.memory process memory }

def register (s : ObjSys) (process : ℕ) (name : Name) (objno : ℕ) (room : Bool) :
    Exec (ReturnT × ObjSys) := do
  let (result, k, reg) ← regsiteryAdd s.toThreadSys s.reg name ⟨process, objno⟩ room
  return (result, { s with toThreadSys := k, reg := reg })

def unregister (s : ObjSys) (name : Name) : ObjSys :=
  { s with reg := (registryRemove s.reg name).2 }

/-! ## Pipes -/

def objCastPipe (s : ObjSys) (o : Option ℕ) : Exec (Option (ℕ × Pipe)) :=
  s.objCast ObjBody.asPipe o

/-- The pipe stays in the table even if its name can not be registered. -/
def objCreatePipe (s : ObjSys) (process : ℕ) (name : Name) (direction : PipeDirection)
    (messageSize messages : ℕ) (answers : Answers) : Exec (ReturnT × Option ℕ × ObjSys) :=
  match pipeCreateSetup name direction messageSize messages answers.memory with
  | some pipe =>
    let no := if answers.object then some s.brk else none
    match objAddObject (s.tables process) no answers.table with
    | .ok (objno, table) => do
      let s := s.addObject process table ⟨objno, .pipe pipe⟩
      let (result, s) ← s.register process name objno answers.registry
      return (result, some objno, s)
    | .error result => return (result, none, s)
  | none => return (.outOfMemory, none, s)

def modifyPipe (s : ObjSys) (o : ℕ) (f : Pipe → Pipe) : ObjSys :=
  match s.objects o with
  | some ⟨objno, .pipe pipe⟩ => s.setObject o ⟨objno, .pipe (f pipe)⟩
  | _ => s

def linkPipes (s : ObjSys) (direction : PipeDirection) (no other : ℕ) : ObjSys :=
  match direction with
  | .send => (s.modifyPipe other (·.addSender no)).modifyPipe no (·.addReader other)
  | .sendReceive =>
    (((s.modifyPipe other (·.addReader no)).modifyPipe other (·.addSender no)).modifyPipe no
      (·.addReader other)).modifyPipe no (·.addSender other)
  | .receive => (s.modifyPipe other (·.addReader no)).modifyPipe no (·.addSender other)
  | .unknown => s

def openPipeOn (s : ObjSys) (process other : ℕ) (otherPipe : Pipe) (name : Name)
    (direction : PipeDirection) (messageSize messages : ℕ) (answers : Answers) :
    ReturnT × Option ℕ × ObjSys :=
  match pipeCheckDirection direction otherPipe with
  | .noError =>
    match pipeOpenSetup name direction messageSize messages answers.memory with
    | some pipe =>
      let no := if answers.object then some s.brk else none
      match objAddObject (s.tables process) no answers.table with
      | .ok (objno, table) =>
        let new := s.addObject process table ⟨objno, .pipe pipe⟩
        (.noError, some objno, new.linkPipes direction s.brk other)
      | .error result => (result, none, s)
    | none => (.outOfMemory, none, s)
  | result => (result, none, s)

/-- The new pipe keeps the name, but is not registered. -/
def objOpenPipe (s : ObjSys) (process thread : ℕ) (name : Name) (direction : PipeDirection)
    (messageSize messages : ℕ) (answers : Answers) : Exec (ReturnT × Option ℕ × ObjSys) :=
  match registryGet s.reg name with
  | .ok entry =>
    match objGetObject (s.tables entry.process) entry.objno with
    | some other => do
      let otherPipe ← s.objCastPipe (some other)
      match otherPipe with
      | some (_, otherPipe) =>
        return s.openPipeOn process other otherPipe name direction messageSize messages answers
      | none => return (.wrongObjType, none, s)
    | none => return (.invalidObject, none, s)
  | .error _ => do
    let (k, reg) ← registryWaitFor s.toThreadSys s.reg thread name answers.registry
    return (.blockedRetry, none, { s with toThreadSys := k, reg := reg })

/-- Only a pipe without a ring is deleted; see `memFreeForeign`. -/
def objDeletePipe (s : ObjSys) (pipe : Option (ℕ × Pipe)) : Exec (ReturnT × ObjSys) :=
  match pipe with
  | some (o, pipe) => do
    let s := s.unregister pipe.name
    memFreeForeign pipe.memoryPtr
    return (.noError, s.freeObject o)
  | none => return (.invalidObject, s)

/-! ## Semaphores -/

def objCastSemaphore (s : ObjSys) (o : Option ℕ) : Exec (Option (ℕ × SemaObj)) :=
  s.objCast ObjBody.asSema o

/-- A failure to register the name is not reported. -/
def objCreateSemaphore (s : ObjSys) (process : ℕ) (name : Name) (initialCount : ℕ)
    (answers : Answers) : Exec (ReturnT × Option ℕ × ObjSys) :=
  if answers.object then
    match objAddObject (s.tables process) (some s.brk) answers.table with
    | .ok (objno, table) => do
      let s := s.addObject process table ⟨objno, .sema (.owner (semaNew name initialCount))⟩
      let (_, s) ← s.register process name objno answers.registry
      return (.noError, some objno, s)
    | .error result => return (result, none, s)
  else return (.outOfMemory, none, s)

def objOpenSemaphore (s : ObjSys) (process : ℕ) (name : Name) (answers : Answers) :
    Exec (ReturnT × Option ℕ × ObjSys) :=
  match registryGet s.reg name with
  | .ok entry =>
    match objGetObject (s.tables entry.process) entry.objno with
    | some other => do
      let otherSema ← s.objCastSemaphore (some other)
      match otherSema with
      | some (otherSema, _) =>
        if answers.object then
          match objAddObject (s.tables process) (some s.brk) answers.table with
          | .ok (objno, table) =>
            return (.noError, some objno,
              s.addObject process table ⟨objno, .sema (.link otherSema)⟩)
          | .error _ => return (.outOfMemory, none, s)
        else return (.outOfMemory, none, s)
      | none => return (.wrongObjType, none, s)
    | none => return (.objectNotInRegistry, none, s)
  | .error _ => return (.objectNotInRegistry, none, s)

def objectDeleteSemaphore (s : ObjSys) (semaphore : Option (ℕ × SemaObj)) : ReturnT × ObjSys :=
  match semaphore with
  | some (o, .owner sema) => (.noError, (s.unregister sema.name).freeObject o)
  | some (o, .link _) => (.noError, s.freeObject o)
  | none => (.invalidObject, s)

/-! ## Shared memory -/

def objCastShm (s : ObjSys) (o : Option ℕ) : Exec (Option (ℕ × Shm)) :=
  s.objCast ObjBody.asShm o

/-- The object is in the table before its memory is mapped, and stays there uninitialised if that
fails. A failure to register the name or to make the list of clients is not reported. -/
def objCreateShm (s : ObjSys) (process : ℕ) (name : Name) (size : BitVec 32)
    (answers : Answers) : Exec (ReturnT × Option ℕ × ObjSys) :=
  if size = 0 then return (.parametersNull, none, s)
  else
    match answers.object, answers.memory with
    | true, some memory =>
      match objAddObject (s.tables process) (some s.brk) answers.table with
      | .ok (objno, table) => do
        let no := s.brk
        let realAddr := BitVec.ofNat 32 memory
        let s := s.addObject process table ⟨0, .other⟩
        let (result, virtAddr, space) ← processAllocateVmem (s.memory process) realAddr size
          .randomAccessMemory .userAccess .readWrite answers.memSection
        let s := s.setMemory process space
        if result = .noError then do
          let clientList := if answers.clients then some [] else none
          let shm : Shm := ⟨process, realAddr, virtAddr, size, clientList, none,
            name.take maxSharedObjectNameLength⟩
          let s := s.setObject no ⟨objno, .shm shm⟩
          let (_, s) ← s.register process name objno answers.registry
          return (.noError, some objno, s)
        else return (.outOfMemory, none, s)
      | .error result => return (result, none, s)
    | _, _ => return (.outOfMemory, none, s)

/-- `list_add` to the list of clients; nothing is added to a list that is not there. -/
def addClient (s : ObjSys) (o client : ℕ) : ObjSys :=
  match s.objects o with
  | some ⟨objno, .shm shm⟩ =>
    s.setObject o ⟨objno, .shm { shm with clientList := shm.clientList.map (· ++ [client]) }⟩
  | _ => s

/-- The second part of `obj_open_shm`, once the other shared memory has been found. Only
`sizeof(name)` bytes of the name are kept, the size of a pointer, and the name is registered
again. -/
def openShmOn (s : ObjSys) (process other : ℕ) (otherShm : Shm) (name : Name)
    (size : BitVec 32) (answers : Answers) : Exec (ReturnT × Option ℕ × ObjSys) :=
  if size = otherShm.size then do
    let (result, virtAddr, space) ← processAllocateVmem (s.memory process) otherShm.realAddr
      otherShm.size .randomAccessMemory .userAccess .readWrite answers.memSection
    let s := s.setMemory process space
    if result = .noError then
      match objAddObject (s.tables process) (some s.brk) answers.table with
      | .ok (objno, table) => do
        let no := s.brk
        let shm : Shm := ⟨process, otherShm.realAddr, virtAddr, size, none, some other,
          name.take 4⟩
        let s := s.addObject process table ⟨objno, .shm shm⟩
        let s := if answers.clients then s.addClient other no else s
        let (_, s) ← s.register process name objno answers.registry
        return (.noError, some objno, s)
      | .error _ => return (.outOfMemory, none, s)
    else return (.outOfMemory, none, s)
  else return (.shmWrongSize, none, s)

def objOpenShm (s : ObjSys) (process : ℕ) (name : Name) (size : BitVec 32) (answers : Answers) :
    Exec (ReturnT × Option ℕ × ObjSys) :=
  if size = 0 then return (.parametersNull, none, s)
  else if answers.object then
    match registryGet s.reg name with
    | .ok entry =>
      match objGetObject (s.tables entry.process) entry.objno with
      | some other => do
        let otherShm ← s.objCastShm (some other)
        match otherShm with
        | some (_, otherShm) => s.openShmOn process other otherShm name size answers
        | none => return (.wrongObjType, none, s)
      | none => return (.invalidObject, none, s)
    | .error _ => return (.objectNotInRegistry, none, s)
  else return (.outOfMemory, none, s)

def freeVmem (s : ObjSys) (shm : Shm) : Exec ObjSys := do
  let space ← processFreeVmem (s.memory shm.process) shm.virtAddr
  return s.setMemory shm.process space

def modifyClients (s : ObjSys) (o : ℕ) (f : List ℕ → List ℕ) : Exec ObjSys := do
  let obj ← s.load o
  match obj.body with
  | .shm shm =>
    return s.setObject o ⟨obj.objectNumber, .shm { shm with clientList := shm.clientList.map f }⟩
  | _ => .error .badPointer

/-- The loop of `obj_delete_shm` that deletes the clients. A client takes itself out of the list,
and the loop then takes out the next one. `size` bounds the number of rounds. -/
def detachClients (delete : ObjSys → ℕ → Exec ObjSys) (o : ℕ) : ℕ → ObjSys → Exec ObjSys
  | 0, s => .ok s
  | size + 1, s => do
    let obj ← s.load o
    match obj.body with
    | .shm ⟨_, _, _, _, some (attached :: _), _, _⟩ => do
      let s ← (if attached ≠ o then delete s attached else pure s)
      let s ← s.modifyClients o List.tail
      detachClients delete o size s
    | _ => return s

/-- `obj_delete_shm`, of an object that is there. `depth` bounds the depth of the recursion: the
clients have no clients of their own. The memory of an owner is a block of the user pool and is
freed to the private one, which does not return; what follows in the source is never reached. -/
def deleteShm : ℕ → ObjSys → ℕ → Exec ObjSys
  | 0, _, _ => .error .diverges
  | depth + 1, s, o => do
    let obj ← s.load o
    match obj.body with
    | .shm shm =>
      match shm.clientList with
      | some clients => do
        let s ← detachClients (deleteShm depth) o clients.length s
        let s ← s.freeVmem shm
        memFreeForeign (some shm.realAddr)
        return (s.unregister shm.name).freeObject o
      | none => do
        let s ← s.freeVmem shm
        match shm.parentShm with
        | some parent => do
          let s ← s.modifyClients parent (·.erase o)
          return s.freeObject o
        | none => return s.freeObject o
    | _ => .error .badPointer

def objDeleteShm (s : ObjSys) (shm : Option (ℕ × Shm)) : Exec (ReturnT × ObjSys) :=
  match shm with
  | some (o, _) => do
    let s ← deleteShm 2 s o
    return (.noError, s)
  | none => return (.invalidObject, s)

/-! ## System calls -/

def syscallDeleteObject (s : ObjSys) (process objno : ℕ) (ret : ReturnT) : ReturnT × ObjSys :=
  if ret = .noError then
    let (ret, table) := objRemoveObject (s.tables process) objno
    (ret, { s with tables := update s.tables process table })
  else (ret, s)

def syscallDeletePipe (s : ObjSys) (process pipeId : ℕ) : Exec (ReturnT × ObjSys) := do
  let pipe ← s.objCastPipe (objGetObject (s.tables process) pipeId)
  let (ret, s) ← s.objDeletePipe pipe
  return s.syscallDeleteObject process pipeId ret

def syscallCloseSema (s : ObjSys) (process semaId : ℕ) : Exec (ReturnT × ObjSys) := do
  let semaObj ← s.objCastSemaphore (objGetObject (s.tables process) semaId)
  let (ret, s) := s.objectDeleteSemaphore semaObj
  return s.syscallDeleteObject process semaId ret

def syscallDestroyShm (s : ObjSys) (process oid : ℕ) : Exec (ReturnT × ObjSys) := do
  let shm ← s.objCastShm (objGetObject (s.tables process) oid)
  let (ret, s) ← s.objDeleteShm shm
  return s.syscallDeleteObject process oid ret

end ObjSys

def ObjSys.boot (k : ThreadSys) (memory : ℕ → ProcessMemory) : ObjSys where
  toThreadSys := k
  reg := registryCreate
  tables := fun _ => objInitialseTable
  memory := memory
  objects := fun _ => none
  brk := 0

def Answers.plenty : Answers := ⟨true, some 0x00100000, true, true, true, true⟩

inductive ObjEvent
  | createPipe (process : ℕ) (name : Name) (direction : PipeDirection) (messageSize messages : ℕ)
      (answers : Answers)
  | openPipe (process thread : ℕ) (name : Name) (direction : PipeDirection)
      (messageSize messages : ℕ) (answers : Answers)
  | createSemaphore (process : ℕ) (name : Name) (initialCount : ℕ) (answers : Answers)
  | openSemaphore (process : ℕ) (name : Name) (answers : Answers)
  | createShm (process : ℕ) (name : Name) (size : BitVec 32) (answers : Answers)
  | openShm (process : ℕ) (name : Name) (size : BitVec 32) (answers : Answers)
  | deletePipe (process pipeId : ℕ)
  | closeSemaphore (process semaId : ℕ)
  | destroyShm (process oid : ℕ)

def ObjEvent.run (s : ObjSys) : ObjEvent → Exec (ReturnT × Option ℕ × ObjSys)
  | createPipe process name direction messageSize messages answers =>
    s.objCreatePipe process name direction messageSize messages answers
  | openPipe process thread name direction messageSize messages answers =>
    s.objOpenPipe process thread name direction messageSize messages answers
  | createSemaphore process name initialCount answers =>
    s.objCreateSemaphore process name initialCount answers
  | openSemaphore process name answers => s.objOpenSemaphore process name answers
  | createShm process name size answers => s.objCreateShm process name size answers
  | openShm process name size answers => s.objOpenShm process name size answers
  | deletePipe process pipeId => do
    let (ret, s) ← s.syscallDeletePipe process pipeId
    return (ret, none, s)
  | closeSemaphore process semaId => do
    let (ret, s) ← s.syscallCloseSema process semaId
    return (ret, none, s)
  | destroyShm process oid => do
    let (ret, s) ← s.syscallDestroyShm process oid
    return (ret, none, s)

end Tinker
