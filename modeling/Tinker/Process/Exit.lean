import Tinker.Collections.MapIterator
import Tinker.Objects.HashedTable

/-!
# The objects of a process that exits

The part of `process_exit` that deletes the objects of a process: a loop over the object table with
an iterator, which deletes the current object, takes its number out of the table and then moves the
iterator on. Most deletions concern one object only; that of a timer which has not fired deletes
the thread of the timer as well. The deletion of a pipe with a ring, or of a shared memory with a
list of clients, does not return: it frees a block of the user pool to the private one.

Of an object, the model has what the clean-up reads and writes. `obj_timer_delete_thread` finds the
table through the thread it has just freed, whose memory still has the pointer.
-/

namespace Tinker

open Tinker.Lib Tinker.Collections

inductive TableObject
  /-- A thread, and whether it has `THREAD_FLAG_TIMER`. -/
  | thread (objno : ObjectNumber) (timer : Bool)
  | semaphore (objno : ObjectNumber)
  | process (objno : ObjectNumber)
  /-- A pipe, and the ring it has unless it only sends. -/
  | pipe (objno : ObjectNumber) (memory : Option ℕ)
  | shm (objno : ObjectNumber) (clientList : Option (List ℕ)) (parentShm : Option ℕ)
  /-- A timer, and whether it has not fired: its callback is still set. -/
  | timer (objno : ObjectNumber) (callback : Bool) (threadObj : Option ℕ)
  deriving DecidableEq

/-- The number that the object has in the table. -/
def TableObject.objno : TableObject → ObjectNumber
  | thread objno _ => objno
  | semaphore objno => objno
  | process objno => objno
  | pipe objno _ => objno
  | shm objno _ _ => objno
  | timer objno _ _ => objno

/-- A process that exits: its object table, the objects in memory, and which of them have been
deleted so far. -/
structure ExitSys where
  table : HashedTable ℕ
  objects : ℕ → Option TableObject
  deleted : List ℕ

namespace ExitSys

def load (s : ExitSys) (o : ℕ) : Exec TableObject :=
  match s.objects o with
  | some obj => .ok obj
  | none => .error .badPointer

def free (s : ExitSys) (o : ℕ) : Exec ExitSys :=
  match s.objects o with
  | some _ =>
    .ok { s with objects := Function.update s.objects o none, deleted := s.deleted ++ [o] }
  | none => .error .badPointer

def removeObject (s : ExitSys) (objno : ObjectNumber) : ExitSys :=
  { s with table := (s.table.objRemoveObject objno).2 }

def modifyClients (s : ExitSys) (o : ℕ) (f : List ℕ → List ℕ) : Exec ExitSys := do
  match ← s.load o with
  | .shm objno clients parent =>
    let obj := TableObject.shm objno (clients.map f) parent
    return { s with objects := Function.update s.objects o (some obj) }
  | _ => .error .badPointer

/-- The loop of `obj_delete_shm` that deletes the clients. A client takes itself out of the list,
and the loop then takes out the next one. `size` bounds the number of rounds. -/
def detachClients (delete : ExitSys → ℕ → Exec ExitSys) (o : ℕ) : ℕ → ExitSys → Exec ExitSys
  | 0, s => .ok s
  | size + 1, s => do
    match ← s.load o with
    | .shm _ (some (attached :: _)) _ => do
      let s ← (if attached ≠ o then delete s attached else pure s)
      let s ← s.modifyClients o List.tail
      detachClients delete o size s
    | _ => return s

/-- `obj_delete_shm`. `depth` bounds the depth of the recursion: the clients have no clients of
their own. The memory of a shared memory is never null. -/
def objDeleteShm : ℕ → ExitSys → ℕ → Exec ExitSys
  | 0, _, _ => .error .diverges
  | depth + 1, s, o => do
    match ← s.load o with
    | .shm _ (some clients) _ => do
      let s ← detachClients (objDeleteShm depth) o clients.length s
      memFreeForeign (some o)
      s.free o
    | .shm _ none (some parent) => do
      let s ← s.modifyClients parent (·.erase o)
      s.free o
    | .shm _ none none => s.free o
    | _ => .error .badPointer

/-- Without a thread object, `process_thread_exit` asserts. -/
def objTimerDeleteThread (s : ExitSys) (threadObj : Option ℕ) : Exec ExitSys :=
  match threadObj with
  | some t => do
    let obj ← s.load t
    let s ← s.free t
    return s.removeObject obj.objno
  | none => .error .halted

/-- The body of the loop of `process_exit`. A thread of a timer is left to its timer. -/
def processObject (s : ExitSys) (o : ℕ) : Exec ExitSys := do
  match ← s.load o with
  | .thread objno timer =>
    if timer then return s
    else do
      let s ← s.free o
      return s.removeObject objno
  | .semaphore objno => do
    let s ← s.free o
    return s.removeObject objno
  | .process objno => do
    let s ← s.free o
    return s.removeObject objno
  | .pipe objno memory => do
    memFreeForeign memory
    let s ← s.free o
    return s.removeObject objno
  | .shm objno _ _ => do
    let s ← objDeleteShm 2 s o
    return s.removeObject objno
  | .timer objno callback threadObj => do
    let s ← (if callback then s.objTimerDeleteThread threadObj else pure s)
    let s ← s.free o
    return s.removeObject objno

/-- The loop of `process_exit`, at an object. -/
def cleanFrom : ℕ → ExitSys → MapIt ℕ → ℕ → Exec ExitSys
  | 0, _, _, _ => .error .diverges
  | fuel + 1, s, it, o => do
    let s ← s.processObject o
    let (next, it) ← mapItNext s.table.theMap it
    match next with
    | some o => cleanFrom fuel s it o
    | none => return s

/-- The part of `process_exit` about the object table: the loop, the assertion that the table is
empty, and the one of `map_delete`. -/
def cleanUp (s : ExitSys) : Exec ExitSys := do
  let it := mapItReset s.table.theMap
  let s ← (match mapItGet it with
    | some o => cleanFrom (mapBucketCount * mapBucketSize) s it o
    | none => pure s)
  if (mapItGet (mapItReset s.table.theMap)).isNone then do
    mapDelete s.table.theMap
    return s
  else .error .halted

end ExitSys

end Tinker
