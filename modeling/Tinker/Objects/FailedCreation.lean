import Tinker.Objects.SharedSteps
import Tinker.Objects.Timer
import Tinker.Process.FreeVmem
import Tinker.Process.Threads

/-!
# What a failed creation leaves behind

The calls that create or open an object, on one state: the object tables and the sections of the
processes, the registry and the alarms.

A call that fails before its object is in the table leaves nothing behind. Behind that point,
`obj_create_pipe`, `obj_create_shm` and `obj_create_timer` do not take the object out again.
`obj_open_shm` maps the memory first, and does not unmap it if the object can not be added.
-/

namespace Tinker

open Tinker.Lib Exec ObjSys ObjectTable

structure CreationSys extends ProcSys where
  alarms : AlarmManager AlarmUser
  timers : ℕ → Option Timer

structure TimerRequest where
  now : TinkerTime
  timeout : TinkerTime
  callback : Option (BitVec 32)
  parameter : BitVec 32
  thread : ThreadRequest
  object : Bool
  /-- Whether `map_put` succeeds on the object table. -/
  table : Bool
  alarm : Bool
  /-- What is in the memory for the identifier of the alarm. -/
  uninitialised : ℕ

namespace CreationSys

/-- The part of `obj_create_timer` behind `proc_create_thread`. -/
def armTimer (s : CreationSys) (no t : ℕ) (threadObj : Option ℕ) (new : TimerRequest) :
    Exec (ReturnT × CreationSys) := do
  let threads := threadSetWaitingOn (threadSetState s.threads t .waiting) t (some (.timer no))
  let sched ← schNotifyPauseThread threads s.sched t
  let (result, alarmId, alarms) :=
    alarmSetAlarm s.alarms new.now new.timeout (.timer no) new.alarm
  let threadObj := threadObj.bind fun o => (s.threadObjs o).map ThreadObject.thread
  let timer := ⟨new.callback, new.parameter, alarmId.getD new.uninitialised, t, threadObj⟩
  return (result, { s with
    threads := threads
    sched := sched
    alarms := alarms
    timers := Function.update s.timers no (some timer) })

/-- `obj_create_timer`, for a process and an object number that are not null; the second result is
what is written to the object number. The timer stays in the table even if its thread or its alarm
can not be had. -/
def objCreateTimer (s : CreationSys) (p : ℕ) (new : TimerRequest) :
    Exec (ReturnT × Option ℕ × CreationSys) :=
  if (new.timeout.seconds ≠ 0 ∨ new.timeout.nanoseconds ≠ 0) ∧ new.callback.isSome then
    if new.object then
      let no := s.brk
      let added := if (s.procs p).hasTable then objAddObject (s.tables p) (some no) new.table
        else .error .parametersInvalid
      match added with
      | .ok (objno, table) => do
        let s := { s with toObjSys := s.addObject p table ⟨objno, .other⟩ }
        let (result, thread, threadObj, sys) ← s.toProcSys.procCreateThread p new.thread
        let s := { s with toProcSys := sys }
        if result = .noError then
          match thread with
          | some t => do
            let (result, s) ← s.armTimer no t threadObj new
            return (result, some objno, s)
          -- the thread could not be allocated, and its pointer is not initialised
          | none => .error .badPointer
        else return (result, none, s)
      | .error result => return (result, none, s)
    else return (.outOfMemory, none, s)
  else return (.parametersInvalid, none, s)

def onObjects (s : CreationSys) (call : ObjSys → Exec (ReturnT × Option ℕ × ObjSys)) :
    Exec (ReturnT × Option ℕ × CreationSys) := do
  let (result, objno, sys) ← call s.toObjSys
  return (result, objno, { s with toObjSys := sys })

end CreationSys

/-- A call that creates or opens an object, by a process. -/
inductive CreateCall
  | createPipe (name : Name) (direction : PipeDirection) (messageSize messages : ℕ)
      (answers : Answers)
  | openPipe (thread : ℕ) (name : Name) (direction : PipeDirection) (messageSize messages : ℕ)
      (answers : Answers)
  | createSemaphore (name : Name) (initialCount : ℕ) (answers : Answers)
  | openSemaphore (name : Name) (answers : Answers)
  | createShm (name : Name) (size : BitVec 32) (answers : Answers)
  | openShm (name : Name) (size : BitVec 32) (answers : Answers)
  | createTimer (new : TimerRequest)

namespace CreateCall

def run (s : CreationSys) (p : ℕ) : CreateCall → Exec (ReturnT × Option ℕ × CreationSys)
  | createPipe name direction messageSize messages answers =>
    s.onObjects (·.objCreatePipe p name direction messageSize messages answers)
  | openPipe thread name direction messageSize messages answers =>
    s.onObjects (·.objOpenPipe p thread name direction messageSize messages answers)
  | createSemaphore name initialCount answers =>
    s.onObjects (·.objCreateSemaphore p name initialCount answers)
  | openSemaphore name answers => s.onObjects (·.objOpenSemaphore p name answers)
  | createShm name size answers => s.onObjects (·.objCreateShm p name size answers)
  | openShm name size answers => s.onObjects (·.objOpenShm p name size answers)
  | createTimer new => s.objCreateTimer p new

def IsOpenPipe : CreateCall → Prop
  | openPipe .. => True
  | _ => False

end CreateCall

/-- The table and the sections of the process, the registry and the alarms have the same
entries. -/
structure CreationSys.NoTrace (s s' : CreationSys) (p : ℕ) : Prop where
  table : (s'.tables p).theMap = (s.tables p).theMap
  sections : (s'.memory p).sections = (s.memory p).sections
  registry : s'.reg.registry = s.reg.registry
  alarms : s'.alarms.alarmList = s.alarms.alarmList

/-- There is memory for an object and a place for it in the table of the process. -/
def ObjSys.Places (s : ObjSys) (p : ℕ) (object table : Bool) : Prop :=
  object ∧ (s.tables p).freeId.isSome ∧ table

/-- The name is that of a shared memory of the size. -/
def ObjSys.SharedUnder (s : ObjSys) (name : Name) (size : BitVec 32) : Prop :=
  ∃ entry other x, registryGet s.reg name = .ok entry ∧
    objGetObject (s.tables entry.process) entry.objno = some other ∧
    s.shmAt other = some x ∧ x.size = size

/-- The call does not come to the point where it leaves something behind when it fails: its object
can not be added to the table; or, if shared memory is opened, it is not mapped. -/
def CreateCall.Clean (s : CreationSys) (p : ℕ) : CreateCall → Prop
  | createPipe name direction messageSize messages answers =>
    ¬ ((pipeCreateSetup name direction messageSize messages answers.memory).isSome ∧
      s.Places p answers.object answers.table)
  | openPipe .. | createSemaphore .. | openSemaphore .. => True
  | createShm _ size answers =>
    ¬ (size ≠ 0 ∧ answers.memory.isSome ∧ s.Places p answers.object answers.table)
  | openShm name size answers =>
    ¬ (size ≠ 0 ∧ answers.object ∧ s.SharedUnder name size ∧ answers.memSection ∧
      (s.memory p).sections ≠ [])
  | createTimer new =>
    ¬ ((new.timeout.seconds ≠ 0 ∨ new.timeout.nanoseconds ≠ 0) ∧ new.callback.isSome ∧
      (s.procs p).hasTable ∧ s.Places p new.object new.table)

/-! ## Calls that fail at the object table -/

namespace ObjSys

variable {s s' : ObjSys} {p : ℕ} {name : Name} {answers : Answers} {r : ReturnT}
  {objno : Option ℕ}

theorem objAddObject_cases (s : ObjSys) (p a : ℕ) (object table : Bool) :
    (s.Places p object table ∧ ∃ id, (s.tables p).freeId = some id ∧
      objAddObject (s.tables p) (if object then some a else none) table =
        .ok (id, ⟨Function.update (s.tables p).theMap id (some a), id + 1⟩)) ∨
    (¬ s.Places p object table ∧
      ∃ r, objAddObject (s.tables p) (if object then some a else none) table = .error r) := by
  cases hadd : objAddObject (s.tables p) (if object then some a else none) table with
  | ok found =>
    obtain ⟨id, t⟩ := found
    obtain ⟨a', ha, hfree, hroom, rfl⟩ := objAddObject_eq_ok.mp hadd
    split at ha
    next hobject =>
      cases ha
      exact .inl ⟨⟨hobject, Option.isSome_of_eq_some hfree, hroom⟩, id, hfree, rfl⟩
    · cases ha
  | error result =>
    refine .inr ⟨?_, result, rfl⟩
    rintro ⟨hobject, hfree, hroom⟩
    obtain ⟨id, hid⟩ := Option.isSome_iff_exists.mp hfree
    rw [objAddObject_eq_ok.mpr ⟨a, if_pos hobject, hid, hroom, rfl⟩] at hadd
    cases hadd

/-- The call has left an object in the table; or it is clean, and nothing has changed. -/
def Leaves (s s' : ObjSys) (p : ℕ) (clean : Prop) : Prop :=
  (clean ∧ s' = s) ∨
    (¬ clean ∧ ∃ id, (s.tables p).theMap id = none ∧ (s'.tables p).theMap id ≠ none)

theorem objCreatePipe_leaves {direction : PipeDirection} {messageSize messages : ℕ}
    (h : s.objCreatePipe p name direction messageSize messages answers = .ok (r, objno, s')) :
    s.Leaves s' p
      (¬ ((pipeCreateSetup name direction messageSize messages answers.memory).isSome ∧
        s.Places p answers.object answers.table)) := by
  unfold objCreatePipe at h
  cases hsetup : pipeCreateSetup name direction messageSize messages answers.memory with
  | none =>
    rw [hsetup] at h
    cases h
    exact .inl ⟨fun hclean => (by cases hclean.1), rfl⟩
  | some pipe =>
    rw [hsetup] at h
    dsimp only at h
    rcases objAddObject_cases s p s.brk answers.object answers.table with
      ⟨hplaces, id, hfree, hadd⟩ | ⟨hplaces, result, hadd⟩
    · rw [hadd] at h
      obtain ⟨⟨result, s₁⟩, hreg, h⟩ := of_bind h
      cases h
      refine .inr ⟨fun hclean => hclean ⟨rfl, hplaces⟩, id, (freeId_spec hfree).2, ?_⟩
      rw [register_tables hreg]
      simp [addObject]
    rw [hadd] at h
    cases h
    exact .inl ⟨fun hclean => hplaces hclean.2, rfl⟩

theorem objCreateShm_leaves {size : BitVec 32} (hr : r ≠ .noError)
    (h : s.objCreateShm p name size answers = .ok (r, objno, s')) :
    s.Leaves s' p
      (¬ (size ≠ 0 ∧ answers.memory.isSome ∧ s.Places p answers.object answers.table)) := by
  unfold objCreateShm at h
  split at h
  next hsize =>
    cases h
    exact .inl ⟨fun hclean => hclean.1 hsize, rfl⟩
  next hsize =>
    split at h
    next memory hobject hmemory =>
      have hadd := objAddObject_cases s p s.brk answers.object answers.table
      rw [hobject, if_pos rfl] at hadd
      rw [hobject, hmemory]
      rcases hadd with ⟨hplaces, id, hfree, hadd⟩ | ⟨hplaces, result, hadd⟩
      · rw [hadd] at h
        obtain ⟨⟨result, virtAddr, space⟩, -, h⟩ := of_bind h
        dsimp only at h
        split at h
        · obtain ⟨⟨result', s₁⟩, -, h⟩ := of_bind h
          cases h
          exact absurd rfl hr
        cases h
        refine .inr ⟨fun hclean => hclean ⟨hsize, rfl, hplaces⟩, id, (freeId_spec hfree).2, ?_⟩
        simp [addObject, setMemory]
      rw [hadd] at h
      cases h
      exact .inl ⟨fun hclean => hplaces hclean.2.2, rfl⟩
    next hrefused =>
      cases h
      refine .inl ⟨?_, rfl⟩
      rintro ⟨-, hmemory, hplaces⟩
      obtain ⟨memory, hmemory⟩ := Option.isSome_iff_exists.mp hmemory
      exact hrefused memory hplaces.1 hmemory

theorem objCreateSemaphore_eq {initialCount : ℕ} (hr : r ≠ .noError)
    (h : s.objCreateSemaphore p name initialCount answers = .ok (r, objno, s')) : s' = s := by
  unfold objCreateSemaphore at h
  split at h
  · split at h
    · obtain ⟨⟨result, s₁⟩, -, h⟩ := of_bind h
      cases h
      exact absurd rfl hr
    cases h
    rfl
  cases h
  rfl

theorem objOpenSemaphore_eq (hr : r ≠ .noError)
    (h : s.objOpenSemaphore p name answers = .ok (r, objno, s')) : s' = s := by
  cases objOpenSemaphore_opening h with
  | refused => rfl
  | link => exact absurd rfl hr

theorem objOpenPipe_eq {thread : ℕ} {direction : PipeDirection} {messageSize messages : ℕ}
    (hr : r ≠ .noError) (hblocked : r ≠ .blockedRetry)
    (h : s.objOpenPipe p thread name direction messageSize messages answers =
      .ok (r, objno, s')) : s' = s := by
  cases objOpenPipe_opening h with
  | refused => rfl
  | waits => exact absurd rfl hblocked
  | pipe => exact absurd rfl hr

end ObjSys

/-! ## Opening shared memory -/

theorem processAllocateVmem_sections {m m' : ProcessMemory} {real size v : BitVec 32}
    {type : MmuMemory} {priv : MmuPrivilege} {access : MmuAccess} {room : Bool} {r : ReturnT}
    (h : processAllocateVmem m real size type priv access room = .ok (r, v, m')) :
    m'.sections = m.sections ↔ ¬ (room ∧ m.sections ≠ []) := by
  obtain ⟨before, after, hadded, hsections, hmap⟩ | ⟨hnot, rfl⟩ := processAllocateVmem_adds h
  · refine iff_of_false (fun hsame => ?_) (not_not.mpr hadded)
    rw [tgtMapMemory_sections hmap, hsections] at hsame
    simpa using congrArg List.length hsame
  · exact iff_of_true rfl hnot

namespace ObjSys

variable {s s' : ObjSys} {p : ℕ} {name : Name} {answers : Answers} {r : ReturnT}
  {objno : Option ℕ}

theorem objOpenShm_eq {size : BitVec 32}
    (hnot : ¬ (size ≠ 0 ∧ answers.object ∧ s.SharedUnder name size))
    (h : s.objOpenShm p name size answers = .ok (r, objno, s')) : s' = s := by
  unfold objOpenShm at h
  split at h
  · cases h
    rfl
  next hsize =>
    split at h
    next hobject =>
      split at h
      next entry hget =>
        split at h
        next other hother =>
          obtain ⟨found, hcast, h⟩ := of_bind h
          cases found with
          | none =>
            cases h
            rfl
          | some found =>
            obtain ⟨ha, obj, hobj, hx⟩ := objCast_eq_some hcast
            cases ha
            have hshm : s.shmAt found.1 = some found.2 := by rw [shmAt, hobj, Option.bind_some, hx]
            change s.openShmOn p found.1 found.2 name size answers = _ at h
            unfold openShmOn at h
            split at h
            next heq =>
              exact absurd ⟨hsize, hobject, entry, _, _, hget, hother, hshm, heq.symm⟩ hnot
            cases h
            rfl
        cases h
        rfl
      cases h
      rfl
    cases h
    rfl

/-- Opening shared memory, if it fails, changes at most the sections of the process: exactly if the
memory has been mapped. -/
theorem objOpenShm_sections {size : BitVec 32} (hr : r ≠ .noError)
    (h : s.objOpenShm p name size answers = .ok (r, objno, s')) :
    s'.tables = s.tables ∧ s'.reg = s.reg ∧
      ((s'.memory p).sections = (s.memory p).sections ↔
        ¬ (size ≠ 0 ∧ answers.object ∧ s.SharedUnder name size ∧ answers.memSection ∧
          (s.memory p).sections ≠ [])) := by
  by_cases hunder : size ≠ 0 ∧ answers.object ∧ s.SharedUnder name size
  · obtain ⟨hsize, hobject, hshared⟩ := hunder
    obtain ⟨entry, other, x, hget, hother, hshm, rfl⟩ := id hshared
    obtain ⟨n, hobj⟩ := shmAt_eq_some_iff.mp hshm
    have hcast : s.objCastShm (some other) = .ok (some (other, x)) := by
      rw [objCastShm, objCast, load, hobj]
      rfl
    rw [objOpenShm, if_neg hsize, if_pos hobject] at h
    simp only [hget, hother, hcast, ok_bind] at h
    rw [openShmOn, if_pos rfl] at h
    obtain ⟨⟨result, virtAddr, space⟩, hallocate, h⟩ := of_bind h
    -- what is left of a failure once the memory may have been mapped
    have hmapped : s' = s.setMemory p space := by
      dsimp only at h
      split at h
      · split at h
        · obtain ⟨⟨result', s₁⟩, -, h⟩ := of_bind h
          cases h
          exact absurd rfl hr
        · exact (triple_inj h).2.2.symm
      · exact (triple_inj h).2.2.symm
    subst hmapped
    refine ⟨rfl, rfl, ?_⟩
    have hspace : ((s.setMemory p space).memory p).sections = space.sections := by
      simp [setMemory]
    rw [hspace]
    rw [processAllocateVmem_sections hallocate, not_iff_not]
    exact ⟨fun hadded => ⟨hsize, hobject, hshared, hadded⟩, fun hall => hall.2.2.2⟩
  cases objOpenShm_eq hunder h
  exact ⟨rfl, rfl, iff_of_true rfl fun hall => hunder ⟨hall.1, hall.2.1, hall.2.2.1⟩⟩

end ObjSys

/-! ## Timers -/

theorem ProcSys.procCreateThread_keeps {s s' : ProcSys} {p id : ℕ} {req : ThreadRequest}
    {r : ReturnT} {created object : Option ℕ}
    (h : s.procCreateThread p req = .ok (r, created, object, s'))
    (hid : (s.tables p).theMap id ≠ none) : (s'.tables p).theMap id ≠ none := by
  rcases procCreateThread_cases h with
    ⟨-, -, -, rfl⟩ | ⟨t, -, ⟨-, -, -, rfl⟩ | ⟨i, result, objno, s₁, -, hcreate, rfl, -⟩⟩
  · exact hid
  · exact hid
  rcases objCreateThread_cases hcreate with ⟨id', sched, -, hfree, -, -, -, rfl⟩ | ⟨-, -, -, rfl⟩
  · -- the number of the thread was free, so it is another one
    have hne : id ≠ id' := by
      rintro rfl
      exact hid (freeId_spec hfree).2
    simpa [settled, setProc, withObject, addThreadObject, ObjSys.addObject, withThread,
      threadCreate, hne] using hid
  · exact hid

namespace CreationSys

variable {s s' : CreationSys} {p : ℕ} {new : TimerRequest} {r : ReturnT} {objno : Option ℕ}

theorem objCreateTimer_leaves (h : s.objCreateTimer p new = .ok (r, objno, s')) :
    ((CreateCall.createTimer new).Clean s p ∧ s' = s) ∨
      (¬ (CreateCall.createTimer new).Clean s p ∧
        ∃ id, (s.tables p).theMap id = none ∧ (s'.tables p).theMap id ≠ none) := by
  unfold objCreateTimer at h
  split at h
  next hvalid =>
    split at h
    next hobject =>
      have hadd := s.objAddObject_cases p s.brk new.object new.table
      rw [if_pos hobject] at hadd
      dsimp only at h
      by_cases htable : (s.procs p).hasTable = true
      · rw [if_pos htable] at h
        rcases hadd with ⟨hplaces, id, hfree, hadd⟩ | ⟨hplaces, result, hadd⟩
        · rw [hadd] at h
          refine .inr ⟨fun hclean => hclean ⟨hvalid.1, hvalid.2, htable, hplaces⟩, id,
            (freeId_spec hfree).2, ?_⟩
          obtain ⟨⟨result, thread, threadObj, sys⟩, hthread, h⟩ := of_bind h
          have hkept : (sys.tables p).theMap id ≠ none := by
            refine ProcSys.procCreateThread_keeps hthread ?_
            simp [ObjSys.addObject]
          split at h
          · split at h
            next t =>
              obtain ⟨⟨result', s₁⟩, harm, h⟩ := of_bind h
              cases h
              obtain ⟨sched, -, harm⟩ := of_bind harm
              cases harm
              exact hkept
            · cases h
          cases h
          exact hkept
        rw [hadd] at h
        exact .inl ⟨fun hclean => hplaces hclean.2.2.2, (triple_inj h).2.2.symm⟩
      rw [if_neg htable] at h
      exact .inl ⟨fun hclean => htable hclean.2.2.1, (triple_inj h).2.2.symm⟩
    next hobject =>
      exact .inl ⟨fun hclean => hobject hclean.2.2.2.1, (triple_inj h).2.2.symm⟩
  next hinvalid =>
    exact .inl ⟨fun hclean => hinvalid ⟨hclean.1, hclean.2.1⟩, (triple_inj h).2.2.symm⟩

theorem noTrace_iff_of_leaves {clean : Prop}
    (h : (clean ∧ s' = s) ∨
      (¬ clean ∧ ∃ id, (s.tables p).theMap id = none ∧ (s'.tables p).theMap id ≠ none)) :
    s.NoTrace s' p ↔ clean := by
  rcases h with ⟨hclean, rfl⟩ | ⟨hclean, id, hfree, hleft⟩
  · exact iff_of_true ⟨rfl, rfl, rfl, rfl⟩ hclean
  refine iff_of_false (fun htrace => hleft ?_) hclean
  rw [htrace.table, hfree]

theorem noTrace_iff_of_objects {sys : ObjSys} {clean : Prop} (h : s.toObjSys.Leaves sys p clean) :
    s.NoTrace { s with toObjSys := sys } p ↔ clean := by
  refine noTrace_iff_of_leaves ?_
  rcases h with ⟨hclean, rfl⟩ | ⟨hclean, hleft⟩
  · exact .inl ⟨hclean, rfl⟩
  · exact .inr ⟨hclean, hleft⟩

end CreationSys

/-- A call that fails leaves no trace exactly if it is clean: it does not come to the point behind
which nothing is undone. -/
theorem noTrace_iff {call : CreateCall} {s s' : CreationSys} {p : ℕ} {r : ReturnT}
    {objno : Option ℕ} (h : call.run s p = .ok (r, objno, s')) (hr : r ≠ .noError)
    (hblocked : ¬ (call.IsOpenPipe ∧ r = .blockedRetry)) :
    s.NoTrace s' p ↔ call.Clean s p := by
  cases call with
  | createTimer new => exact CreationSys.noTrace_iff_of_leaves (CreationSys.objCreateTimer_leaves h)
  | createPipe name direction messageSize messages answers =>
    obtain ⟨⟨result, o, sys⟩, hcall, h⟩ := of_bind h
    cases h
    exact CreationSys.noTrace_iff_of_objects (objCreatePipe_leaves hcall)
  | createShm name size answers =>
    obtain ⟨⟨result, o, sys⟩, hcall, h⟩ := of_bind h
    obtain ⟨rfl, rfl, rfl⟩ := triple_inj h
    exact CreationSys.noTrace_iff_of_objects (objCreateShm_leaves hr hcall)
  | openPipe thread name direction messageSize messages answers =>
    obtain ⟨⟨result, o, sys⟩, hcall, h⟩ := of_bind h
    obtain ⟨rfl, rfl, rfl⟩ := triple_inj h
    have hne : result ≠ .blockedRetry := fun heq => hblocked ⟨trivial, heq⟩
    exact CreationSys.noTrace_iff_of_objects (.inl ⟨trivial, objOpenPipe_eq hr hne hcall⟩)
  | createSemaphore name initialCount answers =>
    obtain ⟨⟨result, o, sys⟩, hcall, h⟩ := of_bind h
    cases h
    exact CreationSys.noTrace_iff_of_objects
      (.inl ⟨trivial, objCreateSemaphore_eq hr hcall⟩)
  | openSemaphore name answers =>
    obtain ⟨⟨result, o, sys⟩, hcall, h⟩ := of_bind h
    cases h
    exact CreationSys.noTrace_iff_of_objects (.inl ⟨trivial, objOpenSemaphore_eq hr hcall⟩)
  | openShm name size answers =>
    obtain ⟨⟨result, o, sys⟩, hcall, h⟩ := of_bind h
    cases h
    obtain ⟨htables, hreg, hsections⟩ := objOpenShm_sections hr hcall
    refine ⟨fun htrace => hsections.mp htrace.sections, fun hclean => ⟨?_, ?_, ?_, rfl⟩⟩
    · exact congrArg ObjectTable.theMap (congrFun htables p)
    · exact hsections.mpr hclean
    · exact congrArg Registry.registry hreg

def bootCreation : Exec CreationSys := do
  let sys ← bootProcs
  return { toProcSys := sys, alarms := alarmInitialse, timers := fun _ => none }

def grantedTimer : TimerRequest where
  now := ⟨0, 0⟩
  timeout := ⟨1, 0⟩
  callback := some 0x00008000#32
  parameter := 0
  thread := grantedRequest
  object := true
  table := true
  alarm := true
  uninitialised := 0

/-- Without memory for the timer nothing is left behind. -/
theorem noTrace_iff_without_memory : ∃ s s', bootCreation = .ok s ∧
    (CreateCall.createTimer { grantedTimer with object := false }).run s 0 =
      .ok (.outOfMemory, none, s') ∧ s.NoTrace s' 0 := by
  obtain ⟨s, hboot⟩ : ∃ s, bootCreation = .ok s := ⟨_, rfl⟩
  have hrun : (CreateCall.createTimer { grantedTimer with object := false }).run s 0 =
      .ok (.outOfMemory, none, s) := rfl
  refine ⟨s, s, hboot, hrun, (noTrace_iff hrun (by decide) fun hblocked => hblocked.1).mpr ?_⟩
  exact fun hclean => by cases hclean.2.2.2.1

/-- There is no stack for the thread of the timer. The call fails; the timer, which is not
initialised, and its thread are in the object table. -/
theorem not_noTrace_without_stack : ∃ s s', bootCreation = .ok s ∧
    (CreateCall.createTimer
      { grantedTimer with thread := { grantedRequest with stack := none } }).run s 0 =
        .ok (.outOfMemory, none, s') ∧
    objGetObject (s.tables 0) 1 = none ∧ objGetObject (s'.tables 0) 1 = some 0 ∧
    objGetObject (s'.tables 0) 2 = some 1 ∧ ¬ s.NoTrace s' 0 := by
  have hrun : bootCreation.toOption.any (fun s =>
      ((CreateCall.createTimer
        { grantedTimer with thread := { grantedRequest with stack := none } }).run s 0).toOption.any
        fun out => decide (out.1 = .outOfMemory ∧ out.2.1 = none ∧
          objGetObject (s.tables 0) 1 = none ∧ objGetObject (out.2.2.tables 0) 1 = some 0 ∧
          objGetObject (out.2.2.tables 0) 2 = some 1)) = true := by
    decide +kernel
  obtain ⟨s, hboot, hrun⟩ := exists_of_any hrun
  obtain ⟨⟨r, objno, s'⟩, hcall, hrun⟩ := exists_of_any hrun
  obtain ⟨rfl, rfl, hbefore, hafter, hthread⟩ := of_decide_eq_true hrun
  refine ⟨s, s', hboot, hcall, hbefore, hafter, hthread, fun htrace => ?_⟩
  have hsame := congrFun htrace.table 1
  rw [objGetObject] at hbefore hafter
  rw [hbefore, hafter] at hsame
  cases hsame

end Tinker
