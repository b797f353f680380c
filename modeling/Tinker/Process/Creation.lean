import Tinker.Process.Exit
import Tinker.Process.ProcessList
import Tinker.Process.Threads

/-!
# Creating a process

`proc_create_process` and the system call around it, with every allocation that may be refused and
an account of what has been allocated and freed. A creation that fails is undone by `process_exit`,
which frees the pool of the process, and then the pool is freed once more. The system call reads
the object number of the process from a pointer that is null then.

The loop of `process_exit` over the table is that of `ExitSys`. The sections of the process are
freed with their list and are not in the account.
-/

namespace Tinker

open Tinker.Lib Tinker.Collections Function Exec

def pageTableSize : ℕ := 4 * 4096

structure ProcessRequest where
  /-- `heap_size` of the memory information; `stack_size` is that of the first thread. -/
  heapSize : BitVec 32
  parts : List MemSection
  main : ThreadRequest
  timer : Bool
  /-- The memory for the pool, the process and its private pool. -/
  pool : Option (BitVec 32)
  proc : Option ℕ
  privatePool : Option (BitVec 32)
  /-- What the private pool has for page tables, if it has a page table of the first level. -/
  pageTable : Option (List (BitVec 32))
  /-- Whether there is memory for the object table, and for the process object. -/
  hasTable : Bool
  object : Bool
  table : Bool
  listed : Bool
  /-- The end of the memory, and the code of the system calls. -/
  endOfRam : BitVec 32
  api : BitVec 32
  apiEnd : BitVec 32

inductive Block
  | memoryPool
  | process
  | privatePool
  | pageTable
  | objectTable
  | ramSection
  | processObject
  | thread
  | stack
  | threadObject
  deriving DecidableEq

/-- The processes with their list, and what a call has allocated and freed. -/
structure CreateSys extends ProcSys where
  list : ProcList
  kernelProcess : Option ℕ
  oids : ℕ → ℕ
  allocated : List Block
  freed : List Block

/-! ## The memory of the process -/

/-- The size of the pool that `mem_init_process_memory` makes. -/
def ProcessRequest.memorySize (new : ProcessRequest) : BitVec 32 :=
  new.heapSize + new.main.stackSize + BitVec.ofNat 32 (pageTableSize + privatePoolSize) -
    BitVec.ofNat 32 mmuPageSize

/-- `tgt_initialise_process`, which always returns `NO_ERROR`. -/
def tgtInitialiseProcess (memory : ProcessMemory) : Exec ProcessMemory :=
  if memory.kernelProcess then .ok memory
  else memory.sections.foldlM
    (fun memory mem => do
      let (_, memory) ← tgtMapMemory memory (some mem)
      return memory) memory

/-- The address space that `process_create` gives a process. The memory of the machine is mapped
but is no section. -/
def ProcessRequest.memory (new : ProcessRequest) (kernel : Bool) (ksections : List MemSection)
    (pool privatePool : BitVec 32) (pages : List (BitVec 32)) : Exec ProcessMemory := do
  let memory : ProcessMemory := ⟨kernel, [], pool, tgtInitialisePageTable pages⟩
  let (_, memory) ← tgtMapMemory memory
    (some ⟨4096, 0, new.endOfRam, .randomAccessMemory, .kernelAccess, .readWrite⟩)
  tgtInitialiseProcess { memory with
    sections := processCreateSections kernel ksections new.endOfRam privatePool pool
      new.memorySize new.parts new.api new.apiEnd }

namespace CreateSys

def alloc (s : CreateSys) (block : Block) : CreateSys :=
  { s with allocated := s.allocated ++ [block] }

def free (s : CreateSys) (block : Block) : CreateSys :=
  { s with freed := s.freed ++ [block] }

@[simp] theorem freed_alloc (s : CreateSys) (block : Block) : (s.alloc block).freed = s.freed := rfl

@[simp] theorem freed_free (s : CreateSys) (block : Block) :
    (s.free block).freed = s.freed ++ [block] := rfl

def ksections (s : CreateSys) : List MemSection :=
  match s.kernelProcess with
  | some k => (s.memory k).sections
  | none => []

/-- Without memory for the private pool its header is written to a null pointer, and without memory
for the page table the machine stops. -/
def processCreate (s : CreateSys) (pid : ℕ) (pool : BitVec 32) (new : ProcessRequest) :
    Exec (ReturnT × Option ℕ × CreateSys) :=
  match new.proc with
  | some proc => do
    let s := s.alloc .process
    let privatePool ← new.privatePool.elim (.error .badPointer) .ok
    let s := s.alloc .privatePool
    let pages ← new.pageTable.elim (.error .halted) .ok
    let s := s.alloc .pageTable
    let s := if new.hasTable then s.alloc .objectTable else s
    let s := s.alloc .ramSection
    let memory ← new.memory s.sched.currThread.isNone s.ksections pool privatePool pages
    return (.noError, some proc, { s with
      memory := update s.memory proc memory
      tables := update s.tables proc objInitialseTable
      procs := update s.procs proc ⟨fun _ => none, none, new.hasTable⟩
      list := { s.list with pid := update s.list.pid proc pid }
      oids := update s.oids proc 0 })
  | none => return (.outOfMemory, none, s)

/-- `obj_create_process`; the second result is what is written to `object`. Without memory for the
object a null pointer is cleared. -/
def objCreateProcess (s : CreateSys) (proc : ℕ) (new : ProcessRequest) :
    Exec (ReturnT × Option ℕ × CreateSys) :=
  if (s.procs proc).hasTable then
    if new.object then
      let s := s.alloc .processObject
      match objAddObject (s.tables proc) (some s.brk) new.table with
      | .ok (objno, table) =>
        return (.noError, some objno,
          { s with toObjSys := s.addObject proc table ⟨objno, .other⟩ })
      | .error result => return (result, none, s.free .processObject)
    else .error .badPointer
  else return (.parametersOutOfRange, none, s)

def createProcessObject (s : CreateSys) (proc : ℕ) (new : ProcessRequest) :
    Exec (ReturnT × CreateSys) := do
  let (ret, objno, s) ← s.objCreateProcess proc new
  return (ret, { s with oids := update s.oids proc (objno.getD 0) })

def accountThread (s : CreateSys) (new : ThreadRequest) (sys : ProcSys) : CreateSys :=
  let admitted := decide (sys.brk ≠ s.brk)
  let s := { s with toProcSys := sys }
  if new.thread.isSome then
    let s := s.alloc .thread
    let s := if new.stack.isSome then s.alloc .stack else s
    if new.object then
      let s := s.alloc .threadObject
      if admitted then s else s.free .threadObject
    else s
  else s

def createThreadObject (s : CreateSys) (proc : ℕ) (new : ProcessRequest) :
    Exec (ReturnT × CreateSys) := do
  let (ret, _, _, sys) ← s.toProcSys.procCreateThread proc new.main
  return (ret, s.accountThread new.main sys)

/-! ## Taking the process down -/

def hashedTable (objects : List ℕ) : Exec (HashedTable ℕ) := do
  let table ← HashedTable.objInitialseTable
  return objects.foldl (fun table o => (table.objAddObject (some o)).2.2) table

/-- What the loop of `process_exit` sees of an object. -/
def tableObject (s : CreateSys) (timer : Bool) (o : ℕ) : Option TableObject :=
  match s.threadObjs o with
  | some obj => some (.thread (BitVec.ofNat 16 obj.objectNumber) timer)
  | none => (s.objects o).map fun obj => .process (BitVec.ofNat 16 obj.objectNumber)

/-- An object that the loop has deleted. `obj_exit_thread` frees a thread with its stack only if
it has been created. -/
def deleteObject (s : CreateSys) (o : ℕ) : Exec CreateSys :=
  match s.threadObjs o with
  | some obj => do
    let state := (s.threads obj.thread).state
    let (_, k) ← objExitThread s.toThreadSys (some obj.thread)
    let s := { s with toThreadSys := k }
    let s := if state ≠ .terminated ∧ state ≠ .notCreated then (s.free .stack).free .thread else s
    return s.free .threadObject
  | none => return s.free .processObject

/-- `process_exit` of a process that has been given no objects but its own and that of its first
thread. -/
def processExit (s : CreateSys) (proc : ℕ) (timer : Bool) : Exec CreateSys := do
  let s := { s with toProcSys := s.setProc proc { s.procs proc with threads := fun _ => none } }
  if (s.procs proc).hasTable then do
    let table ← hashedTable ([1, 2].filterMap (s.tables proc).theMap)
    let exit ← ExitSys.cleanUp ⟨table, s.tableObject timer, []⟩
    let s ← exit.deleted.foldlM deleteObject s
    let s := s.free .objectTable
    let pageTable ← (s.memory proc).sections.foldlM armUnmapMemory (s.memory proc).pageTable
    let s := { s with toObjSys := s.setMemory proc { s.memory proc with pageTable } }
    return (((s.free .pageTable).free .privatePool).free .memoryPool).free .process
  -- `obj_iterator` follows the pointer to the table
  else .error .badPointer

/-! ## The call -/

def procBuild (s : CreateSys) (proc : ℕ) (new : ProcessRequest) : Exec (ReturnT × CreateSys) := do
  let (ret, s) ← s.createProcessObject proc new
  if ret = .noError then do
    let (ret, s) ← s.createThreadObject proc new
    if ret = .noError then
      if new.listed then do
        let l ← listAdd s.list.processList proc
        return (.noError, { s with list := { s.list with processList := l } })
      else return (.outOfMemory, s)
    else return (.objectAddFailed, s)
  else return (ret, s)

def procCreateProcess (s : CreateSys) (new : ProcessRequest) :
    Exec (ReturnT × Option ℕ × CreateSys) := do
  let (procId, list) ← getProcId s.list
  let s := { s with list := list, allocated := [], freed := [] }
  if procId = invalidProcId then return (.outOfProcessIds, none, s)
  else
    match new.pool with
    | some pool => do
      let s := s.alloc .memoryPool
      let (ret, proc, s) ← s.processCreate procId pool new
      match proc with
      | some proc => do
        let (ret, s) ← s.procBuild proc new
        if ret = .noError then return (.noError, some proc, s)
        else do
          let s ← s.processExit proc new.timer
          return (ret, none, s.free .memoryPool)
      | none => return (ret, none, s.free .memoryPool)
    | none => return (.outOfMemory, none, s)

/-- `syscall_create_process`; the second result is what is written for the caller.
`process_get_oid` follows the pointer to the process. -/
def syscallCreateProcess (s : CreateSys) (new : ProcessRequest) :
    Exec (ReturnT × ℕ × CreateSys) := do
  let (ret, process, s) ← s.procCreateProcess new
  match process with
  | some proc => return (ret, s.oids proc, s)
  | none => .error .badPointer

/-! ## When a process is created -/

variable {s s' : CreateSys} {proc : ℕ} {new : ProcessRequest} {r : ReturnT} {objno : Option ℕ}

structure New (s : CreateSys) (proc : ℕ) (new : ProcessRequest) : Prop where
  process : s.procs proc = ⟨fun _ => none, none, new.hasTable⟩
  table : s.tables proc = objInitialseTable

theorem processCreate_cases {pid : ℕ} {pool : BitVec 32} {made : Option ℕ}
    (h : s.processCreate pid pool new = .ok (r, made, s')) :
    (new.proc = none ∧ r = .outOfMemory ∧ made = none ∧ s' = s) ∨
      ∃ proc, new.proc = some proc ∧ r = .noError ∧ made = some proc ∧ s'.New proc new ∧
        s'.freed = s.freed := by
  unfold processCreate at h
  cases hproc : new.proc with
  | none =>
    rw [hproc] at h
    cases h
    exact .inl ⟨rfl, rfl, rfl, rfl⟩
  | some proc =>
    rw [hproc] at h
    obtain ⟨privatePool, -, h⟩ := of_bind h
    obtain ⟨pages, -, h⟩ := of_bind h
    obtain ⟨memory, -, h⟩ := of_bind h
    cases h
    refine .inr ⟨proc, rfl, rfl, rfl, ⟨update_self _ _ _, update_self _ _ _⟩, ?_⟩
    cases new.hasTable <;> rfl

theorem freeId_objInitialseTable : objInitialseTable.freeId = some 1 := rfl

theorem createProcessObject_cases (hnew : s.New proc new)
    (h : s.createProcessObject proc new = .ok (r, s')) :
    (r = .noError ↔ new.hasTable ∧ new.object ∧ new.table) ∧ s'.procs = s.procs ∧
      s'.freed.count .memoryPool = s.freed.count .memoryPool := by
  obtain ⟨⟨ret, objno, s₁⟩, hcreate, h⟩ := of_bind h
  cases h
  unfold objCreateProcess at hcreate
  rw [hnew.process] at hcreate
  dsimp only at hcreate
  split at hcreate
  next htable =>
    split at hcreate
    next hobject =>
      have hfree : ((s.alloc .processObject).tables proc).freeId = some 1 := by
        have hsame : (s.alloc .processObject).tables proc = s.tables proc := rfl
        rw [hsame, hnew.table, freeId_objInitialseTable]
      cases hadd : objAddObject ((s.alloc .processObject).tables proc)
          (some (s.alloc .processObject).brk) new.table with
      | ok found =>
        obtain ⟨-, -, -, hroom, -⟩ := objAddObject_eq_ok.mp hadd
        rw [hadd] at hcreate
        cases hcreate
        exact ⟨iff_of_true rfl ⟨htable, hobject, hroom⟩, rfl, rfl⟩
      | error result =>
        rw [hadd] at hcreate
        cases hcreate
        refine ⟨iff_of_false ?_ fun hgranted => ?_, rfl, ?_⟩
        · rcases eq_of_objAddObject_eq_error hadd with rfl | rfl | rfl <;> decide
        · rw [objAddObject_eq_ok.mpr ⟨_, rfl, hfree, hgranted.2.2, rfl⟩] at hadd
          cases hadd
        · simp
    · cases hcreate
  next htable =>
    cases hcreate
    exact ⟨iff_of_false (by decide) fun hgranted => htable hgranted.1, rfl, rfl⟩

theorem count_freed_accountThread (req : ThreadRequest) (sys : ProcSys) :
    (s.accountThread req sys).freed.count .memoryPool = s.freed.count .memoryPool := by
  unfold accountThread
  dsimp only
  repeat' split
  all_goals simp

theorem createThreadObject_cases (hprocess : s.procs proc = ⟨fun _ => none, none, new.hasTable⟩)
    (h : s.createThreadObject proc new = .ok (r, s')) :
    (r = .noError ↔ new.main.thread = none ∨ new.main.stack.isSome) ∧
      s'.freed.count .memoryPool = s.freed.count .memoryPool := by
  obtain ⟨⟨ret, created, object, sys⟩, hcreate, h⟩ := of_bind h
  cases h
  refine ⟨?_, count_freed_accountThread _ _⟩
  rcases ProcSys.procCreateThread_cases hcreate with ⟨hnone, rfl, -⟩ | ⟨t, hsome, hcases⟩
  · exact iff_of_true rfl (.inl hnone)
  have hthread : new.main.thread ≠ none := by
    rw [hsome]
    exact Option.some_ne_none t
  rw [or_iff_right hthread]
  rcases hcases with ⟨hfull, -⟩ | ⟨i, result, objno, s₁, -, -, -, hresult⟩
  · rw [hprocess] at hfull
    exact absurd rfl (hfull ⟨0, by decide⟩)
  by_cases hstack : new.main.stack.isSome = true
  · rw [if_pos hstack] at hresult
    exact iff_of_true (Prod.mk.inj hresult).1 hstack
  rw [if_neg hstack] at hresult
  refine iff_of_false ?_ hstack
  rw [(Prod.mk.inj hresult).1]
  decide

/-- Nothing that is needed for the objects of the process and for the list is refused. -/
def Builds (new : ProcessRequest) : Prop :=
  new.hasTable ∧ new.object ∧ new.table ∧
    (new.main.thread = none ∨ new.main.stack.isSome) ∧ new.listed

theorem procBuild_cases (hnew : s.New proc new) (h : s.procBuild proc new = .ok (r, s')) :
    (r = .noError ↔ Builds new) ∧ s'.freed.count .memoryPool = s.freed.count .memoryPool := by
  obtain ⟨⟨ret, s₁⟩, hobject, h⟩ := of_bind h
  obtain ⟨hret, hprocs, hcount⟩ := createProcessObject_cases hnew hobject
  dsimp only at h
  split at h
  next hok =>
    obtain ⟨⟨ret', s₂⟩, hthread, h⟩ := of_bind h
    have hprocess : s₁.procs proc = ⟨fun _ => none, none, new.hasTable⟩ := by
      rw [hprocs, hnew.process]
    obtain ⟨hret', hcount'⟩ := createThreadObject_cases hprocess hthread
    obtain ⟨htable, hgranted, hroom⟩ := hret.mp hok
    split at h
    next hok' =>
      split at h
      next hlisted =>
        obtain ⟨l, -, h⟩ := of_bind h
        cases h
        exact ⟨iff_of_true rfl ⟨htable, hgranted, hroom, hret'.mp hok', hlisted⟩,
          hcount'.trans hcount⟩
      next hlisted =>
        cases h
        exact ⟨iff_of_false (by decide) fun hbuilds => hlisted hbuilds.2.2.2.2,
          hcount'.trans hcount⟩
    next hfail =>
      cases h
      exact ⟨iff_of_false (by decide) fun hbuilds => hfail (hret'.mpr hbuilds.2.2.2.1),
        hcount'.trans hcount⟩
  next hfail =>
    cases h
    exact ⟨iff_of_false hfail fun hbuilds =>
      hfail (hret.mpr ⟨hbuilds.1, hbuilds.2.1, hbuilds.2.2.1⟩), hcount⟩

theorem count_freed_deleteObject {o : ℕ} (h : s.deleteObject o = .ok s') :
    s'.freed.count .memoryPool = s.freed.count .memoryPool := by
  unfold deleteObject at h
  split at h
  · obtain ⟨⟨result, k⟩, -, h⟩ := of_bind h
    cases h
    split <;> simp
  cases h
  simp

theorem count_freed_deleted (objects : List ℕ) (s : CreateSys)
    (h : objects.foldlM deleteObject s = .ok s') :
    s'.freed.count .memoryPool = s.freed.count .memoryPool := by
  induction objects generalizing s with
  | nil =>
    cases h
    rfl
  | cons o rest ih =>
    obtain ⟨s₁, hdelete, hrest⟩ := of_bind h
    rw [ih s₁ hrest, count_freed_deleteObject hdelete]

theorem count_freed_processExit {timer : Bool} (h : s.processExit proc timer = .ok s') :
    s'.freed.count .memoryPool = s.freed.count .memoryPool + 1 := by
  unfold processExit at h
  dsimp only at h
  split at h
  · obtain ⟨table, -, h⟩ := of_bind h
    obtain ⟨exit, -, h⟩ := of_bind h
    obtain ⟨s₁, hdeleted, h⟩ := of_bind h
    obtain ⟨pageTable, -, h⟩ := of_bind h
    cases h
    simp [count_freed_deleted _ _ hdeleted]
  · cases h

/-- There is an id for the process, and nothing that is needed is refused. -/
def Granted (s : CreateSys) (xs : List ℕ) (new : ProcessRequest) : Prop :=
  max s.list.lastPid xs.length < maxProcesses ∧ new.pool.isSome ∧ new.proc.isSome ∧ Builds new

variable {process : Option ℕ} {xs : List ℕ}

/-- A process is created exactly if everything is granted; otherwise there is an error and no
process. -/
theorem procCreateProcess_cases (hlist : IsQueue s.list.processList xs)
    (hfirst : 1 ≤ s.list.lastPid) (hlast : s.list.lastPid < maxProcesses)
    (h : s.procCreateProcess new = .ok (r, process, s')) :
    (s.Granted xs new ∧ r = .noError ∧ process.isSome) ∨
      (¬ s.Granted xs new ∧ r ≠ .noError ∧ process = none ∧
        (max s.list.lastPid xs.length < maxProcesses → new.pool.isSome →
          s'.freed.count .memoryPool = if new.proc.isSome then 2 else 1)) := by
  obtain ⟨⟨procId, list⟩, hid, h⟩ := of_bind h
  rw [getProcId_eq hlist hlast] at hid
  dsimp only at h
  by_cases hroom : max s.list.lastPid xs.length < maxProcesses
  · rw [if_pos hroom] at hid
    cases hid
    rw [if_neg (by unfold invalidProcId; omega)] at h
    cases hpool : new.pool with
    | none =>
      rw [hpool] at h
      cases h
      refine .inr ⟨fun hgranted => ?_, by decide, rfl, fun _ hsome => by cases hsome⟩
      have hsome := hgranted.2.1
      rw [hpool] at hsome
      cases hsome
    | some pool =>
      rw [hpool] at h
      obtain ⟨⟨ret, made, s₁⟩, hcreate, h⟩ := of_bind h
      rcases processCreate_cases hcreate with
        ⟨hproc, rfl, rfl, rfl⟩ | ⟨proc, hproc, rfl, rfl, hnew, hfreed⟩
      · dsimp only at h
        cases h
        refine .inr ⟨fun hgranted => ?_, by decide, rfl, fun _ _ => ?_⟩
        · have hsome := hgranted.2.2.1
          rw [hproc] at hsome
          cases hsome
        rw [hproc]
        rfl
      obtain ⟨⟨ret, s₂⟩, hbuild, h⟩ := of_bind h
      obtain ⟨hret, hcount⟩ := procBuild_cases hnew hbuild
      split at h
      next hok =>
        cases h
        exact .inl ⟨⟨hroom, Option.isSome_of_eq_some hpool, Option.isSome_of_eq_some hproc,
          hret.mp hok⟩, rfl, rfl⟩
      next hfail =>
        obtain ⟨s₃, hexit, h⟩ := of_bind h
        cases h
        refine .inr ⟨fun hgranted => hfail (hret.mpr hgranted.2.2.2), hfail, rfl, fun _ _ => ?_⟩
        -- once by `process_exit`, and once more behind it
        have hexit := count_freed_processExit hexit
        rw [hcount, hfreed] at hexit
        rw [hproc]
        simp [hexit]
  rw [if_neg hroom] at hid
  cases hid
  cases h
  exact .inr ⟨fun hgranted => hroom hgranted.1, by decide, rfl, fun hlt => absurd hlt hroom⟩

/-- A call that created no process has returned the error `r` to its caller; the process list and
the ready queues hold what they held, and what has been allocated has been freed once. -/
def Reported (s : CreateSys) (new : ProcessRequest) (r : ReturnT) : Prop :=
  ∃ oid s', s.syscallCreateProcess new = .ok (r, oid, s') ∧
    (∀ xs, IsQueue s.list.processList xs → IsQueue s'.list.processList xs) ∧
    (∀ queues, s.sched.Holds queues → s'.sched.Holds queues) ∧
    ∀ block, s'.freed.count block = s'.allocated.count block

end CreateSys

/-- A failure to create a process is reported and undone exactly if there is none: a process id is
found and nothing that is needed is refused. -/
theorem reported_iff {s s' : CreateSys} {new : ProcessRequest} {r : ReturnT} {process : Option ℕ}
    {xs : List ℕ} (hlist : IsQueue s.list.processList xs) (hfirst : 1 ≤ s.list.lastPid)
    (hlast : s.list.lastPid < maxProcesses)
    (h : s.procCreateProcess new = .ok (r, process, s')) :
    (r ≠ .noError → s.Reported new r) ↔ s.Granted xs new := by
  rcases CreateSys.procCreateProcess_cases hlist hfirst hlast h with
    ⟨hgranted, rfl, -⟩ | ⟨hrefused, hr, rfl, -⟩
  · exact iff_of_true (fun hne => absurd rfl hne) hgranted
  · refine iff_of_false (fun hreported => ?_) hrefused
    obtain ⟨oid, s'', hcall, -⟩ := hreported hr
    obtain ⟨⟨ret, made, s₁⟩, hcreate, hcall⟩ := of_bind hcall
    cases h.symm.trans hcreate
    cases hcall

def bootCreate : Exec CreateSys := do
  let sys ← bootProcs
  return {
    toProcSys := { sys with sched := schSetCurrentThread sys.sched 0 }
    list := procCreate
    kernelProcess := none
    oids := fun _ => 0
    allocated := []
    freed := [] }

theorem list_bootCreate {s : CreateSys} (h : bootCreate = .ok s) : s.list = procCreate := by
  obtain ⟨sys, -, h⟩ := of_bind h
  cases h
  rfl

def grantedProcess : ProcessRequest where
  heapSize := 0x00001000#32
  parts := []
  main := grantedRequest
  timer := false
  pool := some 0x00400000#32
  proc := some 7
  privatePool := some 0x00200000#32
  pageTable := some [0x00210000#32, 0x00211000#32, 0x00212000#32]
  hasTable := true
  object := true
  table := true
  listed := true
  endOfRam := 0x00001000#32
  api := 0x00008000#32
  apiEnd := 0x00009000#32

/-- The first process. -/
theorem reported_iff_first_process : ∃ s s', bootCreate = .ok s ∧
    s.procCreateProcess grantedProcess = .ok (.noError, some 7, s') ∧
    s.syscallCreateProcess grantedProcess = .ok (.noError, 1, s') ∧
    (ReturnT.noError ≠ .noError → s.Reported grantedProcess .noError) := by
  have hrun : bootCreate.toOption.any (fun s =>
      (s.procCreateProcess grantedProcess).toOption.any fun out =>
        decide (out.1 = .noError ∧ out.2.1 = some 7 ∧ out.2.2.oids 7 = 1)) = true := by
    decide +kernel
  obtain ⟨s, hboot, hrun⟩ := exists_of_any hrun
  obtain ⟨⟨r, process, s'⟩, hcreate, hrun⟩ := exists_of_any hrun
  obtain ⟨rfl, rfl, hoid⟩ := of_decide_eq_true hrun
  have hlist := list_bootCreate hboot
  have hcall : s.syscallCreateProcess grantedProcess = .ok (.noError, s'.oids 7, s') :=
    bind_of ⟨_, hcreate, rfl⟩
  have hqueue : IsQueue s.list.processList [] := by
    rw [hlist]
    exact isQueue_listCreate
  refine ⟨s, s', hboot, hcreate, hoid ▸ hcall, ?_⟩
  refine (reported_iff hqueue (by rw [hlist]; decide) (by rw [hlist]; decide) hcreate).mpr ?_
  refine ⟨?_, rfl, rfl, rfl, rfl, rfl, .inr rfl, rfl⟩
  rw [hlist]
  decide

/-- There is no memory for the pool of the process. The system call follows the null pointer that
`proc_create_process` leaves behind. -/
theorem not_reported_without_pool : ∃ s s', bootCreate = .ok s ∧
    s.procCreateProcess { grantedProcess with pool := none } = .ok (.outOfMemory, none, s') ∧
    s.syscallCreateProcess { grantedProcess with pool := none } = .error .badPointer ∧
    ¬ s.Reported { grantedProcess with pool := none } .outOfMemory := by
  have hrun : bootCreate.toOption.any (fun s =>
      (s.procCreateProcess { grantedProcess with pool := none }).toOption.any fun out =>
        decide (out.1 = .outOfMemory ∧ out.2.1 = none)) = true := by
    decide +kernel
  obtain ⟨s, hboot, hrun⟩ := exists_of_any hrun
  obtain ⟨⟨r, process, s'⟩, hcreate, hrun⟩ := exists_of_any hrun
  obtain ⟨rfl, rfl⟩ := of_decide_eq_true hrun
  have hcall : s.syscallCreateProcess { grantedProcess with pool := none } =
      .error .badPointer := by
    rw [CreateSys.syscallCreateProcess, hcreate]
    rfl
  refine ⟨s, s', hboot, hcreate, hcall, fun hreported => ?_⟩
  obtain ⟨oid, s'', hok, -⟩ := hreported
  rw [hcall] at hok
  cases hok

/-- If the process object can not be added to the table, the pool is freed twice. -/
example : bootCreate.toOption.any (fun s =>
    (s.procCreateProcess { grantedProcess with table := false }).toOption.any fun out =>
      decide (out.1 = .objectAddFailed ∧ out.2.2.freed.count .memoryPool = 2)) = true := by
  decide +kernel

end Tinker
