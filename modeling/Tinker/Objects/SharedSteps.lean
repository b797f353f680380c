import Tinker.Objects.Shared

/-!
# What the operations on shared objects do

Each operation is read off once, as far as names, numbers and objects are concerned; the
statements about names rest on these lemmas.
-/

namespace Tinker

open Tinker.Lib Function Exec ObjSys

/-- The name that the deletion of an object takes out of the registry. -/
def ObjBody.storedName : ObjBody → Option Name
  | pipe p => some p.name
  | sema (.owner x) => some x.name
  | sema (.link _) => none
  | shm x => x.clientList.map fun _ => x.name
  | other => none

@[simp] theorem registryKey_take (name : Name) :
    registryKey (name.take maxSharedObjectNameLength) = registryKey name := by
  simp [registryKey, List.take_take]

theorem pipeCreateSetup_name {name : Name} {direction : PipeDirection} {messageSize messages : ℕ}
    {memory : Option ℕ} {pipe : Pipe}
    (h : pipeCreateSetup name direction messageSize messages memory = some pipe) :
    pipe.name = name.take maxSharedObjectNameLength := by
  unfold pipeCreateSetup at h
  split at h
  · cases h
  · cases h
    rfl
  · cases h
  all_goals
    split at h
    · cases h
      rfl
    · cases h

theorem objAddObject_ne_noError {t : ObjectTable} {obj : Option ℕ} {room : Bool} {r : ReturnT}
    (h : objAddObject t obj room = .error r) : r ≠ .noError := by
  rcases eq_of_objAddObject_eq_error h with rfl | rfl | rfl <;> decide

namespace ObjSys

variable {s s' : ObjSys} {process id o : ℕ} {name : Name} {r : ReturnT} {room : Bool}

theorem load_eq_ok {obj : SharedObject} (h : s.load o = .ok obj) : s.objects o = some obj := by
  unfold load at h
  split at h
  next hobj => rw [hobj, Except.ok.inj h]
  · cases h

/-- The shared memory at a pointer, if there is one. -/
def shmAt (s : ObjSys) (o : ℕ) : Option Shm := (s.objects o).bind fun obj => obj.body.asShm

theorem shmAt_eq_some_iff {x : Shm} : s.shmAt o = some x ↔ ∃ n, s.objects o = some ⟨n, .shm x⟩ := by
  unfold shmAt
  constructor
  · intro h
    obtain ⟨⟨n, body⟩, hobj, hbody⟩ := Option.bind_eq_some_iff.mp h
    cases body with
    | shm y =>
      cases hbody
      exact ⟨n, hobj⟩
    | pipe | sema | other => cases hbody
  rintro ⟨n, hobj⟩
  rw [hobj]
  rfl

theorem objCast_eq_some {α : Type} {kind : ObjBody → Option α} {p : Option ℕ} {x : α}
    (h : s.objCast kind p = .ok (some (o, x))) :
    p = some o ∧ ∃ obj, s.objects o = some obj ∧ kind obj.body = some x := by
  cases p with
  | none => cases h
  | some a =>
    obtain ⟨obj, hload, h⟩ := of_bind h
    obtain ⟨y, hy, hpair⟩ := Option.map_eq_some_iff.mp (Except.ok.inj h)
    cases hpair
    exact ⟨rfl, obj, load_eq_ok hload, hy⟩

/-- The state with a new object `obj`, whose number is `id`. Address spaces may have changed. -/
def grow (s : ObjSys) (process id : ℕ) (obj : SharedObject) (memory : ℕ → ProcessMemory) :
    ObjSys :=
  { s.addObject process ⟨update (s.tables process).theMap id (some s.brk), id + 1⟩ obj with
    memory := memory }

theorem setObject_objects_cases {a : ℕ} {obj x : SharedObject}
    (h : (s.setObject o obj).objects a = some x) :
    (a = o ∧ x = obj) ∨ s.objects a = some x := by
  rw [show (s.setObject o obj).objects a = _ from update_apply _ _ _ _] at h
  split at h
  next ha => exact .inl ⟨ha, (Option.some.inj h).symm⟩
  · exact .inr h

theorem freeObject_objects_cases {a : ℕ} {x : SharedObject}
    (h : (s.freeObject o).objects a = some x) : a ≠ o ∧ s.objects a = some x := by
  rw [show (s.freeObject o).objects a = _ from update_apply _ _ _ _] at h
  split at h
  · cases h
  next ha => exact ⟨ha, h⟩

def removeNumber (s : ObjSys) (process n : ℕ) : ObjSys :=
  { s with tables := update s.tables process (objRemoveObject (s.tables process) n).2 }

@[simp] theorem removeNumber_reg (n : ℕ) : (s.removeNumber process n).reg = s.reg := rfl

theorem removeNumber_nextId (n p : ℕ) :
    ((s.removeNumber process n).tables p).nextId = (s.tables p).nextId := by
  unfold removeNumber
  dsimp only
  rcases eq_or_ne p process with rfl | hp
  · rw [update_self, objRemoveObject_snd]
  · rw [update_of_ne hp]

theorem removeNumber_theMap (n p m : ℕ) :
    ((s.removeNumber process n).tables p).theMap m =
      if p = process ∧ m = n then none else (s.tables p).theMap m := by
  unfold removeNumber
  dsimp only
  rcases eq_or_ne p process with rfl | hp
  · rw [update_self, objRemoveObject_snd]
    simp [update_apply]
  · rw [update_of_ne hp, if_neg (fun h => hp h.1)]

theorem removeNumber_theMap_cases {n p m a : ℕ}
    (h : ((s.removeNumber process n).tables p).theMap m = some a) :
    (s.tables p).theMap m = some a := by
  rw [removeNumber_theMap] at h
  split at h
  · cases h
  · exact h

section Grow

variable {obj : SharedObject} {memory : ℕ → ProcessMemory}

@[simp] theorem grow_reg : (s.grow process id obj memory).reg = s.reg := rfl

theorem grow_objects (a : ℕ) :
    (s.grow process id obj memory).objects a = if a = s.brk then some obj else s.objects a :=
  update_apply _ _ _ _

theorem grow_tables (p : ℕ) :
    (s.grow process id obj memory).tables p =
      if p = process then ⟨update (s.tables process).theMap id (some s.brk), id + 1⟩
      else s.tables p :=
  update_apply _ _ _ _

theorem grow_objects_cases {a : ℕ} {x : SharedObject}
    (h : (s.grow process id obj memory).objects a = some x) :
    (a = s.brk ∧ x = obj) ∨ s.objects a = some x := by
  rw [grow_objects] at h
  split at h
  next ha => exact .inl ⟨ha, (Option.some.inj h).symm⟩
  · exact .inr h

theorem grow_tables_cases {p n a : ℕ}
    (h : ((s.grow process id obj memory).tables p).theMap n = some a) :
    (p = process ∧ n = id ∧ a = s.brk) ∨ (s.tables p).theMap n = some a := by
  rw [grow_tables] at h
  split at h
  next hp =>
    subst hp
    dsimp only at h
    rcases eq_or_ne n id with rfl | hn
    · rw [update_self] at h
      exact .inl ⟨rfl, rfl, (Option.some.inj h).symm⟩
    rw [update_of_ne hn] at h
    exact .inr h
  · exact .inr h

end Grow

theorem grow_of_objAddObject {b : Bool} {table : ObjectTable}
    (hadd : objAddObject (s.tables process) (if b then some s.brk else none) room =
      .ok (id, table)) :
    (s.tables process).freeId = some id ∧
      ∀ obj, s.addObject process table obj = s.grow process id obj s.memory := by
  obtain ⟨a, ha, hfree, -, rfl⟩ := objAddObject_eq_ok.mp hadd
  split at ha
  · cases ha
    exact ⟨hfree, fun _ => rfl⟩
  · cases ha

section

variable (h : s.register process name id room = .ok (r, s'))
include h

/-- Either the name is refused and nothing changes, or it is free, there is room, and it now
leads to the object. -/
theorem register_cases :
    (¬ (s.reg.registry (registryKey name) = none ∧ room = true) ∧ r ≠ .noError ∧ s' = s) ∨
      ((s.reg.registry (registryKey name) = none ∧ room = true) ∧ r = .noError ∧
        ∃ k waiting, s' = { s with
          toThreadSys := k
          reg := ⟨update s.reg.registry (registryKey name) (some ⟨process, id⟩),
            waiting⟩ }) := by
  obtain ⟨⟨r, k, reg⟩, hadd, h⟩ := of_bind h
  cases h
  rcases regsiteryAdd_cases hadd with ⟨hrefused, hr, rfl, rfl⟩ | ⟨hfree, hr, -, -, rfl⟩
  · exact .inl ⟨hrefused, hr, rfl⟩
  · exact .inr ⟨hfree, hr, _, _, rfl⟩

theorem register_objects : s'.objects = s.objects := by
  rcases register_cases h with ⟨-, -, rfl⟩ | ⟨-, -, k, waiting, rfl⟩ <;> rfl

theorem register_tables : s'.tables = s.tables := by
  rcases register_cases h with ⟨-, -, rfl⟩ | ⟨-, -, k, waiting, rfl⟩ <;> rfl

theorem register_brk : s'.brk = s.brk := by
  rcases register_cases h with ⟨-, -, rfl⟩ | ⟨-, -, k, waiting, rfl⟩ <;> rfl

end

@[simp] theorem freeObject_reg (s : ObjSys) (a : ℕ) : (s.freeObject a).reg = s.reg := rfl

theorem modifyPipe_of_ne {f : Pipe → Pipe} {a : ℕ} (h : a ≠ o) :
    (s.modifyPipe o f).objects a = s.objects a := by
  unfold modifyPipe
  split
  · exact update_of_ne h _ _
  · rfl

theorem modifyPipe_self {f : Pipe → Pipe} {pipe : Pipe}
    (h : s.objects o = some ⟨id, .pipe pipe⟩) :
    (s.modifyPipe o f).objects o = some ⟨id, .pipe (f pipe)⟩ := by
  unfold modifyPipe
  simp only [h]
  exact update_self _ _ _

@[simp] theorem addClient_reg (client : ℕ) : (s.addClient o client).reg = s.reg := by
  unfold addClient
  split <;> rfl

@[simp] theorem unregister_registry (s : ObjSys) (name : Name) :
    (s.unregister name).reg.registry = update s.reg.registry (registryKey name) none := by
  unfold unregister registryRemove
  split
  · rfl
  next hnone => rw [← hnone, update_eq_self]

end ObjSys

/-! ## The creations -/

/-- What the three operations that create a named object have in common. -/
structure Creation where
  process : ℕ
  name : Name
  type : ObjType
  answers : Answers

def ObjEvent.creates : ObjEvent → Option Creation
  | createPipe process name _ _ _ answers => some ⟨process, name, .pipe, answers⟩
  | createSemaphore process name _ answers => some ⟨process, name, .semaphore, answers⟩
  | createShm process name _ answers => some ⟨process, name, .sharedMemory, answers⟩
  | _ => none

/-- The address space of a process, once memory has been mapped into it or could not be. -/
def ObjSys.Maps (s : ObjSys) (process : ℕ) (space : ProcessMemory) : Prop :=
  ∃ real size room result virtAddr, size ≠ 0 ∧
    processAllocateVmem (s.memory process) real size .randomAccessMemory .userAccess .readWrite
      room = .ok (result, virtAddr, space)

/-- The address spaces after a creation by the process. -/
def ObjSys.Spaces (s : ObjSys) (process : ℕ) (memory : ℕ → ProcessMemory) : Prop :=
  memory = s.memory ∨ ∃ space, s.Maps process space ∧ memory = update s.memory process space

/-- What a creation can do. -/
inductive Creation.Effect (s : ObjSys) (c : Creation) : ReturnT → Option ℕ → ObjSys → Prop
  /-- It fails before there is an object. -/
  | refused {r : ReturnT} : r ≠ .noError → Effect s c r none s
  /-- It fails when the object is in the table already. -/
  | abandoned (memory : ℕ → ProcessMemory) {r : ReturnT} {id : ℕ} :
      r ≠ .noError → s.Spaces c.process memory → (s.tables c.process).freeId = some id →
      Effect s c r none (s.grow c.process id ⟨0, .other⟩ memory)
  /-- It makes an object. Only a pipe says whether its name has been registered. -/
  | made (body : ObjBody) (memory : ℕ → ProcessMemory) {r result : ReturnT} {id : ℕ}
      {s' : ObjSys} :
      s.Spaces c.process memory → (s.tables c.process).freeId = some id → body.type = c.type →
      (∀ n ∈ body.storedName, n = c.name.take maxSharedObjectNameLength) →
      (s.grow c.process id ⟨id, body⟩ memory).register c.process c.name id c.answers.registry =
        .ok (result, s') →
      r = (if c.type = .pipe then result else .noError) →
      Effect s c r (some id) s'

namespace ObjSys

variable {s s' : ObjSys} {process : ℕ} {name : Name} {r : ReturnT} {objno : Option ℕ}
  {answers : Answers}

theorem objCreatePipe_effect {direction : PipeDirection} {messageSize messages : ℕ}
    (h : s.objCreatePipe process name direction messageSize messages answers = .ok (r, objno, s')) :
    Creation.Effect s ⟨process, name, .pipe, answers⟩ r objno s' := by
  unfold objCreatePipe at h
  split at h
  next pipe hsetup =>
    dsimp only at h
    split at h
    next id table hadd =>
      obtain ⟨⟨result, s₁⟩, hreg, h⟩ := of_bind h
      cases h
      obtain ⟨hfree, hgrow⟩ := grow_of_objAddObject hadd
      rw [hgrow] at hreg
      refine .made (.pipe pipe) s.memory (.inl rfl) hfree rfl (fun n hn => ?_) hreg rfl
      cases hn
      exact pipeCreateSetup_name hsetup
    next hadd =>
      cases h
      exact .refused (objAddObject_ne_noError hadd)
  cases h
  exact .refused (by decide)

theorem objCreateSemaphore_effect {initialCount : ℕ}
    (h : s.objCreateSemaphore process name initialCount answers = .ok (r, objno, s')) :
    Creation.Effect s ⟨process, name, .semaphore, answers⟩ r objno s' := by
  unfold objCreateSemaphore at h
  split at h
  · split at h
    next id table hadd =>
      obtain ⟨⟨result, s₁⟩, hreg, h⟩ := of_bind h
      cases h
      obtain ⟨hfree, hgrow⟩ := grow_of_objAddObject (b := true) hadd
      rw [hgrow] at hreg
      refine .made (.sema (.owner (semaNew name initialCount))) s.memory (.inl rfl) hfree rfl
        (fun n hn => ?_) hreg rfl
      cases hn
      rfl
    next hadd =>
      cases h
      exact .refused (objAddObject_ne_noError hadd)
  cases h
  exact .refused (by decide)

theorem setObject_addObject (table : ObjectTable) (first second : SharedObject)
    (space : ProcessMemory) :
    ((s.addObject process table first).setMemory process space).setObject s.brk second =
      { s.addObject process table second with
        memory := update s.memory process space } := by
  simp [addObject, setMemory, setObject]

theorem objCreateShm_effect {size : BitVec 32}
    (h : s.objCreateShm process name size answers = .ok (r, objno, s')) :
    Creation.Effect s ⟨process, name, .sharedMemory, answers⟩ r objno s' := by
  unfold objCreateShm at h
  split at h
  · cases h
    exact .refused (by decide)
  rename_i hsize
  split at h
  · split at h
    next id table hadd =>
      obtain ⟨a, ha, hfree, -, rfl⟩ := objAddObject_eq_ok.mp hadd
      cases ha
      obtain ⟨⟨result, virtAddr, space⟩, hallocate, h⟩ := of_bind h
      have hspaces : s.Spaces process (update s.memory process space) :=
        .inr ⟨space, ⟨_, _, _, _, _, hsize, hallocate⟩, rfl⟩
      dsimp only at h
      split at h
      · obtain ⟨⟨result', s₁⟩, hreg, h⟩ := of_bind h
        cases h
        rw [setObject_addObject] at hreg
        refine .made (.shm _) _ hspaces hfree rfl (fun n hn => ?_) hreg rfl
        obtain ⟨_, -, rfl⟩ := Option.map_eq_some_iff.mp hn
        rfl
      cases h
      exact .abandoned _ (by decide) hspaces hfree
    next hadd =>
      cases h
      exact .refused (objAddObject_ne_noError hadd)
  cases h
  exact .refused (by decide)

end ObjSys

/-- A creation touches no object but the one at the next pointer. -/
theorem Creation.Effect.objects_of_ne {s s' : ObjSys} {c : Creation} {r : ReturnT}
    {objno : Option ℕ} {a : ℕ} (h : Creation.Effect s c r objno s') (hne : a ≠ s.brk) :
    s'.objects a = s.objects a := by
  cases h with
  | refused => rfl
  | abandoned => exact update_of_ne hne _ _
  | made _ _ _ _ _ _ hreg =>
    rw [register_objects hreg]
    exact update_of_ne hne _ _

theorem ObjEvent.effect_of_creates {s s' : ObjSys} {event : ObjEvent} {c : Creation} {r : ReturnT}
    {objno : Option ℕ} (hcreates : event.creates = some c)
    (h : event.run s = .ok (r, objno, s')) : Creation.Effect s c r objno s' := by
  cases event with
  | createPipe process name direction messageSize messages answers =>
    cases hcreates
    exact objCreatePipe_effect h
  | createSemaphore process name initialCount answers =>
    cases hcreates
    exact objCreateSemaphore_effect h
  | createShm process name size answers =>
    cases hcreates
    exact objCreateShm_effect h
  | _ => cases hcreates

/-! ## The openings -/

def ObjSys.Finds (s : ObjSys) (name : Name) (other : ℕ) (obj : SharedObject) : Prop :=
  ∃ e, s.reg.registry (registryKey name) = some e ∧
    (s.tables e.process).theMap e.objno = some other ∧ s.objects other = some obj

/-- What an operation that opens a name can do, by the type of the object. -/
inductive Opening (s : ObjSys) (process : ℕ) (name : Name) : ObjType → ReturnT → ObjSys → Prop
  | refused {type : ObjType} {r : ReturnT} : r ≠ .noError → Opening s process name type r s
  /-- The caller waits for the name. -/
  | waits (k : ThreadSys) (waiting : Name → Option (List ℕ)) :
      Opening s process name .pipe .blockedRetry
        { s with toThreadSys := k, reg := ⟨s.reg.registry, waiting⟩ }
  /-- It fails when the memory may be mapped already. -/
  | mapped {space : ProcessMemory} {r : ReturnT} : r ≠ .noError → s.Maps process space →
      Opening s process name .sharedMemory r (s.setMemory process space)
  | pipe {direction : PipeDirection} {messageSize messages id other : ℕ} {memory : Option ℕ}
      {pipe : Pipe} {obj : SharedObject} : s.Finds name other obj →
      pipeOpenSetup name direction messageSize messages memory = some pipe →
      (s.tables process).freeId = some id →
      Opening s process name .pipe .noError
        ((s.grow process id ⟨id, .pipe pipe⟩ s.memory).linkPipes direction s.brk other)
  | link {id other : ℕ} {obj : SharedObject} : s.Finds name other obj →
      (s.tables process).freeId = some id →
      Opening s process name .semaphore .noError
        (s.grow process id ⟨id, .sema (.link other)⟩ s.memory)
  /-- The name of a view is registered already, so that registering it again is refused. The view
  may be missing from the list of clients. -/
  | view (listed : Bool) {id other n : ℕ} {x y : Shm} {space : ProcessMemory} :
      s.Finds name other ⟨n, .shm y⟩ → s.Maps process space →
      (s.tables process).freeId = some id → x.clientList = none → x.parentShm = some other →
      Opening s process name .sharedMemory .noError
        (let new := s.grow process id ⟨id, .shm x⟩ (update s.memory process space)
        if listed then new.addClient other s.brk else new)

namespace ObjSys

variable {s s' : ObjSys} {process : ℕ} {name : Name} {r : ReturnT} {objno : Option ℕ}
  {answers : Answers}

theorem finds_of_objCast {α : Type} {kind : ObjBody → Option α} {entry : RegistryEntry}
    {other a : ℕ} {x : α} (hentry : registryGet s.reg name = .ok entry)
    (hother : objGetObject (s.tables entry.process) entry.objno = some other)
    (hcast : s.objCast kind (some other) = .ok (some (a, x))) :
    a = other ∧ ∃ obj, s.Finds name other obj ∧ kind obj.body = some x := by
  obtain ⟨ha, obj, hobj, hkind⟩ := objCast_eq_some hcast
  cases ha
  exact ⟨rfl, obj, ⟨entry, registryGet_eq_ok.mp hentry, hother, hobj⟩, hkind⟩

theorem objOpenPipe_opening {thread messageSize messages : ℕ} {direction : PipeDirection}
    (h : s.objOpenPipe process thread name direction messageSize messages answers =
      .ok (r, objno, s')) : Opening s process name .pipe r s' := by
  unfold objOpenPipe at h
  split at h
  next entry hentry =>
    split at h
    next other hother =>
      obtain ⟨found, hcast, h⟩ := of_bind h
      cases found with
      | none =>
        cases h
        exact .refused (by decide)
      | some found =>
        obtain ⟨-, obj, hfinds, -⟩ := finds_of_objCast hentry hother hcast
        have hopen := Except.ok.inj h
        unfold openPipeOn at hopen
        split at hopen
        · split at hopen
          next pipe hsetup =>
            dsimp only at hopen
            split at hopen
            next id table hadd =>
              obtain ⟨hfree, hgrow⟩ := grow_of_objAddObject hadd
              rw [hgrow] at hopen
              cases hopen
              exact .pipe hfinds hsetup hfree
            next hadd =>
              cases hopen
              exact .refused (objAddObject_ne_noError hadd)
          cases hopen
          exact .refused (by decide)
        next hwrong =>
          cases hopen
          exact .refused hwrong
    cases h
    exact .refused (by decide)
  obtain ⟨⟨k, reg⟩, hwait, h⟩ := of_bind h
  cases h
  obtain ⟨-, -, hqueued⟩ := registryWaitFor_cases hwait
  have hreg : reg = ⟨s.reg.registry, reg.waiting⟩ := by
    rw [hqueued, ← registryQueueUp_registry s.reg]
  rw [hreg]
  exact .waits k reg.waiting

theorem objOpenSemaphore_opening
    (h : s.objOpenSemaphore process name answers = .ok (r, objno, s')) :
    Opening s process name .semaphore r s' := by
  unfold objOpenSemaphore at h
  split at h
  next entry hentry =>
    split at h
    next other hother =>
      obtain ⟨found, hcast, h⟩ := of_bind h
      cases found with
      | none =>
        cases h
        exact .refused (by decide)
      | some found =>
        obtain ⟨ha, obj, hfinds, -⟩ := finds_of_objCast hentry hother hcast
        dsimp only at h
        split at h
        · split at h
          next id table hadd =>
            obtain ⟨hfree, hgrow⟩ := grow_of_objAddObject (b := true) hadd
            rw [hgrow, ha] at h
            cases h
            exact .link hfinds hfree
          cases h
          exact .refused (by decide)
        cases h
        exact .refused (by decide)
    cases h
    exact .refused (by decide)
  cases h
  exact .refused (by decide)

theorem openShmOn_opening {other n : ℕ} {otherShm : Shm} {size : BitVec 32} (hsize : size ≠ 0)
    (hfinds : s.Finds name other ⟨n, .shm otherShm⟩)
    (h : s.openShmOn process other otherShm name size answers = .ok (r, objno, s')) :
    Opening s process name .sharedMemory r s' := by
  unfold openShmOn at h
  split at h
  next hsame =>
    obtain ⟨⟨result, virtAddr, space⟩, hallocate, h⟩ := of_bind h
    have hmaps : s.Maps process space := ⟨_, _, _, _, _, hsame ▸ hsize, hallocate⟩
    dsimp only at h
    split at h
    · split at h
      next id table hadd =>
        obtain ⟨⟨result', s₁⟩, hreg, h⟩ := of_bind h
        cases h
        obtain ⟨hfree, hgrow⟩ :=
          grow_of_objAddObject (s := s.setMemory process space) (b := true) hadd
        rw [hgrow] at hreg
        rcases register_cases hreg with ⟨-, -, rfl⟩ | ⟨hfound, -⟩
        · exact .view answers.clients hfinds hmaps hfree rfl rfl
        obtain ⟨e, hentry, -⟩ := hfinds
        have hfound := hfound.1
        rw [apply_ite ObjSys.reg, addClient_reg, ite_self] at hfound
        cases hentry.symm.trans hfound
      cases h
      exact .mapped (by decide) hmaps
    cases h
    exact .mapped (by decide) hmaps
  cases h
  exact .refused (by decide)

theorem objOpenShm_opening {size : BitVec 32}
    (h : s.objOpenShm process name size answers = .ok (r, objno, s')) :
    Opening s process name .sharedMemory r s' := by
  unfold objOpenShm at h
  split at h
  · cases h
    exact .refused (by decide)
  next hsize =>
    split at h
    · split at h
      next entry hentry =>
        split at h
        next other hother =>
          obtain ⟨found, hcast, h⟩ := of_bind h
          cases found with
          | none =>
            cases h
            exact .refused (by decide)
          | some found =>
            obtain ⟨-, ⟨n, body⟩, hfinds, hbody⟩ := finds_of_objCast hentry hother hcast
            cases body with
            | shm y =>
              cases hbody
              exact openShmOn_opening hsize hfinds h
            | pipe | sema | other => cases hbody
        cases h
        exact .refused (by decide)
      cases h
      exact .refused (by decide)
    cases h
    exact .refused (by decide)

end ObjSys

end Tinker
