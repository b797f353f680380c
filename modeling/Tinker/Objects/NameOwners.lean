import Tinker.Lib.Run
import Tinker.Objects.SharedSteps

/-!
# Who takes a name out of the registry

Deleting an object removes the name that is kept in it from the registry, whatever the registry has
under it. An opened pipe keeps the name of the pipe it was opened on, and so does an object whose
creation found the name taken: deleting one of them takes the name away from another object.

This is the only way in which that happens: if objects are deleted only if it was their own
creation that registered the name, every name leads to its object until that is deleted.
-/

namespace Tinker

open Tinker.Lib Function Exec ObjSys

/-! ## Statement -/

/-- The object that an operation deletes: its process and number, and the type it has to have. -/
def ObjEvent.deletes : ObjEvent → Option (RegistryEntry × ObjType)
  | deletePipe process pipeId => some (⟨process, pipeId⟩, .pipe)
  | closeSemaphore process semaId => some (⟨process, semaId⟩, .semaphore)
  | destroyShm process oid => some (⟨process, oid⟩, .sharedMemory)
  | _ => none

/-- The process has an object of the type under the number, and it keeps the name. -/
def ObjSys.Stores (s : ObjSys) (e : RegistryEntry) (type : ObjType) (name : Name) : Prop :=
  ∃ a obj, objGetObject (s.tables e.process) e.objno = some a ∧ s.objects a = some obj ∧
    obj.body.type = type ∧ obj.body.storedName = some name

/-- The state of the shared objects, and which objects were registered when they were created. -/
structure NamedSys where
  sys : ObjSys
  named : List RegistryEntry

/-- The object that a creation has registered: its name was free, and there was room for it. -/
def ObjEvent.registers (s : ObjSys) (event : ObjEvent) (objno : Option ℕ) : List RegistryEntry :=
  match event.creates, objno with
  | some c, some o =>
    if s.reg.registry (registryKey c.name) = none ∧ c.answers.registry = true then
      [⟨c.process, o⟩]
    else []
  | _, _ => []

def NamedSys.step (h : NamedSys) (event : ObjEvent) : Exec NamedSys := do
  let (_, objno, sys) ← event.run h.sys
  return ⟨sys, h.named ++ event.registers h.sys objno⟩

/-- If the operation deletes an object, then the entry of every other object stays in the
registry and goes on leading to that object. -/
def ObjEvent.Harmless (h : NamedSys) (event : ObjEvent) : Prop :=
  ∀ h' e type, h.step event = .ok h' → event.deletes = some (e, type) →
    ∀ key entry, h.sys.reg.registry key = some entry → entry ≠ e →
      h'.sys.reg.registry key = some entry ∧
      objGetObject (h'.sys.tables entry.process) entry.objno =
        objGetObject (h.sys.tables entry.process) entry.objno

/-- If the operation deletes an object whose name is registered, then it was the creation of this
object that registered it. -/
def ObjEvent.Entitled (h : NamedSys) (event : ObjEvent) : Prop :=
  ∀ e type name, event.deletes = some (e, type) → h.sys.Stores e type name →
    h.sys.reg.registry (registryKey name) ≠ none → e ∈ h.named

/-! ## The invariant -/

/-- Names lead to the objects that registered them. The last two fields are about the clients of
shared memory: deleting them takes no name out of the registry. -/
structure NamesOk (s : ObjSys) (named : List RegistryEntry) : Prop where
  entry_named : ∀ key e, s.reg.registry key = some e → e ∈ named
  number_lt : ∀ e ∈ named, e.objno < (s.tables e.process).nextId
  pointer_lt : ∀ p o a, (s.tables p).theMap o = some a → a < s.brk
  keeps : ∀ e ∈ named, ∀ type name, s.Stores e type name →
    s.reg.registry (registryKey name) = some e

namespace NamesOk

variable {s s' : ObjSys} {named : List RegistryEntry} {process id a : ℕ} {obj obj' : SharedObject}
  {memory : ℕ → ProcessMemory} {name : Name} {e : RegistryEntry} {r : ReturnT} {room : Bool}

theorem boot (k : ThreadSys) (memory : ℕ → ProcessMemory) : NamesOk (ObjSys.boot k memory) [] where
  entry_named _ _ h := by cases h
  number_lt _ h := by cases h
  pointer_lt _ _ _ h := by cases h
  keeps _ h := by cases h

theorem of_same (ok : NamesOk s named) (hreg : s'.reg.registry = s.reg.registry)
    (htables : s'.tables = s.tables) (hobjects : s'.objects = s.objects)
    (hbrk : s'.brk = s.brk) : NamesOk s' named where
  entry_named := by rw [hreg]; exact ok.entry_named
  number_lt := by rw [htables]; exact ok.number_lt
  pointer_lt := by rw [htables, hbrk]; exact ok.pointer_lt
  keeps := by
    unfold ObjSys.Stores
    rw [hreg, htables, hobjects]
    exact ok.keeps

/-- A new object. Its number is larger than those of all objects that were registered, so that it
is not one of them. -/
theorem grow (ok : NamesOk s named) (hfree : (s.tables process).freeId = some id) :
    NamesOk (s.grow process id obj memory) named := by
  obtain ⟨hid, -⟩ := ObjectTable.freeId_spec hfree
  refine ⟨ok.entry_named, fun x hx => ?_, fun p o b hb => ?_, fun x hx type n hstores => ?_⟩
  · have hlt := ok.number_lt x hx
    rw [grow_tables]
    split
    next hp =>
      rw [hp] at hlt
      exact Nat.lt_succ_of_lt (Nat.lt_of_lt_of_le hlt hid)
    · exact hlt
  · rcases grow_tables_cases hb with ⟨-, -, rfl⟩ | hb
    · exact Nat.lt_succ_self _
    · exact Nat.lt_succ_of_lt (ok.pointer_lt p o b hb)
  obtain ⟨b, y, hb, hy, htype, hn⟩ := hstores
  rcases grow_tables_cases hb with ⟨hp, ho, -⟩ | hb
  · have hlt := ok.number_lt x hx
    rw [hp, ho] at hlt
    omega
  rcases grow_objects_cases hy with ⟨rfl, -⟩ | hy
  · exact absurd (ok.pointer_lt _ _ _ hb) (lt_irrefl _)
  · exact ok.keeps x hx type n ⟨b, y, hb, hy, htype, hn⟩

theorem enter {k : ThreadSys} {waiting : Name → Option (List ℕ)} (ok : NamesOk s named)
    (hfree : s.reg.registry (registryKey name) = none) (hid : id < (s.tables process).nextId)
    (hname : ∀ type n, s.Stores ⟨process, id⟩ type n → registryKey n = registryKey name) :
    NamesOk { s with
      toThreadSys := k
      reg := ⟨update s.reg.registry (registryKey name) (some ⟨process, id⟩), waiting⟩ }
      (named ++ [⟨process, id⟩]) := by
  refine ⟨fun key x hx => ?_, fun x hx => ?_, ok.pointer_lt, fun x hx type n hstores => ?_⟩
  · dsimp only at hx
    rcases eq_or_ne key (registryKey name) with rfl | hkey
    · rw [update_self] at hx
      exact List.mem_append_right _ (List.mem_singleton.mpr (Option.some.inj hx).symm)
    rw [update_of_ne hkey] at hx
    exact List.mem_append_left _ (ok.entry_named key x hx)
  · rcases List.mem_append.mp hx with hx | hx
    · exact ok.number_lt x hx
    rw [List.mem_singleton.mp hx]
    exact hid
  rcases List.mem_append.mp hx with hx | hx
  · -- the name of an object that was registered before is not free
    have hentry := ok.keeps x hx type n hstores
    have hkey : registryKey n ≠ registryKey name := by
      intro hkey
      rw [hkey, hfree] at hentry
      cases hentry
    exact (update_of_ne hkey _ _).trans hentry
  obtain rfl := List.mem_singleton.mp hx
  rw [hname type n hstores]
  exact update_self _ _ _

theorem setObject (ok : NamesOk s named) (hobj : s.objects a = some obj)
    (hname : obj'.body.storedName = obj.body.storedName) :
    NamesOk (s.setObject a obj') named := by
  refine ⟨ok.entry_named, ok.number_lt, ok.pointer_lt, fun x hx type n hstores => ?_⟩
  obtain ⟨b, y, hb, hy, -, hn⟩ := hstores
  rcases setObject_objects_cases hy with ⟨rfl, rfl⟩ | hy
  · exact ok.keeps x hx obj.body.type n ⟨b, obj, hb, hobj, rfl, hname.symm.trans hn⟩
  · exact ok.keeps x hx y.body.type n ⟨b, y, hb, hy, rfl, hn⟩

section

variable (ok : NamesOk s named)
include ok

theorem freeObject : NamesOk (s.freeObject a) named := by
  refine ⟨ok.entry_named, ok.number_lt, ok.pointer_lt, fun x hx type n hstores => ?_⟩
  obtain ⟨b, y, hb, hy, htype, hn⟩ := hstores
  exact ok.keeps x hx type n ⟨b, y, hb, (freeObject_objects_cases hy).2, htype, hn⟩

theorem remove (hown : ∀ e, s.reg.registry (registryKey name) = some e →
      objGetObject (s.tables e.process) e.objno = some a) :
    NamesOk ((s.unregister name).freeObject a) named := by
  have hfreed := ok.freeObject (a := a)
  refine ⟨fun key x hx => ?_, hfreed.number_lt, hfreed.pointer_lt, fun x hx type n hstores => ?_⟩
  · rw [freeObject_reg, unregister_registry] at hx
    rcases eq_or_ne key (registryKey name) with rfl | hkey
    · rw [update_self] at hx
      cases hx
    rw [update_of_ne hkey] at hx
    exact ok.entry_named key x hx
  have hentry := hfreed.keeps x hx type n hstores
  rw [freeObject_reg, unregister_registry]
  rcases eq_or_ne (registryKey n) (registryKey name) with hkey | hkey
  · -- the name led to the object that is freed, which keeps no name any more
    obtain ⟨b, y, hb, hy, -, -⟩ := hstores
    rw [hkey] at hentry
    have hba : b = a := Option.some.inj (hb.symm.trans (hown x hentry))
    exact absurd hba (freeObject_objects_cases hy).1
  rw [update_of_ne hkey]
  exact hentry

theorem removeNumber {o : ℕ} : NamesOk (s.removeNumber process o) named := by
  refine ⟨ok.entry_named, fun x hx => ?_, fun p n b hb => ?_, fun x hx type n hstores => ?_⟩
  · rw [removeNumber_nextId]
    exact ok.number_lt x hx
  · exact ok.pointer_lt p n b (removeNumber_theMap_cases hb)
  obtain ⟨b, y, hb, hy, htype, hn⟩ := hstores
  exact ok.keeps x hx type n ⟨b, y, removeNumber_theMap_cases hb, hy, htype, hn⟩

/-! ### Creating and opening -/

theorem creates {event : ObjEvent} {c : Creation} {objno : Option ℕ}
    (hcreates : event.creates = some c) (h : event.run s = .ok (r, objno, s')) :
    NamesOk s' (named ++ event.registers s objno) := by
  unfold ObjEvent.registers
  rw [hcreates]
  cases event.effect_of_creates hcreates h with
  | refused => simpa using ok
  | abandoned memory _ _ hfree => simpa using ok.grow hfree
  | @made body memory _ result id _ _ hfree _ hname hreg _ =>
    have hgrown : NamesOk (s.grow c.process id ⟨id, body⟩ memory) named := ok.grow hfree
    rcases register_cases hreg with ⟨hrefused, -, rfl⟩ | ⟨hfound, -, k, waiting, rfl⟩
    · rw [grow_reg] at hrefused
      dsimp only
      rw [if_neg hrefused, List.append_nil]
      exact hgrown
    rw [grow_reg] at hfound
    dsimp only
    rw [if_pos hfound]
    refine hgrown.enter hfound.1 ?_ fun type n hstores => ?_
    · rw [grow_tables, if_pos rfl]
      exact Nat.lt_succ_self id
    -- the number was not in use, so it leads to the new object
    obtain ⟨a, obj, ha, hobj, -, hn⟩ := hstores
    have ha : a = s.brk := by
      rcases grow_tables_cases ha with ⟨-, -, ha⟩ | hused
      · exact ha
      rw [(ObjectTable.freeId_spec hfree).2] at hused
      cases hused
    rw [grow_objects, if_pos ha] at hobj
    cases hobj
    rw [hname n hn]
    exact registryKey_take c.name

theorem modifyPipe {o : ℕ} {f : Pipe → Pipe} (hf : ∀ pipe, (f pipe).name = pipe.name) :
    NamesOk (s.modifyPipe o f) named := by
  unfold ObjSys.modifyPipe
  split
  next hobj =>
    exact ok.setObject hobj (congrArg some (hf _))
  · exact ok

theorem linkPipes {direction : PipeDirection} {no other : ℕ} :
    NamesOk (s.linkPipes direction no other) named := by
  have hreader : ∀ {t : ObjSys} {o r : ℕ}, NamesOk t named →
      NamesOk (t.modifyPipe o (·.addReader r)) named :=
    fun ok => ok.modifyPipe fun _ => rfl
  have hsender : ∀ {t : ObjSys} {o r : ℕ}, NamesOk t named →
      NamesOk (t.modifyPipe o (·.addSender r)) named :=
    fun ok => ok.modifyPipe fun _ => rfl
  cases direction with
  | send => exact hreader (hsender ok)
  | receive => exact hsender (hreader ok)
  | sendReceive => exact hsender (hreader (hsender (hreader ok)))
  | unknown => exact ok

theorem setMemory {space : ProcessMemory} :
    NamesOk (s.setMemory process space) named :=
  ok.of_same rfl rfl rfl rfl

theorem addClient {o c : ℕ} : NamesOk (s.addClient o c) named := by
  unfold ObjSys.addClient
  split
  next objno shm hobj =>
    refine ok.setObject hobj ?_
    cases hlist : shm.clientList <;> simp [ObjBody.storedName, hlist]
  · exact ok

theorem opening {type : ObjType} (h : Opening s process name type r s') : NamesOk s' named := by
  cases h with
  | refused => exact ok
  | waits | mapped => exact ok.of_same rfl rfl rfl rfl
  | pipe _ _ hfree => exact (ok.grow hfree).linkPipes
  | link _ hfree => exact ok.grow hfree
  | view listed _ _ hfree =>
    cases listed with
    | false => exact ok.grow hfree
    | true => exact (ok.grow hfree).addClient

end

end NamesOk

/-! ## Deleting -/

namespace ObjSys

/-- Only objects and address spaces have changed. -/
structure Frame (s s' : ObjSys) : Prop where
  reg : s'.reg = s.reg
  tables : s'.tables = s.tables

theorem Frame.refl (s : ObjSys) : Frame s s := ⟨rfl, rfl⟩

/-- An object is freed, after its name, if it has one, has been taken out of the registry. -/
def dispose (s : ObjSys) (name : Option Name) (o : ℕ) : ObjSys :=
  match name with
  | some name => (s.unregister name).freeObject o
  | none => s.freeObject o

variable {s s' : ObjSys} {named : List RegistryEntry} {o : ℕ} {obj : SharedObject} {shm : Shm}

theorem freeVmem_eq_ok (h : s.freeVmem shm = .ok s') :
    ∃ space, s' = s.setMemory shm.process space := by
  obtain ⟨space, -, h⟩ := of_bind h
  exact ⟨space, (Except.ok.inj h).symm⟩

theorem modifyClients_ok {f : List ℕ → List ℕ} (ok : NamesOk s named)
    (h : s.modifyClients o f = .ok s') : NamesOk s' named ∧ Frame s s' := by
  obtain ⟨⟨objno, body⟩, hload, h⟩ := of_bind h
  cases body with
  | shm shm =>
    cases h
    refine ⟨ok.setObject (load_eq_ok hload) ?_, rfl, rfl⟩
    cases hlist : shm.clientList <;> simp [ObjBody.storedName, hlist]
  | pipe | sema | other => cases h

/-- Where `obj_delete_shm` returns, the shared memory has no list of clients: its section goes, and
it leaves the list of the memory that it is a view of. -/
theorem deleteShm_cases {depth : ℕ} (h : deleteShm (depth + 1) s o = .ok s') :
    ∃ n x space, s.objects o = some ⟨n, .shm x⟩ ∧ x.clientList = none ∧
      s.freeVmem x = .ok (s.setMemory x.process space) ∧
      ((x.parentShm = none ∧ s' = (s.setMemory x.process space).freeObject o) ∨
        ∃ parent s₁, x.parentShm = some parent ∧
          (s.setMemory x.process space).modifyClients parent (·.erase o) = .ok s₁ ∧
          s' = s₁.freeObject o) := by
  obtain ⟨⟨n, body⟩, hload, h⟩ := of_bind h
  have hobj := load_eq_ok hload
  cases body with
  | shm x =>
    dsimp only at h
    cases hlist : x.clientList with
    | some clients =>
      simp only [hlist] at h
      obtain ⟨_, -, h⟩ := of_bind h
      obtain ⟨_, -, h⟩ := of_bind h
      cases h
    | none =>
      simp only [hlist] at h
      obtain ⟨s₁, hfree, h⟩ := of_bind h
      obtain ⟨space, rfl⟩ := freeVmem_eq_ok hfree
      refine ⟨n, x, space, hobj, hlist, hfree, ?_⟩
      cases hparent : x.parentShm with
      | none =>
        simp only [hparent] at h
        exact .inl ⟨rfl, (Except.ok.inj h).symm⟩
      | some parent =>
        simp only [hparent] at h
        obtain ⟨s₂, hmodify, h⟩ := of_bind h
        exact .inr ⟨parent, s₂, rfl, hmodify, (Except.ok.inj h).symm⟩
  | pipe | sema | other => cases h

theorem deleteShm_ok {depth : ℕ} (ok : NamesOk s named) (hobj : s.objects o = some obj)
    (h : deleteShm (depth + 1) s o = .ok s') :
    ∃ s₁, NamesOk s₁ named ∧ Frame s s₁ ∧ s' = s₁.dispose obj.body.storedName o := by
  obtain ⟨n, x, space, hx, hlist, -, hcases⟩ := deleteShm_cases h
  cases hobj.symm.trans hx
  have hname : (ObjBody.shm x).storedName = none := Option.map_eq_none_iff.mpr hlist
  rw [hname]
  rcases hcases with ⟨-, rfl⟩ | ⟨parent, s₁, -, hmodify, rfl⟩
  · exact ⟨_, ok.setMemory, ⟨rfl, rfl⟩, rfl⟩
  · obtain ⟨ok₁, frame⟩ := modifyClients_ok ok.setMemory hmodify
    exact ⟨s₁, ok₁, ⟨frame.reg, frame.tables⟩, rfl⟩

/-- The object `a` is deleted, with what it leads to. -/
def Deleted (s : ObjSys) (type : ObjType) (a : ℕ) (body : ObjBody) (s' : ObjSys) : Prop :=
  type ≠ .sharedMemory ∧ s' = s.dispose body.storedName a ∨ deleteShm 2 s a = .ok s'

/-- A system call that deletes an object does nothing if there is no object of the kind, or gives
up the number of the object once it is deleted. -/
theorem syscallDelete_cases {α : Type} {kind : ObjBody → Option α} {e : RegistryEntry}
    {type : ObjType} {d : Option (ℕ × α) → Exec (ReturnT × ObjSys)} {r : ReturnT}
    (hkind : ∀ body : ObjBody, (kind body).isSome = true ↔ body.type = type)
    (hnone : d none = .ok (.invalidObject, s))
    (hdelete : ∀ a body x r t, kind body = some x → d (some (a, x)) = .ok (r, t) →
      r = .noError ∧ s.Deleted type a body t)
    (h : (do
      let x ← s.objCast kind (objGetObject (s.tables e.process) e.objno)
      let (ret, s) ← d x
      return s.syscallDeleteObject e.process e.objno ret) = .ok (r, s')) :
    (s' = s ∧ ∀ name, ¬ s.Stores e type name) ∨
      ∃ a obj s₁, objGetObject (s.tables e.process) e.objno = some a ∧ s.objects a = some obj ∧
        obj.body.type = type ∧ s.Deleted type a obj.body s₁ ∧
        s' = s₁.removeNumber e.process e.objno := by
  obtain ⟨found, hcast, h⟩ := of_bind h
  obtain ⟨⟨ret, s₁⟩, hdone, h⟩ := of_bind h
  cases found with
  | none =>
    cases hnone.symm.trans hdone
    cases h
    refine .inl ⟨rfl, ?_⟩
    rintro name ⟨a, obj, ha, hobj, htype, -⟩
    rw [ha] at hcast
    obtain ⟨obj', hload, hcast⟩ := of_bind hcast
    cases hobj.symm.trans (load_eq_ok hload)
    have hsome := (hkind obj.body).mpr htype
    rw [Option.map_eq_none_iff.mp (Except.ok.inj hcast)] at hsome
    cases hsome
  | some found =>
    obtain ⟨ha, obj, hobj, hx⟩ := objCast_eq_some hcast
    obtain ⟨rfl, hdeleted⟩ := hdelete _ _ _ _ _ hx hdone
    cases h
    exact .inr ⟨_, obj, s₁, ha, hobj, (hkind obj.body).mp (by rw [hx]; rfl), hdeleted, rfl⟩

end ObjSys

theorem ObjEvent.cases_of_deletes {s s' : ObjSys} {event : ObjEvent} {e : RegistryEntry}
    {type : ObjType} {r : ReturnT} {objno : Option ℕ} (hdeletes : event.deletes = some (e, type))
    (h : event.run s = .ok (r, objno, s')) :
    (s' = s ∧ ∀ name, ¬ s.Stores e type name) ∨
      ∃ a obj s₁, objGetObject (s.tables e.process) e.objno = some a ∧ s.objects a = some obj ∧
        obj.body.type = type ∧ s.Deleted type a obj.body s₁ ∧
        s' = s₁.removeNumber e.process e.objno := by
  cases event with
  | deletePipe process pipeId =>
    cases hdeletes
    obtain ⟨⟨ret, s₁⟩, hsys, h⟩ := of_bind h
    obtain ⟨-, -, rfl⟩ := triple_inj h
    refine syscallDelete_cases
      (fun body => by cases body <;> simp [ObjBody.asPipe, ObjBody.type]) rfl ?_ hsys
    intro a body x r t hx hdone
    cases body <;> cases hx
    obtain ⟨_, -, hdone⟩ := of_bind hdone
    cases hdone
    exact ⟨rfl, .inl ⟨by decide, rfl⟩⟩
  | closeSemaphore process semaId =>
    cases hdeletes
    obtain ⟨⟨ret, s₁⟩, hsys, h⟩ := of_bind h
    obtain ⟨-, -, rfl⟩ := triple_inj h
    refine syscallDelete_cases (d := fun x => pure (s.objectDeleteSemaphore x))
      (fun body => by cases body <;> simp [ObjBody.asSema, ObjBody.type]) rfl ?_ hsys
    intro a body x r t hx hdone
    cases body <;> cases hx
    cases x <;> cases hdone <;> exact ⟨rfl, .inl ⟨by decide, rfl⟩⟩
  | destroyShm process oid =>
    cases hdeletes
    obtain ⟨⟨ret, s₁⟩, hsys, h⟩ := of_bind h
    obtain ⟨-, -, rfl⟩ := triple_inj h
    refine syscallDelete_cases
      (fun body => by cases body <;> simp [ObjBody.asShm, ObjBody.type]) rfl ?_ hsys
    intro a body x r t hx hdone
    obtain ⟨s₂, hdelete, hdone⟩ := of_bind hdone
    cases hdone
    exact ⟨rfl, .inr hdelete⟩
  | _ => cases hdeletes

/-- A deletion changes no other name: what is deleted before the object itself has none. -/
theorem NamesOk.cases_of_deletes {s s' : ObjSys} {named : List RegistryEntry} {event : ObjEvent}
    {e : RegistryEntry} {type : ObjType} {r : ReturnT} {objno : Option ℕ} (ok : NamesOk s named)
    (hdeletes : event.deletes = some (e, type)) (h : event.run s = .ok (r, objno, s')) :
    (s' = s ∧ ∀ name, ¬ s.Stores e type name) ∨
      ∃ a obj s₁, objGetObject (s.tables e.process) e.objno = some a ∧ s.objects a = some obj ∧
        obj.body.type = type ∧ NamesOk s₁ named ∧ s.Frame s₁ ∧
        s' = (s₁.dispose obj.body.storedName a).removeNumber e.process e.objno := by
  refine (event.cases_of_deletes hdeletes h).imp_right ?_
  rintro ⟨a, obj, s₁, ha, hobj, htype, ⟨-, rfl⟩ | hdelete, rfl⟩
  · exact ⟨a, obj, s, ha, hobj, htype, ok, .refl s, rfl⟩
  obtain ⟨s₂, ok₂, frame, rfl⟩ := deleteShm_ok ok hobj hdelete
  exact ⟨a, obj, s₂, ha, hobj, htype, ok₂, frame, rfl⟩

/-! ## Steps and runs -/

section Steps

variable {h h' : NamedSys} {event : ObjEvent} {e : RegistryEntry} {type : ObjType}

theorem NamedSys.step_eq_ok (hstep : h.step event = .ok h') :
    ∃ r objno, event.run h.sys = .ok (r, objno, h'.sys) ∧
      h'.named = h.named ++ event.registers h.sys objno := by
  obtain ⟨⟨r, objno, sys⟩, hrun, hstep⟩ := of_bind hstep
  cases hstep
  exact ⟨r, objno, hrun, rfl⟩

theorem ObjSys.dispose_registry (s : ObjSys) (name : Option Name) (o : ℕ) (key : Name) :
    (s.dispose name o).reg.registry key =
      if name.map registryKey = some key then none else s.reg.registry key := by
  cases name with
  | none => rfl
  | some name =>
    rw [show (s.dispose (some name) o).reg.registry = _ from unregister_registry s name,
      update_apply]
    simp [eq_comm]

theorem ObjSys.dispose_tables (s : ObjSys) (name : Option Name) (o : ℕ) :
    (s.dispose name o).tables = s.tables := by
  cases name <;> rfl

/-- Where names lead to the objects that registered them, a deletion leaves the other names alone
exactly if the object was entitled to its name. -/
theorem harmless_iff_entitled (ok : NamesOk h.sys h.named) (hstep : h.step event = .ok h') :
    event.Harmless h ↔ event.Entitled h := by
  obtain ⟨r, objno, hrun, -⟩ := NamedSys.step_eq_ok hstep
  constructor
  · intro harmless e type name hdeletes hstores hregistered
    obtain ⟨entry, hentry⟩ := Option.ne_none_iff_exists'.mp hregistered
    rcases ok.cases_of_deletes hdeletes hrun with
      ⟨-, hnot⟩ | ⟨a, obj, s₁, ha, hobj, -, -, frame, hs⟩
    · exact absurd hstores (hnot name)
    obtain ⟨a', obj', ha', hobj', -, hname⟩ := hstores
    cases ha.symm.trans ha'
    cases hobj.symm.trans hobj'
    -- the entry is gone, so that it was that of the object itself
    by_cases heq : entry = e
    · exact heq ▸ ok.entry_named _ _ hentry
    have hkept := (harmless h' e type hstep hdeletes _ entry hentry heq).1
    rw [hs, removeNumber_reg, dispose_registry, hname, Option.map_some, if_pos rfl] at hkept
    cases hkept
  intro entitled h'' e type hstep' hdeletes key entry hentry hne
  cases hstep.symm.trans hstep'
  rcases ok.cases_of_deletes hdeletes hrun with
    ⟨hs, -⟩ | ⟨a, obj, s₁, ha, hobj, htype, -, frame, hs⟩
  · rw [hs]
    exact ⟨hentry, rfl⟩
  constructor
  · rw [hs, removeNumber_reg, dispose_registry, frame.reg]
    split
    next hkey =>
      -- the name that is removed leads to the object itself
      obtain ⟨name, hname, rfl⟩ := Option.map_eq_some_iff.mp hkey
      have hstores : h.sys.Stores e type name := ⟨a, obj, ha, hobj, htype, hname⟩
      have hmem := entitled e type name hdeletes hstores (by rw [hentry]; simp)
      exact absurd (Option.some.inj (hentry.symm.trans (ok.keeps e hmem type name hstores))) hne
    · exact hentry
  have hother : ¬ (entry.process = e.process ∧ entry.objno = e.objno) :=
    fun hsame => hne (RegistryEntry.ext hsame.1 hsame.2)
  unfold objGetObject
  rw [hs, removeNumber_theMap, if_neg hother, dispose_tables, frame.tables]

theorem NamesOk.dispose {s s₁ : ObjSys} {named : List RegistryEntry} {a : ℕ} {obj : SharedObject}
    (ok : NamesOk s named) (ok₁ : NamesOk s₁ named) (frame : s.Frame s₁)
    (ha : objGetObject (s.tables e.process) e.objno = some a) (hobj : s.objects a = some obj)
    (hentitled : ∀ name, obj.body.storedName = some name →
      s.reg.registry (registryKey name) ≠ none → e ∈ named) :
    NamesOk (s₁.dispose obj.body.storedName a) named := by
  cases hname : obj.body.storedName with
  | none => exact ok₁.freeObject
  | some name =>
    refine ok₁.remove fun entry hentry => ?_
    rw [frame.reg] at hentry
    have hmem := hentitled name hname (by rw [hentry]; simp)
    have hown := ok.keeps e hmem obj.body.type name ⟨a, obj, ha, hobj, rfl, hname⟩
    cases hentry.symm.trans hown
    rw [frame.tables]
    exact ha

/-- The invariant is kept by every step, if deletions are entitled. -/
theorem NamesOk.step (ok : NamesOk h.sys h.named) (entitled : event.Entitled h)
    (hstep : h.step event = .ok h') : NamesOk h'.sys h'.named := by
  obtain ⟨r, objno, hrun, hnamed⟩ := NamedSys.step_eq_ok hstep
  rw [hnamed]
  cases hcreates : event.creates with
  | some c => exact ok.creates hcreates hrun
  | none =>
    rw [show event.registers h.sys objno = [] by simp [ObjEvent.registers, hcreates],
      List.append_nil]
    cases hdeletes : event.deletes with
    | some target =>
      obtain ⟨e, type⟩ := target
      rcases ok.cases_of_deletes hdeletes hrun with
        ⟨hs, -⟩ | ⟨a, obj, s₁, ha, hobj, htype, ok₁, frame, hs⟩
      · rw [hs]
        exact ok
      rw [hs]
      exact (ok.dispose ok₁ frame ha hobj fun name hname =>
        entitled e type name hdeletes ⟨a, obj, ha, hobj, htype, hname⟩).removeNumber
    | none =>
      cases event with
      | openPipe => exact ok.opening (objOpenPipe_opening hrun)
      | openSemaphore => exact ok.opening (objOpenSemaphore_opening hrun)
      | openShm => exact ok.opening (objOpenShm_opening hrun)
      | createPipe | createSemaphore | createShm => cases hcreates
      | deletePipe | closeSemaphore | destroyShm => cases hdeletes

end Steps

/-- In a run from the start, every deletion leaves the names of the other objects alone exactly
if in every deletion of an object whose name is registered it was this object that registered
it. -/
theorem run_harmless_iff (k : ThreadSys) (memory : ℕ → ProcessMemory) (events : List ObjEvent)
    (h : NamedSys) :
    Run NamedSys.step (fun h event => event.Harmless h) ⟨ObjSys.boot k memory, []⟩ events h ↔
      Run NamedSys.step (fun h event => event.Entitled h) ⟨ObjSys.boot k memory, []⟩ events h :=
  Run.guard_iff (NamesOk.boot k memory)
    (fun _ _ _ ok hstep => harmless_iff_entitled ok hstep)
    (fun _ _ _ ok harmless hstep => ok.step ((harmless_iff_entitled ok hstep).mp harmless) hstep)

/-- Process 1 opens the pipe of process 0 and closes it again. The name of the pipe is gone,
although the pipe is not. -/
theorem not_harmless_closed_pipe :
    ∃ k memory h h',
      Run NamedSys.step (fun _ _ => True) ⟨ObjSys.boot k memory, []⟩
        [.createPipe 0 [97] .receive 4 1 .plenty, .openPipe 1 0 [97] .send 4 1 .plenty] h ∧
      h.step (.deletePipe 1 1) = .ok h' ∧
      registryGet h.sys.reg [97] = .ok ⟨0, 1⟩ ∧
      registryGet h'.sys.reg [97] = .error .objectNotInRegistry ∧
      objGetObject (h'.sys.tables 0) 1 = some 0 ∧
      ¬ ObjEvent.Harmless h (.deletePipe 1 1) := by
  obtain ⟨k, -⟩ : ∃ k, ThreadSys.boot (fun _ => 1) [] = .ok k := ⟨_, rfl⟩
  refine ⟨k, fun _ => ⟨false, [], 0, tgtInitialisePageTable []⟩, _, _,
    .cons trivial rfl (.cons trivial rfl (.nil _)), rfl, rfl, rfl, rfl, fun harmless => ?_⟩
  have hkept := (harmless _ ⟨1, 1⟩ .pipe rfl rfl [97] ⟨0, 1⟩ rfl (by decide)).1
  cases hkept

end Tinker
