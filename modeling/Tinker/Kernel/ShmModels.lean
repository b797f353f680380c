import Tinker.Kernel.Calls
import Tinker.Objects.NameOwners
import Tinker.Process.Exit

/-!
# The deletion of shared memory in three models

`obj_delete_shm` is part of three models: that of the objects and their names, that of a process
which exits, and that of the whole kernel. They agree: where the first one returns, the others do so
with what they see of its state; and none of them returns for a memory with a list of clients.
-/

namespace Tinker

open Tinker.Lib Function Exec

/-- What the exit of a process sees of an object. -/
def SharedObject.exiting (obj : SharedObject) : Option TableObject :=
  match obj.body with
  | .pipe pipe => some (.pipe (BitVec.ofNat 16 obj.objectNumber) pipe.memoryPtr)
  | .sema _ => some (.semaphore (BitVec.ofNat 16 obj.objectNumber))
  | .shm shm =>
    some (.shm (BitVec.ofNat 16 obj.objectNumber) shm.clientList shm.parentShm)
  | .other => none

/-- What the exit of a process sees of the system. -/
def ObjSys.exiting (s : ObjSys) (table : HashedTable ℕ) (deleted : List ℕ) : ExitSys :=
  ⟨table, fun o => (s.objects o).bind SharedObject.exiting, deleted⟩

/-- The name that the whole kernel is given for a shared memory. -/
def Shm.ownedName (shm : Shm) : Option Name := shm.clientList.map fun _ => shm.name

variable {s s' : ObjSys} {o p depth n : ℕ} {shm : Shm} {table : HashedTable ℕ}
  {deleted : List ℕ} {f : List ℕ → List ℕ}

theorem exiting_objects_update (s : ObjSys) (table : HashedTable ℕ) (deleted : List ℕ) (o : ℕ)
    (obj : Option SharedObject) :
    ({ s with objects := update s.objects o obj }.exiting table deleted).objects =
      update (s.exiting table deleted).objects o (obj.bind SharedObject.exiting) :=
  comp_update (Option.bind · SharedObject.exiting) s.objects o obj

theorem exiting_load (h : s.objects o = some ⟨n, .shm shm⟩) :
    (s.exiting table deleted).load o =
      .ok (.shm (BitVec.ofNat 16 n) shm.clientList shm.parentShm) := by
  simp [ExitSys.load, ObjSys.exiting, SharedObject.exiting, h]

theorem exiting_free (h : s.objects o = some ⟨n, .shm shm⟩) :
    (s.exiting table deleted).free o = .ok ((s.freeObject o).exiting table (deleted ++ [o])) := by
  have hobj : (s.exiting table deleted).objects o =
      some (.shm (BitVec.ofNat 16 n) shm.clientList shm.parentShm) := by
    simp [ObjSys.exiting, SharedObject.exiting, h]
  simp only [ExitSys.free, hobj]
  congr 2
  exact (exiting_objects_update s table deleted o none).symm

/-- The list of clients of the same shared memory changes, and every shared memory stays one. -/
theorem exiting_modifyClients (table : HashedTable ℕ) (deleted : List ℕ)
    (h : s.modifyClients p f = .ok s') :
    (s.exiting table deleted).modifyClients p f = .ok (s'.exiting table deleted) ∧
      s'.reg = s.reg ∧
      (s.objects o = some ⟨n, .shm shm⟩ → ∃ n' shm', s'.objects o = some ⟨n', .shm shm'⟩) := by
  obtain ⟨⟨m, body⟩, hload, h⟩ := of_bind h
  cases body with
  | pipe | sema | other => cases h
  | shm x =>
    cases h
    refine ⟨?_, rfl, fun ho => ?_⟩
    · rw [ExitSys.modifyClients, exiting_load (ObjSys.load_eq_ok hload), ok_bind]
      have hset := exiting_objects_update s table deleted p
        (some ⟨m, .shm { x with clientList := x.clientList.map f }⟩)
      exact congrArg (fun objects => Except.ok (ExitSys.mk table objects deleted)) hset.symm
    rcases eq_or_ne o p with rfl | hne
    · exact ⟨m, _, update_self ..⟩
    · exact ⟨n, shm, (update_of_ne hne _ _).trans ho⟩

/-- Where the deletion returns in the model of objects and names, it does so in the two others: the
process that exits sees the memory gone and its own list entry taken out, and the registry of the
kernel stays as it is. -/
theorem deleteShm_agrees (h : ObjSys.deleteShm (depth + 1) s o = .ok s') (k : Kernel) :
    ExitSys.objDeleteShm (depth + 1) (s.exiting table deleted) o =
        .ok (s'.exiting table (deleted ++ [o])) ∧
      ∃ n shm, s.objects o = some ⟨n, .shm shm⟩ ∧
        objDeleteShm k (some shm.ownedName) = .ok (.noError, k) ∧ s'.reg = s.reg := by
  obtain ⟨n, x, space, hobj, hlist, -, hcases⟩ := ObjSys.deleteShm_cases h
  have hkernel : objDeleteShm k (some x.ownedName) = .ok (.noError, k) := by
    rw [Shm.ownedName, hlist]
    rfl
  rw [ExitSys.objDeleteShm, exiting_load hobj, ok_bind, hlist]
  rcases hcases with ⟨hparent, rfl⟩ | ⟨parent, s₁, hparent, hmodify, rfl⟩
  · rw [hparent]
    exact ⟨exiting_free hobj, n, x, hobj, hkernel, rfl⟩
  · obtain ⟨hexit, hreg, hkept⟩ := exiting_modifyClients table deleted hmodify
    obtain ⟨m, y, hy⟩ := hkept hobj
    rw [hparent]
    refine ⟨?_, n, x, hobj, hkernel, hreg⟩
    exact (congrArg (· >>= _) hexit).trans (exiting_free hy)

/-- For a memory with a list of clients, none of the three returns. -/
theorem deleteShm_owner (h : s.objects o = some ⟨n, .shm shm⟩) (hlist : shm.clientList ≠ none)
    (k : Kernel) :
    (∀ s', ObjSys.deleteShm (depth + 1) s o ≠ .ok s') ∧
      (∀ e, ExitSys.objDeleteShm (depth + 1) (s.exiting table deleted) o ≠ .ok e) ∧
      objDeleteShm k (some shm.ownedName) = .error .halted := by
  obtain ⟨clients, hclients⟩ := Option.ne_none_iff_exists'.mp hlist
  refine ⟨fun s' hdelete => ?_, fun e hdelete => ?_, ?_⟩
  · obtain ⟨m, y, -, hobj, hnone, -⟩ := ObjSys.deleteShm_cases hdelete
    cases h.symm.trans hobj
    exact hlist hnone
  · rw [ExitSys.objDeleteShm, exiting_load h, ok_bind, hclients] at hdelete
    obtain ⟨e', -, hdelete⟩ := of_bind hdelete
    cases hdelete
  · rw [Shm.ownedName, hclients]
    rfl

end Tinker
