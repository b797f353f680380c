import Tinker.Errors
import Tinker.Collections.HashedMap
import Mathlib.Data.List.Range

/-!
# The object table of a process

`object_table.c`: the objects of a process have numbers, and a table leads from the numbers to
the objects. Numbers are given out in increasing order, starting behind the last one given out,
so that the number of a removed object is not used again.

The table is a function on numbers; whether `map_put` finds room is an argument of the operation
that uses it.
-/

namespace Tinker

open Function

structure ObjectTable where
  theMap : ℕ → Option ℕ
  nextId : ℕ

def objInitialseTable : ObjectTable := ⟨fun _ => none, 1⟩

def ObjectTable.freeId (t : ObjectTable) : Option ℕ :=
  (List.range' t.nextId (mapCapacity - t.nextId)).find? fun id => (t.theMap id).isNone

def objAddObject (t : ObjectTable) (obj : Option ℕ) (room : Bool) :
    Except ReturnT (ℕ × ObjectTable) :=
  match obj with
  | some obj =>
    match t.freeId with
    | some id =>
      if room then .ok (id, ⟨update t.theMap id (some obj), id + 1⟩)
      else .error .objectAddFailed
    | none => .error .objectTableFull
  | none => .error .parametersInvalid

def objRemoveObject (t : ObjectTable) (objno : ℕ) : ReturnT × ObjectTable :=
  if (t.theMap objno).isSome then
    (.noError, { t with theMap := update t.theMap objno none })
  else (.invalidObject, t)

def objGetObject (t : ObjectTable) (oid : ℕ) : Option ℕ := t.theMap oid

variable {t t' : ObjectTable} {id o : ℕ} {obj : Option ℕ} {room : Bool}

theorem ObjectTable.freeId_spec (h : t.freeId = some id) :
    t.nextId ≤ id ∧ t.theMap id = none := by
  have hfree := List.find?_some h
  have hmem := List.mem_range'_1.mp (List.mem_of_find?_eq_some h)
  exact ⟨hmem.1, Option.isNone_iff_eq_none.mp hfree⟩

theorem objAddObject_eq_ok :
    objAddObject t obj room = .ok (id, t') ↔
      ∃ a, obj = some a ∧ t.freeId = some id ∧ room = true ∧
        t' = ⟨update t.theMap id (some a), id + 1⟩ := by
  cases obj with
  | none => simp [objAddObject]
  | some a =>
    cases hfree : t.freeId with
    | none => simp [objAddObject, hfree]
    | some id' =>
      cases room with
      | false => simp [objAddObject, hfree]
      | true =>
        simp only [objAddObject, hfree, if_true, Except.ok.injEq, Prod.mk.injEq,
          Option.some.injEq, exists_eq_left', true_and]
        constructor
        · rintro ⟨rfl, rfl⟩
          exact ⟨rfl, rfl⟩
        rintro ⟨rfl, rfl⟩
        exact ⟨rfl, rfl⟩

theorem eq_of_objAddObject_eq_error {r : ReturnT} (h : objAddObject t obj room = .error r) :
    r = .parametersInvalid ∨ r = .objectTableFull ∨ r = .objectAddFailed := by
  unfold objAddObject at h
  split at h
  · split at h
    · split at h
      · cases h
      · exact .inr (.inr (Except.error.inj h).symm)
    · exact .inr (.inl (Except.error.inj h).symm)
  · exact .inl (Except.error.inj h).symm

theorem objRemoveObject_snd (t : ObjectTable) (o : ℕ) :
    (objRemoveObject t o).2 = { t with theMap := update t.theMap o none } := by
  unfold objRemoveObject
  cases hmap : t.theMap o with
  | none =>
    -- removing what is not there changes nothing
    rw [← hmap, update_eq_self]
    simp [hmap]
  | some a => simp

end Tinker
