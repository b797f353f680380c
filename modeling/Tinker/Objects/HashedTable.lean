import Tinker.Objects.Table
import Mathlib.Data.List.Find

/-!
# The object table on its hash map

`object_table.c` with the hash map that it is built on: object numbers are 16 bits wide, the map
sees them as two bytes, and their hash is the number with its sign. Whether there is room for
an object is not asked of the environment here: it depends on the numbers that share a bucket.
-/

namespace Tinker

open Tinker.Collections Tinker.Lib Function

abbrev ObjectNumber := BitVec 16

def invalidObjectId : ObjectNumber := -1

/-- The bytes of an object number, as they are in memory. -/
def numberKey (objno : ObjectNumber) : MapKey 2 := fun i => ⟨objno.extractLsb' (8 * i) 8⟩

def hashBasicInteger : {n : ℕ} → MapKey n → BitVec 32
  | 4, key => (key 3).toBitVec ++ (key 2).toBitVec ++ (key 1).toBitVec ++ (key 0).toBitVec
  | 2, key => ((key 1).toBitVec ++ (key 0).toBitVec).signExtend 32
  | 1, key => (key 0).toBitVec.signExtend 32
  | _, _ => 0

structure HashedTable (α : Type) where
  theMap : HashedMap 2 α
  nextId : ObjectNumber

namespace HashedTable

variable {α : Type}

/-- `obj_initialse_table`, which `obj_table_create` calls. -/
def objInitialseTable : Exec (HashedTable α) := do
  let theMap ← mapCreate hashBasicInteger
  return ⟨theMap, 1⟩

def freeId (t : HashedTable α) : Option ObjectNumber :=
  ((List.range' t.nextId.toNat (mapCapacity - t.nextId.toNat)).map (BitVec.ofNat 16)).find?
    fun id => !mapContainsKey t.theMap (numberKey id)

/-- The result, what is written to `objno`, and the table. -/
def objAddObject (t : HashedTable α) (obj : Option α) :
    ReturnT × Option ObjectNumber × HashedTable α :=
  match obj with
  | some obj =>
    match t.freeId with
    | some id =>
      let (ok, theMap) := mapPut t.theMap (numberKey id) obj
      if ok then (.noError, some id, ⟨theMap, id + 1⟩)
      else (.objectAddFailed, none, { t with theMap := theMap })
    | none => (.objectTableFull, none, t)
  | none => (.parametersInvalid, none, t)

def objRemoveObject (t : HashedTable α) (objno : ObjectNumber) : ReturnT × HashedTable α :=
  if mapContainsKey t.theMap (numberKey objno) then
    let (ok, theMap) := mapRemove t.theMap (numberKey objno)
    (if ok then .noError else .objectNotRemovedFromRegistry, { t with theMap := theMap })
  else (.invalidObject, t)

def objGetObject (t : HashedTable α) (oid : ObjectNumber) : Option α :=
  mapGet t.theMap (numberKey oid)

end HashedTable

/-! ## The bytes of an object number -/

theorem numberKey_injective : Injective numberKey := by
  intro objno objno' h
  have low : objno.extractLsb' 0 8 = objno'.extractLsb' 0 8 :=
    congrArg UInt8.toBitVec (congrFun h 0)
  have high : objno.extractLsb' 8 8 = objno'.extractLsb' 8 8 :=
    congrArg UInt8.toBitVec (congrFun h 1)
  have lowNat := congrArg BitVec.toNat low
  have highNat := congrArg BitVec.toNat high
  simp only [BitVec.extractLsb'_toNat, Nat.shiftRight_eq_div_pow] at lowNat highNat
  apply BitVec.eq_of_toNat_eq
  omega

theorem numberKey_surjective : Function.Surjective numberKey := by
  intro key
  refine ⟨(key 1).toBitVec ++ (key 0).toBitVec, ?_⟩
  refine funext (Fin.forall_fin_two.mpr ⟨?_, ?_⟩)
  · exact UInt8.eq_of_toBitVec_eq BitVec.extractLsb'_append_eq_right
  · exact UInt8.eq_of_toBitVec_eq BitVec.extractLsb'_append_eq_left

/-! ## The table as a function on numbers -/

namespace HashedTable

/-- The table as a function on numbers, which `Objects/Table` takes it for. -/
def numbered (t : HashedTable ℕ) : ObjectTable where
  theMap objno := if objno < 2 ^ 16 then t.objGetObject (BitVec.ofNat 16 objno) else none
  nextId := t.nextId.toNat

variable {t u : HashedTable ℕ}

@[simp] theorem numbered_theMap (t : HashedTable ℕ) (objno : ObjectNumber) :
    t.numbered.theMap objno.toNat = t.objGetObject objno := by
  simp [numbered, objno.isLt]

/-- What one number is given to in the hash map, it is given to as a natural number. -/
theorem numbered_theMap_update {objno : ObjectNumber} {value : Option ℕ}
    (h : mapGet u.theMap = update (mapGet t.theMap) (numberKey objno) value) :
    u.numbered.theMap = update t.numbered.theMap objno.toNat value := by
  funext n
  by_cases hn : n < 2 ^ 16
  · obtain ⟨m, rfl⟩ : ∃ m : ObjectNumber, m.toNat = n := ⟨BitVec.ofNat 16 n, by simpa using hn⟩
    rw [numbered_theMap, objGetObject, h]
    rcases eq_or_ne m objno with rfl | hne
    · rw [update_self, update_self]
    rw [update_of_ne (numberKey_injective.ne hne), update_of_ne (BitVec.toNat_inj.not.mpr hne),
      numbered_theMap]
    rfl
  · have hne : n ≠ objno.toNat := fun heq => hn (heq ▸ objno.isLt)
    rw [update_of_ne hne, numbered, numbered]
    exact (if_neg hn).trans (if_neg hn).symm

theorem lt_of_mem_range {n : ℕ}
    (h : n ∈ List.range' t.nextId.toNat (mapCapacity - t.nextId.toNat)) : n < 2 ^ 16 - 1 := by
  rw [List.mem_range'_1] at h
  have hcapacity : mapCapacity = 2 ^ 16 - 1 := by decide
  omega

theorem numbered_freeId (t : HashedTable ℕ) :
    t.numbered.freeId = t.freeId.map BitVec.toNat := by
  rw [ObjectTable.freeId, freeId, List.find?_map, Option.map_map]
  have hsame : ∀ n ∈ List.range' t.nextId.toNat (mapCapacity - t.nextId.toNat),
      (t.numbered.theMap n).isNone =
        ((fun id => !mapContainsKey t.theMap (numberKey id)) ∘ BitVec.ofNat 16) n := by
    intro n hn
    have hlt := lt_of_mem_range hn
    simp [numbered, objGetObject, mapContainsKey_eq, show n < 65536 by omega]
  rw [show t.numbered.nextId = t.nextId.toNat from rfl, List.find?_congr hsame]
  refine Option.map_id'.symm.trans (Option.map_congr fun n hn => ?_)
  have hlt := lt_of_mem_range (List.mem_of_find?_eq_some hn)
  simp [Nat.mod_eq_of_lt (show n < 65536 by omega)]

theorem toNat_freeId_lt {id : ObjectNumber} (h : t.freeId = some id) : id.toNat < 2 ^ 16 - 1 := by
  obtain ⟨n, hn, rfl⟩ := List.mem_map.mp (List.mem_of_find?_eq_some h)
  have hlt := lt_of_mem_range hn
  simp only [BitVec.toNat_ofNat]
  omega

/-- Adding an object answers as the table on natural numbers does, if that is told whether the
map has room. -/
theorem numbered_objAddObject (h : t.theMap.WellFormed) (obj : Option ℕ) :
    ∃ room, Tinker.objAddObject t.numbered obj room =
      match t.objAddObject obj with
      | (_, some objno, t') => .ok (objno.toNat, t'.numbered)
      | (result, none, _) => .error result := by
  unfold Tinker.objAddObject objAddObject
  rw [numbered_freeId]
  cases obj with
  | none => exact ⟨true, rfl⟩
  | some obj =>
    cases hid : t.freeId with
    | none => exact ⟨true, rfl⟩
    | some id =>
      refine ⟨(mapPut t.theMap (numberKey id) obj).1, ?_⟩
      have hget := h.mapGet_mapPut (numberKey id) obj
      cases hput : (mapPut t.theMap (numberKey id) obj).1 with
      | false => simp [hput]
      | true =>
        rw [hput, if_pos rfl] at hget
        have hmap := numbered_theMap_update
          (u := ⟨(mapPut t.theMap (numberKey id) obj).2, id + 1⟩) hget
        have hlt := toNat_freeId_lt hid
        have hnext : (id + 1).toNat = id.toNat + 1 := by
          rw [BitVec.toNat_add]
          exact Nat.mod_eq_of_lt (show id.toNat + 1 < 2 ^ 16 by omega)
        simp only [hput, Option.map_some, if_true, ← hmap, ← hnext]
        rfl

theorem numbered_objRemoveObject (h : t.theMap.WellFormed) (objno : ObjectNumber) :
    Tinker.objRemoveObject t.numbered objno.toNat =
      ((t.objRemoveObject objno).1, (t.objRemoveObject objno).2.numbered) := by
  unfold Tinker.objRemoveObject objRemoveObject
  obtain ⟨hremoved, hget⟩ := h.mapGet_mapRemove (numberKey objno)
  rw [numbered_theMap, objGetObject, mapContainsKey_eq]
  cases hobj : mapGet t.theMap (numberKey objno) with
  | none => rfl
  | some obj =>
    have hmap := numbered_theMap_update
      (u := ⟨(mapRemove t.theMap (numberKey objno)).2, t.nextId⟩) hget
    simp only [hremoved, hobj, Option.isSome_some, if_true, ← hmap]
    rfl

end HashedTable

end Tinker
