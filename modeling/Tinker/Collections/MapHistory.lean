import Tinker.Collections.MapIterator
import Mathlib.Data.FinEnum
import Mathlib.Data.Fintype.Pi

/-!
# Histories of a hash map

What a hash map holds after any sequence of `map_put` and `map_remove`: the partial function
that the successful puts and the removes amount to, whatever the hash function is.
-/

namespace Tinker.Collections

open Tinker.Lib Function

variable {n : ℕ} {α : Type}

inductive MapCall (n : ℕ) (α : Type)
  | put (key : MapKey n) (value : α)
  | remove (key : MapKey n)

/-- A map, and the partial function that the calls so far amount to. -/
structure MapHistory (n : ℕ) (α : Type) where
  map : HashedMap n α
  content : MapKey n → Option α

/-- One more call. A put counts if it returned true. -/
def MapCall.apply (s : MapHistory n α) : MapCall n α → MapHistory n α
  | put key value =>
    let (ok, map) := mapPut s.map key value
    ⟨map, if ok then update s.content key (some value) else s.content⟩
  | remove key => ⟨(mapRemove s.map key).2, update s.content key none⟩

/-- The map is well formed and its lookups are those of the partial function. -/
structure MapHistory.Agrees (s : MapHistory n α) : Prop where
  wellFormed : s.map.WellFormed
  mapGet_eq : mapGet s.map = s.content

theorem MapHistory.Agrees.apply {s : MapHistory n α} (h : s.Agrees) (call : MapCall n α) :
    (call.apply s).Agrees := by
  cases call with
  | put key value =>
    refine ⟨wellFormed_mapPut h.wellFormed key value, ?_⟩
    simpa [MapCall.apply, h.mapGet_eq] using h.wellFormed.mapGet_mapPut key value
  | remove key =>
    refine ⟨wellFormed_mapRemove h.wellFormed key, ?_⟩
    simpa [MapCall.apply, h.mapGet_eq] using (h.wellFormed.mapGet_mapRemove key).2

theorem MapHistory.Agrees.calls {s : MapHistory n α} (h : s.Agrees) (calls : List (MapCall n α)) :
    (calls.foldl MapCall.apply s).Agrees := by
  induction calls generalizing s with
  | nil => exact h
  | cons call calls ih => exact ih (h.apply call)

theorem agrees_of_create {hash : MapKey n → BitVec 32} {map : HashedMap n α}
    (h : mapCreate hash = .ok map) : (⟨map, fun _ => none⟩ : MapHistory n α).Agrees := by
  obtain ⟨hwf, -, hget, -, -⟩ := mapCreate_spec h
  exact ⟨hwf, hget⟩

/-- After every sequence of calls, a lookup answers what the successful puts and the removes
amount to, no key is in two slots, `map_remove` says whether the key was there, and `map_put`
fails only in a map that is full or whose bucket for the key is full of other keys, and then it
changes no lookup. -/
theorem mapGet_of_calls {hash : MapKey n → BitVec 32} {map : HashedMap n α}
    (hcreate : mapCreate hash = .ok map) (calls : List (MapCall n α)) :
    let s := calls.foldl MapCall.apply ⟨map, fun _ => none⟩
    (∀ key, mapGet s.map key = s.content key) ∧
    (∀ key, mapContainsKey s.map key = (s.content key).isSome) ∧
    (∀ b b' i i' entry entry', s.map.slot b i = some entry → s.map.slot b' i' = some entry' →
      entry.key = entry'.key → b = b' ∧ i = i') ∧
    (∀ key, (mapRemove s.map key).1 = (s.content key).isSome) ∧
    (∀ key value, (mapPut s.map key value).1 = false →
      (mapCapacity ≤ s.map.size ∨
        ∃ others : Finset (MapKey n), others.card = mapBucketSize ∧ ∀ key' ∈ others,
          key' ≠ key ∧ mapIndexOf s.map key' = mapIndexOf s.map key ∧
            (s.content key').isSome) ∧
      ∀ key', mapGet (mapPut s.map key value).2 key' = mapGet s.map key') := by
  intro s
  have hs : s.Agrees := (agrees_of_create hcreate).calls calls
  refine ⟨fun key => by rw [hs.mapGet_eq], fun key => by rw [mapContainsKey_eq, hs.mapGet_eq],
    ?_, fun key => by rw [(hs.wellFormed.mapGet_mapRemove key).1, hs.mapGet_eq], ?_⟩
  · intro b b' i i' entry entry' hslot hslot' hkey
    have hb : b = b' := by
      rw [← hs.wellFormed.placed b i entry hslot, ← hs.wellFormed.placed b' i' entry' hslot', hkey]
    subst hb
    exact ⟨rfl, hs.wellFormed.unique b i i' entry entry' hslot hslot' hkey⟩
  · intro key value hfail
    rcases mapPut_cases s.map key value with ⟨i, -, -, hmap⟩ | ⟨hfull, hmap⟩
    · rw [hmap] at hfail
      cases hfail
    · rw [hmap]
      refine ⟨hfull.imp_right fun hfull => ?_, fun key' => rfl⟩
      rw [← hs.mapGet_eq]
      exact hs.wellFormed.others_of_full hfull

/-- Two keys of one byte in one bucket, the first of which is taken out again. -/
theorem mapGet_of_calls_collision :
    let hash : MapKey 1 → BitVec 32 := fun _ => 0
    let map : HashedMap 1 ℕ := ⟨0, fun _ => none, hash⟩
    let calls : List (MapCall 1 ℕ) :=
      [.put (fun _ => 1) 10, .put (fun _ => 2) 20, .remove fun _ => 1]
    mapCreate hash = .ok map ∧
      mapGet (calls.foldl MapCall.apply ⟨map, fun _ => none⟩).map (fun _ => 2) = some 20 := by
  intro hash map calls
  have hcreate : mapCreate hash = .ok map := rfl
  refine ⟨hcreate, ?_⟩
  rw [(mapGet_of_calls hcreate calls).1]
  decide

/-! ## What the size counts -/

def MapHistory.keys (s : MapHistory n α) : ℕ := usedCount s.content

/-- Whether the call puts a key that is stored already, and puts it. -/
def MapCall.overwrites (s : MapHistory n α) : MapCall n α → Bool
  | put key value => (mapPut s.map key value).1 && (s.content key).isSome
  | remove _ => false

def overwrites (s : MapHistory n α) : List (MapCall n α) → ℕ
  | [] => 0
  | call :: calls => (call.overwrites s).toNat + overwrites (call.apply s) calls

/-- A call counts a new key, discounts a removed one, and counts an overwritten key again. -/
theorem MapHistory.Agrees.size_apply {s : MapHistory n α} (h : s.Agrees) {c : ℕ}
    (hsize : s.map.size = s.keys + c) (call : MapCall n α) :
    (call.apply s).map.size = (call.apply s).keys + (c + (call.overwrites s).toNat) := by
  cases call with
  | put key value =>
    rcases mapPut_cases s.map key value with ⟨i, -, -, hput⟩ | ⟨-, hput⟩
    · have hcall : (MapCall.put key value).apply s =
          ⟨s.map.putAt i key value, update s.content key (some value)⟩ := by
        simp [MapCall.apply, hput]
      have hover : (MapCall.put key value).overwrites s = (s.content key).isSome := by
        simp [MapCall.overwrites, hput]
      have hput : (s.map.putAt i key value).size = s.map.size + 1 := rfl
      rw [hcall, hover]
      cases hold : s.content key with
      | none =>
        have hfilled : (update s.content key (some value) key).isSome := by simp
        have hkeys := usedCount_fill hold hfilled fun key' hkey => update_of_ne hkey _ _
        simp only [MapHistory.keys, hkeys, hput, hsize, Option.isSome_none, Bool.toNat_false]
        omega
      | some old =>
        have hkeys : usedCount (update s.content key (some value)) = s.keys :=
          usedCount_congr fun key' => by
            by_cases hkey : key' = key
            · simp [hkey, hold]
            · rw [update_of_ne hkey]
        simp only [MapHistory.keys, hkeys, hput, hsize, Option.isSome_some, Bool.toNat_true]
        omega
    have hcall : (MapCall.put key value).apply s = s := by simp [MapCall.apply, hput]
    simpa [hcall, MapCall.overwrites, hput] using hsize
  | remove key =>
    have hfound := (h.wellFormed.mapGet_mapRemove key).1
    rw [h.mapGet_eq] at hfound
    rcases h.wellFormed.mapRemove_cases key with ⟨i, value, -, hremove⟩ | ⟨-, hremove⟩
    · rw [hremove] at hfound
      have hkeys := usedCount_fill (update_self key none s.content) hfound.symm
        fun key' hkey => (update_of_ne hkey _ _).symm
      have hmap : ((MapCall.remove key).apply s).map.size = s.map.size - 1 := by
        simp [MapCall.apply, hremove, HashedMap.removeAt]
      change usedCount s.content = ((MapCall.remove key).apply s).keys + 1 at hkeys
      rw [hmap, hsize, MapHistory.keys, hkeys]
      simp only [MapCall.overwrites, Bool.toNat_false]
      omega
    rw [hremove] at hfound
    have hnone : s.content key = none := by simpa using hfound.symm
    have hcall : (MapCall.remove key).apply s = s := by
      simp [MapCall.apply, hremove, ← hnone]
    simpa [hcall, MapCall.overwrites] using hsize

theorem MapHistory.Agrees.size_calls {s : MapHistory n α} (h : s.Agrees) {c : ℕ}
    (hsize : s.map.size = s.keys + c) (calls : List (MapCall n α)) :
    (calls.foldl MapCall.apply s).map.size =
      (calls.foldl MapCall.apply s).keys + (c + overwrites s calls) := by
  induction calls generalizing s c with
  | nil => exact hsize
  | cons call calls ih =>
    rw [List.foldl_cons, overwrites, ← Nat.add_assoc c]
    exact ih (h.apply call) (h.size_apply hsize call)

/-- Every overwritten key is counted in the size as one key more. -/
theorem size_of_calls {hash : MapKey n → BitVec 32} {map : HashedMap n α}
    (hcreate : mapCreate hash = .ok map) (calls : List (MapCall n α)) :
    (calls.foldl MapCall.apply ⟨map, fun _ => none⟩).map.size =
      (calls.foldl MapCall.apply ⟨map, fun _ => none⟩).keys +
        overwrites ⟨map, fun _ => none⟩ calls := by
  have hkeys : (⟨map, fun _ => none⟩ : MapHistory n α).keys = 0 := usedCount_eq_zero fun key => rfl
  have hsize := (agrees_of_create hcreate).size_calls (c := 0)
    ((mapCreate_spec hcreate).2.2.2.1.trans hkeys.symm) calls
  rwa [Nat.zero_add] at hsize

/-- The size is the number of keys that are stored if and only if no key has been overwritten,
and every overwritten key takes from the room for new ones: a put into a bucket with room fails
once the keys and the overwritten ones reach the capacity. -/
theorem mapSize_eq_keys_iff {hash : MapKey n → BitVec 32} {map : HashedMap n α}
    (hcreate : mapCreate hash = .ok map) (calls : List (MapCall n α)) :
    let start : MapHistory n α := ⟨map, fun _ => none⟩
    let s := calls.foldl MapCall.apply start
    (mapSize s.map = s.keys ↔ overwrites start calls = 0) ∧
    ∀ key value, ¬ s.map.BucketFull key → ((mapPut s.map key value).1 = true ↔
      s.keys + overwrites start calls < mapCapacity) := by
  intro start s
  have hsize : s.map.size = s.keys + overwrites start calls := size_of_calls hcreate calls
  refine ⟨?_, fun key value hroom => ?_⟩
  · rw [mapSize, hsize]
    omega
  · rcases mapPut_cases s.map key value with ⟨i, -, hlt, hput⟩ | ⟨hfull, hput⟩
    · simp only [hput, true_iff]
      omega
    · have hfull := hfull.resolve_right hroom
      simp only [hput, Bool.false_eq_true, false_iff]
      omega

/-- Two keys of one byte: as long as no key is put again, both are counted once. -/
theorem mapSize_eq_keys_two :
    let map : HashedMap 1 ℕ := ⟨0, fun _ => none, fun _ => 0⟩
    let calls : List (MapCall 1 ℕ) := [.put (fun _ => 1) 10, .put (fun _ => 2) 20]
    let s := calls.foldl MapCall.apply ⟨map, fun _ => none⟩
    mapCreate (fun _ => 0) = .ok map ∧ mapSize s.map = s.keys ∧
      (mapPut s.map (fun _ => 3) 30).1 = true := by
  intro map calls s
  have hcreate : mapCreate (fun _ => 0) = .ok map := rfl
  obtain ⟨hkeys, hroom⟩ := mapSize_eq_keys_iff hcreate calls
  refine ⟨hcreate, hkeys.mpr (by decide +kernel), (hroom _ 30 (by decide +kernel)).mpr ?_⟩
  rw [← size_of_calls hcreate]
  decide +kernel

/-- One key of one byte that is put twice is counted twice. -/
theorem mapSize_of_two_puts :
    let map : HashedMap 1 ℕ := ⟨0, fun _ => none, fun _ => 0⟩
    let calls : List (MapCall 1 ℕ) := [.put (fun _ => 1) 10, .put (fun _ => 1) 20]
    let s := calls.foldl MapCall.apply ⟨map, fun _ => none⟩
    mapCreate (fun _ => 0) = .ok map ∧ mapSize s.map = 2 ∧ s.keys = 1 := by
  intro map calls s
  have hcreate : mapCreate (fun _ => 0) = .ok map := rfl
  have htwo : s.map.size = 2 := by decide +kernel
  have hone : overwrites ⟨map, fun _ => none⟩ calls = 1 := by decide +kernel
  have hsize : s.map.size = s.keys + _ := size_of_calls hcreate calls
  exact ⟨hcreate, htwo, by omega⟩

/-! ## No empty bucket is kept -/

/-- After every sequence of calls, a bucket is there if and only if it has an entry, which is the
one of a stored key. So a map, and the object table that is made of it, can be deleted if and only
if every key has been removed. -/
theorem mapDelete_of_calls {hash : MapKey n → BitVec 32} {map : HashedMap n α}
    (hcreate : mapCreate hash = .ok map) (calls : List (MapCall n α)) :
    let s := calls.foldl MapCall.apply ⟨map, fun _ => none⟩
    (∀ b, (s.map.buckets b).isSome ↔ ∃ i, (s.map.slot b i).isSome) ∧
    (∀ b, (s.map.buckets b).isSome ↔ ∃ key, mapIndexOf s.map key = b ∧ (s.content key).isSome) ∧
    (mapDelete s.map = .ok () ↔ ∀ key, s.content key = none) := by
  intro s
  have hs : s.Agrees := (agrees_of_create hcreate).calls calls
  have hbucket : ∀ b, (s.map.buckets b).isSome ↔
      ∃ key, mapIndexOf s.map key = b ∧ (s.content key).isSome := by
    intro b
    rw [hs.wellFormed.isSome_bucket_iff, hs.mapGet_eq]
  refine ⟨fun b => ⟨fun hsome => ?_, ?_⟩, hbucket, ?_⟩
  · obtain ⟨bucket, hbucket⟩ := Option.isSome_iff_exists.mp hsome
    obtain ⟨i, hi⟩ := hs.wellFormed.occupied b bucket hbucket
    exact ⟨i, by simpa [HashedMap.slot, hbucket] using hi⟩
  · rintro ⟨i, hi⟩
    obtain ⟨entry, hentry⟩ := Option.isSome_iff_exists.mp hi
    obtain ⟨bucket, hbucket, -⟩ := Option.bind_eq_some_iff.mp hentry
    exact Option.isSome_iff_exists.mpr ⟨bucket, hbucket⟩
  · have hdelete : mapDelete s.map = .ok () ↔ ∀ b, ¬ (s.map.buckets b).isSome := by
      simp [mapDelete]
    simp only [hdelete, hbucket, not_exists, not_and, Option.not_isSome_iff_eq_none]
    exact ⟨fun hnone key => hnone _ key rfl, fun hnone b key _ => hnone key⟩

/-- A map with a key of one byte cannot be deleted. -/
theorem mapDelete_of_calls_put :
    let map : HashedMap 1 ℕ := ⟨0, fun _ => none, fun _ => 0⟩
    let s := MapCall.apply ⟨map, fun _ => none⟩ (.put (fun _ => 1) 10)
    mapCreate (fun _ => 0) = .ok map ∧ mapDelete s.map ≠ .ok () := by
  intro map s
  have hcreate : mapCreate (fun _ => 0) = .ok map := rfl
  refine ⟨hcreate, fun hdelete => ?_⟩
  have hnone := (mapDelete_of_calls hcreate [.put (fun _ => 1) 10]).2.2.mp hdelete fun _ => 1
  revert hnone
  decide +kernel

/-! ## Iterating over the map -/

/-- After every sequence of calls, the iteration ends without a fault, and it comes to the values
of the stored keys, to each of them once and to no other value. -/
theorem itemsOf_of_calls {hash : MapKey n → BitVec 32} {map : HashedMap n α}
    (hcreate : mapCreate hash = .ok map) (calls : List (MapCall n α)) {fuel : ℕ}
    (hfuel : mapBucketCount * mapBucketSize ≤ fuel) :
    let s := calls.foldl MapCall.apply ⟨map, fun _ => none⟩
    ∃ (keys : List (MapKey n)) (values : List α), keys.Nodup ∧
      (∀ key, key ∈ keys ↔ (s.content key).isSome) ∧
      itemsOf s.map fuel = .ok values ∧ values.map some = keys.map s.content := by
  intro s
  have hs : s.Agrees := (agrees_of_create hcreate).calls calls
  rw [← hs.mapGet_eq]
  exact hs.wellFormed.itemsOf_spec hfuel

/-- Two keys of one byte are there, and one of them is overwritten. -/
theorem itemsOf_of_calls_two :
    let map : HashedMap 1 ℕ := ⟨0, fun _ => none, fun _ => 0⟩
    let calls : List (MapCall 1 ℕ) :=
      [.put (fun _ => 1) 10, .put (fun _ => 2) 20, .put (fun _ => 1) 30]
    let s := calls.foldl MapCall.apply ⟨map, fun _ => none⟩
    mapCreate (fun _ => 0) = .ok map ∧
      ∃ values, itemsOf s.map 65504 = .ok values ∧ 20 ∈ values ∧ 30 ∈ values := by
  intro map calls s
  have hcreate : mapCreate (fun _ => 0) = .ok map := rfl
  have hfuel : mapBucketCount * mapBucketSize ≤ 65504 := by decide
  obtain ⟨keys, values, -, hkeys, hitems, hvalues⟩ := itemsOf_of_calls hcreate calls hfuel
  have hmem : ∀ key value, s.content key = some value → value ∈ values := by
    intro key value hcontent
    have hkey : key ∈ keys := (hkeys key).mpr (by rw [hcontent]; rfl)
    have hvalue : some value ∈ values.map some := by
      rw [hvalues]
      exact List.mem_map.mpr ⟨key, hkey, hcontent⟩
    simpa using hvalue
  exact ⟨hcreate, values, hitems, hmem (fun _ => 2) 20 (by decide +kernel),
    hmem (fun _ => 1) 30 (by decide +kernel)⟩

end Tinker.Collections
