import Tinker.Objects.HashedTable
import Mathlib.Data.Fintype.BigOperators

/-!
# Object numbers as handles

What an object table answers after any sequence of `obj_add_object` and `obj_remove_object`. A
number is given out once: the next one is always one more than the number of objects that were
ever added. So a handle never changes its meaning, and a table that has given out its last
number takes no more objects, however few it holds.
-/

namespace Tinker

open Tinker.Collections Tinker.Lib Function

variable {α : Type}

inductive TableCall (α : Type)
  | add (obj : Option α)
  | remove (objno : ObjectNumber)

/-- A table, the objects that are live by the results of its calls, and how many were added. -/
structure TableHistory (α : Type) where
  table : HashedTable α
  live : ObjectNumber → Option α
  added : ℕ

def TableCall.apply (s : TableHistory α) : TableCall α → TableHistory α
  | add obj =>
    match s.table.objAddObject obj with
    | (.noError, some objno, table) => ⟨table, update s.live objno obj, s.added + 1⟩
    | (_, _, table) => { s with table := table }
  | remove objno =>
    { s with
      table := (s.table.objRemoveObject objno).2
      live := update s.live objno none }

def bucketOf (objno : ObjectNumber) : Fin mapBucketCount :=
  mapIndexOf (⟨0, fun _ => none, hashBasicInteger⟩ : HashedMap 2 Unit) (numberKey objno)

def TableHistory.liveIds (s : TableHistory α) : Finset ℕ :=
  (Finset.range (2 ^ 16)).filter fun id => (s.live (BitVec.ofNat 16 id)).isSome

/-- The live objects whose numbers are in the bucket of the given one. -/
def TableHistory.neighbours (s : TableHistory α) (objno : ObjectNumber) : Finset ℕ :=
  s.liveIds.filter fun id => bucketOf (BitVec.ofNat 16 id) = bucketOf objno

theorem lookup_update {map map' : HashedMap 2 α} {objno : ObjectNumber} {obj : Option α}
    {live : ObjectNumber → Option α}
    (hget : mapGet map' = update (mapGet map) (numberKey objno) obj)
    (hlive : ∀ objno, mapGet map (numberKey objno) = live objno) (objno' : ObjectNumber) :
    mapGet map' (numberKey objno') = update live objno obj objno' := by
  rw [hget]
  by_cases heq : objno' = objno
  · rw [heq, update_self, update_self]
  rw [update_of_ne heq, update_of_ne (numberKey_injective.ne heq)]
  exact hlive objno'

/-- The table holds what is live, every live number was given out, and the next number is one
more than the number of objects added. -/
structure TableHistory.Good (s : TableHistory α) : Prop where
  wellFormed : s.table.theMap.WellFormed
  hash : s.table.theMap.hashingAlgorithm = hashBasicInteger
  lookup : ∀ objno, s.table.objGetObject objno = s.live objno
  given : ∀ objno, s.live objno ≠ none → 0 < objno.toNat ∧ objno.toNat ≤ s.added
  next : s.table.nextId.toNat = s.added + 1
  size : s.table.theMap.size ≤ s.added

namespace TableHistory.Good

variable {s : TableHistory α} {obj : α}

section

variable (h : s.Good)
include h

theorem bucketOf_eq (objno : ObjectNumber) :
    mapIndexOf s.table.theMap (numberKey objno) = bucketOf objno := by
  simp only [bucketOf, mapIndexOf, mapHash, h.hash]

theorem next_free : s.live s.table.nextId = none := by
  by_contra hlive
  have hgiven := (h.given _ hlive).2
  have hnext := h.next
  omega

theorem freeId_eq : s.table.freeId = if s.added < 65534 then some s.table.nextId else none := by
  have hnext := h.next
  have hcap : mapCapacity = 65535 := rfl
  unfold HashedTable.freeId
  split
  next hadded =>
    obtain ⟨k, hk⟩ : ∃ k, mapCapacity - s.table.nextId.toNat = k + 1 :=
      ⟨65533 - s.added, by omega⟩
    have hfree : mapContainsKey s.table.theMap (numberKey s.table.nextId) = false := by
      rw [mapContainsKey_eq]
      have hlookup := (h.lookup s.table.nextId).trans h.next_free
      rw [HashedTable.objGetObject] at hlookup
      rw [hlookup]
      rfl
    rw [hk, List.range'_succ, List.map_cons, BitVec.ofNat_toNat, BitVec.setWidth_eq]
    exact List.find?_cons_of_pos (by simp [hfree])
  next hadded =>
    have hzero : mapCapacity - s.table.nextId.toNat = 0 := by omega
    rw [hzero]
    rfl

theorem size_lt : s.table.theMap.size < mapCapacity := by
  have hsize := h.size
  have hnext := h.next
  have hcap : mapCapacity = 65535 := rfl
  omega

theorem objAddObject_cases (obj : α) :
    (s.added < 65534 ∧ ¬ s.table.theMap.BucketFull (numberKey s.table.nextId) ∧
        s.table.objAddObject (some obj) = (.noError, some s.table.nextId,
          ⟨(mapPut s.table.theMap (numberKey s.table.nextId) obj).2, s.table.nextId + 1⟩) ∧
        (mapPut s.table.theMap (numberKey s.table.nextId) obj).1 = true) ∨
      (¬ (s.added < 65534 ∧ ¬ s.table.theMap.BucketFull (numberKey s.table.nextId)) ∧
        ∃ r, r ≠ ReturnT.noError ∧ s.table.objAddObject (some obj) = (r, none, s.table)) := by
  by_cases hadded : s.added < 65534
  · have hfree : s.table.freeId = some s.table.nextId := by rw [h.freeId_eq, if_pos hadded]
    rcases mapPut_cases s.table.theMap (numberKey s.table.nextId) obj with
      ⟨i, hput, -, hmap⟩ | ⟨hfull, hmap⟩
    · refine .inl ⟨hadded, fun hfull => ?_, by simp [HashedTable.objAddObject, hfree, hmap],
        by rw [hmap]⟩
      -- the slot that is used was free or had this key
      obtain ⟨entry, hentry, hne⟩ := hfull i
      rcases hput with ⟨value, hslot⟩ | ⟨hslot, -⟩
      · rw [hslot] at hentry
        exact hne (congrArg MapEntry.key (Option.some.inj hentry)).symm
      rw [hslot] at hentry
      cases hentry
    have hfull := hfull.resolve_left (Nat.not_le_of_lt h.size_lt)
    refine .inr ⟨fun hroom => hroom.2 hfull, .objectAddFailed, by decide, ?_⟩
    simp [HashedTable.objAddObject, hfree, hmap]
  have hfree : s.table.freeId = none := by rw [h.freeId_eq, if_neg hadded]
  refine .inr ⟨fun hroom => hadded hroom.1, .objectTableFull, by decide, ?_⟩
  simp [HashedTable.objAddObject, hfree]

theorem add (obj : Option α) : ((TableCall.add obj).apply s).Good := by
  cases obj with
  | none => exact h
  | some obj =>
    rcases h.objAddObject_cases obj with ⟨hadded, -, hadd, hok⟩ | ⟨-, r, hr, hadd⟩
    · have hput := h.wellFormed.mapGet_mapPut (numberKey s.table.nextId) obj
      rw [hok, if_pos rfl] at hput
      have hnext := h.next
      simp only [TableCall.apply, hadd]
      refine ⟨wellFormed_mapPut h.wellFormed _ _, ?_, ?_, ?_, ?_, ?_⟩
      · rw [hashingAlgorithm_mapPut]
        exact h.hash
      · exact lookup_update hput h.lookup
      · intro objno hlive
        dsimp only at hlive ⊢
        by_cases hobjno : objno = s.table.nextId
        · subst hobjno
          omega
        rw [update_of_ne hobjno] at hlive
        have hgiven := h.given objno hlive
        omega
      · have hone : (1 : ObjectNumber).toNat = 1 := rfl
        dsimp only
        rw [BitVec.toNat_add]
        omega
      have hsize := h.size
      have hput := size_mapPut_le s.table.theMap (numberKey s.table.nextId) obj
      dsimp only
      omega
    have hsame : (TableCall.add (some obj)).apply s = s := by
      simp only [TableCall.apply, hadd]
    rw [hsame]
    exact h

theorem remove (objno : ObjectNumber) : ((TableCall.remove objno).apply s).Good := by
  obtain ⟨-, hget⟩ := h.wellFormed.mapGet_mapRemove (numberKey objno)
  have htable : (s.table.objRemoveObject objno).2 =
      { s.table with theMap := (mapRemove s.table.theMap (numberKey objno)).2 } := by
    unfold HashedTable.objRemoveObject
    split
    · rfl
    next habsent => rw [mapRemove_absent h.wellFormed (by simpa using habsent)]
  simp only [TableCall.apply, htable]
  refine ⟨wellFormed_mapRemove h.wellFormed _, ?_, ?_, ?_, h.next, ?_⟩
  · rw [hashingAlgorithm_mapRemove h.wellFormed]
    exact h.hash
  · exact lookup_update hget h.lookup
  · intro objno' hlive
    dsimp only at hlive
    by_cases hobjno : objno' = objno
    · subst hobjno
      simp at hlive
    rw [update_of_ne hobjno] at hlive
    exact h.given objno' hlive
  · exact (size_mapRemove_le h.wellFormed _).trans h.size

theorem calls (calls : List (TableCall α)) : (calls.foldl TableCall.apply s).Good := by
  induction calls generalizing s with
  | nil => exact h
  | cons call calls ih =>
    cases call with
    | add obj => exact ih (h.add obj)
    | remove objno => exact ih (h.remove objno)

end

theorem start {table : HashedTable α} (h : HashedTable.objInitialseTable = .ok table) :
    (⟨table, fun _ => none, 0⟩ : TableHistory α).Good := by
  obtain ⟨map, hmap, h⟩ := Exec.of_bind h
  cases h
  obtain ⟨hwf, hhash, hget, hsize, -⟩ := mapCreate_spec hmap
  exact ⟨hwf, hhash, fun objno => congrFun hget _, fun objno hlive => absurd rfl hlive, rfl,
    Nat.le_of_eq hsize⟩

/-! ## Room for one more object -/

theorem exists_neighbour (h : s.Good) {objno : ObjectNumber} {i : Fin mapBucketSize}
    {entry : MapEntry 2 α}
    (hentry : s.table.theMap.slot (mapIndexOf s.table.theMap (numberKey objno)) i = some entry) :
    ∃ id ∈ s.neighbours objno, numberKey (BitVec.ofNat 16 id) = entry.key := by
  obtain ⟨objno', hkey⟩ := numberKey_surjective entry.key
  refine ⟨objno'.toNat, Finset.mem_filter.mpr ⟨Finset.mem_filter.mpr ⟨?_, ?_⟩, ?_⟩, ?_⟩
  · exact Finset.mem_range.mpr objno'.isLt
  · rw [BitVec.ofNat_toNat, BitVec.setWidth_eq, ← h.lookup, HashedTable.objGetObject, hkey,
      h.wellFormed.mapGet_eq_some_iff.mpr ⟨_, i, hentry⟩]
    rfl
  · rw [BitVec.ofNat_toNat, BitVec.setWidth_eq, ← h.bucketOf_eq, ← h.bucketOf_eq, hkey]
    exact h.wellFormed.placed _ i entry hentry
  · rw [BitVec.ofNat_toNat, BitVec.setWidth_eq, hkey]

theorem exists_slot (h : s.Good) {objno : ObjectNumber} {id : ℕ} (hid : id ∈ s.neighbours objno) :
    ∃ i, (s.table.theMap.slot (mapIndexOf s.table.theMap (numberKey objno)) i).map MapEntry.key =
      some (numberKey (BitVec.ofNat 16 id)) := by
  obtain ⟨hlive, hbucket⟩ := Finset.mem_filter.mp hid
  obtain ⟨-, hlive⟩ := Finset.mem_filter.mp hlive
  obtain ⟨value, hvalue⟩ := Option.isSome_iff_exists.mp hlive
  rw [← h.lookup] at hvalue
  obtain ⟨b, i, hslot⟩ := h.wellFormed.mapGet_eq_some_iff.mp hvalue
  obtain rfl := h.wellFormed.placed b i _ hslot
  rw [h.bucketOf_eq, hbucket, ← h.bucketOf_eq] at hslot
  exact ⟨i, by rw [hslot]; rfl⟩

theorem card_neighbours_le (h : s.Good) (objno : ObjectNumber) :
    (s.neighbours objno).card ≤ s.added + 1 := by
  have hsub : s.neighbours objno ⊆ Finset.range (s.added + 1) := by
    intro id hid
    obtain ⟨hrange, hlive⟩ := Finset.mem_filter.mp (Finset.mem_filter.mp hid).1
    have hgiven := (h.given _ (Option.isSome_iff_ne_none.mp hlive)).2
    rw [BitVec.toNat_ofNat, Nat.mod_eq_of_lt (Finset.mem_range.mp hrange)] at hgiven
    exact Finset.mem_range.mpr (Nat.lt_succ_of_le hgiven)
  exact (Finset.card_le_card hsub).trans_eq (Finset.card_range _)

theorem bucketFull_iff (h : s.Good) : s.table.theMap.BucketFull (numberKey s.table.nextId) ↔
    mapBucketSize ≤ (s.neighbours s.table.nextId).card := by
  constructor
  · intro hfull
    choose entry hentry hne using hfull
    choose id hid hkey using fun i => h.exists_neighbour (hentry i)
    have hinj : Injective id := by
      intro i j hij
      refine h.wellFormed.unique _ i j _ _ (hentry i) (hentry j) ?_
      rw [← hkey i, ← hkey j, hij]
    calc mapBucketSize = (Finset.univ.image id).card := by
          rw [Finset.card_image_of_injective _ hinj, Finset.card_univ, Fintype.card_fin]
      _ ≤ (s.neighbours s.table.nextId).card := by
          refine Finset.card_le_card fun id' hmem => ?_
          obtain ⟨i, -, rfl⟩ := Finset.mem_image.mp hmem
          exact hid i
  intro hcard
  by_contra hfull
  -- some slot is free, and the neighbours have different slots among the others
  obtain ⟨i, hi⟩ := not_forall.mp hfull
  have hexists : ∀ id ∈ s.neighbours s.table.nextId, ∃ i, _ := fun id hid => h.exists_slot hid
  have : Nonempty (Fin mapBucketSize) := ⟨i⟩
  choose! slot hslot using hexists
  have hfree : ∀ id ∈ s.neighbours s.table.nextId, slot id ∈ Finset.univ.erase i := by
    intro id hid
    obtain ⟨entry, hentry, hkey⟩ := Option.map_eq_some_iff.mp (hslot id hid)
    refine Finset.mem_erase.mpr ⟨fun heq => hi ⟨entry, heq ▸ hentry, fun hnext => ?_⟩,
      Finset.mem_univ _⟩
    rw [hnext] at hkey
    have hlive := (Finset.mem_filter.mp (Finset.mem_filter.mp hid).1).2
    rw [← numberKey_injective hkey, h.next_free] at hlive
    cases hlive
  have hinj : Set.InjOn slot (s.neighbours s.table.nextId) := by
    intro id hid id' hid' heq
    have hsame := hslot id hid
    rw [heq, hslot id' hid'] at hsame
    have hkey := numberKey_injective (Option.some.inj hsame)
    have hlt := Finset.mem_range.mp (Finset.mem_filter.mp (Finset.mem_filter.mp hid).1).1
    have hlt' := Finset.mem_range.mp (Finset.mem_filter.mp (Finset.mem_filter.mp hid').1).1
    have hnat := congrArg BitVec.toNat hkey
    rw [BitVec.toNat_ofNat, BitVec.toNat_ofNat, Nat.mod_eq_of_lt hlt, Nat.mod_eq_of_lt hlt'] at hnat
    exact hnat.symm
  have hle := Finset.card_le_card_of_injOn slot hfree hinj
  rw [Finset.card_erase_of_mem (Finset.mem_univ i), Finset.card_univ, Fintype.card_fin] at hle
  have hsize : mapBucketSize = 32 := rfl
  omega

theorem next_eq (h : s.Good) : s.table.nextId = BitVec.ofNat 16 (s.added + 1) := by
  rw [← h.next, BitVec.ofNat_toNat, BitVec.setWidth_eq]

theorem objAddObject_ok_iff (h : s.Good) (obj : α) :
    (s.table.objAddObject (some obj)).1 = .noError ↔
      s.added < 65534 ∧ (s.neighbours s.table.nextId).card < mapBucketSize := by
  rw [← h.bucketFull_iff.not.trans Nat.not_le]
  rcases h.objAddObject_cases obj with ⟨hadded, hroom, hadd, -⟩ | ⟨hroom, r, hr, hadd⟩
  · rw [hadd]
    exact iff_of_true rfl ⟨hadded, hroom⟩
  rw [hadd]
  exact iff_of_false hr hroom

end TableHistory.Good

/-! ## Tables in use -/

variable {table : HashedTable α}

/-- After every sequence of calls, a number that is given out is fresh and neither 0 nor
`INVALID_OBJECT_ID`, a lookup leads to the live object of the number, and a call that fails
changes no lookup. -/
theorem objGetObject_of_calls (hcreate : HashedTable.objInitialseTable = .ok table)
    (calls : List (TableCall α)) :
    let s := calls.foldl TableCall.apply ⟨table, fun _ => none, 0⟩
    (∀ obj, (s.table.objAddObject obj).1 = .noError → ∃ objno,
      (s.table.objAddObject obj).2.1 = some objno ∧ s.live objno = none ∧ objno ≠ 0 ∧
        objno ≠ invalidObjectId) ∧
    (∀ objno, s.table.objGetObject objno = s.live objno) ∧
    (∀ obj, (s.table.objAddObject obj).1 ≠ .noError → ∀ objno,
      (s.table.objAddObject obj).2.2.objGetObject objno = s.table.objGetObject objno) := by
  intro s
  have hs : s.Good := (TableHistory.Good.start hcreate).calls calls
  have hnext := hs.next
  refine ⟨fun obj hok => ?_, hs.lookup, fun obj hfail objno => ?_⟩
  · cases obj with
    | none => cases hok
    | some obj =>
      rcases hs.objAddObject_cases obj with ⟨hadded, -, hadd, -⟩ | ⟨-, r, hr, hadd⟩
      · refine ⟨s.table.nextId, by rw [hadd], hs.next_free, fun hzero => ?_, fun hinvalid => ?_⟩
        · rw [hzero] at hnext
          cases hnext
        · rw [hinvalid] at hnext
          have hvalue : invalidObjectId.toNat = 65535 := rfl
          omega
      · rw [hadd] at hok
        exact absurd hok hr
  · cases obj with
    | none => rfl
    | some obj =>
      rcases hs.objAddObject_cases obj with ⟨-, -, hadd, -⟩ | ⟨-, r, -, hadd⟩
      · rw [hadd] at hfail
        exact absurd rfl hfail
      · rw [hadd]

/-- The second object of a table from which the first was removed. -/
theorem objGetObject_of_calls_reuse : ∃ table : HashedTable ℕ,
    HashedTable.objInitialseTable = .ok table ∧
      let s := [TableCall.add (some 7), .remove 1, .add (some 8)].foldl TableCall.apply
        ⟨table, fun _ => none, 0⟩
      s.table.objGetObject 1 = s.live 1 := by
  refine ⟨⟨⟨0, fun _ => none, hashBasicInteger⟩, 1⟩, rfl, ?_⟩
  exact (objGetObject_of_calls rfl _).2.1 1

/-- There is room for one more object exactly if fewer than 65534 were ever added and fewer than
32 of the live ones have numbers in the bucket of the next number. -/
theorem objAddObject_noError_iff (hcreate : HashedTable.objInitialseTable = .ok table)
    (calls : List (TableCall α)) (obj : α) :
    let s := calls.foldl TableCall.apply ⟨table, fun _ => none, 0⟩
    (s.table.objAddObject (some obj)).1 = .noError ↔
      s.added < 65534 ∧
        (s.neighbours (BitVec.ofNat 16 (s.added + 1))).card < mapBucketSize := by
  intro s
  have hs : s.Good := (TableHistory.Good.start hcreate).calls calls
  rw [← hs.next_eq]
  exact hs.objAddObject_ok_iff obj

/-- A table that has been given two objects and has lost the first takes a third one. -/
theorem objAddObject_noError_iff_third : ∃ table : HashedTable ℕ,
    HashedTable.objInitialseTable = .ok table ∧
      let s := [TableCall.add (some 7), .add (some 8), .remove 1].foldl TableCall.apply
        ⟨table, fun _ => none, 0⟩
      s.live 1 = none ∧ s.live 2 = some 8 ∧ (s.table.objAddObject (some 9)).1 = .noError := by
  refine ⟨⟨⟨0, fun _ => none, hashBasicInteger⟩, 1⟩, rfl, ?_⟩
  intro s
  have hs : s.Good := (TableHistory.Good.start rfl).calls _
  have hadded : s.added = 2 := rfl
  have hcard := hs.card_neighbours_le (BitVec.ofNat 16 (s.added + 1))
  refine ⟨rfl, rfl, (objAddObject_noError_iff rfl _ 9).mpr ⟨?_, ?_⟩⟩
  · exact hadded.trans_lt (by decide)
  · exact hcard.trans_lt (by rw [hadded]; decide)

/-! ## Numbers of objects that are gone -/

theorem TableHistory.Good.given_eq {s : TableHistory α} (h : s.Good) {obj : Option α}
    {objno : ObjectNumber} (hgiven : (s.table.objAddObject obj).2.1 = some objno) :
    objno.toNat = s.added + 1 ∧ ((TableCall.add obj).apply s).added = s.added + 1 := by
  cases obj with
  | none => cases hgiven
  | some obj =>
    rcases h.objAddObject_cases obj with ⟨-, -, hadd, -⟩ | ⟨-, r, -, hadd⟩
    · rw [hadd] at hgiven
      cases hgiven
      exact ⟨h.next, by simp [TableCall.apply, hadd]⟩
    · rw [hadd] at hgiven
      cases hgiven

theorem added_le (s : TableHistory α) (calls : List (TableCall α)) :
    s.added ≤ (calls.foldl TableCall.apply s).added := by
  induction calls generalizing s with
  | nil => exact le_rfl
  | cons call calls ih =>
    refine le_trans ?_ (ih (call.apply s))
    cases call with
    | add obj =>
      dsimp only [TableCall.apply]
      split
      · exact Nat.le_succ _
      · exact le_rfl
    | remove objno => exact le_rfl

/-- Numbers are given out in increasing order. So a number that an object has had is never given
to another one, also when the object is gone. -/
theorem objAddObject_increasing (hcreate : HashedTable.objInitialseTable = .ok table)
    (before after : List (TableCall α)) (obj obj' : Option α) :
    let s := before.foldl TableCall.apply ⟨table, fun _ => none, 0⟩
    let s' := (.add obj :: after).foldl TableCall.apply s
    ∀ objno objno', (s.table.objAddObject obj).2.1 = some objno →
      (s'.table.objAddObject obj').2.1 = some objno' → objno < objno' := by
  intro s s' objno objno' first second
  have hs : s.Good := (TableHistory.Good.start hcreate).calls before
  obtain ⟨hfirst, hadded⟩ := hs.given_eq first
  have hsecond : _ = s'.added + 1 := ((hs.calls (.add obj :: after)).given_eq second).1
  have hle : _ ≤ s'.added := added_le ((TableCall.add obj).apply s) after
  rw [BitVec.lt_def, hfirst, hsecond]
  omega

theorem objAddObject_increasing_removed : ∃ table : HashedTable ℕ,
    HashedTable.objInitialseTable = .ok table ∧
      (table.objAddObject (some 7)).2.1 = some 1 ∧ (1 : ObjectNumber) < 2 :=
  ⟨⟨⟨0, fun _ => none, hashBasicInteger⟩, 1⟩, rfl, rfl,
    objAddObject_increasing rfl [] [.remove 1] (some 7) (some 8) 1 2 rfl rfl⟩

def maxObjectTableSize : ℕ := 1024

/-- Objects that are added and removed again, one after the other. -/
def cycles (obj : α) (k : ℕ) : List (TableCall α) :=
  (List.range k).flatMap fun i => [.add (some obj), .remove (BitVec.ofNat 16 (i + 1))]

theorem cycles_succ (obj : α) (k : ℕ) :
    cycles obj (k + 1) =
      cycles obj k ++ [.add (some obj), .remove (BitVec.ofNat 16 (k + 1))] := by
  simp [cycles, List.range_succ]

theorem live_cycles (hcreate : HashedTable.objInitialseTable = .ok table) (obj : α) {k : ℕ}
    (hk : k ≤ 65534) :
    let s := (cycles obj k).foldl TableCall.apply ⟨table, fun _ => none, 0⟩
    s.live = (fun _ => none) ∧ s.added = k := by
  induction k with
  | zero => exact ⟨rfl, rfl⟩
  | succ k ih =>
    obtain ⟨hlive, hadded⟩ := ih (Nat.le_of_succ_le hk)
    have hs := (TableHistory.Good.start hcreate).calls (cycles obj k)
    rw [cycles_succ, List.foldl_append]
    generalize (cycles obj k).foldl TableCall.apply ⟨table, fun _ => none, 0⟩ = s
      at hlive hadded hs ⊢
    have hroom : (s.neighbours s.table.nextId).card < mapBucketSize := by
      simp [TableHistory.neighbours, TableHistory.liveIds, hlive, mapBucketSize]
    have hok := (hs.objAddObject_ok_iff obj).mpr ⟨by omega, hroom⟩
    rcases hs.objAddObject_cases obj with ⟨-, -, hadd, -⟩ | ⟨-, r, hr, hadd⟩
    · have hnext : BitVec.ofNat 16 (k + 1) = s.table.nextId := by rw [hs.next_eq, hadded]
      simp only [List.foldl_cons, List.foldl_nil, TableCall.apply, hadd, hnext, hadded,
        update_idem, and_true]
      rw [← hlive, ← hs.next_free, update_eq_self]
    rw [hadd] at hok
    exact absurd hok hr

/-- Once 65534 objects were added and removed, the empty table takes no more. -/
theorem objAddObject_full_of_cycles : ∃ table : HashedTable ℕ,
    HashedTable.objInitialseTable = .ok table ∧
      let s := (cycles 7 65534).foldl TableCall.apply ⟨table, fun _ => none, 0⟩
      s.liveIds.card < maxObjectTableSize ∧ (s.table.objAddObject (some 7)).1 ≠ .noError := by
  let table : HashedTable ℕ := ⟨⟨0, fun _ => none, hashBasicInteger⟩, 1⟩
  have hcreate : HashedTable.objInitialseTable = .ok table := rfl
  refine ⟨table, hcreate, ?_⟩
  intro s
  obtain ⟨hlive, hadded⟩ := live_cycles hcreate 7 (Nat.le_refl 65534)
  have hs : s.Good := (TableHistory.Good.start hcreate).calls (cycles 7 65534)
  refine ⟨?_, fun hok => ?_⟩
  · have hempty : s.liveIds = ∅ := by
      refine Finset.filter_eq_empty_iff.mpr fun id _ => ?_
      rw [show s.live = fun _ => none from hlive]
      exact Bool.false_ne_true
    rw [hempty]
    decide
  · have hlt := ((hs.objAddObject_ok_iff 7).mp hok).1
    rw [show s.added = 65534 from hadded] at hlt
    exact Nat.lt_irrefl _ hlt

end Tinker
