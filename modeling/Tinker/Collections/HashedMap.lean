import Tinker.Lib.Exec
import Tinker.Lib.Slots
import Mathlib.Data.Fintype.Prod
import Mathlib.Tactic.Common

/-!
# The hash map

`hashed_map.c`: a table of buckets with a fixed number of slots each. The hash of a key says
which bucket it belongs to. A bucket is allocated for its first entry and freed with its last.

Keys are the `key_size` bytes that the map copies and compares. The pool always has memory, and
the pointers of the entries are not told apart from the entries.
-/

namespace Tinker

def mapCapacity : ℕ := 65535

namespace Collections

open Tinker.Lib Function

def mapBucketSize : ℕ := 32

def mapBucketCount : ℕ := mapCapacity / mapBucketSize

def mapMaxKeyLength : ℕ := 64

abbrev MapKey (keySize : ℕ) := Fin keySize → UInt8

structure MapEntry (keySize : ℕ) (α : Type) where
  key : MapKey keySize
  value : α

abbrev MapBucket (keySize : ℕ) (α : Type) := Fin mapBucketSize → Option (MapEntry keySize α)

/-- `map_t`. -/
structure HashedMap (keySize : ℕ) (α : Type) where
  size : ℕ
  buckets : Fin mapBucketCount → Option (MapBucket keySize α)
  hashingAlgorithm : MapKey keySize → BitVec 32

variable {n : ℕ} {α : Type}

/-- The hash is a signed number, and so are its shifts. -/
def mapHash (map : HashedMap n α) (key : MapKey n) : BitVec 32 :=
  let h := map.hashingAlgorithm key
  let h := h ^^^ (h.sshiftRight 20 ^^^ h.sshiftRight 12)
  h ^^^ (h.sshiftRight 7 ^^^ h.sshiftRight 4)

theorem and_mask_lt (h : BitVec 32) : (h &&& 2046).toNat < mapBucketCount :=
  Nat.lt_of_le_of_lt (by simpa using Nat.and_le_right) (show 2046 < mapBucketCount by decide)

/-- The mask `MAP_BUCKET_COUNT - 1` is 2046. -/
def mapIndexOf (map : HashedMap n α) (key : MapKey n) : Fin mapBucketCount :=
  ⟨(mapHash map key &&& 2046).toNat, and_mask_lt _⟩

/-- On eleven bits the second round of the hash is undone by a sum of shifts. -/
theorem xor_shifts_undo {x : ℕ} (hx : x < 2 ^ 11) :
    let y := x ^^^ x >>> 4 ^^^ x >>> 7 ^^^ x >>> 8
    y ^^^ (y >>> 7 ^^^ y >>> 4) = x := by
  intro y
  have hhigh (k : ℕ) (hk : 11 ≤ k) : x.testBit k = false :=
    Nat.testBit_lt_two_pow (hx.trans_le (Nat.pow_le_pow_right (by decide) hk))
  refine Nat.eq_of_testBit_eq fun j => ?_
  simp only [y, Nat.testBit_xor, Nat.testBit_shiftRight, ← Nat.add_assoc, Nat.reduceAdd]
  rw [hhigh (11 + j) (by omega), hhigh (12 + j) (by omega), hhigh (14 + j) (by omega),
    hhigh (15 + j) (by omega)]
  grind

theorem mapHash_of_lt (map : HashedMap n α) (key : MapKey n) {y : ℕ} (hy : y < 2 ^ 11) :
    mapHash { map with hashingAlgorithm := fun _ => BitVec.ofNat 32 y } key =
      BitVec.ofNat 32 (y ^^^ (y >>> 7 ^^^ y >>> 4)) := by
  have hmsb : (BitVec.ofNat 32 y).msb = false := by
    rw [BitVec.msb_eq_false_iff_two_mul_lt, BitVec.toNat_ofNat]
    omega
  have hshift (k : ℕ) : (BitVec.ofNat 32 y).sshiftRight k = BitVec.ofNat 32 (y >>> k) := by
    have hle := Nat.shiftRight_le y k
    rw [BitVec.sshiftRight_eq_of_msb_false hmsb, ← BitVec.toNat_inj, BitVec.toNat_ushiftRight,
      BitVec.toNat_ofNat, BitVec.toNat_ofNat, Nat.mod_eq_of_lt (by omega),
      Nat.mod_eq_of_lt (by omega)]
  have hzero (k : ℕ) (hk : 11 ≤ k) : y >>> k = 0 :=
    Nat.shiftRight_eq_zero y k (hy.trans_le (Nat.pow_le_pow_right (by decide) hk))
  simp only [mapHash, hshift, hzero 20 (by decide), hzero 12 (by decide), BitVec.xor_self,
    BitVec.xor_zero, BitVec.ofNat_xor]

theorem and_mask_mod (x : ℕ) : (x &&& 2046) % 2 = 0 :=
  (Nat.and_mod_two_pow (n := 1)).trans (Nat.and_zero _)

theorem and_mask_eq {x : ℕ} (hx : x < 2 ^ 11) : x &&& 2046 = x - x % 2 := by
  have hmod := and_mask_mod x
  have hhalf : (x &&& 2046) / 2 = x / 2 &&& 1023 := Nat.and_div_two_pow (n := 1)
  rw [Nat.and_two_pow_sub_one_eq_mod _ 10] at hhalf
  omega

/-- There are 2047 buckets, and the mask is an even number. -/
theorem mapIndexOf_iff (map : HashedMap n α) (key : MapKey n) :
    (∀ h, (mapIndexOf { map with hashingAlgorithm := fun _ => h } key).val < mapBucketCount) ∧
    ∀ i < mapBucketCount,
      (∃ h, (mapIndexOf { map with hashingAlgorithm := fun _ => h } key).val = i) ↔ i % 2 = 0 := by
  refine ⟨fun h => Fin.isLt _, fun i hi => ⟨?_, fun heven => ?_⟩⟩
  · rintro ⟨h, rfl⟩
    exact and_mask_mod _
  · have hlt : i < 2 ^ 11 := hi.trans (by decide)
    have hshift (k : ℕ) : i >>> k < 2 ^ 11 := (Nat.shiftRight_le i k).trans_lt hlt
    refine ⟨BitVec.ofNat 32 (i ^^^ i >>> 4 ^^^ i >>> 7 ^^^ i >>> 8), ?_⟩
    change (mapHash _ key &&& 2046).toNat = i
    rw [mapHash_of_lt map key (Nat.xor_lt_two_pow (Nat.xor_lt_two_pow (Nat.xor_lt_two_pow hlt
      (hshift 4)) (hshift 7)) (hshift 8)), xor_shifts_undo hlt, BitVec.toNat_and,
      BitVec.toNat_ofNat, Nat.mod_eq_of_lt (hlt.trans (by decide))]
    exact (and_mask_eq hlt).trans (by omega)

/-- The second bucket is never used. -/
theorem mapIndexOf_ne_one : 1 < mapBucketCount ∧ ∀ (key : MapKey 4) (h : BitVec 32),
    (mapIndexOf (⟨0, fun _ => none, fun _ => h⟩ : HashedMap 4 ℕ) key).val ≠ 1 := by
  refine ⟨by decide, fun key h hone => ?_⟩
  have heven : (1 : ℕ) % 2 = 0 := hone ▸ and_mask_mod _
  exact absurd heven (by decide)

def mapKeyEquals (key₁ key₂ : MapKey n) : Bool :=
  (List.finRange n).all fun i => key₁ i == key₂ i

def mapInitialise (hashingAlgorithm : MapKey n → BitVec 32) : Exec (HashedMap n α) :=
  if n ≤ mapMaxKeyLength then .ok ⟨0, fun _ => none, hashingAlgorithm⟩ else .error .halted

def mapCreate (hashingAlgorithm : MapKey n → BitVec 32) : Exec (HashedMap n α) :=
  mapInitialise hashingAlgorithm

def holdsKey (bucket : MapBucket n α) (key : MapKey n) (i : Fin mapBucketSize) : Bool :=
  match bucket i with
  | some entry => mapKeyEquals entry.key key
  | none => false

def slotOf (bucket : MapBucket n α) (key : MapKey n) : Option (Fin mapBucketSize) :=
  (List.finRange mapBucketSize).find? (holdsKey bucket key)

def mapGet (map : HashedMap n α) (key : MapKey n) : Option α :=
  match map.buckets (mapIndexOf map key) with
  | some bucket =>
    match slotOf bucket key with
    | some i => (bucket i).map MapEntry.value
    | none => none
  | none => none

def mapContainsKey (map : HashedMap n α) (key : MapKey n) : Bool :=
  match map.buckets (mapIndexOf map key) with
  | some bucket => (slotOf bucket key).isSome
  | none => false

/-- The loop of `map_put`, from a slot on: the slot in use for the key, at which the loop stops,
and the first slot not in use. -/
def findSlots (bucket : MapBucket n α) (key : MapKey n) :
    List (Fin mapBucketSize) → Option (Fin mapBucketSize) →
      Option (Fin mapBucketSize) × Option (Fin mapBucketSize)
  | [], unused => (none, unused)
  | i :: slots, unused =>
    match bucket i with
    | some entry =>
      if mapKeyEquals entry.key key then (some i, unused) else findSlots bucket key slots unused
    | none => findSlots bucket key slots (unused.or (some i))

/-- An entry that is replaced is not given back to the pool, and it is counted again. -/
def mapPut (map : HashedMap n α) (key : MapKey n) (value : α) : Bool × HashedMap n α :=
  if map.size < mapCapacity then
    let index := mapIndexOf map key
    let bucket := (map.buckets index).getD fun _ => none
    let map := { map with buckets := update map.buckets index (some bucket) }
    let (used, unused) := findSlots bucket key (List.finRange mapBucketSize) none
    match used.or unused with
    | some i =>
      let bucket := update bucket i (some ⟨key, value⟩)
      (true, { map with
        size := map.size + 1
        buckets := update map.buckets index (some bucket) })
    | none => (false, map)
  else (false, map)

/-- The loop of `map_remove`, from a slot on: whether the key was found, how many slots are
left in use, and the bucket. -/
def removeFrom (key : MapKey n) :
    List (Fin mapBucketSize) → Bool → ℕ → MapBucket n α → Bool × ℕ × MapBucket n α
  | [], ok, c, bucket => (ok, c, bucket)
  | i :: slots, ok, c, bucket =>
    match bucket i with
    | some entry =>
      if !ok && mapKeyEquals entry.key key then
        removeFrom key slots true c (update bucket i none)
      else removeFrom key slots ok (c + 1) bucket
    | none => removeFrom key slots ok c bucket

def mapRemove (map : HashedMap n α) (key : MapKey n) : Bool × HashedMap n α :=
  let index := mapIndexOf map key
  match map.buckets index with
  | some bucket =>
    let (ok, c, bucket) := removeFrom key (List.finRange mapBucketSize) false 0 bucket
    (ok, { map with
      size := if ok then map.size - 1 else map.size
      buckets := update map.buckets index (if c = 0 then none else some bucket) })
  | none => (false, map)

def mapSize (map : HashedMap n α) : ℕ := map.size

/-- A map that still has buckets stops the machine. -/
def mapDelete (map : HashedMap n α) : Exec Unit :=
  if ∀ i, (map.buckets i).isNone then .ok () else .error .halted

/-! ## The loops over a bucket -/

variable {bucket : MapBucket n α} {key : MapKey n} {value : α} {i : Fin mapBucketSize}

theorem mapKeyEquals_iff {key₁ key₂ : MapKey n} : mapKeyEquals key₁ key₂ = true ↔ key₁ = key₂ := by
  simp [mapKeyEquals, funext_iff]

theorem holdsKey_iff : holdsKey bucket key i = true ↔ ∃ value, bucket i = some ⟨key, value⟩ := by
  unfold holdsKey
  cases hslot : bucket i with
  | none => simp
  | some entry =>
    obtain ⟨entryKey, entryValue⟩ := entry
    simp [mapKeyEquals_iff]

theorem slotOf_eq_some (h : slotOf bucket key = some i) :
    ∃ value, bucket i = some ⟨key, value⟩ :=
  holdsKey_iff.mp (List.find?_some h)

theorem slotOf_eq_none (h : slotOf bucket key = none) :
    ∀ i value, bucket i ≠ some ⟨key, value⟩ := by
  intro i value hslot
  have hnone := List.find?_eq_none.mp h i (List.mem_finRange i)
  exact hnone (holdsKey_iff.mpr ⟨value, hslot⟩)

theorem findSlots_eq (bucket : MapBucket n α) (key : MapKey n) (slots : List (Fin mapBucketSize))
    (unused : Option (Fin mapBucketSize)) :
    (findSlots bucket key slots unused).1 = slots.find? (holdsKey bucket key) ∧
      ((findSlots bucket key slots unused).1 = none →
        (findSlots bucket key slots unused).2 =
          unused.or (slots.find? fun i => (bucket i).isNone)) := by
  induction slots generalizing unused with
  | nil => exact ⟨rfl, fun _ => by simp [findSlots]⟩
  | cons i slots ih =>
    cases hslot : bucket i with
    | none =>
      have hholds : holdsKey bucket key i = false := by simp [holdsKey, hslot]
      have hstep : findSlots bucket key (i :: slots) unused =
          findSlots bucket key slots (unused.or (some i)) := by simp [findSlots, hslot]
      rw [hstep, List.find?_cons_of_neg (by simp [hholds]),
        List.find?_cons_of_pos (by simp [hslot])]
      refine ⟨(ih _).1, fun hused => ?_⟩
      rw [(ih _).2 hused, Option.or_assoc, Option.some_or]
    | some entry =>
      by_cases hkey : mapKeyEquals entry.key key = true
      · have hholds : holdsKey bucket key i = true := by simp [holdsKey, hslot, hkey]
        have hstep : findSlots bucket key (i :: slots) unused = (some i, unused) := by
          simp [findSlots, hslot, hkey]
        rw [hstep, List.find?_cons_of_pos hholds]
        exact ⟨rfl, fun hused => by simp at hused⟩
      have hholds : holdsKey bucket key i = false := by simp [holdsKey, hslot, hkey]
      have hstep : findSlots bucket key (i :: slots) unused =
          findSlots bucket key slots unused := by simp [findSlots, hslot, hkey]
      rw [hstep, List.find?_cons_of_neg (by simp [hholds]),
        List.find?_cons_of_neg (by simp [hslot])]
      exact ih unused

def inUse (bucket : MapBucket n α) (slots : List (Fin mapBucketSize)) : ℕ :=
  slots.countP fun i => (bucket i).isSome

theorem removeFrom_found (slots : List (Fin mapBucketSize)) (c : ℕ) :
    removeFrom key slots true c bucket = (true, c + inUse bucket slots, bucket) := by
  induction slots generalizing c with
  | nil => rfl
  | cons i slots ih =>
    cases hslot : bucket i with
    | none => simp [removeFrom, hslot, ih, inUse]
    | some entry => simp [removeFrom, hslot, ih, inUse]; omega

theorem removeFrom_eq (bucket : MapBucket n α) (key : MapKey n) (c : ℕ)
    {slots : List (Fin mapBucketSize)} (hnodup : slots.Nodup) :
    removeFrom key slots false c bucket =
      match slots.find? (holdsKey bucket key) with
      | some i => (true, c + inUse (update bucket i none) slots, update bucket i none)
      | none => (false, c + inUse bucket slots, bucket) := by
  induction slots generalizing c with
  | nil => rfl
  | cons i slots ih =>
    obtain ⟨hmem, hnodup⟩ := List.nodup_cons.mp hnodup
    cases hslot : bucket i with
    | none =>
      have hholds : holdsKey bucket key i = false := by simp [holdsKey, hslot]
      rw [List.find?_cons_of_neg (by simp [hholds])]
      simp only [removeFrom, hslot, ih _ hnodup]
      cases hfind : slots.find? (holdsKey bucket key) with
      | none => simp [inUse, hslot]
      | some j =>
        have hne : i ≠ j := fun heq => hmem (heq ▸ List.mem_of_find?_eq_some hfind)
        simp [inUse, update_of_ne hne, hslot]
    | some entry =>
      by_cases hkey : mapKeyEquals entry.key key = true
      · have hholds : holdsKey bucket key i = true := by simp [holdsKey, hslot, hkey]
        rw [List.find?_cons_of_pos hholds]
        simp only [removeFrom, hslot, hkey, removeFrom_found]
        simp [inUse]
      have hholds : holdsKey bucket key i = false := by simp [holdsKey, hslot, hkey]
      rw [List.find?_cons_of_neg (by simp [hholds])]
      simp only [removeFrom, hslot, hkey, ih _ hnodup]
      cases hfind : slots.find? (holdsKey bucket key) with
      | none => simp [inUse, hslot]; omega
      | some j =>
        have hne : i ≠ j := fun heq => hmem (heq ▸ List.mem_of_find?_eq_some hfind)
        simp [inUse, update_of_ne hne, hslot]; omega

/-! ## The slots of the map -/

variable {map map' : HashedMap n α} {b : Fin mapBucketCount}

/-- A slot of the map; where there is no bucket, no slot is in use. -/
def HashedMap.slot (map : HashedMap n α) (b : Fin mapBucketCount) (i : Fin mapBucketSize) :
    Option (MapEntry n α) :=
  (map.buckets b).bind fun bucket => bucket i

/-- Every entry is in the bucket of its key, no key is in two slots of a bucket, and a bucket is
there for at least one entry. -/
structure HashedMap.WellFormed (map : HashedMap n α) : Prop where
  placed : ∀ b i entry, map.slot b i = some entry → mapIndexOf map entry.key = b
  unique : ∀ b i j entry entry', map.slot b i = some entry → map.slot b j = some entry' →
    entry.key = entry'.key → i = j
  occupied : ∀ b bucket, map.buckets b = some bucket → ∃ i, (bucket i).isSome

theorem mapIndexOf_congr (h : map'.hashingAlgorithm = map.hashingAlgorithm) (key : MapKey n) :
    mapIndexOf map' key = mapIndexOf map key := by
  simp [mapIndexOf, mapHash, h]

theorem HashedMap.slot_eq_of_getD :
    map.slot b i = (map.buckets b).getD (fun _ => none) i := by
  cases hbucket : map.buckets b <;> simp [HashedMap.slot, hbucket]

theorem HashedMap.slot_or (map : HashedMap n α) (key : MapKey n) :
    (∃ i value, map.slot (mapIndexOf map key) i = some ⟨key, value⟩ ∧ mapGet map key = some value ∧
        mapContainsKey map key = true) ∨
      ((∀ i value, map.slot (mapIndexOf map key) i ≠ some ⟨key, value⟩) ∧ mapGet map key = none ∧
        mapContainsKey map key = false) := by
  cases hbucket : map.buckets (mapIndexOf map key) with
  | none => exact .inr (by simp [HashedMap.slot, mapGet, mapContainsKey, hbucket])
  | some bucket =>
    cases hslot : slotOf bucket key with
    | none =>
      refine .inr ⟨fun i value => ?_, ?_⟩
      · simpa [HashedMap.slot, hbucket] using slotOf_eq_none hslot i value
      · simp [mapGet, mapContainsKey, hbucket, hslot]
    | some i =>
      obtain ⟨value, hvalue⟩ := slotOf_eq_some hslot
      refine .inl ⟨i, value, ?_, ?_⟩
      · simpa [HashedMap.slot, hbucket] using hvalue
      · simp [mapGet, mapContainsKey, hbucket, hslot, hvalue]

theorem mapContainsKey_eq (map : HashedMap n α) (key : MapKey n) :
    mapContainsKey map key = (mapGet map key).isSome := by
  rcases map.slot_or key with ⟨i, value, -, hget, hcontains⟩ | ⟨-, hget, hcontains⟩
  · simp [hget, hcontains]
  · simp [hget, hcontains]

theorem HashedMap.WellFormed.mapGet_eq_some_iff (h : map.WellFormed) :
    mapGet map key = some value ↔ ∃ b i, map.slot b i = some ⟨key, value⟩ := by
  rcases map.slot_or key with ⟨i, value', hslot, hget, -⟩ | ⟨hslot, hget, -⟩
  · rw [hget]
    constructor
    · rintro heq
      cases heq
      exact ⟨_, i, hslot⟩
    rintro ⟨b, j, hslot'⟩
    obtain rfl := h.placed b j _ hslot'
    obtain rfl := h.unique _ i j _ _ hslot hslot' rfl
    rw [hslot] at hslot'
    simpa using hslot'
  rw [hget]
  constructor
  · rintro heq
    cases heq
  rintro ⟨b, j, hslot'⟩
  obtain rfl := h.placed b j _ hslot'
  exact absurd hslot' (hslot j value)

theorem HashedMap.WellFormed.isSome_bucket_iff (h : map.WellFormed) :
    (map.buckets b).isSome ↔ ∃ key, mapIndexOf map key = b ∧ (mapGet map key).isSome := by
  constructor
  · intro hsome
    obtain ⟨bucket, hbucket⟩ := Option.isSome_iff_exists.mp hsome
    obtain ⟨i, hslot⟩ := h.occupied b bucket hbucket
    obtain ⟨entry, hentry⟩ := Option.isSome_iff_exists.mp hslot
    have hslot : map.slot b i = some entry := by
      rw [HashedMap.slot, hbucket]
      exact hentry
    have hget : mapGet map entry.key = some entry.value := h.mapGet_eq_some_iff.mpr ⟨b, i, hslot⟩
    refine ⟨entry.key, h.placed b i entry hslot, ?_⟩
    rw [hget]
    rfl
  rintro ⟨key, rfl, hget⟩
  obtain ⟨value, hvalue⟩ := Option.isSome_iff_exists.mp hget
  obtain ⟨b, i, hslot⟩ := h.mapGet_eq_some_iff.mp hvalue
  obtain rfl := h.placed b i _ hslot
  obtain ⟨bucket, hbucket, -⟩ := Option.bind_eq_some_iff.mp hslot
  rw [hbucket]
  rfl

/-! ## What the operations do to the slots -/

def HashedMap.putAt (map : HashedMap n α) (i : Fin mapBucketSize) (key : MapKey n) (value : α) :
    HashedMap n α :=
  let bucket := (map.buckets (mapIndexOf map key)).getD fun _ => none
  { map with
    size := map.size + 1
    buckets := update map.buckets (mapIndexOf map key)
      (some (update bucket i (some ⟨key, value⟩))) }

/-- The slot that `map_put` may use for a key: the one it is in, or a free one if it is in
none. -/
def HashedMap.PutSlot (map : HashedMap n α) (key : MapKey n) (i : Fin mapBucketSize) : Prop :=
  (∃ value, map.slot (mapIndexOf map key) i = some ⟨key, value⟩) ∨
    (map.slot (mapIndexOf map key) i = none ∧
      ∀ j value, map.slot (mapIndexOf map key) j ≠ some ⟨key, value⟩)

/-- The bucket of the key has all its slots in use for other keys. -/
def HashedMap.BucketFull (map : HashedMap n α) (key : MapKey n) : Prop :=
  ∀ i, ∃ entry, map.slot (mapIndexOf map key) i = some entry ∧ entry.key ≠ key

instance HashedMap.decidableBucketFull (map : HashedMap n α) (key : MapKey n) :
    Decidable (map.BucketFull key) :=
  decidable_of_iff
    (∀ i, (map.slot (mapIndexOf map key) i).any (fun entry => entry.key ≠ key) = true)
    (forall_congr' fun i => by simp [Option.any_eq_true])

theorem mapPut_cases (map : HashedMap n α) (key : MapKey n) (value : α) :
    (∃ i, map.PutSlot key i ∧ map.size < mapCapacity ∧
        mapPut map key value = (true, map.putAt i key value)) ∨
      ((mapCapacity ≤ map.size ∨ map.BucketFull key) ∧ mapPut map key value = (false, map)) := by
  unfold mapPut
  split
  next hsize =>
    obtain ⟨hused, hunused⟩ := findSlots_eq ((map.buckets (mapIndexOf map key)).getD fun _ => none)
      key (List.finRange mapBucketSize) none
    cases hslots : findSlots ((map.buckets (mapIndexOf map key)).getD fun _ => none) key
      (List.finRange mapBucketSize) none with | mk used unused =>
    simp only [hslots] at hused hunused ⊢
    cases used with
    | some i =>
      obtain ⟨value', hslot⟩ := slotOf_eq_some hused.symm
      rw [← HashedMap.slot_eq_of_getD] at hslot
      refine .inl ⟨i, .inl ⟨value', hslot⟩, hsize, ?_⟩
      simp [HashedMap.putAt, update_idem]
    | none =>
      have habsent := slotOf_eq_none hused.symm
      simp only [← HashedMap.slot_eq_of_getD] at habsent
      cases unused with
      | some i =>
        have hfree := List.find?_some (hunused rfl).symm
        rw [← HashedMap.slot_eq_of_getD, Option.isNone_iff_eq_none] at hfree
        refine .inl ⟨i, .inr ⟨hfree, habsent⟩, hsize, ?_⟩
        simp [HashedMap.putAt, update_idem]
      | none =>
        -- every slot is in use, so the bucket was there before
        have hfull : map.BucketFull key := by
          intro i
          have hslot := List.find?_eq_none.mp (hunused rfl).symm i (List.mem_finRange i)
          rw [← HashedMap.slot_eq_of_getD, Option.isNone_iff_eq_none] at hslot
          obtain ⟨⟨entryKey, entryValue⟩, hentry⟩ := Option.ne_none_iff_exists'.mp hslot
          exact ⟨_, hentry, fun heq => habsent i entryValue (heq ▸ hentry)⟩
        obtain ⟨entry, hentry, -⟩ := hfull ⟨0, by decide⟩
        obtain ⟨bucket, hbucket, -⟩ := Option.bind_eq_some_iff.mp hentry
        have hsame : update map.buckets (mapIndexOf map key)
            (some ((map.buckets (mapIndexOf map key)).getD fun _ => none)) = map.buckets := by
          simp [hbucket]
        exact .inr ⟨.inr hfull, by simp only [Option.or_none, hsame]⟩
  next hsize => exact .inr ⟨.inl (Nat.le_of_not_lt hsize), rfl⟩

@[simp] theorem HashedMap.putAt_hashingAlgorithm :
    (map.putAt i key value).hashingAlgorithm = map.hashingAlgorithm := rfl

theorem HashedMap.slot_putAt (b : Fin mapBucketCount) (j : Fin mapBucketSize) :
    (map.putAt i key value).slot b j =
      if b = mapIndexOf map key ∧ j = i then some ⟨key, value⟩ else map.slot b j := by
  by_cases hb : b = mapIndexOf map key
  · subst hb
    by_cases hj : j = i
    · subst hj
      simp [HashedMap.slot, HashedMap.putAt]
    · simp [HashedMap.slot_eq_of_getD, HashedMap.putAt, hj]
  · simp [HashedMap.slot, HashedMap.putAt, hb]

/-- The map without the entry in a slot of a bucket; with the last entry the bucket goes. -/
def HashedMap.removeAt (map : HashedMap n α) (b : Fin mapBucketCount) (i : Fin mapBucketSize) :
    HashedMap n α :=
  let bucket := update ((map.buckets b).getD fun _ => none) i none
  { map with
    size := map.size - 1
    buckets := update map.buckets b
      (if ∀ j, (bucket j).isNone then none else some bucket) }

theorem inUse_eq_zero_iff : inUse bucket (List.finRange mapBucketSize) = 0 ↔
    ∀ j, (bucket j).isNone := by
  simp [inUse, List.countP_eq_zero]

theorem HashedMap.WellFormed.mapRemove_cases (h : map.WellFormed) (key : MapKey n) :
    (∃ i value, map.slot (mapIndexOf map key) i = some ⟨key, value⟩ ∧
        mapRemove map key = (true, map.removeAt (mapIndexOf map key) i)) ∨
      ((∀ i value, map.slot (mapIndexOf map key) i ≠ some ⟨key, value⟩) ∧
        mapRemove map key = (false, map)) := by
  unfold mapRemove
  cases hbucket : map.buckets (mapIndexOf map key) with
  | none => exact .inr ⟨by simp [HashedMap.slot, hbucket], by simp [hbucket]⟩
  | some bucket =>
    have hloop := removeFrom_eq bucket key 0 (List.nodup_finRange mapBucketSize)
    cases hslot : slotOf bucket key with
    | some i =>
      have hfind : (List.finRange mapBucketSize).find? (holdsKey bucket key) = some i := hslot
      obtain ⟨value, hvalue⟩ := slotOf_eq_some hslot
      refine .inl ⟨i, value, by simpa [HashedMap.slot, hbucket] using hvalue, ?_⟩
      simp [hloop, hfind, HashedMap.removeAt, hbucket, inUse_eq_zero_iff]
    | none =>
      have hfind : (List.finRange mapBucketSize).find? (holdsKey bucket key) = none := hslot
      refine .inr ⟨?_, ?_⟩
      · simpa [HashedMap.slot, hbucket] using slotOf_eq_none hslot
      -- the bucket is there for some entry, so it stays
      obtain ⟨i, hi⟩ := h.occupied _ bucket hbucket
      have hcount : inUse bucket (List.finRange mapBucketSize) ≠ 0 := by
        intro hzero
        have hnone := inUse_eq_zero_iff.mp hzero i
        rw [Option.isNone_iff_eq_none] at hnone
        simp [hnone] at hi
      have hsame : update map.buckets (mapIndexOf map key) (some bucket) =
          map.buckets := by rw [← hbucket, update_eq_self]
      simp [hbucket, hloop, hfind, hcount, hsame]

theorem HashedMap.slot_removeAt (b b' : Fin mapBucketCount) (i j : Fin mapBucketSize) :
    (map.removeAt b i).slot b' j = if b' = b ∧ j = i then none else map.slot b' j := by
  by_cases hb : b' = b
  · subst hb
    have hslot : (map.removeAt b' i).slot b' j =
        update ((map.buckets b').getD fun _ => none) i none j := by
      simp only [HashedMap.removeAt, HashedMap.slot, update_self]
      split
      next hnone => exact (Option.isNone_iff_eq_none.mp (hnone j)).symm
      · rfl
    rw [hslot]
    by_cases hj : j = i
    · simp [hj]
    · simp [hj, HashedMap.slot_eq_of_getD]
  · simp [HashedMap.slot, HashedMap.removeAt, hb]

/-! ## The operations keep the map well formed -/

theorem HashedMap.wellFormed_empty (hash : MapKey n → BitVec 32) :
    (⟨0, fun _ => none, hash⟩ : HashedMap n α).WellFormed where
  placed b i entry hslot := by simp [HashedMap.slot] at hslot
  unique b i j entry entry' hslot := by simp [HashedMap.slot] at hslot
  occupied b bucket hbucket := by simp at hbucket

theorem HashedMap.WellFormed.putAt (h : map.WellFormed) (hput : map.PutSlot key i) :
    (map.putAt i key value).WellFormed where
  placed b j entry hslot := by
    rw [HashedMap.slot_putAt] at hslot
    split at hslot
    next hat =>
      cases hslot
      exact hat.1.symm
    · exact h.placed b j entry hslot
  unique b j j' entry entry' hslot hslot' hkey := by
    -- the key of the new entry is in no other slot of its bucket
    have hother : ∀ j value', map.slot (mapIndexOf map key) j = some ⟨key, value'⟩ → j = i := by
      intro j value' hj
      rcases hput with ⟨value, hi⟩ | ⟨-, habsent⟩
      · exact h.unique _ j i _ _ hj hi rfl
      · exact absurd hj (habsent j value')
    obtain ⟨entryKey, entryValue⟩ := entry
    obtain ⟨entryKey', entryValue'⟩ := entry'
    obtain rfl : entryKey = entryKey' := hkey
    rw [HashedMap.slot_putAt] at hslot hslot'
    split at hslot
    next hat =>
      obtain ⟨rfl, rfl⟩ := hat
      split at hslot'
      next hat' => exact hat'.2.symm
      obtain rfl : key = entryKey := congrArg MapEntry.key (Option.some.inj hslot)
      exact (hother j' _ hslot').symm
    split at hslot'
    next hat' =>
      obtain ⟨rfl, rfl⟩ := hat'
      obtain rfl : key = entryKey := congrArg MapEntry.key (Option.some.inj hslot')
      exact hother j _ hslot
    · exact h.unique b j j' _ _ hslot hslot' rfl
  occupied b bucket hbucket := by
    by_cases hb : b = mapIndexOf map key
    · subst hb
      simp only [HashedMap.putAt, update_self, Option.some.injEq] at hbucket
      exact ⟨i, by simp [← hbucket]⟩
    · exact h.occupied b bucket (by simpa [HashedMap.putAt, hb] using hbucket)

theorem HashedMap.WellFormed.removeAt (h : map.WellFormed) (b : Fin mapBucketCount)
    (i : Fin mapBucketSize) : (map.removeAt b i).WellFormed where
  placed b' j entry hslot := by
    rw [HashedMap.slot_removeAt] at hslot
    split at hslot
    · cases hslot
    · exact h.placed b' j entry hslot
  unique b' j j' entry entry' hslot hslot' hkey := by
    rw [HashedMap.slot_removeAt] at hslot hslot'
    split at hslot
    · cases hslot
    split at hslot'
    · cases hslot'
    · exact h.unique b' j j' entry entry' hslot hslot' hkey
  occupied b' bucket hbucket := by
    by_cases hb : b' = b
    · subst hb
      simp only [HashedMap.removeAt, update_self] at hbucket
      split at hbucket
      · cases hbucket
      next hsome =>
        cases hbucket
        simpa [Option.isSome_iff_ne_none] using hsome
    · exact h.occupied b' bucket (by simpa [HashedMap.removeAt, hb] using hbucket)

theorem wellFormed_mapPut (h : map.WellFormed) (key : MapKey n) (value : α) :
    (mapPut map key value).2.WellFormed := by
  rcases mapPut_cases map key value with ⟨i, hput, -, hmap⟩ | ⟨-, hmap⟩
  · rw [hmap]
    exact h.putAt hput
  rw [hmap]
  exact h

theorem wellFormed_mapRemove (h : map.WellFormed) (key : MapKey n) :
    (mapRemove map key).2.WellFormed := by
  rcases h.mapRemove_cases key with ⟨i, value, -, hmap⟩ | ⟨-, hmap⟩
  · rw [hmap]
    exact h.removeAt _ i
  rw [hmap]
  exact h

theorem hashingAlgorithm_mapPut (map : HashedMap n α) (key : MapKey n) (value : α) :
    (mapPut map key value).2.hashingAlgorithm = map.hashingAlgorithm := by
  rcases mapPut_cases map key value with ⟨i, -, -, hmap⟩ | ⟨-, hmap⟩ <;> rw [hmap]
  rfl

theorem size_mapPut_le (map : HashedMap n α) (key : MapKey n) (value : α) :
    (mapPut map key value).2.size ≤ map.size + 1 := by
  rcases mapPut_cases map key value with ⟨i, -, -, hmap⟩ | ⟨-, hmap⟩ <;> rw [hmap]
  · exact Nat.le_refl _
  · exact Nat.le_succ _

theorem hashingAlgorithm_mapRemove (h : map.WellFormed) (key : MapKey n) :
    (mapRemove map key).2.hashingAlgorithm = map.hashingAlgorithm := by
  rcases h.mapRemove_cases key with ⟨i, value, -, hmap⟩ | ⟨-, hmap⟩ <;> rw [hmap]
  rfl

theorem size_mapRemove_le (h : map.WellFormed) (key : MapKey n) :
    (mapRemove map key).2.size ≤ map.size := by
  rcases h.mapRemove_cases key with ⟨i, value, -, hmap⟩ | ⟨-, hmap⟩ <;> rw [hmap]
  exact Nat.sub_le _ _

theorem mapRemove_absent (h : map.WellFormed) (habsent : mapContainsKey map key = false) :
    mapRemove map key = (false, map) := by
  rcases h.mapRemove_cases key with ⟨i, value, hslot, -⟩ | ⟨-, hmap⟩
  · rw [mapContainsKey_eq, h.mapGet_eq_some_iff.mpr ⟨_, i, hslot⟩] at habsent
    cases habsent
  · exact hmap

theorem HashedMap.WellFormed.others_of_full (h : map.WellFormed) (full : map.BucketFull key) :
    ∃ others : Finset (MapKey n), others.card = mapBucketSize ∧
      ∀ key' ∈ others, key' ≠ key ∧ mapIndexOf map key' = mapIndexOf map key ∧
        (mapGet map key').isSome := by
  choose entry hentry hne using full
  have hinj : Injective fun i => (entry i).key := fun i j hkey =>
    h.unique _ i j _ _ (hentry i) (hentry j) hkey
  refine ⟨Finset.univ.image fun i => (entry i).key, ?_, ?_⟩
  · rw [Finset.card_image_of_injective _ hinj, Finset.card_univ, Fintype.card_fin]
  intro key' hmem
  obtain ⟨i, -, rfl⟩ := Finset.mem_image.mp hmem
  refine ⟨hne i, h.placed _ i _ (hentry i), ?_⟩
  rw [h.mapGet_eq_some_iff.mpr ⟨_, i, hentry i⟩]
  rfl

/-! ## The operations are those of a partial function -/

theorem HashedMap.WellFormed.mapGet_mapPut (h : map.WellFormed) (key : MapKey n) (value : α) :
    mapGet (mapPut map key value).2 =
      if (mapPut map key value).1 then update (mapGet map) key (some value)
      else mapGet map := by
  rcases mapPut_cases map key value with ⟨i, hput, -, hmap⟩ | ⟨-, hmap⟩
  · rw [hmap, if_pos rfl]
    funext key'
    apply Option.ext
    intro value'
    rw [(h.putAt hput).mapGet_eq_some_iff]
    by_cases hkey : key' = key
    · subst hkey
      rw [update_self]
      constructor
      · rintro ⟨b, j, hslot⟩
        -- the new entry is in the one slot of the key
        have hnew : (map.putAt i key' value).slot (mapIndexOf map key') i = some ⟨key', value⟩ := by
          rw [HashedMap.slot_putAt, if_pos ⟨rfl, rfl⟩]
        have hindex := (h.putAt hput).placed b j _ hslot
        rw [mapIndexOf_congr HashedMap.putAt_hashingAlgorithm] at hindex
        subst hindex
        obtain rfl := (h.putAt hput).unique _ j i _ _ hslot hnew rfl
        rw [hnew] at hslot
        exact congrArg (Option.map MapEntry.value) hslot
      rintro heq
      cases heq
      exact ⟨mapIndexOf map key', i, by rw [HashedMap.slot_putAt, if_pos ⟨rfl, rfl⟩]⟩
    rw [update_of_ne hkey, h.mapGet_eq_some_iff]
    -- the slot of another key is not the one that is written
    have hslot : ∀ b j, (map.putAt i key value).slot b j = some ⟨key', value'⟩ ↔
        map.slot b j = some ⟨key', value'⟩ := by
      intro b j
      rw [HashedMap.slot_putAt]
      split
      next hat =>
        obtain ⟨rfl, rfl⟩ := hat
        have hold : map.slot (mapIndexOf map key) j ≠ some ⟨key', value'⟩ := by
          rcases hput with ⟨old, hold⟩ | ⟨hold, -⟩
          · simpa [hold] using fun heq => absurd heq.symm hkey
          · simp [hold]
        refine iff_of_false (fun heq => hkey ?_) hold
        exact (congrArg MapEntry.key (Option.some.inj heq)).symm
      · exact Iff.rfl
    simp only [hslot]
  rw [hmap]
  rfl

/-- `map_remove` takes its key out, and says whether it was there. -/
theorem HashedMap.WellFormed.mapGet_mapRemove (h : map.WellFormed) (key : MapKey n) :
    (mapRemove map key).1 = (mapGet map key).isSome ∧
      mapGet (mapRemove map key).2 = update (mapGet map) key none := by
  rcases h.mapRemove_cases key with ⟨i, value, hslot, hmap⟩ | ⟨habsent, hmap⟩
  · rw [hmap, h.mapGet_eq_some_iff.mpr ⟨_, i, hslot⟩]
    refine ⟨rfl, ?_⟩
    funext key'
    apply Option.ext
    intro value'
    rw [(h.removeAt _ i).mapGet_eq_some_iff]
    simp only [HashedMap.slot_removeAt]
    by_cases hkey : key' = key
    · subst hkey
      refine iff_of_false ?_ (by simp)
      rintro ⟨b, j, hslot'⟩
      split at hslot'
      · cases hslot'
      next hat =>
        obtain rfl := h.placed b j _ hslot'
        exact hat ⟨rfl, h.unique _ j i _ _ hslot' hslot rfl⟩
    rw [update_of_ne hkey, h.mapGet_eq_some_iff]
    constructor
    · rintro ⟨b, j, hslot'⟩
      split at hslot'
      · cases hslot'
      · exact ⟨b, j, hslot'⟩
    rintro ⟨b, j, hslot'⟩
    refine ⟨b, j, ?_⟩
    rw [if_neg, hslot']
    rintro ⟨rfl, rfl⟩
    rw [hslot] at hslot'
    exact hkey (congrArg MapEntry.key (Option.some.inj hslot')).symm
  rw [hmap]
  rcases map.slot_or key with ⟨i, value, hslot, -, -⟩ | ⟨-, hget, -⟩
  · exact absurd hslot (habsent i value)
  refine ⟨by rw [hget]; rfl, ?_⟩
  rw [← hget, update_eq_self]

/-! ## How many entries there are -/

def HashedMap.stored (map : HashedMap n α) : ℕ :=
  usedCount fun p : Fin mapBucketCount × Fin mapBucketSize => map.slot p.1 p.2

theorem HashedMap.stored_lt (map : HashedMap n α) : map.stored < mapCapacity := by
  have hle := usedCount_le fun p : Fin mapBucketCount × Fin mapBucketSize => map.slot p.1 p.2
  rw [Fintype.card_prod, Fintype.card_fin, Fintype.card_fin] at hle
  exact Nat.lt_of_le_of_lt hle (by decide)

theorem mapCreate_spec {hash : MapKey n → BitVec 32} (h : mapCreate hash = .ok map) :
    map.WellFormed ∧ map.hashingAlgorithm = hash ∧ mapGet map = (fun _ => none) ∧
      map.size = 0 ∧ map.stored = 0 := by
  unfold mapCreate mapInitialise at h
  split at h
  · cases h
    exact ⟨HashedMap.wellFormed_empty hash, rfl, funext fun key => rfl, rfl,
      usedCount_eq_zero fun p => rfl⟩
  · cases h

theorem counted_mapPut (h : map.WellFormed) (hcount : map.size = map.stored)
    (habsent : mapGet map key = none) :
    (mapPut map key value).2.size = (mapPut map key value).2.stored := by
  rcases mapPut_cases map key value with ⟨i, hput, -, hmap⟩ | ⟨-, hmap⟩
  · rw [hmap]
    rcases hput with ⟨value', hslot⟩ | ⟨hfree, -⟩
    · rw [h.mapGet_eq_some_iff.mpr ⟨_, i, hslot⟩] at habsent
      cases habsent
    have hstored : (map.putAt i key value).stored = map.stored + 1 := by
      refine usedCount_fill (p := (mapIndexOf map key, i)) hfree ?_ fun q hq => ?_
      · simp [HashedMap.slot_putAt]
      · rw [HashedMap.slot_putAt, if_neg fun hat => hq (Prod.ext hat.1 hat.2)]
    rw [hstored, ← hcount]
    rfl
  rw [hmap]
  exact hcount

theorem counted_mapRemove (h : map.WellFormed) (hcount : map.size = map.stored) (key : MapKey n) :
    (mapRemove map key).2.size = (mapRemove map key).2.stored := by
  rcases h.mapRemove_cases key with ⟨i, value, hslot, hmap⟩ | ⟨-, hmap⟩
  · have hstored : (map.removeAt (mapIndexOf map key) i).stored = map.stored - 1 := by
      refine usedCount_clear (p := (mapIndexOf map key, i)) (by rw [hslot]; rfl) ?_ fun q hq => ?_
      · simp [HashedMap.slot_removeAt]
      · rw [HashedMap.slot_removeAt, if_neg fun hat => hq (Prod.ext hat.1 hat.2)]
    rw [hmap, hstored, ← hcount]
    rfl
  rw [hmap]
  exact hcount

end Collections

end Tinker
