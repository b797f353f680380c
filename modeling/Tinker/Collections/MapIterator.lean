import Tinker.Collections.HashedMap

/-!
# Iterating over a hash map

The iterator of `hashed_map.c` remembers a bucket and an entry of it. The bucket may have been
freed in the meantime: then looking at it is a fault.

A bucket is named by its place in the map. No bucket is allocated while an iterator of this
development is in use, so a place without a bucket is the place of a freed one.
-/

namespace Tinker.Collections

open Tinker.Lib Exec HashedMap MapEntry

variable {n : ℕ} {α : Type}

structure MapIt (α : Type) where
  mapBucket : Option (Fin mapBucketCount)
  /-- The value of `map_entry`. -/
  mapEntry : Option α
  bucket : ℕ
  entry : ℕ

def usedFrom (bucket : MapBucket n α) (start : ℕ) : Option (Fin mapBucketSize) :=
  (List.finRange mapBucketSize).find? fun e => decide (start ≤ e) && (bucket e).isSome

def firstFrom (map : HashedMap n α) (start : ℕ) :
    Option (Fin mapBucketCount × Fin mapBucketSize) :=
  match (List.finRange mapBucketCount).find? fun b : Fin mapBucketCount =>
      decide (start ≤ b) && (map.buckets b).any fun bucket => (usedFrom bucket 0).isSome with
  | some b =>
    match (map.buckets b).bind fun bucket => usedFrom bucket 0 with
    | some e => some (b, e)
    | none => none
  | none => none

def itAt (map : HashedMap n α) (b : Fin mapBucketCount) (e : Fin mapBucketSize) : MapIt α :=
  ⟨some b, (map.slot b e).map value, b, e⟩

def mapItReset (map : HashedMap n α) : MapIt α :=
  match firstFrom map 0 with
  | some (b, e) => itAt map b e
  | none => ⟨none, none, 0, 0⟩

def mapItGet (it : MapIt α) : Option α := it.mapEntry

/-- The entries behind the current one in the bucket that the iterator remembers. -/
def nextInBucket (map : HashedMap n α) (it : MapIt α) :
    Exec (Option (Fin mapBucketCount × Fin mapBucketSize)) :=
  if it.entry + 1 < mapBucketSize then
    match it.mapBucket with
    | some b =>
      match map.buckets b with
      | some bucket => return (usedFrom bucket (it.entry + 1)).map fun e => (b, e)
      -- the bucket has been freed
      | none => .error .badPointer
    | none => .error .badPointer
  else return none

/-- The next item, if there is one. -/
def mapItNext (map : HashedMap n α) (it : MapIt α) : Exec (Option α × MapIt α) := do
  let here ← nextInBucket map it
  match here.or (firstFrom map (it.bucket + 1)) with
  | some (b, e) => return ((itAt map b e).mapEntry, itAt map b e)
  | none => return (none, it)

/-- The loop of `kshell_object_table`, at an item or at the end: the items it comes to. No item
that is stored is a null pointer. -/
def itemsFrom (map : HashedMap n α) : ℕ → MapIt α → Option α → Exec (List α)
  | _, _, none => return []
  | 0, _, some _ => .error .diverges
  | fuel + 1, it, some item => do
    let (next, it) ← mapItNext map it
    let items ← itemsFrom map fuel it next
    return item :: items

def itemsOf (map : HashedMap n α) (fuel : ℕ) : Exec (List α) :=
  let it := mapItReset map
  itemsFrom map fuel it (mapItGet it)

/-! ## The order of the entries -/

/-- Entries are shown bucket by bucket. -/
def position (b : Fin mapBucketCount) (e : Fin mapBucketSize) : ℕ := b * mapBucketSize + e

variable {map : HashedMap n α} {b b' : Fin mapBucketCount} {e e' : Fin mapBucketSize}

theorem position_lt_iff :
    position b e < position b' e' ↔ b.val < b'.val ∨ b = b' ∧ e.val < e'.val := by
  have he : e.val < 32 := e.isLt
  have he' : e'.val < 32 := e'.isLt
  change b.val * 32 + e.val < b'.val * 32 + e'.val ↔ _
  omega

theorem position_inj : position b e = position b' e' ↔ b = b' ∧ e = e' := by
  have he : e.val < 32 := e.isLt
  have he' : e'.val < 32 := e'.isLt
  change b.val * 32 + e.val = b'.val * 32 + e'.val ↔ _
  omega

theorem position_lt (b : Fin mapBucketCount) (e : Fin mapBucketSize) :
    position b e < mapBucketCount * mapBucketSize := by
  have he : e.val < 32 := e.isLt
  change b.val * 32 + e.val < mapBucketCount * 32
  omega

/-- What a search from a position on finds: an entry at or behind it, before which there is
none, or nothing at all. -/
inductive Finds (map : HashedMap n α) (start : ℕ) :
    Option (Fin mapBucketCount × Fin mapBucketSize) → Prop
  | entry {b : Fin mapBucketCount} {e : Fin mapBucketSize} : (map.slot b e).isSome →
      start ≤ position b e →
      (∀ b' e', start ≤ position b' e' → position b' e' < position b e → map.slot b' e' = none) →
      Finds map start (some (b, e))
  | nothing : (∀ b e, start ≤ position b e → map.slot b e = none) → Finds map start none

theorem usedFrom_eq_some {bucket : MapBucket n α} {start : ℕ} (h : usedFrom bucket start = some e) :
    (bucket e).isSome ∧ start ≤ e ∧ ∀ e' : Fin mapBucketSize, start ≤ e' → e' < e →
      bucket e' = none := by
  obtain ⟨hfound, hbefore⟩ := find?_finRange_eq_some h
  simp only [Bool.and_eq_true, decide_eq_true_eq] at hfound
  refine ⟨hfound.2, hfound.1, fun e' hstart hlt => ?_⟩
  simpa [hstart] using hbefore e' hlt

theorem usedFrom_eq_none {bucket : MapBucket n α} {start : ℕ} (h : usedFrom bucket start = none)
    (hstart : start ≤ e) : bucket e = none := by
  simpa [hstart] using find?_finRange_eq_none h e

theorem usedFrom_isSome_iff {bucket : MapBucket n α} :
    (usedFrom bucket 0).isSome ↔ ∃ e, (bucket e).isSome := by
  cases hused : usedFrom bucket 0 with
  | none =>
    refine iff_of_false (by simp) ?_
    rintro ⟨e, he⟩
    rw [usedFrom_eq_none hused (Nat.zero_le _)] at he
    cases he
  | some e => exact iff_of_true rfl ⟨e, (usedFrom_eq_some hused).1⟩

theorem firstFrom_finds (map : HashedMap n α) (start : ℕ) :
    Finds map (start * mapBucketSize) (firstFrom map start) := by
  have hbucket : ∀ {b : Fin mapBucketCount} {e : Fin mapBucketSize},
      start * mapBucketSize ≤ position b e ↔ start ≤ b := by
    intro b e
    have he : e.val < 32 := e.isLt
    change start * 32 ≤ b.val * 32 + e.val ↔ _
    omega
  unfold firstFrom
  split
  next b hb =>
    obtain ⟨hfound, hbefore⟩ := find?_finRange_eq_some hb
    simp only [Bool.and_eq_true, decide_eq_true_eq, Option.any_eq_true] at hfound
    obtain ⟨hstart, bucket, hmap, hused⟩ := hfound
    rw [hmap, Option.bind_some]
    obtain ⟨e, he⟩ := Option.isSome_iff_exists.mp hused
    obtain ⟨hsome, -, hfree⟩ := usedFrom_eq_some he
    rw [he]
    refine .entry (by simpa [slot, hmap] using hsome) (hbucket.mpr hstart) ?_
    intro b' e' hstart' hlt
    rcases position_lt_iff.mp hlt with hbefore' | ⟨rfl, hbefore'⟩
    · -- a bucket before has no entry, or it is not there
      have hnone := hbefore b' hbefore'
      cases hmap' : map.buckets b' with
      | none => simp [slot, hmap']
      | some bucket' =>
        rw [hmap', Option.any_some] at hnone
        have hunused : ¬ (usedFrom bucket' 0).isSome := by
          simpa [hbucket.mp hstart'] using hnone
        rw [usedFrom_isSome_iff, not_exists] at hunused
        simpa [slot, hmap'] using hunused e'
    · simpa [slot, hmap] using hfree e' (Nat.zero_le _) hbefore'
  next hnone =>
    refine .nothing fun b e hstart => ?_
    have hunused := find?_finRange_eq_none hnone b
    cases hmap : map.buckets b with
    | none => simp [slot, hmap]
    | some bucket =>
      rw [hmap, Option.any_some] at hunused
      have hunused : ¬ (usedFrom bucket 0).isSome := by
        simpa [hbucket.mp hstart] using hunused
      rw [usedFrom_isSome_iff, not_exists] at hunused
      simpa [slot, hmap] using hunused e

theorem mapItReset_spec (map : HashedMap n α) :
    (∃ b e entry, map.slot b e = some entry ∧
        (∀ b' e', position b' e' < position b e → map.slot b' e' = none) ∧
        mapItReset map = itAt map b e ∧ mapItGet (mapItReset map) = some entry.value) ∨
      ((∀ b e, map.slot b e = none) ∧ mapItGet (mapItReset map) = none) := by
  have hfinds := firstFrom_finds map 0
  unfold mapItReset
  cases hfirst : firstFrom map 0 with
  | none =>
    rw [hfirst] at hfinds
    cases hfinds with
    | nothing hnone => exact .inr ⟨fun b e => hnone b e (by simp), rfl⟩
  | some place =>
    rw [hfirst] at hfinds
    cases hfinds with
    | entry hsome _ hbefore =>
      obtain ⟨entry, hentry⟩ := Option.isSome_iff_exists.mp hsome
      refine .inl ⟨_, _, entry, hentry, fun b' e' => hbefore b' e' (by simp), rfl, ?_⟩
      simp [mapItGet, itAt, hentry]

theorem finds_or_firstFrom (map : HashedMap n α) {bucket : MapBucket n α}
    (hmap : map.buckets b = some bucket) (e : Fin mapBucketSize) :
    Finds map (position b e + 1)
      (((usedFrom bucket (e + 1)).map fun e' => (b, e')).or (firstFrom map (b + 1))) := by
  have he : e.val < 32 := e.isLt
  have hslot : ∀ e', map.slot b e' = bucket e' := fun e' => by simp [slot, hmap]
  cases hused : usedFrom bucket (e + 1) with
  | some e' =>
    obtain ⟨hsome, hstart, hfree⟩ := usedFrom_eq_some hused
    refine .entry (by rwa [hslot]) (position_lt_iff.mpr (.inr ⟨rfl, hstart⟩)) ?_
    intro b'' e'' hstart' hlt
    rcases position_lt_iff.mp hstart' with hb | ⟨rfl, he'⟩
    · rcases position_lt_iff.mp hlt with hb' | ⟨rfl, -⟩ <;> omega
    rcases position_lt_iff.mp hlt with hb' | ⟨-, hlt'⟩
    · omega
    rw [hslot]
    exact hfree e'' he' hlt'
  | none =>
    have hhere : ∀ e', e.val < e'.val → map.slot b e' = none := fun e' hlt => by
      rw [hslot]
      exact usedFrom_eq_none hused hlt
    have hrest := firstFrom_finds map (b + 1)
    cases hfirst : firstFrom map (b + 1) with
    | none =>
      rw [hfirst] at hrest
      cases hrest with
      | nothing hnone =>
        refine .nothing fun b' e' hstart => ?_
        rcases position_lt_iff.mp hstart with hb | ⟨rfl, he'⟩
        · refine hnone b' e' ?_
          change (b.val + 1) * 32 ≤ b'.val * 32 + e'.val
          omega
        · exact hhere e' he'
    | some place =>
      rw [hfirst] at hrest
      cases hrest with
      | @entry b' e' hsome hstart hbefore =>
        have hstart' : (b.val + 1) * 32 ≤ b'.val * 32 + e'.val := hstart
        refine .entry hsome ?_ fun b'' e'' hlt hlt' => ?_
        · change b.val * 32 + e.val + 1 ≤ b'.val * 32 + e'.val
          omega
        rcases position_lt_iff.mp hlt with hb | ⟨rfl, he'⟩
        · refine hbefore b'' e'' ?_ hlt'
          change (b.val + 1) * 32 ≤ b''.val * 32 + e''.val
          omega
        · exact hhere e'' he'

/-- `map_it_next`, from an entry on: the bucket that the iterator remembers is gone and has to be
read, or the next entry in the order is shown, or there is none. -/
theorem mapItNext_spec (map : HashedMap n α) (it : MapIt α) (hbucket : it.bucket = b)
    (hmapBucket : it.mapBucket = some b) (hentry : it.entry = e) :
    (e + 1 < mapBucketSize ∧ map.buckets b = none ∧ mapItNext map it = .error .badPointer) ∨
      (¬ (e + 1 < mapBucketSize ∧ map.buckets b = none) ∧
        ((∃ b' e' entry, map.slot b' e' = some entry ∧ position b e < position b' e' ∧
          (∀ b'' e'', position b e < position b'' e'' → position b'' e'' < position b' e' →
            map.slot b'' e'' = none) ∧
          mapItNext map it = .ok (some entry.value, itAt map b' e')) ∨
        ((∀ b' e', position b e < position b' e' → map.slot b' e' = none) ∧
          mapItNext map it = .ok (none, it)))) := by
  -- whatever the search finds decides what is shown
  have hshow : ∀ here, nextInBucket map it = .ok here →
      Finds map (position b e + 1) (here.or (firstFrom map (b + 1))) →
      (∃ b' e' entry, map.slot b' e' = some entry ∧ position b e < position b' e' ∧
          (∀ b'' e'', position b e < position b'' e'' → position b'' e'' < position b' e' →
            map.slot b'' e'' = none) ∧
          mapItNext map it = .ok (some entry.value, itAt map b' e')) ∨
        ((∀ b' e', position b e < position b' e' → map.slot b' e' = none) ∧
          mapItNext map it = .ok (none, it)) := by
    intro here hhere hfinds
    unfold mapItNext
    rw [hhere, ok_bind, hbucket]
    generalize here.or (firstFrom map (b + 1)) = found at hfinds ⊢
    cases hfinds with
    | nothing hnone => exact .inr ⟨hnone, rfl⟩
    | @entry b' e' hsome hstart hbefore =>
      obtain ⟨entry, hentry'⟩ := Option.isSome_iff_exists.mp hsome
      exact .inl ⟨b', e', entry, hentry', hstart, hbefore, by simp [itAt, hentry']⟩
  by_cases hlast : e.val + 1 < mapBucketSize
  · cases hmap : map.buckets b with
    | none =>
      refine .inl ⟨hlast, rfl, ?_⟩
      simp [mapItNext, nextInBucket, hentry, hlast, hmapBucket, hmap]
    | some bucket =>
      refine .inr ⟨(by rintro ⟨-, hgone⟩; cases hgone), hshow _ ?_ (finds_or_firstFrom map hmap e)⟩
      simp [nextInBucket, hentry, hlast, hmapBucket, hmap]
  have hnext : (b.val + 1) * mapBucketSize = position b e + 1 := by
    have he : e.val < 32 := e.isLt
    have hlast' : ¬ e.val + 1 < 32 := hlast
    change (b.val + 1) * 32 = b.val * 32 + e.val + 1
    omega
  refine .inr ⟨fun hgone => hlast hgone.1, hshow none ?_ ?_⟩
  · simp [nextInBucket, hentry, hlast]
  rw [Option.none_or, ← hnext]
  exact firstFrom_finds map (b + 1)

/-! ## The whole iteration -/

theorem itemsFrom_spec (h : map.WellFormed) {fuel : ℕ} {entry : MapEntry n α}
    (hentry : map.slot b e = some entry)
    (hfuel : mapBucketCount * mapBucketSize ≤ position b e + fuel) :
    ∃ entries : List (MapEntry n α), (entries.map key).Nodup ∧
      (∀ x, x ∈ entries ↔ ∃ b' e', position b e ≤ position b' e' ∧ map.slot b' e' = some x) ∧
      itemsFrom map fuel (itAt map b e) (some entry.value) =
        .ok (entries.map value) := by
  -- the fuel bounds the number of places that are left
  induction fuel generalizing b e entry with
  | zero => exact absurd (position_lt b e) (by omega)
  | succ fuel ih =>
    have hhere : ∀ b' e', position b e ≤ position b' e' →
        (b' = b ∧ e' = e) ∨ position b e < position b' e' := fun b' e' hle =>
      (Nat.eq_or_lt_of_le hle).imp_left fun heq => (position_inj.mp heq).imp Eq.symm Eq.symm
    rcases mapItNext_spec map (itAt map b e) rfl rfl rfl with ⟨-, hgone, -⟩ |
      ⟨-, ⟨b', e', next, hnext, hlt, hbetween, hstep⟩ | ⟨hnone, hstep⟩⟩
    · simp [slot, hgone] at hentry
    · obtain ⟨entries, hnodup, hmem, hrest⟩ := ih hnext (by omega)
      refine ⟨entry :: entries, List.nodup_cons.mpr ⟨fun hkey => ?_, hnodup⟩, fun x => ?_, ?_⟩
      · -- a key has only one place
        obtain ⟨x, hx, hkey⟩ := List.mem_map.mp hkey
        obtain ⟨b'', e'', hle, hslot⟩ := (hmem x).mp hx
        obtain rfl : b'' = b := by
          rw [← h.placed b'' e'' x hslot, ← h.placed b e entry hentry, hkey]
        obtain rfl := h.unique b'' e'' e x entry hslot hentry hkey
        omega
      · rw [List.mem_cons, hmem]
        constructor
        · rintro (rfl | ⟨b'', e'', hle, hslot⟩)
          · exact ⟨b, e, le_rfl, hentry⟩
          · exact ⟨b'', e'', by omega, hslot⟩
        rintro ⟨b'', e'', hle, hslot⟩
        rcases hhere b'' e'' hle with ⟨rfl, rfl⟩ | hlt'
        · exact .inl (Option.some.inj (hslot.symm.trans hentry))
        refine .inr ⟨b'', e'', Nat.le_of_not_lt fun hbefore => ?_, hslot⟩
        rw [hbetween b'' e'' hlt' hbefore] at hslot
        cases hslot
      simp only [itemsFrom, hstep, ok_bind, hrest]
      rfl
    refine ⟨[entry], List.nodup_singleton _, fun x => ?_, ?_⟩
    · rw [List.mem_singleton]
      constructor
      · rintro rfl
        exact ⟨b, e, le_rfl, hentry⟩
      rintro ⟨b', e', hle, hslot⟩
      rcases hhere b' e' hle with ⟨rfl, rfl⟩ | hlt
      · exact Option.some.inj (hslot.symm.trans hentry)
      rw [hnone b' e' hlt] at hslot
      cases hslot
    rw [itemsFrom, hstep, ok_bind]
    cases fuel <;> rfl

/-- The iteration comes to the value of every key that is in the map, and to each one once. -/
theorem HashedMap.WellFormed.itemsOf_spec (h : map.WellFormed) {fuel : ℕ}
    (hfuel : mapBucketCount * mapBucketSize ≤ fuel) :
    ∃ (keys : List (MapKey n)) (values : List α), keys.Nodup ∧
      (∀ key, key ∈ keys ↔ (mapGet map key).isSome) ∧
      itemsOf map fuel = .ok values ∧ values.map some = keys.map (mapGet map) := by
  rcases mapItReset_spec map with ⟨b, e, entry, hentry, hbefore, hit, hget⟩ | ⟨hnone, hget⟩
  · obtain ⟨entries, hnodup, hmem, hitems⟩ := itemsFrom_spec h hentry (Nat.le_add_left_of_le hfuel)
    have hmem' : ∀ x, x ∈ entries ↔ mapGet map x.key = some x.value := by
      intro x
      rw [hmem, h.mapGet_eq_some_iff]
      constructor
      · rintro ⟨b', e', -, hslot⟩
        exact ⟨b', e', hslot⟩
      rintro ⟨b', e', hslot⟩
      refine ⟨b', e', Nat.le_of_not_lt fun hlt => ?_, hslot⟩
      rw [hbefore b' e' hlt] at hslot
      cases hslot
    refine ⟨entries.map key, entries.map value, hnodup, fun key => ?_, ?_, ?_⟩
    · rw [List.mem_map, Option.isSome_iff_exists]
      constructor
      · rintro ⟨x, hx, rfl⟩
        exact ⟨x.value, (hmem' x).mp hx⟩
      rintro ⟨value, hvalue⟩
      exact ⟨⟨key, value⟩, (hmem' _).mpr hvalue, rfl⟩
    · rw [itemsOf, hget, hit, hitems]
    rw [List.map_map, List.map_map]
    exact List.map_congr_left fun x hx => ((hmem' x).mp hx).symm
  refine ⟨[], [], List.nodup_nil, fun key => ?_, ?_, rfl⟩
  · have hnot : ¬ (mapGet map key).isSome := fun hsome => by
      obtain ⟨value, hvalue⟩ := Option.isSome_iff_exists.mp hsome
      obtain ⟨b, e, hslot⟩ := h.mapGet_eq_some_iff.mp hvalue
      rw [hnone b e] at hslot
      cases hslot
    simp [hnot]
  rw [itemsOf, hget]
  cases fuel <;> rfl

end Tinker.Collections
