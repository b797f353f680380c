import Tinker.Objects.Pools

/-!
# What other operations leave of an object

The blocks of an object and of the object table are live and told apart from each other in every
state, whatever else the kernel does, as long as other operations give back their own memory only.
The pointers of the object and its place in the table stay as they were created; only the nodes of
its lists come and go.
-/

namespace Tinker

open Tinker.Lib Tinker.Collections Function HashedTable Ledger BlockUse

/-! ## The table -/

namespace HashedTable

variable {α : Type} {t : HashedTable α} {objno : ObjectNumber}

theorem objAddObject_cases (t : HashedTable α) (obj : Option α) :
    (∃ o objno, t.objGetObject objno = none ∧ (mapPut t.theMap (numberKey objno) o).1 = true ∧
        t.objAddObject obj = (.noError, some objno,
          ⟨(mapPut t.theMap (numberKey objno) o).2, objno + 1⟩)) ∨
      ∃ r, r ≠ .noError ∧ t.objAddObject obj = (r, none, t) := by
  cases obj with
  | none => exact .inr ⟨_, by decide, rfl⟩
  | some o =>
    cases hfree : t.freeId with
    | none => exact .inr ⟨.objectTableFull, by decide, by rw [objAddObject, hfree]⟩
    | some objno =>
      have hget : t.objGetObject objno = none := by
        have hcontains := List.find?_some hfree
        rw [Bool.not_eq_true', mapContainsKey_eq] at hcontains
        exact Option.not_isSome_iff_eq_none.mp (Bool.eq_false_iff.mp hcontains)
      rcases mapPut_cases t.theMap (numberKey objno) o with ⟨i, -, -, hmap⟩ | ⟨-, hmap⟩
      · refine .inl ⟨o, objno, hget, by rw [hmap], ?_⟩
        simp only [objAddObject, hfree, hmap, if_true]
      refine .inr ⟨.objectAddFailed, by decide, ?_⟩
      simp only [objAddObject, hfree, hmap, Bool.false_eq_true, if_false]

theorem objRemoveObject_cases (wf : t.theMap.WellFormed) (objno : ObjectNumber) :
    ((t.objGetObject objno).isSome ∧ t.objRemoveObject objno =
        (.noError, { t with theMap := (mapRemove t.theMap (numberKey objno)).2 })) ∨
      (t.objGetObject objno = none ∧ t.objRemoveObject objno = (.invalidObject, t)) := by
  have hremoved := (wf.mapGet_mapRemove (numberKey objno)).1
  rw [objRemoveObject, mapContainsKey_eq]
  cases hget : mapGet t.theMap (numberKey objno) with
  | none => exact .inr ⟨hget, rfl⟩
  | some value =>
    rw [hget] at hremoved
    refine .inl ⟨by rw [objGetObject, hget]; rfl, ?_⟩
    dsimp only
    rw [hremoved]
    rfl

theorem mapIndexOf_numberKey (hash : t.theMap.hashingAlgorithm = hashBasicInteger)
    (objno : ObjectNumber) : mapIndexOf t.theMap (numberKey objno) = bucketOf objno := by
  simp only [bucketOf, mapIndexOf, mapHash, hash]

theorem isSome_bucket_iff (wf : t.theMap.WellFormed)
    (hash : t.theMap.hashingAlgorithm = hashBasicInteger) (index : Fin mapBucketCount) :
    (t.theMap.buckets index).isSome ↔
      ∃ objno, bucketOf objno = index ∧ (t.objGetObject objno).isSome := by
  have hindex := mapIndexOf_numberKey hash
  rw [wf.isSome_bucket_iff]
  constructor
  · rintro ⟨key, hkey, hget⟩
    obtain ⟨objno, rfl⟩ := numberKey_surjective key
    exact ⟨objno, (hindex objno).symm.trans hkey, hget⟩
  rintro ⟨objno, hobjno, hget⟩
  exact ⟨numberKey objno, (hindex objno).trans hobjno, hget⟩

end HashedTable

def BlockUse.ofTable : BlockUse → Bool
  | .entry _ | .bucket _ => true
  | _ => false

namespace PoolSys

variable {s s' s'' : PoolSys} {use : BlockUse} {objno : ObjectNumber} {type : ObjType}

/-- The blocks that are held are live, and a bucket that is not there has no block. -/
structure Good (s : PoolSys) : Prop where
  held : s.toLedger.Held pool
  wellFormed : s.table.theMap.WellFormed
  hash : s.table.theMap.hashingAlgorithm = hashBasicInteger
  bucket : ∀ index, s.table.theMap.buckets index = none → s.blocks (.bucket index) = []

theorem Good.isSome_bucket (good : s.Good) (hget : (s.table.objGetObject objno).isSome) :
    (s.table.theMap.buckets (bucketOf objno)).isSome :=
  (isSome_bucket_iff good.wellFormed good.hash _).mpr ⟨objno, rfl, hget⟩

/-! ## Allocating for the object -/

/-- The second state comes from the first one by allocating, but not for the table. -/
structure Builds (s s' : PoolSys) : Prop where
  grows : Grows pool s.toLedger s'.toLedger
  entry : ∀ objno, s'.blocks (.entry objno) = s.blocks (.entry objno)
  bucket : ∀ index, s'.blocks (.bucket index) = s.blocks (.bucket index)
  table : s'.table = s.table
  obj : s'.obj = s.obj

open Builds

theorem Builds.refl (s : PoolSys) : Builds s s :=
  ⟨Grows.refl _ _, fun _ => rfl, fun _ => rfl, rfl, rfl⟩

theorem Builds.trans (first : Builds s s') (second : Builds s' s'') : Builds s s'' where
  grows := first.grows.trans second.grows
  entry objno := (second.entry objno).trans (first.entry objno)
  bucket index := (second.bucket index).trans (first.bucket index)
  table := second.table.trans first.table
  obj := second.obj.trans first.obj

theorem Good.of_table (good : s.Good) (held : s'.toLedger.Held pool) (htable : s'.table = s.table)
    (hbucket : ∀ index, s'.blocks (.bucket index) = s.blocks (.bucket index)) : s'.Good where
  held := held
  wellFormed := htable ▸ good.wellFormed
  hash := htable ▸ good.hash
  bucket index hnone := (hbucket index).trans (good.bucket index (htable ▸ hnone))

theorem Builds.good (builds : Builds s s') (good : s.Good) : s'.Good :=
  good.of_table (builds.grows.held good.held) builds.table builds.bucket

theorem builds_memAlloc (s : PoolSys) (pool : PoolId) : Builds s (s.memAlloc pool).2 := by
  have hblocks := s.toLedger.blocks_alloc pool
  exact ⟨s.toLedger.grows_alloc _ pool, fun _ => congrFun hblocks _, fun _ => congrFun hblocks _,
    rfl, rfl⟩

theorem builds_allocFor (s : PoolSys) (huse : use.ofTable = false) :
    Builds s (s.allocFor use).2 := by
  have hother (v : BlockUse) (hv : v.ofTable = true) :
      (s.toLedger.allocFor use.pool use).2.blocks v = s.blocks v := by
    refine s.toLedger.blocks_allocFor_of_ne use.pool fun heq => ?_
    rw [heq, huse] at hv
    cases hv
  exact ⟨s.toLedger.grows_allocFor _ use, fun _ => hother _ rfl, fun _ => hother _ rfl, rfl, rfl⟩

theorem builds_of_allocFor {b : Option ℕ} (h : s.allocFor use = (b, s'))
    (huse : use.ofTable = false) : Builds s s' := by
  have builds := s.builds_allocFor huse
  rwa [h] at builds

theorem builds_listAdd (s : PoolSys) (second : Bool) (item : Option ℕ × ℕ) :
    Builds s (s.listAdd second item) := by
  unfold listAdd
  split
  · split
    next h =>
      have builds := builds_of_allocFor h rfl
      exact ⟨builds.grows, builds.entry, builds.bucket, builds.table, builds.obj⟩
    next h => exact builds_of_allocFor h rfl
  · exact refl s

theorem builds_queueCreate (s : PoolSys) (second : Bool) : Builds s (s.queueCreate second) := by
  unfold queueCreate
  split
  next h => exact (builds_of_allocFor h rfl).trans (builds_allocFor _ rfl)
  next h => exact builds_of_allocFor h rfl

theorem builds_mapPages (s : PoolSys) (pages : ℕ) : Builds s (s.mapPages pages) := by
  induction pages generalizing s with
  | zero => exact refl s
  | succ pages ih => exact (s.builds_memAlloc _).trans (ih _)

theorem builds_otherListAdd (s : PoolSys) (found : FoundPipe) (list : Option (List ℕ)) :
    Builds s (s.otherListAdd found list) := by
  unfold otherListAdd
  split
  · exact s.builds_memAlloc _
  · exact refl s

theorem builds_linkPipes (s : PoolSys) (found : FoundPipe) (direction : PipeDirection) :
    Builds s (s.linkPipes found direction) := by
  cases direction with
  | unknown => exact refl s
  | send => exact (builds_otherListAdd _ _ _).trans (builds_listAdd _ _ _)
  | receive => exact (builds_otherListAdd _ _ _).trans (builds_listAdd _ _ _)
  | sendReceive =>
    exact (((builds_otherListAdd _ _ _).trans (builds_otherListAdd _ _ _)).trans
      (builds_listAdd _ _ _)).trans (builds_listAdd _ _ _)

/-- What a pipe of any direction has that its deletion gets wrong: memory, or a list of
readers. -/
def HasParts (s : PoolSys) : Prop :=
  s.blocks .memory ≠ [] ∨ s.blocks (.list false) ≠ []

theorem Builds.hasParts (builds : Builds s s') (parts : s.HasParts) : s'.HasParts :=
  parts.imp builds.grows.blocks_ne_nil builds.grows.blocks_ne_nil

theorem blocks_ne_nil_of_allocFor {b : ℕ} (h : s.allocFor use = (some b, s')) :
    s'.blocks use ≠ [] := by
  rcases s.toLedger.allocFor_cases use.pool use with ⟨c, answers, -, hstep⟩ | ⟨answers, hstep⟩
  · rw [allocFor, hstep] at h
    obtain ⟨-, rfl⟩ := Prod.mk.inj h
    change update s.blocks use (s.blocks use ++ [c]) use ≠ []
    simp
  rw [allocFor, hstep] at h
  cases (Prod.mk.inj h).1

theorem createSend_cases (s : PoolSys) : Builds s s.createSend.2 ∧
    (s.createSend.1 = .noError → s.createSend.2.HasParts) := by
  unfold createSend
  split
  next h => exact ⟨builds_of_allocFor h rfl, fun _ => .inr (blocks_ne_nil_of_allocFor h)⟩
  next h => exact ⟨builds_of_allocFor h rfl, fun hok => by cases hok⟩

theorem createReceive_cases (s : PoolSys) (messageSize messages : ℕ) (result : ReturnT) :
    Builds s (s.createReceive messageSize messages result).2 ∧
      ((s.createReceive messageSize messages result).1 = .noError →
        (s.createReceive messageSize messages result).2.HasParts) := by
  unfold createReceive
  dsimp only
  generalize (if messageSize % 4 ≠ 0 then _ else result) = result
  split
  · split
    next b s₁ h =>
      have builds := builds_of_allocFor h rfl
      have parts : s₁.HasParts := .inl (blocks_ne_nil_of_allocFor h)
      split
      · split
        next h' =>
          have builds' := builds_of_allocFor h' rfl
          exact ⟨builds.trans builds', fun _ => builds'.hasParts parts⟩
        next h' => exact ⟨builds.trans (builds_of_allocFor h' rfl), fun hok => by cases hok⟩
      · exact ⟨builds, fun _ => parts⟩
    next h => exact ⟨builds_of_allocFor h rfl, fun hok => by cases hok⟩
  next hresult => exact ⟨refl s, fun hok => absurd hok hresult⟩

theorem createParts_cases (s : PoolSys) (direction : PipeDirection) (messageSize messages : ℕ) :
    Builds s (s.createParts direction messageSize messages).2 ∧
      ((s.createParts direction messageSize messages).1 = .noError →
        (s.createParts direction messageSize messages).2.HasParts) := by
  cases direction with
  | unknown => exact ⟨refl s, fun hok => by cases hok⟩
  | send => exact s.createSend_cases
  | receive => exact s.createReceive_cases messageSize messages .noError
  | sendReceive =>
    obtain ⟨builds, hparts⟩ :=
      s.createSend.2.createReceive_cases messageSize messages s.createSend.1
    exact ⟨s.createSend_cases.1.trans builds, hparts⟩

theorem openReceive_cases (s : PoolSys) (result : ReturnT) :
    Builds s (s.openReceive result).2 ∧
      ((s.openReceive result).1 = .noError → (s.openReceive result).2.HasParts) := by
  unfold openReceive
  rcases hmemory : s.allocFor .memory with ⟨memory, s₁⟩
  have builds := builds_of_allocFor hmemory rfl
  dsimp only
  split
  next h =>
    have builds' := builds_of_allocFor h rfl
    refine ⟨builds.trans builds', fun hok => builds'.hasParts (.inl ?_)⟩
    cases memory with
    | none => cases hok
    | some b => exact blocks_ne_nil_of_allocFor hmemory
  next h => exact ⟨builds.trans (builds_of_allocFor h rfl), fun hok => by cases hok⟩

theorem openParts_cases (s : PoolSys) (direction : PipeDirection) :
    Builds s (s.openParts direction).2 ∧
      ((s.openParts direction).1 = .noError → (s.openParts direction).2.HasParts) := by
  cases direction with
  | unknown => exact ⟨refl s, fun hok => by cases hok⟩
  | send => exact s.createSend_cases
  | receive => exact s.openReceive_cases .noError
  | sendReceive =>
    obtain ⟨builds, hparts⟩ := s.createSend.2.openReceive_cases s.createSend.1
    exact ⟨s.createSend_cases.1.trans builds, hparts⟩

/-! ## Adding to the table and taking out -/

def tableUses (objno : ObjectNumber) : List BlockUse := [.entry objno, .bucket (bucketOf objno)]

theorem ofTable_of_mem_tableUses (hmem : use ∈ tableUses objno) : use.ofTable = true := by
  rcases List.mem_pair.mp hmem with rfl | rfl <;> rfl

/-- An object has been added to the table under a number. -/
structure Added (s : PoolSys) (objno : ObjectNumber) (s' : PoolSys) : Prop where
  absent : s.table.objGetObject objno = none
  put : ∃ o, (mapPut s.table.theMap (numberKey objno) o).1 = true ∧
    s'.table.theMap = (mapPut s.table.theMap (numberKey objno) o).2
  grows : Grows pool s.toLedger s'.toLedger
  covers : Covers (tableUses objno) s.toLedger s'.toLedger
  rest : ∀ use, use ≠ .entry objno → use ≠ .bucket (bucketOf objno) →
    s'.blocks use = s.blocks use
  old : (s.table.theMap.buckets (bucketOf objno)).isSome →
    s'.blocks (.bucket (bucketOf objno)) = s.blocks (.bucket (bucketOf objno))
  new : s.table.theMap.buckets (bucketOf objno) = none → s'.blocks (.bucket (bucketOf objno)) ≠ []
  obj : s'.obj = s.obj

theorem bucketFor_cases (s : PoolSys) (index : Fin mapBucketCount) :
    ((s.table.theMap.buckets index).isSome ∧ s.bucketFor index = (true, s)) ∨
      (s.table.theMap.buckets index = none ∧ ∃ b, s.bucketFor index =
        (b, (s.allocFor (.bucket index)).2) ∧ b = (s.allocFor (.bucket index)).1.isSome) := by
  unfold bucketFor
  split
  next hnone => exact .inr ⟨Option.isNone_iff_eq_none.mp hnone, _, rfl, rfl⟩
  next hsome => exact .inl ⟨Option.isSome_iff_ne_none.mpr (by simpa using hsome), rfl⟩

theorem added_of_bucket {u u' : PoolSys} {table : HashedTable ℕ} {entry : Option ℕ}
    (hstep : u.allocFor (.entry objno) = (entry, u'))
    (absent : s.table.objGetObject objno = none)
    (put : ∃ o, (mapPut s.table.theMap (numberKey objno) o).1 = true ∧
      table.theMap = (mapPut s.table.theMap (numberKey objno) o).2)
    (grows : Grows pool s.toLedger u.toLedger)
    (covers : Covers (tableUses objno) s.toLedger u.toLedger)
    (rest : ∀ use, use ≠ .bucket (bucketOf objno) → u.blocks use = s.blocks use)
    (old : (s.table.theMap.buckets (bucketOf objno)).isSome →
      u.blocks (.bucket (bucketOf objno)) = s.blocks (.bucket (bucketOf objno)))
    (new : s.table.theMap.buckets (bucketOf objno) = none →
      u.blocks (.bucket (bucketOf objno)) ≠ [])
    (obj : u.obj = s.obj) :
    Added s objno { u' with table := table } := by
  obtain rfl : (u.allocFor (.entry objno)).2 = u' := congrArg Prod.snd hstep
  have hother {use : BlockUse} (huse : use ≠ .entry objno) :
      (u.toLedger.allocFor .privatePool (.entry objno)).2.blocks use = u.blocks use :=
    u.toLedger.blocks_allocFor_of_ne _ huse
  have hgrows := u.toLedger.grows_allocFor pool (.entry objno)
  have hcovers : Covers (tableUses objno) u.toLedger
      (u.toLedger.allocFor .privatePool (.entry objno)).2 :=
    covers_allocFor List.mem_cons_self u.toLedger _
  exact {
    absent := absent
    put := put
    grows := grows.trans hgrows
    covers := covers.trans hcovers hgrows
    rest := fun use huse hbucket => (hother huse).trans (rest use hbucket)
    old := fun hsome => (hother (by simp)).trans (old hsome)
    new := fun hnone => hgrows.blocks_ne_nil (new hnone)
    obj := obj }

theorem eq_of_allocFor_none (h : (s.allocFor use).1 = none) :
    ∃ answers, (s.allocFor use).2 = { s with answers := answers } := by
  rcases s.toLedger.allocFor_cases use.pool use with ⟨b, answers, -, hstep⟩ | ⟨answers, hstep⟩
  · rw [allocFor, hstep] at h
    cases h
  refine ⟨answers, ?_⟩
  rw [allocFor, hstep]
  rfl

theorem objAddObject_cases {obj : Option ℕ} {r : ReturnT} {id : Option ObjectNumber}
    (good : s.Good) (h : s.objAddObject obj = .ok (r, id, s')) :
    (∃ objno, id = some objno ∧ r = .noError ∧ Added s objno s') ∨
      (id = none ∧ r ≠ .noError ∧ ∃ answers, s' = { s with answers := answers }) := by
  rcases s.table.objAddObject_cases obj with ⟨o, objno, hget, hput, hadd⟩ | ⟨r', hr', hadd⟩
  · simp only [objAddObject, hadd, mapIndexOf_numberKey good.hash] at h
    have put : ∃ o', (mapPut s.table.theMap (numberKey objno) o').1 = true ∧
        (mapPut s.table.theMap (numberKey objno) o).2 =
          (mapPut s.table.theMap (numberKey objno) o').2 := ⟨o, hput, rfl⟩
    rcases s.bucketFor_cases (bucketOf objno) with ⟨hsome, hbucket⟩ | ⟨hnone, b, hbucket, hb⟩
    · rw [hbucket] at h
      dsimp only at h
      split at h
      next hstep =>
        cases h
        refine .inl ⟨objno, rfl, rfl, ?_⟩
        exact added_of_bucket hstep hget put (Grows.refl _ s.toLedger)
          (covers_refl _ _) (fun _ _ => rfl) (fun _ => rfl)
          (fun hnone => by rw [hnone] at hsome; cases hsome) rfl
      · cases h
    rw [hbucket] at h
    cases b with
    | true =>
      obtain ⟨block, hblock⟩ := Option.isSome_iff_exists.mp hb.symm
      dsimp only at h
      split at h
      next hstep =>
        cases h
        refine .inl ⟨objno, rfl, rfl, ?_⟩
        exact added_of_bucket hstep hget put (s.toLedger.grows_allocFor pool _)
          (covers_allocFor (by simp [tableUses]) s.toLedger _)
          (fun use huse => s.toLedger.blocks_allocFor_of_ne _ huse)
          (fun hsome => by rw [hnone] at hsome; cases hsome)
          (fun _ => blocks_ne_nil_of_allocFor (Prod.ext hblock rfl)) rfl
      · cases h
    | false =>
      cases h
      refine .inr ⟨rfl, by decide, eq_of_allocFor_none ?_⟩
      exact Option.not_isSome_iff_eq_none.mp (Bool.eq_false_iff.mp hb.symm)
  simp only [objAddObject, hadd] at h
  cases h
  exact .inr ⟨rfl, hr', s.answers, rfl⟩

theorem Added.objGetObject (added : Added s objno s') (wf : s.table.theMap.WellFormed) :
    ∃ o, s'.table.objGetObject =
      update s.table.objGetObject objno (some o) := by
  obtain ⟨o, hok, hmap⟩ := added.put
  have hget := wf.mapGet_mapPut (numberKey objno) o
  rw [hok, if_pos rfl] at hget
  refine ⟨o, funext fun id => ?_⟩
  rw [HashedTable.objGetObject, hmap]
  exact lookup_update hget (fun _ => rfl) id

theorem Added.present (added : Added s objno s') (wf : s.table.theMap.WellFormed) :
    (s'.table.objGetObject objno).isSome := by
  obtain ⟨o, hget⟩ := added.objGetObject wf
  rw [hget, update_self]
  rfl

theorem Added.bucket_none {index : Fin mapBucketCount} (good : s.Good)
    (added : Added s objno s') (wf : s'.table.theMap.WellFormed)
    (hash : s'.table.theMap.hashingAlgorithm = hashBasicInteger)
    (hnone : s'.table.theMap.buckets index = none) :
    index ≠ bucketOf objno ∧ s.table.theMap.buckets index = none := by
  obtain ⟨o, hget⟩ := added.objGetObject good.wellFormed
  have hempty : ∀ id, bucketOf id = index → (s'.table.objGetObject id).isNone := by
    intro id hid
    by_contra hsome
    have hbucket := (isSome_bucket_iff wf hash index).mpr
      ⟨id, hid, Option.isSome_iff_ne_none.mpr (by simpa using hsome)⟩
    rw [hnone] at hbucket
    cases hbucket
  constructor
  · rintro rfl
    have := hempty objno rfl
    rw [hget, update_self] at this
    cases this
  rw [← Option.not_isSome_iff_eq_none, isSome_bucket_iff good.wellFormed good.hash]
  rintro ⟨id, hid, hsome⟩
  have hgone := hempty id hid
  by_cases hne : id = objno
  · rw [hne, added.absent] at hsome
    cases hsome
  rw [hget, update_of_ne hne, Option.isNone_iff_eq_none] at hgone
  rw [hgone] at hsome
  cases hsome

theorem Added.good (good : s.Good) (added : Added s objno s') : s'.Good := by
  obtain ⟨o, -, hmap⟩ := added.put
  have wf : s'.table.theMap.WellFormed := by
    rw [hmap]
    exact wellFormed_mapPut good.wellFormed _ _
  have hash : s'.table.theMap.hashingAlgorithm = hashBasicInteger := by
    rw [hmap, hashingAlgorithm_mapPut, good.hash]
  refine ⟨added.grows.held good.held, wf, hash, fun index hnone => ?_⟩
  obtain ⟨hne, hnone⟩ := added.bucket_none good wf hash hnone
  rw [added.rest _ (by simp) (by simpa using hne), good.bucket index hnone]

/-- Another object that is in the table has its number in the same bucket. -/
def Shares (s : PoolSys) (objno : ObjectNumber) : Prop :=
  ∃ id, id ≠ objno ∧ (s.table.objGetObject id).isSome ∧ bucketOf id = bucketOf objno

def removed (s : PoolSys) (objno : ObjectNumber) : HashedMap 2 ℕ :=
  (mapRemove s.table.theMap (numberKey objno)).2

/-- The uses whose blocks go when an object is taken out of the table. -/
def removedUses (s : PoolSys) (objno : ObjectNumber) : List BlockUse :=
  .entry objno :: if ((s.removed objno).buckets (bucketOf objno)).isNone
    then [.bucket (bucketOf objno)] else []

theorem removedUses_subset (s : PoolSys) (objno : ObjectNumber) :
    s.removedUses objno ⊆ tableUses objno := by
  unfold removedUses tableUses
  split <;> simp

section Removing

variable (wf : s.table.theMap.WellFormed)
  (hash : s.table.theMap.hashingAlgorithm = hashBasicInteger)

include wf hash

theorem objRemoveObject_eq (hget : (s.table.objGetObject objno).isSome) :
    s.objRemoveObject objno = (.noError, { s with
      toLedger := s.toLedger.releaseAll .privatePool (s.removedUses objno)
      table := { s.table with theMap := s.removed objno } }) := by
  rcases objRemoveObject_cases wf objno with ⟨-, hremove⟩ | ⟨hnone, -⟩
  · rw [objRemoveObject, hremove, mapIndexOf_numberKey hash, removedUses]
    change (_, if ((s.removed objno).buckets (bucketOf objno)).isNone then _ else _) = _
    split <;> rfl
  rw [hnone] at hget
  cases hget

omit hash in
theorem objGetObject_removed (id : ObjectNumber) :
    mapGet (s.removed objno) (numberKey id) =
      update s.table.objGetObject objno none id :=
  lookup_update (wf.mapGet_mapRemove (numberKey objno)).2 (fun _ => rfl) id

theorem isSome_bucket_removed_iff (index : Fin mapBucketCount) :
    ((s.removed objno).buckets index).isSome ↔
      ∃ id, id ≠ objno ∧ (s.table.objGetObject id).isSome ∧ bucketOf id = index := by
  have wf' : (s.removed objno).WellFormed := wellFormed_mapRemove wf _
  have hash' : (s.removed objno).hashingAlgorithm = hashBasicInteger := by
    rw [removed, hashingAlgorithm_mapRemove wf, hash]
  have hbucket := isSome_bucket_iff (t := ⟨s.removed objno, 0⟩) wf' hash' index
  refine hbucket.trans (exists_congr fun id => ?_)
  rw [HashedTable.objGetObject, objGetObject_removed wf]
  by_cases hid : id = objno
  · rw [hid, update_self]
    simp
  rw [update_of_ne hid]
  simp [hid, and_comm]

theorem mem_removedUses_iff :
    .bucket (bucketOf objno) ∈ s.removedUses objno ↔ ¬ s.Shares objno := by
  rw [removedUses, Shares, ← isSome_bucket_removed_iff wf hash]
  cases (s.removed objno).buckets (bucketOf objno) <;> simp

end Removing

theorem Good.objRemoveObject (good : s.Good) (objno : ObjectNumber) :
    (s.objRemoveObject objno).2.Good := by
  rcases objRemoveObject_cases good.wellFormed objno with ⟨hget, -⟩ | ⟨-, hremove⟩
  · rw [objRemoveObject_eq good.wellFormed good.hash hget]
    refine ⟨good.held.releaseAll _ _, wellFormed_mapRemove good.wellFormed _, ?_, ?_⟩
    · exact (hashingAlgorithm_mapRemove good.wellFormed _).trans good.hash
    intro index hnone
    rw [blocks_releaseAll]
    split
    · rfl
    next hnot =>
      refine good.bucket index ?_
      -- a bucket that has gone is the one of the object, or there was none
      rw [← Option.not_isSome_iff_eq_none, isSome_bucket_iff good.wellFormed good.hash]
      rintro ⟨id, hid, hsome⟩
      by_cases hne : id = objno
      · subst hne hid
        apply hnot
        rw [removedUses, hnone]
        simp
      have hbucket := (isSome_bucket_removed_iff good.wellFormed good.hash index).mpr
        ⟨id, hne, hsome, hid⟩
      rw [hnone] at hbucket
      cases hbucket
  rw [PoolSys.objRemoveObject, hremove]
  exact good

/-! ## Other operations -/

/-- What other operations leave as it is. -/
structure Undisturbed (s s' : PoolSys) : Prop where
  good : s'.Good
  obj : s'.obj = s.obj
  blocks : ∀ use, use.ofTable = false → (∀ second, use ≠ .node second) →
    s'.blocks use = s.blocks use
  kept : ∀ objno type, s.obj = some (objno, type) → (s.table.objGetObject objno).isSome →
    (s'.table.objGetObject objno).isSome ∧
      s'.blocks (.entry objno) = s.blocks (.entry objno) ∧
      s'.blocks (.bucket (bucketOf objno)) = s.blocks (.bucket (bucketOf objno))

theorem undisturbed_of_blocks (good : s'.Good) (hobj : s'.obj = s.obj) (htable : s'.table = s.table)
    (hblocks : s'.blocks = s.blocks) : Undisturbed s s' := by
  refine ⟨good, hobj, fun _ _ _ => by rw [hblocks],
    fun objno _ _ hget => ⟨?_, by rw [hblocks], by rw [hblocks]⟩⟩
  rwa [htable]

section

variable (good : s.Good)
include good

theorem undisturbed_memAlloc (pool : PoolId) : Undisturbed s (s.memAlloc pool).2 :=
  undisturbed_of_blocks ((s.builds_memAlloc pool).good good) rfl rfl (s.toLedger.blocks_alloc pool)

theorem undisturbed_memFree {pool : PoolId} {b : ℕ} (hnot : ∀ use, b ∉ s.blocks use) :
    Undisturbed s (s.memFree pool b) :=
  undisturbed_of_blocks ⟨good.held.free hnot pool, good.wellFormed, good.hash, good.bucket⟩
    rfl rfl rfl

theorem undisturbed_added (added : Added s objno s') : Undisturbed s s' := by
  have hrest (use : BlockUse) (huse : use.ofTable = false) : s'.blocks use = s.blocks use := by
    refine added.rest use ?_ ?_ <;> rintro rfl <;> cases huse
  refine ⟨added.good good, added.obj, fun use huse _ => hrest use huse,
    fun objno' type hobj hget => ?_⟩
  have hne : objno' ≠ objno := by
    rintro rfl
    rw [added.absent] at hget
    cases hget
  obtain ⟨o, hget'⟩ := added.objGetObject good.wellFormed
  refine ⟨by rwa [hget', update_of_ne hne], added.rest _ (by simpa using hne) (by simp), ?_⟩
  -- the bucket of the object is there already
  by_cases hbucket : bucketOf objno' = bucketOf objno
  · rw [hbucket]
    exact added.old (hbucket ▸ good.isSome_bucket hget)
  · exact added.rest _ (by simp) (by simpa using hbucket)

theorem undisturbed_objRemoveObject
    (hother : ∀ objno' type, s.obj = some (objno', type) → objno ≠ objno') :
    Undisturbed s (s.objRemoveObject objno).2 := by
  have good' := good.objRemoveObject objno
  rcases objRemoveObject_cases good.wellFormed objno with ⟨hget, -⟩ | ⟨-, hremove⟩
  · rw [objRemoveObject_eq good.wellFormed good.hash hget] at good' ⊢
    have hblocks (use : BlockUse) (huse : use ∉ s.removedUses objno) :
        (s.toLedger.releaseAll .privatePool (s.removedUses objno)).blocks use = s.blocks use := by
      rw [blocks_releaseAll, if_neg huse]
    have hofTable (use : BlockUse) (huse : use.ofTable = false) : use ∉ s.removedUses objno := by
      intro hmem
      rw [ofTable_of_mem_tableUses (s.removedUses_subset objno hmem)] at huse
      cases huse
    refine ⟨good', rfl, fun use huse _ => hblocks use (hofTable use huse),
      fun objno' type hobj hget' => ?_⟩
    have hne := hother objno' type hobj
    have hpresent : (mapGet (s.removed objno) (numberKey objno')).isSome := by
      rw [objGetObject_removed good.wellFormed, update_of_ne hne.symm]
      exact hget'
    refine ⟨hpresent, hblocks _ ?_, hblocks _ ?_⟩
    · rw [removedUses]
      split <;> simp [hne.symm]
    -- the object keeps its bucket
    rw [removedUses]
    by_cases hbucket : bucketOf objno' = bucketOf objno
    · have hsome : ((s.removed objno).buckets (bucketOf objno)).isSome :=
        (isSome_bucket_removed_iff good.wellFormed good.hash _).mpr
          ⟨objno', hne.symm, hget', hbucket⟩
      rw [if_neg (by simpa using Option.isSome_iff_ne_none.mp hsome)]
      simp
    · split <;> simp [hbucket]
  rw [objRemoveObject, hremove]
  exact undisturbed_of_blocks good rfl rfl rfl

theorem undisturbed_listAdd (second : Bool) (item : Option ℕ × ℕ) :
    Undisturbed s (s.listAdd second item) := by
  have builds := s.builds_listAdd second item
  have hblocks (use : BlockUse) (huse : use ≠ .node second) :
      (s.listAdd second item).blocks use = s.blocks use := by
    unfold listAdd
    split
    · have hstep := s.toLedger.blocks_allocFor_of_ne .privatePool huse
      split
      next h =>
        obtain rfl := congrArg Prod.snd h
        exact hstep
      next h =>
        obtain rfl := congrArg Prod.snd h
        exact hstep
    · rfl
  refine ⟨builds.good good, builds.obj, fun use _ huse => hblocks use (huse second),
    fun objno _ _ hget => ⟨?_, builds.entry objno, builds.bucket _⟩⟩
  rwa [builds.table]

theorem undisturbed_listRemove (second : Bool) (index : ℕ) :
    Undisturbed s (s.listRemove second index) := by
  unfold listRemove
  split
  next b hb =>
    have hmem : b ∈ s.blocks (.node second) := List.mem_of_getElem? hb
    have hblocks (use : BlockUse) (huse : use ≠ .node second) :
        (s.releaseOne .privatePool (.node second) b).blocks use = s.blocks use :=
      update_of_ne huse _ _
    refine ⟨⟨good.held.releaseOne _ hmem, good.wellFormed, good.hash, fun index hnone => ?_⟩, rfl,
      fun use _ huse => hblocks use (huse second),
      fun objno _ _ hget => ⟨hget, hblocks _ (by simp), hblocks _ (by simp)⟩⟩
    exact (hblocks _ (by simp)).trans (good.bucket index hnone)
  · exact undisturbed_of_blocks good rfl rfl rfl

theorem undisturbed_step {a : PoolStep} (others : s.OthersOnly a) (h : s.step a = .ok s') :
    Undisturbed s s' := by
  cases a with
  | alloc pool =>
    cases h
    exact undisturbed_memAlloc good pool
  | free pool b =>
    cases h
    exact undisturbed_memFree good others
  | addObject obj =>
    obtain ⟨⟨r, id, s₁⟩, hadd, h⟩ := Exec.of_bind h
    cases h
    rcases objAddObject_cases good hadd with ⟨objno, -, -, added⟩ | ⟨-, -, answers, rfl⟩
    · exact undisturbed_added good added
    exact undisturbed_of_blocks ⟨⟨good.held.nodup, good.held.disjoint, good.held.live⟩,
      good.wellFormed, good.hash, good.bucket⟩ rfl rfl rfl
  | removeObject objno =>
    cases h
    exact undisturbed_objRemoveObject good others
  | listAdd second item =>
    cases h
    exact undisturbed_listAdd good second item
  | listRemove second index =>
    cases h
    exact undisturbed_listRemove good second index

end

theorem Undisturbed.trans (first : Undisturbed s s') (second : Undisturbed s' s'') :
    Undisturbed s s'' where
  good := second.good
  obj := second.obj.trans first.obj
  blocks use huse hnode := (second.blocks use huse hnode).trans (first.blocks use huse hnode)
  kept objno type hobj hget := by
    obtain ⟨hget', hentry, hbucket⟩ := first.kept objno type hobj hget
    obtain ⟨hget'', hentry', hbucket'⟩ := second.kept objno type (first.obj.trans hobj) hget'
    exact ⟨hget'', hentry'.trans hentry, hbucket'.trans hbucket⟩

/-- The object is left alone for as long as only others run. -/
theorem undisturbed_run {ops : List PoolStep} (good : s.Good)
    (run : Run PoolSys.step PoolSys.OthersOnly s ops s') : Undisturbed s s' := by
  induction run with
  | nil s => exact undisturbed_of_blocks good rfl rfl rfl
  | cons others hstep _ ih =>
    have first := undisturbed_step good others hstep
    exact first.trans (ih first.good)

theorem good_start {table : HashedTable ℕ} (h : HashedTable.objInitialseTable = .ok table)
    (live : ℕ → Option PoolId) (answers : List (Option ℕ)) : (start live answers table).Good := by
  have hstart := TableHistory.Good.start h
  exact ⟨⟨fun _ => List.nodup_nil, fun hmem => absurd hmem List.not_mem_nil,
    fun hmem => absurd hmem List.not_mem_nil⟩, hstart.wellFormed, hstart.hash, fun _ _ => rfl⟩

end PoolSys

end Tinker
