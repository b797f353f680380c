import Tinker.Objects.PoolBalance

/-!
# Where the memory of an object goes

What a creation allocates is followed until the object has been deleted. Everything a semaphore is
made of is given back to the private pool, where it came from; only a bucket of the object table
that other objects have come to use stays behind. What deletes a pipe or shared memory does not
give anything back to the user pool, and the lists of a pipe are never given back.
-/

namespace Tinker

open Tinker.Lib Tinker.Collections Exec Ledger

def PoolCall.type : PoolCall → ObjType
  | .createPipe .. | .openPipe .. => .pipe
  | .createShm .. => .sharedMemory
  | .createSemaphore => .semaphore

namespace PoolSys

variable {s s' : PoolSys} {objno : ObjectNumber} {type : ObjType} {finds : Bool}

/-! ## What a creation leaves behind -/

structure Created (s : PoolSys) (objno : ObjectNumber) (type : ObjType) (s' : PoolSys) : Prop where
  good : s'.Good
  grows : Grows BlockUse.pool s.toLedger s'.toLedger
  obj : s'.obj = some (objno, type)
  absent : s.table.objGetObject objno = none
  present : (s'.table.objGetObject objno).isSome
  others : ∀ id, id ≠ objno → s'.table.objGetObject id = s.table.objGetObject id
  old : (s.table.theMap.buckets (bucketOf objno)).isSome →
    s'.blocks (.bucket (bucketOf objno)) = s.blocks (.bucket (bucketOf objno))
  new : s.table.theMap.buckets (bucketOf objno) = none → s'.blocks (.bucket (bucketOf objno)) ≠ []

def semaphoreUses : List BlockUse :=
  [.object, .queue false, .list false, .queue true, .list true]

/-- What an object that has been created is made of. -/
def Parts (s : PoolSys) (objno : ObjectNumber) : ObjType → PoolSys → Prop
  | .pipe, s' => s'.HasParts
  | .sharedMemory, s' => s'.blocks .memory ≠ []
  | .semaphore, s' =>
    Covers (semaphoreUses ++ tableUses objno) s.toLedger s'.toLedger
  | .other, _ => False

theorem created_of_added {a b b' c : PoolSys} (good : s.Good) (before : Builds s a)
    (added : Added a objno b) (hledger : b'.toLedger = b.toLedger) (htable : b'.table = b.table)
    (after : Builds b' c) (hledger' : s'.toLedger = c.toLedger) (htable' : s'.table = c.table)
    (hobj : s'.obj = some (objno, type)) : Created s objno type s' := by
  have good_b := added.good (before.good good)
  have good_b' : b'.Good :=
    good_b.of_table (hledger ▸ good_b.held) htable fun _ => by rw [hledger]
  have good_c := after.good good_b'
  have hbucket : s'.blocks (.bucket (bucketOf objno)) = b.blocks (.bucket (bucketOf objno)) := by
    rw [hledger', after.bucket, hledger]
  exact {
    good := good_c.of_table (hledger' ▸ good_c.held) htable' fun _ => by rw [hledger']
    grows := by
      rw [hledger']
      exact (before.grows.trans added.grows).trans (hledger ▸ after.grows)
    obj := hobj
    absent := by
      rw [← before.table]
      exact added.absent
    present := by
      rw [htable', after.table, htable]
      exact added.present (before.good good).wellFormed
    others := fun id hid => by
      obtain ⟨o, hget⟩ := added.objGetObject (before.good good).wellFormed
      rw [htable', after.table, htable, hget, Function.update_of_ne hid, before.table]
    old := fun hsome => by
      rw [hbucket, added.old (before.table ▸ hsome), before.bucket]
    new := fun hnone => by
      rw [hbucket]
      exact added.new (before.table ▸ hnone) }

theorem addPipe_ok (good : s.Good) (h : s.addPipe = .ok (.noError, s')) :
    ∃ objno a b, Builds s a ∧ Added a objno b ∧ s' = { b with obj := some (objno, .pipe) } := by
  have before := s.builds_allocFor (show BlockUse.object.ofTable = false from rfl)
  obtain ⟨⟨r, id, b⟩, hadd, h⟩ := of_bind h
  rcases objAddObject_cases (before.good good) hadd with ⟨objno, rfl, rfl, added⟩ | ⟨rfl, hr, -⟩
  · cases h
    exact ⟨objno, _, b, before, added, rfl⟩
  cases h
  exact absurd rfl hr

theorem created_pipe {a p c : PoolSys} (good : s.Good) (before : Builds s a) (parts : a.HasParts)
    (h : a.addPipe = .ok (.noError, p)) (after : Builds p c) :
    ∃ objno, Created s objno .pipe c ∧ c.HasParts := by
  obtain ⟨objno, u, b, hobject, added, rfl⟩ := addPipe_ok (before.good good) h
  have created : Created s objno .pipe c := by
    refine created_of_added good (before.trans hobject) added ?_ ?_ after rfl rfl after.obj <;> rfl
  refine ⟨objno, created, ?_⟩
  have parts' := hobject.hasParts parts
  have parts'' : b.HasParts :=
    parts'.imp added.grows.blocks_ne_nil added.grows.blocks_ne_nil
  exact after.hasParts parts''

theorem objCreatePipe_ok {direction : PipeDirection} {messageSize messages : ℕ}
    {registered : ReturnT} (good : s.Good)
    (h : s.objCreatePipe direction messageSize messages registered = .ok (.noError, s')) :
    ∃ objno, Created s objno .pipe s' ∧ s'.HasParts := by
  obtain ⟨before, hparts⟩ := s.createParts_cases direction messageSize messages
  unfold objCreatePipe at h
  split at h
  next hstep =>
    rw [hstep] at before hparts
    obtain ⟨⟨r, p⟩, hpipe, h⟩ := of_bind h
    split at h
    next heq =>
      cases heq
      cases h
      exact created_pipe good before (hparts rfl) hpipe (Builds.refl _)
    next hr heq =>
      exact absurd (pair_inj h).1 hr
  · cases (pair_inj h).1

theorem objOpenPipe_ok {lookup : PipeLookup} {direction : PipeDirection}
    (good : s.Good) (h : s.objOpenPipe lookup direction = .ok (.noError, s')) :
    ∃ objno, Created s objno .pipe s' ∧ s'.HasParts := by
  obtain ⟨before, hparts⟩ := s.openParts_cases direction
  unfold objOpenPipe at h
  split at h
  next found =>
    split at h
    · split at h
      next hstep =>
        rw [hstep] at before hparts
        obtain ⟨⟨r, p⟩, hpipe, h⟩ := of_bind h
        split at h
        next heq =>
          cases heq
          cases h
          exact created_pipe good before (hparts rfl) hpipe (builds_linkPipes _ _ _)
        next hr heq =>
          exact absurd (pair_inj h).1 hr
      · cases (pair_inj h).1
    next hr => exact absurd (pair_inj h).1 hr
  all_goals cases (pair_inj h).1

theorem objCreateShm_ok {size : BitVec 32} {vmem : ReturnT} {pages : ℕ} (good : s.Good)
    (h : s.objCreateShm size vmem pages = .ok (.noError, s')) :
    ∃ objno, Created s objno .sharedMemory s' ∧ s'.blocks .memory ≠ [] := by
  unfold objCreateShm at h
  split at h
  · cases (pair_inj h).1
  split at h
  next hobject =>
    split at h
    next hmemory =>
      have before := (builds_of_allocFor hobject rfl).trans (builds_of_allocFor hmemory rfl)
      obtain ⟨⟨r, id, b⟩, hadd, h⟩ := of_bind h
      rcases objAddObject_cases (before.good good) hadd with ⟨objno, rfl, rfl, added⟩ | ⟨rfl, hr, -⟩
      · dsimp only at h
        have after : Builds b (((b.allocFor .vmem).2.mapPages pages).listCreate false).2 :=
          ((b.builds_allocFor rfl).trans (builds_mapPages _ _)).trans (builds_allocFor _ rfl)
        split at h
        · cases h
          refine ⟨objno, created_of_added good before added rfl rfl after rfl rfl rfl, ?_⟩
          exact after.grows.blocks_ne_nil
            (added.grows.blocks_ne_nil (blocks_ne_nil_of_allocFor hmemory))
        · cases (pair_inj h).1
      · exact absurd (pair_inj h).1 hr
    · cases (pair_inj h).1
  · cases (pair_inj h).1

theorem covers_queueCreate {us : List BlockUse} {second : Bool} (hqueue : .queue second ∈ us)
    (hlist : .list second ∈ us) (s : PoolSys) :
    Covers us s.toLedger (s.queueCreate second).toLedger := by
  have hcovers : Covers us s.toLedger (s.allocFor (.queue second)).2.toLedger :=
    covers_allocFor hqueue s.toLedger _
  unfold queueCreate
  split
  next u h =>
    rw [h] at hcovers
    exact hcovers.trans (covers_allocFor hlist u.toLedger _)
      (u.builds_allocFor (show (BlockUse.list second).ofTable = false from rfl)).grows
  next h => rwa [h] at hcovers

theorem objCreateSemaphore_ok (good : s.Good)
    (h : s.objCreateSemaphore = .ok (.noError, s')) :
    ∃ objno, Created s objno .semaphore s' ∧ Parts s objno .semaphore s' := by
  unfold objCreateSemaphore at h
  split at h
  next u hobject =>
    have before := builds_of_allocFor hobject rfl
    obtain ⟨⟨r, id, b⟩, hadd, h⟩ := of_bind h
    rcases objAddObject_cases (before.good good) hadd with ⟨objno, rfl, rfl, added⟩ | ⟨rfl, hr, -⟩
    · cases h
      have listeners := b.builds_queueCreate false
      have owners := (b.queueCreate false).builds_queueCreate true
      refine ⟨objno,
        created_of_added good before added rfl rfl (listeners.trans owners) rfl rfl rfl, ?_⟩
      -- each of the four steps allocates for uses of the semaphore only
      have hobject' : Covers (semaphoreUses ++ tableUses objno) s.toLedger u.toLedger := by
        obtain rfl : (s.allocFor .object).2 = u := congrArg Prod.snd hobject
        exact covers_allocFor (by simp [semaphoreUses]) s.toLedger _
      have htable : Covers (semaphoreUses ++ tableUses objno) u.toLedger b.toLedger :=
        added.covers.mono (List.subset_append_right _ _)
      have hlisteners : Covers (semaphoreUses ++ tableUses objno) b.toLedger
          (b.queueCreate false).toLedger :=
        covers_queueCreate (by simp [semaphoreUses]) (by simp [semaphoreUses]) b
      have howners : Covers (semaphoreUses ++ tableUses objno)
          (b.queueCreate false).toLedger ((b.queueCreate false).queueCreate true).toLedger :=
        covers_queueCreate (by simp [semaphoreUses]) (by simp [semaphoreUses]) _
      exact ((hobject'.trans htable added.grows).trans hlisteners listeners.grows).trans howners
        owners.grows
    · exact absurd (pair_inj h).1 hr
  · cases (pair_inj h).1

theorem Good.resetFrees (good : s.Good) : Good { s with frees := [] } :=
  ⟨⟨good.held.nodup, good.held.disjoint, good.held.live⟩, good.wellFormed, good.hash, good.bucket⟩

/-- A creation that succeeds has added an object of its type, and made what it is made of. -/
theorem create_ok {call : PoolCall} (good : s.Good) (h : s.create call = .ok (.noError, s')) :
    ∃ objno, Created { s with frees := [] } objno call.type s' ∧
      Parts { s with frees := [] } objno call.type s' := by
  cases call with
  | createPipe => exact objCreatePipe_ok good.resetFrees h
  | openPipe => exact objOpenPipe_ok good.resetFrees h
  | createShm => exact objCreateShm_ok good.resetFrees h
  | createSemaphore => exact objCreateSemaphore_ok good.resetFrees h

/-! ## What a deletion gives back -/

/-- What every deletion keeps: the table, and what is live in the user pool. -/
structure Deletes (s s' : PoolSys) : Prop where
  table : s'.table = s.table
  user : ∀ b, s.live b = some .userPool → s'.live b = some .userPool

theorem Deletes.refl (s : PoolSys) : Deletes s s := ⟨rfl, fun _ => id⟩

theorem Deletes.trans {u : PoolSys} (first : Deletes s s') (second : Deletes s' u) :
    Deletes s u :=
  ⟨second.table.trans first.table, fun b hlive => second.user b (first.user b hlive)⟩

theorem live_free_of_ne {pool : PoolId} {b c : ℕ} (hpool : pool ≠ .userPool)
    (hlive : s.live c = some .userPool) : (s.free pool b).live c = some .userPool := by
  rw [live_free, if_neg]
  · exact hlive
  rintro ⟨-, h⟩
  exact hpool (Option.some.inj (h.symm.trans hlive))

theorem deletes_memFreeAll (s : PoolSys) (use : BlockUse) : Deletes s (s.memFreeAll use) :=
  ⟨rfl, fun _ hlive => live_releaseAll_of_ne hlive (by decide) [use]⟩

theorem deletes_listRemove (s : PoolSys) (second : Bool) (index : ℕ) :
    Deletes s (s.listRemove second index) := by
  unfold listRemove
  split
  · exact ⟨rfl, fun _ hlive => live_free_of_ne (by decide) hlive⟩
  · exact Deletes.refl s

theorem deletes_detachClients (rounds : ℕ) (s : PoolSys) :
    Deletes s (detachClients rounds s) := by
  induction rounds generalizing s with
  | zero => exact Deletes.refl s
  | succ rounds ih =>
    unfold detachClients
    split
    · exact Deletes.refl s
    next client _ _ =>
      have hpool : processGetMemPool client.1 ≠ .userPool := by
        cases client.1 <;> simp [processGetMemPool]
      have hclient : Deletes (s.listRemove false 0)
          ((s.listRemove false 0).memFree (processGetMemPool client.1) client.2) :=
        ⟨rfl, fun _ hlive => live_free_of_ne hpool hlive⟩
      exact (((s.deletes_listRemove false 0).trans hclient).trans
        (deletes_listRemove _ false 0)).trans (ih _)

theorem deletes_processFreeVmem (s : PoolSys) (finds : Bool) :
    Deletes s (s.processFreeVmem finds) := by
  unfold processFreeVmem
  split
  · exact s.deletes_memFreeAll .vmem
  · exact Deletes.refl s

theorem deletes_listDelete (s : PoolSys) (second : Bool) : Deletes s (s.listDelete second) :=
  (s.deletes_memFreeAll _).trans (deletes_memFreeAll _ _)

theorem deletes_queueDelete (s : PoolSys) (second : Bool) : Deletes s (s.queueDelete second) :=
  (s.deletes_listDelete second).trans (deletes_memFreeAll _ _)

theorem deletes_deleteObject (s : PoolSys) (finds : Bool) (type : ObjType) :
    Deletes s (s.deleteObject finds type) := by
  cases type with
  | pipe => exact (s.deletes_memFreeAll .memory).trans (deletes_memFreeAll _ .object)
  | semaphore =>
    exact ((s.deletes_queueDelete false).trans (deletes_queueDelete _ true)).trans
      (deletes_memFreeAll _ .object)
  | other => exact Deletes.refl s
  | sharedMemory =>
    change Deletes s (s.objDeleteShm finds)
    unfold objDeleteShm
    split
    · exact ((((deletes_detachClients _ s).trans (deletes_listDelete _ _)).trans
        (deletes_processFreeVmem _ _)).trans (deletes_memFreeAll _ _)).trans
        (deletes_memFreeAll _ _)
    · exact (s.deletes_processFreeVmem finds).trans (deletes_memFreeAll _ _)

section

variable (good : s.Good) (hobj : s.obj = some (objno, type))
  (hget : (s.table.objGetObject objno).isSome)
include good hobj hget

theorem toLedger_close :
    (s.close finds).2.toLedger =
      (deleteObject { s with frees := [] } finds type).toLedger.releaseAll .privatePool
        (s.removedUses objno) := by
  have hclose : (s.close finds).2.toLedger =
      ((deleteObject { s with frees := [] } finds type).objRemoveObject objno).2.toLedger := by
    unfold close
    rw [hobj]
  have htable : (deleteObject { s with frees := [] } finds type).table = s.table :=
    (deletes_deleteObject _ finds type).table
  rw [hclose, objRemoveObject_eq (by rw [htable]; exact good.wellFormed)
    (by rw [htable]; exact good.hash) (by rwa [htable]), removedUses, removed, removedUses, removed,
    htable]

theorem live_close_user {b : ℕ} (hlive : s.live b = some .userPool) :
    (s.close finds).2.live b = some .userPool := by
  rw [toLedger_close good hobj hget]
  have hdeleted := (deletes_deleteObject { s with frees := [] } finds type).user b hlive
  exact live_releaseAll_of_ne hdeleted (by decide) _

end

/-- The uses whose blocks the deletions of pipes and of semaphores give back. -/
def deletedUses : ObjType → List BlockUse
  | .pipe => [.memory, .object]
  | .semaphore =>
    [.node false, .list false, .queue false, .node true, .list true, .queue true, .object]
  | _ => []

section

variable (good : s.Good) (hobj : s.obj = some (objno, type))
  (hget : (s.table.objGetObject objno).isSome) (htype : type ≠ .sharedMemory)
include good hobj hget htype

theorem toLedger_close_of_ne :
    (s.close finds).2.toLedger = releaseAll { s.toLedger with frees := [] } .privatePool
      (deletedUses type ++ s.removedUses objno) := by
  have hdeleted : (deleteObject { s with frees := [] } finds type).toLedger =
      releaseAll { s.toLedger with frees := [] } .privatePool (deletedUses type) := by
    cases type with
    | sharedMemory => exact absurd rfl htype
    | _ => rfl
  rw [toLedger_close good hobj hget, hdeleted, releaseAll_append]

theorem live_close_of_held {b : ℕ} {use : BlockUse} (hb : b ∈ s.blocks use)
    (huse : use ∉ deletedUses type ++ s.removedUses objno) :
    (s.close finds).2.live b = some use.pool := by
  rw [toLedger_close_of_ne good hobj hget htype, live_releaseAll_of_not_mem]
  · exact good.held.live hb
  intro v hv hmem
  rw [good.held.disjoint hmem hb] at hv
  exact huse hv

end

/-! ## What becomes of the memory -/

/-- The creation and the deletion give back only what is live in the pool that they give it back
to, and in the end the pools of the process hold nothing that the creation allocated. -/
def ReturnsMemory (s₀ s₁ s₃ : PoolSys) : Prop :=
  (∀ f ∈ s₁.frees ++ s₃.frees, f.live = true) ∧
    ∀ b, s₀.live b = none → (s₁.live b).isSome →
      s₃.live b ≠ some .privatePool ∧ s₃.live b ≠ some .userPool

section Balance

variable {s₀ s₁ s₂ : PoolSys} (created : Created { s₀ with frees := [] } objno type s₁)

include created

theorem not_returnsMemory_of_live {use : BlockUse} {b : ℕ} {s₃ : PoolSys}
    (hb : b ∈ s₁.blocks use) (hnew : s₀.blocks use = []) (hlive : s₃.live b = some use.pool) :
    ¬ ReturnsMemory s₀ s₁ s₃ := by
  rintro ⟨-, hnone⟩
  have hfree : s₀.live b = none := created.grows.new hb (by simp [hnew])
  have hlive₁ : s₁.live b = some use.pool := created.good.held.live hb
  obtain ⟨hprivate, huser⟩ := hnone b hfree (by rw [hlive₁]; rfl)
  rw [hlive] at hprivate huser
  cases use <;> simp [BlockUse.pool] at hprivate huser

theorem isSome_bucket_iff_shares (good : s₀.Good) :
    (s₀.table.theMap.buckets (bucketOf objno)).isSome ↔ s₀.Shares objno := by
  rw [HashedTable.isSome_bucket_iff good.wellFormed good.hash, Shares]
  refine exists_congr fun id => ⟨?_, ?_⟩
  · rintro ⟨hbucket, hget⟩
    refine ⟨?_, hget, hbucket⟩
    rintro rfl
    have habsent : s₀.table.objGetObject id = none := created.absent
    rw [habsent] at hget
    cases hget
  rintro ⟨-, hget, hbucket⟩
  exact ⟨hbucket, hget⟩

variable (undisturbed : Undisturbed s₁ s₂)

include undisturbed

theorem obj_of_undisturbed : s₂.obj = some (objno, type) :=
  undisturbed.obj.trans created.obj

theorem present_of_undisturbed : (s₂.table.objGetObject objno).isSome :=
  (undisturbed.kept objno type created.obj created.present).1

theorem not_returnsMemory_of_memory (hnew : s₀.blocks .memory = [])
    (hmemory : s₁.blocks .memory ≠ []) : ¬ ReturnsMemory s₀ s₁ (s₂.close finds).2 := by
  obtain ⟨b, hb⟩ := List.exists_mem_of_ne_nil _ hmemory
  have hb₂ : b ∈ s₂.blocks .memory := by
    rwa [undisturbed.blocks .memory rfl (fun _ => by simp)]
  have huser : s₂.live b = some .userPool := undisturbed.good.held.live hb₂
  exact not_returnsMemory_of_live created hb hnew
    (live_close_user undisturbed.good (obj_of_undisturbed created undisturbed)
      (present_of_undisturbed created undisturbed) huser)

theorem not_returnsMemory_of_readers (htype : type = .pipe) (hnew : s₀.blocks (.list false) = [])
    (hlist : s₁.blocks (.list false) ≠ []) : ¬ ReturnsMemory s₀ s₁ (s₂.close finds).2 := by
  subst htype
  obtain ⟨b, hb⟩ := List.exists_mem_of_ne_nil _ hlist
  have hb₂ : b ∈ s₂.blocks (.list false) := by
    rwa [undisturbed.blocks (.list false) rfl (fun _ => by simp)]
  refine not_returnsMemory_of_live created hb hnew (live_close_of_held undisturbed.good
    (obj_of_undisturbed created undisturbed) (present_of_undisturbed created undisturbed)
    (by decide) hb₂ ?_)
  intro hmem
  rcases List.mem_append.mp hmem with hmem | hmem
  · simp [deletedUses] at hmem
  · cases ofTable_of_mem_tableUses (s₂.removedUses_subset objno hmem)

/-- A bucket that the creation allocated stays for those who share it. -/
theorem not_returnsMemory_of_shares (good : s₀.Good) (htype : type = .semaphore)
    (hfirst : ¬ s₀.Shares objno) (hshares : s₂.Shares objno) :
    ¬ ReturnsMemory s₀ s₁ (s₂.close finds).2 := by
  subst htype
  have hnone : s₀.table.theMap.buckets (bucketOf objno) = none := by
    rw [← isSome_bucket_iff_shares created good] at hfirst
    exact Option.not_isSome_iff_eq_none.mp hfirst
  obtain ⟨b, hb⟩ := List.exists_mem_of_ne_nil _ (created.new hnone)
  obtain ⟨hget, -, hbucket⟩ := undisturbed.kept objno _ created.obj created.present
  have hb₂ : b ∈ s₂.blocks (.bucket (bucketOf objno)) := by rwa [hbucket]
  refine not_returnsMemory_of_live created hb (good.bucket _ hnone) (live_close_of_held
    undisturbed.good (obj_of_undisturbed created undisturbed) hget (by decide) hb₂ ?_)
  intro hmem
  rcases List.mem_append.mp hmem with hmem | hmem
  · simp [deletedUses] at hmem
  · exact (mem_removedUses_iff undisturbed.good.wellFormed undisturbed.good.hash).mp hmem hshares

/-- The blocks that a creation of a semaphore allocated are those that its deletion gives back. -/
theorem mem_released (good : s₀.Good) {use : BlockUse} {b : ℕ} (hfree : s₀.live b = none)
    (hshares : s₀.Shares objno ∨ ¬ s₂.Shares objno)
    (huse : use ∈ semaphoreUses ++ tableUses objno) (hb : b ∈ s₁.blocks use) :
    use ∈ deletedUses .semaphore ++ s₂.removedUses objno ∧ b ∈ s₂.blocks use := by
  obtain ⟨-, hentry, hbucket⟩ := undisturbed.kept objno type created.obj created.present
  rcases List.mem_append.mp huse with huse | huse
  · have hdeleted : use ∈ deletedUses .semaphore ∧ use.ofTable = false ∧
        ∀ second, use ≠ .node second := by
      simp only [semaphoreUses, List.mem_cons, List.not_mem_nil, or_false] at huse
      rcases huse with rfl | rfl | rfl | rfl | rfl <;>
        exact ⟨by simp [deletedUses], rfl, fun _ => by simp⟩
    obtain ⟨hmem, htable, hnode⟩ := hdeleted
    exact ⟨List.mem_append_left _ hmem, by rwa [undisturbed.blocks use htable hnode]⟩
  rcases List.mem_pair.mp huse with rfl | rfl
  · exact ⟨List.mem_append_right _ List.mem_cons_self, by rwa [hentry]⟩
  refine ⟨List.mem_append_right _ ?_, by rwa [hbucket]⟩
  rw [mem_removedUses_iff undisturbed.good.wellFormed undisturbed.good.hash]
  refine hshares.resolve_left fun hold => ?_
  -- a bucket that was there is not one that the creation allocated
  have hsome := (isSome_bucket_iff_shares created good).mpr hold
  rw [created.old hsome] at hb
  exact good.held.not_mem hfree _ hb

theorem returnsMemory_of_semaphore (good : s₀.Good) (htype : type = .semaphore)
    (parts : Parts { s₀ with frees := [] } objno type s₁)
    (hshares : s₀.Shares objno ∨ ¬ s₂.Shares objno) :
    ReturnsMemory s₀ s₁ (s₂.close finds).2 := by
  subst htype
  have hclose : (s₂.close finds).2.toLedger = _ := toLedger_close_of_ne undisturbed.good
    (obj_of_undisturbed created undisturbed) (present_of_undisturbed created undisturbed)
    (by decide)
  have hheld := undisturbed.good.resetFrees.held
  have hpools : ∀ use ∈ deletedUses .semaphore ++ s₂.removedUses objno,
      use.pool = .privatePool := by
    intro use hmem
    rcases List.mem_append.mp hmem with hmem | hmem
    · simp only [deletedUses, List.mem_cons, List.not_mem_nil, or_false] at hmem
      rcases hmem with rfl | rfl | rfl | rfl | rfl | rfl | rfl <;> rfl
    · rcases List.mem_pair.mp (s₂.removedUses_subset objno hmem) with rfl | rfl <;> rfl
  refine ⟨fun f hf => ?_, fun b hfree hlive => ?_⟩
  · rcases List.mem_append.mp hf with hf | hf
    · rw [created.grows.frees] at hf
      cases hf
    rw [hclose] at hf
    exact hheld.frees_releaseAll hpools (fun f hf => by cases hf) f hf
  obtain ⟨use, huse, hb⟩ := parts b hfree hlive
  obtain ⟨hmem, hb₂⟩ := mem_released created undisturbed good hfree hshares huse hb
  have hgone : (s₂.close finds).2.live b = none := by
    rw [hclose]
    exact hheld.live_releaseAll hpools hmem hb₂
  rw [hgone]
  exact ⟨by simp, by simp⟩

end Balance

/-- The memory of an object is returned if it is a semaphore, and the bucket of its number was in
the table before or is not used by others in the end. -/
theorem returnsMemory_iff {table : HashedTable ℕ} {live : ℕ → Option PoolId}
    {answers : List (Option ℕ)} {ops₀ ops : List PoolStep} {s₀ s₁ s₂ : PoolSys}
    {call : PoolCall} (finds : Bool) (htable : HashedTable.objInitialseTable = .ok table)
    (before : Run PoolSys.step PoolSys.OthersOnly (start live answers table) ops₀ s₀)
    (hcreate : s₀.create call = .ok (.noError, s₁))
    (between : Run PoolSys.step PoolSys.OthersOnly s₁ ops s₂) :
    ReturnsMemory s₀ s₁ (s₂.close finds).2 ↔
      call = .createSemaphore ∧
        ∀ objno type, s₂.obj = some (objno, type) → s₀.Shares objno ∨ ¬ s₂.Shares objno := by
  have idle := undisturbed_run (good_start htable live answers) before
  have hnew (use : BlockUse) (huse : use.ofTable = false) (hnode : ∀ second, use ≠ .node second) :
      s₀.blocks use = [] := idle.blocks use huse hnode
  obtain ⟨objno, created, parts⟩ := create_ok idle.good hcreate
  have undisturbed := undisturbed_run created.good between
  have hobj := obj_of_undisturbed created undisturbed
  have hmemory : s₁.blocks .memory ≠ [] → ¬ ReturnsMemory s₀ s₁ (s₂.close finds).2 :=
    not_returnsMemory_of_memory created undisturbed (hnew .memory rfl (fun _ => by simp))
  constructor
  · intro returns
    cases call with
    | createPipe | openPipe =>
      rcases parts with hparts | hparts
      · exact absurd returns (hmemory hparts)
      · have hlist := hnew (.list false) rfl (fun _ => by simp)
        exact absurd returns (not_returnsMemory_of_readers created undisturbed rfl hlist hparts)
    | createShm => exact absurd returns (hmemory parts)
    | createSemaphore =>
      refine ⟨rfl, fun objno' type hobj' => ?_⟩
      cases hobj.symm.trans hobj'
      by_contra hnot
      obtain ⟨hfirst, hshares⟩ := not_or.mp hnot
      exact not_returnsMemory_of_shares created undisturbed idle.good rfl hfirst
        (not_not.mp hshares) returns
  · rintro ⟨rfl, hshares⟩
    exact returnsMemory_of_semaphore created undisturbed idle.good rfl parts
      (hshares objno _ hobj)

theorem not_shares_of_start {table : HashedTable ℕ} {live : ℕ → Option PoolId}
    {answers : List (Option ℕ)} (htable : HashedTable.objInitialseTable = .ok table)
    (created : Created { start live answers table with frees := [] } objno type s') :
    ¬ s'.Shares objno := by
  rintro ⟨id, hid, hget, -⟩
  have hnone : table.objGetObject id = none := (TableHistory.Good.start htable).lookup id
  rw [created.others id hid] at hget
  change (table.objGetObject id).isSome = true at hget
  rw [hnone] at hget
  cases hget

/-- A process that creates a semaphore and deletes it. -/
theorem returnsMemory_iff_semaphore : ∃ table s₁,
    HashedTable.objInitialseTable = .ok table ∧
      (start (fun _ => none) ((List.range 7).map some) table).create .createSemaphore =
        .ok (.noError, s₁) ∧
      ReturnsMemory (start (fun _ => none) ((List.range 7).map some) table) s₁
        (s₁.close true).2 := by
  have hrun : ((HashedTable.objInitialseTable : Exec (HashedTable ℕ)).toOption.any fun table =>
      ((start (fun _ => none) ((List.range 7).map some) table).create .createSemaphore).toOption.any
        fun r => r.1 = .noError) = true := by
    decide +kernel
  obtain ⟨table, htable, hcreate⟩ := exists_of_any hrun
  obtain ⟨⟨r, s₁⟩, hcreate, hr⟩ := exists_of_any hcreate
  obtain rfl : r = .noError := of_decide_eq_true hr
  refine ⟨table, s₁, htable, hcreate, ?_⟩
  refine (returnsMemory_iff true htable (.nil _) hcreate (.nil _)).mpr ⟨rfl, ?_⟩
  intro objno type hobj
  obtain ⟨objno', created, -⟩ := create_ok (good_start htable _ _) hcreate
  cases created.obj.symm.trans hobj
  exact .inr (not_shares_of_start htable created)

/-- The memory of a pipe is given back to the private pool, and stays in the user pool. -/
theorem not_returnsMemory_pipe : ∃ table s₁,
    HashedTable.objInitialseTable = .ok table ∧
      (start (fun _ => none) ((List.range 5).map some) table).create
        (.createPipe .receive 4 1 .noError) = .ok (.noError, s₁) ∧
      ((s₁.close true).2.frees.any fun f => f.pool = .privatePool ∧ f.block = 0 ∧ f.live = false) ∧
      (s₁.close true).2.live 0 = some .userPool ∧
      ¬ ReturnsMemory (start (fun _ => none) ((List.range 5).map some) table) s₁
        (s₁.close true).2 := by
  have hrun : ((HashedTable.objInitialseTable : Exec (HashedTable ℕ)).toOption.any fun table =>
      ((start (fun _ => none) ((List.range 5).map some) table).create
        (.createPipe .receive 4 1 .noError)).toOption.any fun r => r.1 = .noError ∧
          ((r.2.close true).2.frees.any fun f =>
            f.pool = .privatePool ∧ f.block = 0 ∧ f.live = false) ∧
          (r.2.close true).2.live 0 = some .userPool) = true := by
    decide +kernel
  obtain ⟨table, htable, hcreate⟩ := exists_of_any hrun
  obtain ⟨⟨r, s₁⟩, hcreate, hr⟩ := exists_of_any hcreate
  obtain ⟨rfl, hfrees, hlive⟩ := of_decide_eq_true hr
  refine ⟨table, s₁, htable, hcreate, hfrees, hlive, ?_⟩
  rintro ⟨hall, -⟩
  obtain ⟨f, hf, hdead⟩ := List.any_eq_true.mp hfrees
  obtain ⟨-, -, hdead⟩ := of_decide_eq_true hdead
  have hok := hall f (List.mem_append_right _ hf)
  rw [hdead] at hok
  cases hok

end PoolSys

end Tinker
