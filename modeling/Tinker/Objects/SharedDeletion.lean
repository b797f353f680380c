import Tinker.Objects.NameOwners
import Tinker.Process.FreeVmem

/-!
# When deleting shared memory detaches every client

`obj_delete_shm` deletes the clients of a shared memory, unmaps it and then frees its memory to the
wrong pool, which stops the machine. It returns only for a shared memory whose list of clients could
not be made when it was created; the clients that such a memory has are then left behind.
-/

namespace Tinker

open Tinker.Lib Function Exec

/-- One operation, without what it answers. -/
def ObjEvent.step (s : ObjSys) (event : ObjEvent) : Exec ObjSys := do
  let (_, _, s) ← event.run s
  return s

/-- The section that `process_allocate_vmem` has made for some shared memory. -/
def Shm.mapping (x : Shm) : MemSection :=
  ⟨x.realAddr, x.virtAddr, x.size, .randomAccessMemory, .userAccess, .readWrite⟩

namespace ObjSys

/-- The shared memory at `c` is a client of that at `o`. -/
def ClientOf (s : ObjSys) (o c : ℕ) (x : Shm) : Prop := s.shmAt c = some x ∧ x.parentShm = some o

/-- All clients of a shared memory have been detached: their processes have a section less, they
have been freed, and no object points to the shared memory. -/
structure Detached (s s' : ObjSys) (o : ℕ) : Prop where
  unmapped : ∀ c x, s.ClientOf o c x →
    (s'.memory x.process).sections.count x.mapping <
      (s.memory x.process).sections.count x.mapping
  freed : ∀ c x, s.ClientOf o c x → s'.objects c = none
  unreferenced : ∀ c x, ¬ s'.ClientOf o c x

/-- The sections of every process are in its page table. -/
def AllEntered (s : ObjSys) : Prop := ∀ p, (s.memory p).Entered

variable {s s' : ObjSys} {process o : ℕ} {name : Name} {r : ReturnT} {x : Shm}

/-! ## Sections are in the page tables -/

theorem AllEntered.setMemory (h : s.AllEntered) {space : ProcessMemory} (hspace : space.Entered)
    (process : ℕ) : (s.setMemory process space).AllEntered := by
  intro p
  change (update s.memory process space p).Entered
  rcases eq_or_ne p process with rfl | hp
  · rw [update_self]
    exact hspace
  rw [update_of_ne hp]
  exact h p

theorem AllEntered.of_memory (h : s.AllEntered) (hmemory : s'.memory = s.memory) :
    s'.AllEntered :=
  fun p => hmemory ▸ h p

theorem AllEntered.maps {space : ProcessMemory} (h : s.AllEntered) (hmaps : s.Maps process space) :
    space.Entered := by
  obtain ⟨real, size, room, result, virtAddr, hsize, hallocate⟩ := hmaps
  exact (h process).processAllocateVmem hsize hallocate

theorem AllEntered.spaces {memory : ℕ → ProcessMemory} (h : s.AllEntered)
    (hspaces : s.Spaces process memory) (p : ℕ) : (memory p).Entered := by
  rcases hspaces with rfl | ⟨space, hmaps, rfl⟩
  · exact h p
  · exact h.setMemory (h.maps hmaps) process p

theorem exists_freeVmem (h : s.AllEntered) (x : Shm) :
    ∃ space, s.freeVmem x = .ok (s.setMemory x.process space) ∧ space.Entered := by
  obtain ⟨space, hfree, hentered⟩ := (h x.process).exists_processFreeVmem x.virtAddr
  refine ⟨space, ?_, hentered⟩
  rw [freeVmem, hfree]
  rfl

theorem register_memory {objno : ℕ} {room : Bool}
    (h : s.register process name objno room = .ok (r, s')) : s'.memory = s.memory := by
  rcases register_cases h with ⟨-, -, rfl⟩ | ⟨-, -, k, waiting, rfl⟩ <;> rfl

theorem modifyPipe_memory (s : ObjSys) (o : ℕ) (f : Pipe → Pipe) :
    (s.modifyPipe o f).memory = s.memory := by
  unfold modifyPipe
  split <;> rfl

theorem linkPipes_memory (s : ObjSys) (direction : PipeDirection) (no other : ℕ) :
    (s.linkPipes direction no other).memory = s.memory := by
  cases direction <;> simp only [linkPipes, modifyPipe_memory]

theorem addClient_memory (s : ObjSys) (o client : ℕ) :
    (s.addClient o client).memory = s.memory := by
  unfold addClient
  split <;> rfl

theorem modifyClients_memory {f : List ℕ → List ℕ} (h : s.modifyClients o f = .ok s') :
    s'.memory = s.memory := by
  obtain ⟨⟨n, body⟩, -, h⟩ := of_bind h
  cases body with
  | shm shm =>
    cases h
    rfl
  | pipe | sema | other => cases h

theorem AllEntered.effect {c : Creation} {objno : Option ℕ} (h : s.AllEntered)
    (heffect : Creation.Effect s c r objno s') : s'.AllEntered := by
  cases heffect with
  | refused => exact h
  | abandoned memory _ hspaces => exact h.spaces hspaces
  | made body memory hspaces _ _ _ hreg =>
    intro p
    rw [register_memory hreg]
    exact h.spaces hspaces p

theorem AllEntered.opening {type : ObjType} (h : s.AllEntered)
    (hopen : Opening s process name type r s') : s'.AllEntered := by
  cases hopen with
  | refused | waits | link => exact h
  | mapped _ hmaps => exact h.setMemory (h.maps hmaps) process
  | pipe => exact h.of_memory (linkPipes_memory _ _ _ _)
  | view listed _ hmaps =>
    have hnew := h.setMemory (h.maps hmaps) process
    cases listed with
    | false => exact hnew
    | true => exact hnew.of_memory (addClient_memory _ _ _)

theorem AllEntered.deleteShm {depth : ℕ} (h : s.AllEntered)
    (hdelete : deleteShm (depth + 1) s o = .ok s') : s'.AllEntered := by
  obtain ⟨n, x, space, -, -, hfree, hcases⟩ := deleteShm_cases hdelete
  obtain ⟨space', hfree', hspace⟩ := exists_freeVmem h x
  have hentered : (s.setMemory x.process space).AllEntered := by
    rw [Except.ok.inj (hfree.symm.trans hfree')]
    exact h.setMemory hspace x.process
  rcases hcases with ⟨-, rfl⟩ | ⟨parent, s₁, -, hmodify, rfl⟩
  · exact hentered
  · exact hentered.of_memory (modifyClients_memory hmodify : s₁.memory = _)

/-- Every operation keeps the sections in the page tables. -/
theorem AllEntered.step {event : ObjEvent} (h : s.AllEntered) (hstep : event.step s = .ok s') :
    s'.AllEntered := by
  obtain ⟨⟨r, objno, s₁⟩, hrun, hdone⟩ := of_bind hstep
  cases hdone
  cases hdeletes : event.deletes with
  | some target =>
    rcases event.cases_of_deletes hdeletes hrun with ⟨rfl, -⟩ | ⟨a, obj, s₂, -, -, -, hdel, rfl⟩
    · exact h
    have hentered : s₂.AllEntered := by
      rcases hdel with ⟨-, rfl⟩ | hdelete
      · cases obj.body.storedName <;> exact h
      · exact h.deleteShm hdelete
    exact hentered
  | none =>
    cases event with
    | createPipe => exact h.effect (objCreatePipe_effect hrun)
    | createSemaphore => exact h.effect (objCreateSemaphore_effect hrun)
    | createShm => exact h.effect (objCreateShm_effect hrun)
    | openPipe => exact h.opening (objOpenPipe_opening hrun)
    | openSemaphore => exact h.opening (objOpenSemaphore_opening hrun)
    | openShm => exact h.opening (objOpenShm_opening hrun)
    | deletePipe | closeSemaphore | destroyShm => cases hdeletes

/-! ## Deleting -/

theorem exists_deleteShm (depth : ℕ) (h : s.AllEntered) {n : ℕ}
    (ho : s.objects o = some ⟨n, .shm x⟩) (hlist : x.clientList = none)
    (hparent : x.parentShm = none) :
    ∃ space, ObjSys.deleteShm (depth + 1) s o =
      .ok ((s.setMemory x.process space).freeObject o) := by
  obtain ⟨space, hfree, -⟩ := exists_freeVmem h x
  refine ⟨space, ?_⟩
  rw [ObjSys.deleteShm, load, ho]
  simp only [ok_bind, hlist, hfree, hparent, pure_eq_ok]

/-- The clients of a shared memory whose deletion returns are still there. -/
theorem ClientOf.deleteShm {depth c : ℕ} {y : Shm} (hc : s.ClientOf o c y)
    (ho : s.shmAt o = some x) (hparent : x.parentShm = none)
    (h : deleteShm (depth + 1) s o = .ok s') : s'.ClientOf o c y := by
  obtain ⟨n, x', space, hobj, -, -, hcases⟩ := deleteShm_cases h
  cases ho.symm.trans (shmAt_eq_some_iff.mpr ⟨n, hobj⟩)
  rcases hcases with ⟨-, rfl⟩ | ⟨parent, s₁, hview, -⟩
  · have hne : c ≠ o := by
      rintro rfl
      cases ho.symm.trans hc.1
      cases hparent.symm.trans hc.2
    obtain ⟨m, hm⟩ := shmAt_eq_some_iff.mp hc.1
    exact ⟨shmAt_eq_some_iff.mpr ⟨m, (update_of_ne hne _ _).trans hm⟩, hc.2⟩
  · cases hparent.symm.trans hview

/-- A shared memory without clients of its own is freed, and nothing pointed to it. -/
theorem detached_of_no_clients {space : ProcessMemory} (hno : ∀ c y, ¬ s.ClientOf o c y) :
    s.Detached ((s.setMemory process space).freeObject o) o where
  unmapped c y hc := absurd hc (hno c y)
  freed c y hc := absurd hc (hno c y)
  unreferenced c y hc := by
    obtain ⟨m, hm⟩ := shmAt_eq_some_iff.mp hc.1
    exact hno c y ⟨shmAt_eq_some_iff.mpr ⟨m, (freeObject_objects_cases hm).2⟩, hc.2⟩

end ObjSys

/-- Deleting a shared memory that is no view detaches all of its clients exactly if its list of
clients could not be made and it has no clients. -/
theorem detached_iff {k : ThreadSys} {memory : ℕ → ProcessMemory} {events : List ObjEvent}
    {s : ObjSys} {o : ℕ} {owner : Shm} (hmemory : ∀ p, (memory p).Entered)
    (run : Run ObjEvent.step (fun _ _ => True) (ObjSys.boot k memory) events s)
    (ho : s.shmAt o = some owner) (howner : owner.parentShm = none) :
    (∃ s', s.objDeleteShm (some (o, owner)) = .ok (.noError, s') ∧ s.Detached s' o) ↔
      owner.clientList = none ∧ ∀ c x, ¬ s.ClientOf o c x := by
  have hentered : s.AllEntered := run.invariant hmemory fun _ _ _ h _ hstep => h.step hstep
  constructor
  · rintro ⟨s', hdelete, hdetached⟩
    obtain ⟨t, ht, hdone⟩ := of_bind hdelete
    obtain ⟨-, rfl⟩ := pair_inj hdone
    obtain ⟨n, x, -, hobj, hlist, -⟩ := ObjSys.deleteShm_cases ht
    cases ho.symm.trans (ObjSys.shmAt_eq_some_iff.mpr ⟨n, hobj⟩)
    exact ⟨hlist, fun c x hc => hdetached.unreferenced c x (hc.deleteShm ho howner ht)⟩
  · rintro ⟨hlist, hno⟩
    obtain ⟨n, hobj⟩ := ObjSys.shmAt_eq_some_iff.mp ho
    obtain ⟨space, hdelete⟩ := ObjSys.exists_deleteShm 1 hentered hobj hlist howner
    exact ⟨_, bind_of ⟨_, hdelete, rfl⟩, ObjSys.detached_of_no_clients hno⟩

/-- The first section of a process: its pool. -/
def poolSection : MemSection :=
  ⟨0x00200000#32, 0xC0000000#32, 0x00001000#32, .randomAccessMemory, .kernelAccess, .readWrite⟩

/-- A kernel whose processes have their pools mapped. -/
def bootPooled : Exec ObjSys := do
  let k ← ThreadSys.boot (fun _ => 1) []
  let (_, p) ← tgtMapMemory
    ⟨false, [poolSection], 0x00200000#32, tgtInitialisePageTable [0x00010000#32, 0x00011000#32]⟩
    (some poolSection)
  return ObjSys.boot k fun _ => p

theorem exists_of_bootPooled {s : ObjSys} (h : bootPooled = .ok s) :
    ∃ k memory, s = ObjSys.boot k memory ∧ ∀ p, (memory p).Entered := by
  obtain ⟨k, -, h⟩ := of_bind h
  obtain ⟨⟨ret, p⟩, hmap, h⟩ := of_bind h
  refine ⟨k, fun _ => p, (Except.ok.inj h).symm, fun _ => ?_⟩
  have hnone : (⟨false, [], 0x00200000#32,
      tgtInitialisePageTable [0x00010000#32, 0x00011000#32]⟩ : ProcessMemory).Entered :=
    fun _ hin => absurd hin List.not_mem_nil
  exact hnone.tgtMapMemory (by decide) (fun r hr => .inl (List.mem_singleton.mp hr)) hmap

/-- There is room for everything but the list of clients. -/
def Answers.withoutList : Answers := { Answers.plenty with clients := false }

/-- A process creates a shared memory without room for its list of clients, and deletes it. -/
theorem detached_iff_without_list : ∃ k memory s s' owner,
    (∀ p, ProcessMemory.Entered (memory p)) ∧
    Run ObjEvent.step (fun _ _ => True) (ObjSys.boot k memory)
      [.createShm 0 [97] 0x00001000#32 .withoutList] s ∧
    s.shmAt 0 = some owner ∧ owner.parentShm = none ∧
    s.objDeleteShm (some (0, owner)) = .ok (.noError, s') ∧ s.Detached s' 0 := by
  obtain ⟨s₀, s, hboot, run, hs⟩ := exists_run_from bootPooled ObjEvent.step (fun _ _ => True)
    [.createShm 0 [97] 0x00001000#32 .withoutList]
    (fun s => (s.shmAt 0).any fun owner => owner.parentShm = none ∧ owner.clientList = none)
    (by decide +kernel)
  obtain ⟨k, memory, rfl, hmemory⟩ := exists_of_bootPooled hboot
  obtain ⟨owner, ho, hs⟩ := (Option.any_eq_true _ _).mp hs
  obtain ⟨hparent, hlist⟩ := of_decide_eq_true hs
  -- there is no other object that could point to this one
  have hno : ∀ c x, ¬ s.ClientOf 0 c x := by
    rintro c x ⟨hc, hview⟩
    rcases eq_or_ne c 0 with rfl | hne
    · cases ho.symm.trans hc
      cases hparent.symm.trans hview
    cases run with
    | cons _ hstep hrest =>
      cases hrest
      obtain ⟨⟨r, objno, s₁⟩, hrun, hdone⟩ := of_bind hstep
      cases hdone
      obtain ⟨n, hobj⟩ := ObjSys.shmAt_eq_some_iff.mp hc
      have heffect := ObjEvent.effect_of_creates rfl hrun
      cases (heffect.objects_of_ne hne).symm.trans hobj
  obtain ⟨s', hdelete, hdetached⟩ := (detached_iff hmemory run ho hparent).mpr ⟨hlist, hno⟩
  exact ⟨k, memory, s, s', owner, hmemory, run, ho, hparent, hdelete, hdetached⟩

/-- A process opens the memory that another process shares. Deleting it stops the machine. -/
theorem not_detached_one_client : ∃ k memory s owner, (∀ p, ProcessMemory.Entered (memory p)) ∧
    Run ObjEvent.step (fun _ _ => True) (ObjSys.boot k memory)
      [.createShm 0 [97] 0x00001000#32 .plenty, .openShm 1 [97] 0x00001000#32 .plenty] s ∧
    s.shmAt 0 = some owner ∧ owner.parentShm = none ∧ owner.clientList = some [1] ∧
    s.objDeleteShm (some (0, owner)) = .error .halted := by
  obtain ⟨s₀, s, hboot, run, hs⟩ := exists_run_from bootPooled ObjEvent.step (fun _ _ => True)
    [.createShm 0 [97] 0x00001000#32 .plenty, .openShm 1 [97] 0x00001000#32 .plenty]
    (fun s => (s.shmAt 0).any fun owner => owner.parentShm = none ∧ owner.clientList = some [1] ∧
      fault? (s.objDeleteShm (some (0, owner))) = some .halted) (by decide +kernel)
  obtain ⟨k, memory, rfl, hmemory⟩ := exists_of_bootPooled hboot
  obtain ⟨owner, ho, hs⟩ := (Option.any_eq_true _ _).mp hs
  obtain ⟨hparent, hlist, hs⟩ := of_decide_eq_true hs
  exact ⟨k, memory, s, owner, hmemory, run, ho, hparent, hlist, eq_error_of_fault? hs⟩

end Tinker
