import Tinker.Memory.Unmapping
import Tinker.Process.Vmem

/-!
# Taking a section out of a process

`process_free_vmem` unmaps the first section that begins at an address, and takes it out of the
list unless it is the first one of the process. Unmapping needs the entry of the first level that
the section was mapped with; entries of the first level are never cleared, so that it is there for
every section that has been mapped.
-/

namespace Tinker

open Tinker.Lib Exec

variable {t t' : PgTbl} {s : MemSection} {i : BitVec 12} {ret : ReturnT} {p p' : ProcessMemory}
  {v w : BitVec 32} {sections : List MemSection}

/-! ## Entries of the first level -/

theorem courseEntry_ne_zero (base : BitVec 32) : courseEntry base ≠ 0 := by
  intro h
  have hzero : (courseEntry base).toNat = 0 := by rw [h]; rfl
  have hmask : (base &&& 0x3FFFFF#32 <<< 10).toNat = base.toNat / 1024 * 1024 :=
    toNat_and_highMask base 10
  simp only [courseEntry, armGenerateLvl1Course, armPgTblSecondLevel, armPgTblNotTrustZone,
    defaultDomain, eccOff, BitVec.toNat_add, hmask] at hzero
  simp only [BitVec.ofNat_eq_ofNat, BitVec.zero_shiftLeft, BitVec.toNat_ofNat] at hzero
  omega

theorem MemSection.lvl1_ne_zero (s : MemSection) (real : BitVec 32) : s.lvl1 real ≠ 0 := by
  intro h
  have hkind := s.lvl1_kind real
  rw [h] at hkind
  exact absurd hkind (by decide)

theorem armGetLvl2Table_entries {virt base : BitVec 32}
    (h : armGetLvl2Table virt true t = .ok (base, t')) :
    (∀ i, t.lvl1Entry i ≠ 0 → t'.lvl1Entry i ≠ 0) ∧
      t'.lvl1Entry (armGetLvl1SectionIndex virt) ≠ 0 := by
  by_cases hzero : t.lvl1Entry (armGetLvl1SectionIndex virt) = 0
  · cases hpool : t.pool with
    | nil => simp [armGetLvl2Table, hzero, hpool] at h
    | cons entry pool =>
      have ht' : t' = t.addTable (armGetLvl1SectionIndex virt) entry pool := by
        simp only [armGetLvl2Table, hzero, hpool, and_self, if_true, pure_eq_ok,
          ok_bind, armGetLvl2VirtAddr_and_section] at h
        exact (Prod.mk.inj (Except.ok.inj h)).2.symm
      have hself : t'.lvl1Entry (armGetLvl1SectionIndex virt) ≠ 0 := by
        rw [ht', PgTbl.addTable_self]
        exact courseEntry_ne_zero entry
      refine ⟨fun i hi => ?_, hself⟩
      by_cases heq : i = armGetLvl1SectionIndex virt
      · rw [heq]
        exact hself
      rw [ht', PgTbl.addTable_of_ne heq]
      exact hi
  rw [armGetLvl2Table_of_ne_zero hzero] at h
  cases h
  exact ⟨fun _ => id, hzero⟩

theorem armMapPage_entries {virt real : BitVec 32} (h : armMapPage s t virt real = .ok (ret, t')) :
    (∀ i, t.lvl1Entry i ≠ 0 → t'.lvl1Entry i ≠ 0) ∧
      t'.lvl1Entry (armGetLvl1SectionIndex virt) ≠ 0 := by
  obtain ⟨⟨base, u⟩, hget, h⟩ := of_bind h
  have hu := armGetLvl2Table_entries hget
  dsimp only at h
  split at h
  · cases h
    exact hu
  cases h
  exact hu

theorem armMapSection_entries (s : MemSection) (virt real : BitVec 32) (t : PgTbl) :
    (∀ i, t.lvl1Entry i ≠ 0 → (armMapSection s virt real t).lvl1Entry i ≠ 0) ∧
      (armMapSection s virt real t).lvl1Entry (armGetLvl1SectionIndex virt) ≠ 0 := by
  have hself : (armMapSection s virt real t).lvl1Entry (armGetLvl1SectionIndex virt) ≠ 0 := by
    rw [armMapSection_self]
    exact s.lvl1_ne_zero real
  refine ⟨fun i hi => ?_, hself⟩
  by_cases heq : i = armGetLvl1SectionIndex virt
  · rw [heq]
    exact hself
  rw [armMapSection_of_ne heq]
  exact hi

theorem armMapPages_entries (s : MemSection) (page : ℕ) (t t' : PgTbl) (ret : ReturnT)
    (h : armMapPages s page t = .ok (ret, t')) :
    (∀ i, t.lvl1Entry i ≠ 0 → t'.lvl1Entry i ≠ 0) ∧
      (page < s.pages → t'.lvl1Entry (armGetLvl1SectionIndex (s.pageVirt page)) ≠ 0) := by
  induction page, t using armMapPages.induct s with
  | case1 page t hpage virt endAddress real hsection ih =>
    rw [armMapPages, if_pos hpage] at h
    rw [if_pos hsection] at h
    obtain ⟨hkeep, hself⟩ := armMapSection_entries s virt real t
    have hrest := (ih h).1
    exact ⟨fun i hi => hrest i (hkeep i hi), fun _ => hrest _ hself⟩
  | case2 page t hpage virt endAddress hsection ih =>
    rw [armMapPages, if_pos hpage] at h
    rw [if_neg hsection] at h
    obtain ⟨⟨ret', u⟩, hmap, h⟩ := of_bind h
    obtain ⟨hkeep, hself⟩ := armMapPage_entries hmap
    dsimp only at h
    split at h
    · cases h
      exact ⟨hkeep, fun _ => hself⟩
    have hrest := (ih u h).1
    exact ⟨fun i hi => hrest i (hkeep i hi), fun _ => hrest _ hself⟩
  | case3 page t hpage =>
    rw [armMapPages, if_neg hpage] at h
    cases h
    exact ⟨fun _ => id, fun hlt => absurd hlt hpage⟩

/-! ## Processes whose sections are mapped -/

/-- Every section of the process has an entry of the first level. -/
def ProcessMemory.Entered (p : ProcessMemory) : Prop :=
  ∀ s ∈ p.sections, p.pageTable.lvl1Entry (armGetLvl1SectionIndex s.virtAddress) ≠ 0

theorem MemSection.pages_pos (h : s.size ≠ 0) : 0 < s.pages := by
  have hsize : s.size.toNat ≠ 0 := fun hzero => h (BitVec.eq_of_toNat_eq hzero)
  rw [s.pages_eq]
  omega

theorem ProcessMemory.Entered.tgtMapMemory (h : p.Entered) (hsize : s.size ≠ 0)
    (hsections : ∀ r ∈ sections, r = s ∨ r ∈ p.sections)
    (hmap : tgtMapMemory { p with sections } (some s) = .ok (ret, p')) : p'.Entered := by
  obtain ⟨⟨ret', u⟩, hpages, hdone⟩ := of_bind hmap
  cases hdone
  obtain ⟨hkeep, hself⟩ := armMapPages_entries s 0 p.pageTable u ret' hpages
  intro r hr
  rcases hsections r hr with rfl | hold
  · have hentry := hself (MemSection.pages_pos hsize)
    rwa [r.pageVirt_zero] at hentry
  · exact hkeep _ (h r hold)

section

variable {real size : BitVec 32} {type : MmuMemory} {priv : MmuPrivilege} {access : MmuAccess}
  {room : Bool}

theorem ProcessMemory.Entered.processAllocateVmem (h : p.Entered) (hsize : size ≠ 0)
    (hallocate : processAllocateVmem p real size type priv access room = .ok (ret, v, p')) :
    p'.Entered := by
  obtain ⟨before, after, -, hsections, hmap⟩ | ⟨-, rfl⟩ := processAllocateVmem_adds hallocate
  · refine h.tgtMapMemory (s := ⟨real, v, size, type, priv, access⟩) hsize (fun r hr => ?_) hmap
    rw [hsections]
    simp only [List.mem_append, List.mem_cons] at hr ⊢
    tauto
  · exact h

end

/-! ## Taking a section out -/

def BeginsAt (v : BitVec 32) (sections : List MemSection) : Prop :=
  sections.head?.map MemSection.virtAddress = some v

deriving instance Decidable for BeginsAt

theorem removeVmem_of_beginsAt (h : BeginsAt v sections) : removeVmem v sections = sections := by
  cases sections with
  | nil => rfl
  | cons first rest => exact if_pos (Option.some.inj h)

theorem removeVmem_eq_eraseP (h : ¬ BeginsAt v sections) :
    removeVmem v sections = sections.eraseP fun s => s.virtAddress = v := by
  cases sections with
  | nil => rfl
  | cons first rest =>
    have hne : first.virtAddress ≠ v := fun heq => h (congrArg some heq)
    rw [removeVmem, if_neg hne, List.eraseP_cons_of_neg (by simpa using hne)]

theorem removeVmem_subset : removeVmem v sections ⊆ sections := by
  by_cases hbegin : BeginsAt v sections
  · rw [removeVmem_of_beginsAt hbegin]
    exact List.Subset.refl _
  rw [removeVmem_eq_eraseP hbegin]
  exact List.eraseP_subset

theorem exists_armUnmapMemory_of_entry
    (h : t.lvl1Entry (armGetLvl1SectionIndex s.virtAddress) ≠ 0) :
    ∃ t', armUnmapMemory t s = .ok t' ∧ t'.lvl1Entry = t.lvl1Entry := by
  rw [armUnmapMemory, armGetLvl2Table_of_ne_zero h, ok_bind]
  dsimp only
  split
  · exact ⟨_, rfl, rfl⟩
  · exact ⟨t, rfl, rfl⟩

theorem ProcessMemory.Entered.exists_processFreeVmem (h : p.Entered) (v : BitVec 32) :
    ∃ p', processFreeVmem p v = .ok p' ∧ p'.Entered := by
  unfold processFreeVmem
  split
  next current hfind =>
    have hentry := h current (List.mem_of_find?_eq_some hfind)
    obtain ⟨u, hunmap, hsame⟩ := exists_armUnmapMemory_of_entry hentry
    refine ⟨{ p with sections := removeVmem v p.sections, pageTable := u }, ?_, fun s hs => ?_⟩
    · rw [hunmap]
      rfl
    rw [hsame]
    exact h s (removeVmem_subset hs)
  · exact ⟨p, rfl, h⟩

end Tinker
