import Tinker.Lib.Run
import Tinker.Memory.PageTable

/-!
# Section entries as table pointers

`arm_get_lvl2_table` is meant to return null where the entry of the first level is one of a section.
It looks for the kind of the entry after the low bits have been masked out, so that the test never
succeeds, and what is left of the entry is returned as the address of a table.

Where there is no section entry, the table that is returned has been taken from the pool.
-/

namespace Tinker

open Tinker.Lib Exec

variable {t t' : PgTbl} {s : MemSection} {v base : BitVec 32} {pool : List (BitVec 32)}

/-! ## Any table -/

def PgTbl.SectionSlot (t : PgTbl) (v : BitVec 32) : Prop :=
  ∃ base attributes, decodeLvl1 (t.lvl1Entry (armGetLvl1SectionIndex v)) = .section base attributes

/-- No table is found for the address, no page is mapped there, and nothing is written. -/
def PgTbl.RefusesSection (t : PgTbl) (v : BitVec 32) : Prop :=
  armGetLvl2Table v true t = .ok (0, t) ∧
    (∀ (s : MemSection) (real : BitVec 32), armMapPage s t v real = .ok (.outOfMemory, t)) ∧
    ∀ s : MemSection, s.virtAddress = v → armUnmapMemory t s = .ok t

theorem PgTbl.SectionSlot.holdsSection (h : t.SectionSlot v) :
    t.HoldsSection (armGetLvl1SectionIndex v) := by
  obtain ⟨base, attributes, hdecode⟩ := h
  by_contra hkind
  rw [PgTbl.HoldsSection] at hkind
  rw [decodeLvl1] at hdecode
  split at hdecode
  · cases hdecode
  · cases hdecode

theorem PgTbl.SectionSlot.entry_ne_zero (h : t.SectionSlot v) :
    t.lvl1Entry (armGetLvl1SectionIndex v) ≠ 0 :=
  fun hzero => not_holdsSection_of_zero hzero h.holdsSection

/-- A section entry is refused exactly if the mask leaves nothing of it. -/
theorem PgTbl.SectionSlot.refusesSection_iff (h : t.SectionSlot v) :
    t.RefusesSection v ↔
      armGetLvl2VirtAddr (t.lvl1Entry (armGetLvl1SectionIndex v)) = 0 := by
  have htable := armGetLvl2Table_of_ne_zero h.entry_ne_zero
  constructor
  · rintro ⟨hnull, -⟩
    exact (Prod.mk.inj (Except.ok.inj (htable.symm.trans hnull))).1
  intro hnull
  rw [hnull] at htable
  refine ⟨htable, fun s real => ?_, fun s hs => ?_⟩
  · rw [armMapPage, htable]
    rfl
  rw [armUnmapMemory, hs, htable]
  rfl

/-! ## Tables that the kernel has made -/

/-- A section is mapped or unmapped. -/
inductive MmuStep
  | mapPage (s : MemSection) (virt real : BitVec 32)
  | mapSection (s : MemSection) (virt real : BitVec 32)
  | unmap (s : MemSection)

/-- One step. -/
def MmuStep.apply (t : PgTbl) : MmuStep → Exec PgTbl
  | mapPage s virt real => do
    let (_, t) ← armMapPage s t virt real
    return t
  | mapSection s virt real => return armMapSection s virt real t
  | unmap s => armUnmapMemory t s

/-- The step does not look for a table where there is a section entry. -/
def MmuStep.AvoidsSections (t : PgTbl) : MmuStep → Prop
  | mapPage _ virt _ => ¬ t.SectionSlot virt
  | mapSection .. => True
  | unmap s => ¬ t.SectionSlot s.virtAddress

/-- The table has been taken from the pool that the page table began with. -/
def PgTbl.HandedOut (pool : List (BitVec 32)) (t : PgTbl) (base : BitVec 32) : Prop :=
  ∃ used, pool = used ++ t.pool ∧ base ∈ used

/-- Sections are refused, and a table that is found has been taken from the pool. -/
def PgTbl.UsesTables (pool : List (BitVec 32)) (t : PgTbl) (v : BitVec 32) : Prop :=
  (t.SectionSlot v → t.RefusesSection v) ∧
    ∀ base t', armGetLvl2Table v true t = .ok (base, t') → base ≠ 0 → t'.HandedOut pool base

/-- The entries of the page table lead to tables from the pool. -/
structure PgTbl.Supplied (pool : List (BitVec 32)) (t : PgTbl) : Prop where
  ok : t.Ok
  suffix : ∃ used, pool = used ++ t.pool
  handedOut : ∀ i base, TableBase base → t.lvl1Entry i = courseEntry base → t.HandedOut pool base

/-- Of the tables that the kernel has made, those with a section entry are the ones for which the
hardware finds a section. -/
theorem PgTbl.Ok.sectionSlot_iff (ok : t.Ok) :
    t.SectionSlot v ↔ t.HoldsSection (armGetLvl1SectionIndex v) := by
  refine ⟨fun h => h.holdsSection, fun h => ?_⟩
  obtain ⟨s, real, hentry⟩ := ok.section_of_holds h
  exact ⟨_, _, by rw [hentry, s.decodeLvl1_lvl1]⟩

theorem PgTbl.Ok.not_refusesSection (ok : t.Ok) (h : t.SectionSlot v) : ¬ t.RefusesSection v := by
  obtain ⟨s, real, hentry⟩ := ok.section_of_holds h.holdsSection
  rw [h.refusesSection_iff, hentry]
  exact s.armGetLvl2VirtAddr_lvl1_ne_zero real

theorem PgTbl.Supplied.getLvl2Table (h : t.Supplied pool) (hslot : ¬ t.SectionSlot v)
    (hget : armGetLvl2Table v true t = .ok (base, t')) :
    t'.Supplied pool ∧ t'.HandedOut pool base := by
  have hsection : ¬ t.HoldsSection (armGetLvl1SectionIndex v) := fun hs =>
    hslot (h.ok.sectionSlot_iff.mpr hs)
  obtain ⟨-, ok', -, -, hcourse⟩ := h.ok.getLvl2Table_cases hget
  obtain ⟨hbase, hcourse⟩ := hcourse hsection
  by_cases hzero : t.lvl1Entry (armGetLvl1SectionIndex v) = 0
  · -- a new table: it is the one that the pool hands out next
    cases hpool : t.pool with
    | nil => simp [armGetLvl2Table, hzero, hpool] at hget
    | cons b rest =>
      have hb : TableBase b := h.ok.pool b (by rw [hpool]; exact .head _)
      rw [armGetLvl2Table_of_zero hb hzero hpool] at hget
      obtain ⟨rfl, rfl⟩ := Prod.mk.inj (Except.ok.inj hget)
      have hmore (used : List (BitVec 32)) (hused : pool = used ++ t.pool) :
          pool = (used ++ [b]) ++ rest := by
        rw [hused, hpool, List.append_assoc, List.singleton_append]
      obtain ⟨used, hused⟩ := h.suffix
      have hnew : (t.addTable (armGetLvl1SectionIndex v) b rest).HandedOut pool b :=
        ⟨used ++ [b], hmore used hused, by simp⟩
      refine ⟨⟨ok', ⟨_, hmore used hused⟩, fun i base' hbase' hentry => ?_⟩, hnew⟩
      by_cases hi : i = armGetLvl1SectionIndex v
      · subst hi
        rw [PgTbl.addTable_self] at hentry
        rwa [← hb.courseEntry_inj hbase' hentry]
      rw [PgTbl.addTable_of_ne hi] at hentry
      obtain ⟨used, hused, hin⟩ := h.handedOut i base' hbase' hentry
      exact ⟨used ++ [b], hmore used hused, List.mem_append_left _ hin⟩
  rw [armGetLvl2Table_of_ne_zero hzero] at hget
  obtain ⟨-, rfl⟩ := Prod.mk.inj (Except.ok.inj hget)
  exact ⟨h, h.handedOut _ base hbase hcourse⟩

theorem PgTbl.Supplied.setLvl2 (h : t.Supplied pool) (page : BitVec 8) (entry : BitVec 32) :
    (t.setLvl2 base page entry).Supplied pool :=
  ⟨h.ok.setLvl2, h.suffix, h.handedOut⟩

theorem PgTbl.Supplied.mapSection (h : t.Supplied pool) (s : MemSection) (virt real : BitVec 32) :
    (armMapSection s virt real t).Supplied pool := by
  refine ⟨h.ok.mapSection, h.suffix, fun i base hbase hentry => ?_⟩
  by_cases hi : i = armGetLvl1SectionIndex virt
  · subst hi
    exact absurd (holdsSection_of_lvl1 armMapSection_self) (not_holdsSection_of_course hbase hentry)
  rw [armMapSection_of_ne hi] at hentry
  exact h.handedOut i base hbase hentry

theorem PgTbl.Supplied.step (h : t.Supplied pool) {step : MmuStep} (avoids : step.AvoidsSections t)
    (hstep : step.apply t = .ok t') : t'.Supplied pool := by
  cases step with
  | mapPage s virt real =>
    obtain ⟨⟨ret, u⟩, hmap, hu⟩ := of_bind hstep
    cases hu
    obtain ⟨⟨base, u'⟩, hget, hmap⟩ := of_bind hmap
    have hsupplied := (h.getLvl2Table avoids hget).1
    dsimp only at hmap
    split at hmap
    · cases hmap
      exact hsupplied.setLvl2 _ _
    cases hmap
    exact hsupplied
  | mapSection s virt real =>
    cases hstep
    exact h.mapSection s virt real
  | unmap s =>
    obtain ⟨⟨base, u⟩, hget, hstep⟩ := of_bind hstep
    have hsupplied := (h.getLvl2Table avoids hget).1
    dsimp only at hstep
    split at hstep
    · cases hstep
      exact hsupplied.setLvl2 _ _
    cases hstep
    exact hsupplied

theorem PgTbl.Supplied.initialise (hbase : ∀ base ∈ pool, TableBase base) (hnodup : pool.Nodup) :
    (tgtInitialisePageTable pool).Supplied pool :=
  ⟨.initialise hbase hnodup, ⟨[], rfl⟩, fun _ _ hb h => absurd h.symm hb.courseEntry_ne_zero⟩

theorem PgTbl.Supplied.usesTables_iff (h : t.Supplied pool) (v : BitVec 32) :
    t.UsesTables pool v ↔ ¬ t.SectionSlot v := by
  constructor
  · rintro ⟨hrefuses, -⟩ hslot
    exact h.ok.not_refusesSection hslot (hrefuses hslot)
  intro hslot
  exact ⟨fun h => absurd h hslot, fun base t' hget _ => (h.getLvl2Table hslot hget).2⟩

/-- In any page table a section entry is refused exactly if its upper 20 bits are zero. In the page
tables that the kernel makes, as long as it does not look for a table where there is a section
entry, exactly the addresses without one are treated as they should be. -/
theorem tablePointer_iff (t : PgTbl) (v : BitVec 32) :
    (t.SectionSlot v →
      (t.RefusesSection v ↔ armGetLvl2VirtAddr (t.lvl1Entry (armGetLvl1SectionIndex v)) = 0)) ∧
    ∀ (pool : List (BitVec 32)) (steps : List MmuStep),
      (∀ base ∈ pool, TableBase base) → pool.Nodup →
      Run MmuStep.apply (fun t step => step.AvoidsSections t) (tgtInitialisePageTable pool) steps
        t →
      (t.UsesTables pool v ↔ ¬ t.SectionSlot v) := by
  refine ⟨fun h => h.refusesSection_iff, fun pool steps hbase hnodup run => ?_⟩
  have supplied : t.Supplied pool :=
    run.invariant (.initialise hbase hnodup) fun _ _ _ h avoids hstep => h.step avoids hstep
  exact supplied.usesTables_iff v

def mibSection : MemSection :=
  ⟨0x100000#32, 0x100000#32, 0x100000#32, .randomAccessMemory, .allAccess, .readWrite⟩

/-- Mapping a page into a section that is mapped: the section entry is taken for a table at
`0x121000`, and the page is entered there. -/
theorem not_refusesSection_mib : ∃ t,
    Run MmuStep.apply (fun t step => step.AvoidsSections t) (tgtInitialisePageTable [])
      [.mapSection mibSection 0x100000#32 0x100000#32] t ∧
    t.SectionSlot 0x100000#32 ∧ ¬ t.RefusesSection 0x100000#32 ∧
    armGetLvl2Table 0x100000#32 true t = .ok (0x121000#32, t) := by
  have ok : (armMapSection mibSection 0x100000#32 0x100000#32 (tgtInitialisePageTable [])).Ok :=
    (PgTbl.Ok.initialise (by simp) List.nodup_nil).mapSection
  have hslot : (armMapSection mibSection 0x100000#32 0x100000#32
      (tgtInitialisePageTable [])).SectionSlot 0x100000#32 :=
    ok.sectionSlot_iff.mpr (holdsSection_of_lvl1 armMapSection_self)
  refine ⟨_, .cons trivial rfl (.nil _), hslot, ok.not_refusesSection hslot, ?_⟩
  rw [armGetLvl2Table_of_ne_zero hslot.entry_ne_zero, armMapSection_self]
  have hentry : armGetLvl2VirtAddr (mibSection.lvl1 0x100000#32) = 0x121000#32 := by decide
  rw [hentry]

end Tinker
