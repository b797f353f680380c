import Tinker.Lib.Run
import Tinker.Memory.Mapping
import Tinker.Process.Sections

/-!
# Unmapping a section

`arm_unmap_memory` clears the level 2 entry of the first page of a section, and no other. A section
entry is taken for the address of a level 2 table, and the page stays mapped too. So unmapping
undoes the mapping of a single page only, unless that page is at `0xFFF00000`.
-/

namespace Tinker

open Tinker.Lib Exec

variable {s : MemSection} {t t' : PgTbl} {page : ℕ} {v : BitVec 32} {ret : ReturnT}

theorem MemSection.samePage_of_boundary {q : ℕ} (h : (s.pageVirt page).toNat % 1048576 = 0)
    (hle : page ≤ q) (hlt : q < page + 256) :
    (s.pageVirt q).toNat / 1048576 = (s.pageVirt page).toNat / 1048576 := by
  simp only [MemSection.pageVirt, BitVec.toNat_add, BitVec.toNat_ofNat, mmuPageSize] at h ⊢
  omega

theorem armIs1mbSection_boundary {start stop : BitVec 32} (h : armIs1mbSection start stop = true) :
    start.toNat % 1048576 = 0 := by
  unfold armIs1mbSection at h
  split at h
  · cases h
  next hzero =>
    rw [ne_eq, not_not] at hzero
    simpa using congrArg BitVec.toNat hzero

theorem walk_mapSection_ne_none {virt real : BitVec 32} (h : walk t v ≠ none) :
    walk (armMapSection s virt real t) v ≠ none := by
  rw [walk_mapSection]
  split
  · exact Option.some_ne_none _
  · exact h

theorem holdsSection_mapSection {virt real : BitVec 32} {i : BitVec 12} (h : t.HoldsSection i) :
    (armMapSection s virt real t).HoldsSection i := by
  by_cases hi : i = armGetLvl1SectionIndex virt
  · subst hi
    exact holdsSection_of_lvl1 armMapSection_self
  · rwa [PgTbl.HoldsSection, armMapSection_of_ne hi]

/-- Whatever else the loop does, also if the section wraps around, it maps all pages from the one it
has reached on. It takes no translation away, and no section entry. -/
theorem PgTbl.Ok.armMapPages_mapped (ok : t.Ok) (h : armMapPages s page t = .ok (ret, t')) :
    t'.Ok ∧ (∀ v, walk t v ≠ none → walk t' v ≠ none) ∧
      (∀ i, t.HoldsSection i → t'.HoldsSection i) ∧
      ∀ q, page ≤ q → q < s.pages → walk t' (s.pageVirt q) ≠ none := by
  induction hleft : s.pages - page using Nat.strong_induction_on generalizing page t with
  | _ left ih =>
    rw [armMapPages] at h
    split at h
    next hpage =>
      dsimp only at h
      split at h
      next hmib =>
        obtain ⟨ok', hkeeps, hholds, hmapped⟩ := ih _ (by omega) ok.mapSection h rfl
        refine ⟨ok', fun v hv => hkeeps v (walk_mapSection_ne_none hv),
          fun i hi => hholds i (holdsSection_mapSection hi), fun q hle hlt => ?_⟩
        by_cases hfar : page + armMmuSectionPages + 1 ≤ q
        · exact hmapped q hfar hlt
        refine hkeeps _ ?_
        rw [walk_mapSection, if_pos]
        · exact Option.some_ne_none _
        refine s.samePage_of_boundary (armIs1mbSection_boundary hmib) hle ?_
        unfold armMmuSectionPages at hfar
        omega
      obtain ⟨⟨ret₁, u⟩, hmap, h⟩ := of_bind h
      obtain ⟨rfl, ok₁, hholds₁, hfirst, hkeeps₁⟩ := ok.mapPage_mapped hmap
      obtain ⟨ok', hkeeps, hholds, hmapped⟩ := ih _ (by omega) ok₁ h rfl
      refine ⟨ok', fun v hv => hkeeps v (hkeeps₁ v hv),
        fun i hi => hholds i ((hholds₁ i).mpr hi), fun q hle hlt => ?_⟩
      rcases hle.eq_or_lt with rfl | hlt'
      · exact hkeeps _ hfirst
      · exact hmapped q hlt' hlt
    cases h
    exact ⟨ok, fun _ hv => hv, fun _ hi => hi, fun q hle hlt => absurd hlt (by omega)⟩

theorem lvl1Entry_ne_zero_of_walk (h : walk t v ≠ none) :
    t.lvl1Entry (armGetLvl1SectionIndex v) ≠ 0 :=
  fun hzero => h (walk_of_zero hzero)

/-- Unmapping takes away the translation of the first page, if it does not come from a section
entry. -/
theorem PgTbl.Ok.armUnmapMemory (ok : t.Ok) (h : armUnmapMemory t s = .ok t') :
    if t.HoldsSection (armGetLvl1SectionIndex s.virtAddress) then
      walk t' s.virtAddress = walk t s.virtAddress
    else
      ∀ v, walk t' v =
        if v.toNat / 4096 = s.virtAddress.toNat / 4096 then none else walk t v := by
  obtain ⟨⟨base, u⟩, htable, h⟩ := of_bind h
  obtain ⟨hne, ok', hwalk, hholds, hcourse⟩ := ok.getLvl2Table_cases htable
  dsimp only at h
  rw [if_pos hne] at h
  cases h
  split
  next hsection =>
    obtain ⟨s', real, hentry⟩ := ok'.section_of_holds ((hholds _).mpr hsection)
    rw [← hwalk, walk_of_section hentry]
    exact walk_of_section hentry
  next hsection =>
    obtain ⟨hbase, hcourse⟩ := hcourse hsection
    intro v
    rw [ok'.walk_setLvl2 hbase hcourse, walkLvl2_zero, hwalk]

theorem exists_armUnmapMemory (h : walk t s.virtAddress ≠ none) :
    ∃ t', armUnmapMemory t s = .ok t' := by
  simp only [armUnmapMemory, armGetLvl2Table_of_ne_zero (lvl1Entry_ne_zero_of_walk h), ok_bind]
  split
  · exact ⟨_, rfl⟩
  · exact ⟨_, rfl⟩

/-! ## Mapping and unmapping -/

/-- Where no page of a section is mapped, mapping and unmapping it leaves nothing behind. -/
def UnmapUndoesMap (s : MemSection) : Prop :=
  ∀ t : PgTbl, t.Ok →
    (∀ o < s.pages * 4096, walk t (s.virtAddress + BitVec.ofNat 32 o) = none) →
    ∀ ret t' t'', armMapMemory t s = .ok (ret, t') → armUnmapMemory t' s = .ok t'' →
      (∀ o < s.size.toNat, walk t'' (s.virtAddress + BitVec.ofNat 32 o) = none) ∧
        ∀ v, (∀ o < s.size.toNat, v ≠ s.virtAddress + BitVec.ofNat 32 o) → walk t'' v = walk t v

theorem MemSection.pageVirt_zero (s : MemSection) : s.pageVirt 0 = s.virtAddress := by
  rw [MemSection.pageVirt, Nat.zero_mul]
  exact BitVec.add_zero _

theorem MemSection.PageAligned.armMapMemory_page (aligned : s.PageAligned) (hone : s.pages = 1)
    (hvirt : s.virtAddress ≠ 0xFFF00000#32) (ok : t.Ok)
    (h : armMapMemory t s = .ok (ret, t')) :
    armMapPage s t s.virtAddress (s.pageReal 0) = .ok (ret, t') := by
  have hstop : s.stop = s.virtAddress.toNat + 4096 := by rw [MemSection.stop, hone]
  have hmod := aligned.virt
  unfold mmuPageSize at hmod
  have hno : ¬ armIs1mbSection (s.pageVirt 0)
      (s.pageVirt 0 + BitVec.ofNat 32 ((s.pages - 0) * mmuPageSize)) = true := by
    rw [armIs1mbSection_iff (by omega) (by omega), s.pageVirt_zero, hstop]
    rintro ⟨hboundary, hsection⟩
    have hlast : s.virtAddress.toNat = (0xFFF00000#32).toNat := by
      rw [show (0xFFF00000#32).toNat = 0xFFF00000 from rfl]
      unfold SectionAt at hsection
      omega
    exact hvirt (BitVec.eq_of_toNat_eq hlast)
  rw [armMapMemory, armMapPages, if_pos (by omega)] at h
  rw [if_neg hno, s.pageVirt_zero] at h
  obtain ⟨⟨ret₁, u⟩, hmap, h⟩ := of_bind h
  obtain ⟨rfl, -⟩ := ok.mapPage_mapped hmap
  dsimp only at h
  rw [if_neg (not_not.mpr rfl), armMapPages, if_neg (by omega)] at h
  rw [hmap]
  exact h

theorem samePage_of_offset {virt : BitVec 32} {o : ℕ} (hvirt : virt.toNat % 4096 = 0)
    (ho : o < 4096) : (virt + BitVec.ofNat 32 o).toNat / 4096 = virt.toNat / 4096 := by
  rw [BitVec.toNat_add, BitVec.toNat_ofNat]
  omega

theorem exists_offset_of_samePage {virt : BitVec 32} (hvirt : virt.toNat % 4096 = 0)
    (h : v.toNat / 4096 = virt.toNat / 4096) : ∃ o < 4096, v = virt + BitVec.ofNat 32 o := by
  refine ⟨v.toNat % 4096, Nat.mod_lt _ (by decide), BitVec.eq_of_toNat_eq ?_⟩
  rw [BitVec.toNat_add, BitVec.toNat_ofNat]
  omega

theorem MemSection.PageAligned.unmapUndoesMap (aligned : s.PageAligned)
    (hsize : s.size.toNat ≤ 4096) (hvirt : s.virtAddress ≠ 0xFFF00000#32) : UnmapUndoesMap s := by
  intro t ok hunmapped ret t' t'' hmap hunmap
  have hpos := aligned.pos
  have hone : s.pages = 1 := by
    rw [s.pages_eq]
    omega
  have hmod := aligned.virt
  rw [hone, Nat.one_mul] at hunmapped
  -- a section entry would translate the page already
  have hsection : ¬ t.HoldsSection (armGetLvl1SectionIndex s.virtAddress) := by
    intro hholds
    obtain ⟨s', real, hentry⟩ := ok.section_of_holds hholds
    have hnone := hunmapped 0 (by decide)
    rw [show s.virtAddress + BitVec.ofNat 32 0 = s.virtAddress from BitVec.add_zero _,
      walk_of_section hentry] at hnone
    cases hnone
  obtain ⟨-, ok', hholds, hwalk'⟩ :=
    ok.mapPage hsection (aligned.armMapMemory_page hone hvirt ok hmap)
  have hwalk'' := ok'.armUnmapMemory hunmap
  rw [if_neg (mt (hholds _).mp hsection)] at hwalk''
  have hwalk : ∀ v, walk t'' v =
      if v.toNat / 4096 = s.virtAddress.toNat / 4096 then none else walk t v := by
    intro v
    rw [hwalk'', hwalk']
    split <;> rfl
  refine ⟨fun o ho => ?_, fun v hv => ?_⟩
  · rw [hwalk, if_pos (samePage_of_offset hmod (ho.trans_le hsize))]
  rw [hwalk]
  split
  next hsame =>
    obtain ⟨o, ho, rfl⟩ := exists_offset_of_samePage hmod hsame
    rw [hunmapped o ho]
  · rfl

theorem processFreeVmem_pageTable {p p' : ProcessMemory}
    (hfind : (p.sections.find? fun r => r.virtAddress = s.virtAddress) = some s)
    (h : processFreeVmem p s.virtAddress = .ok p') :
    armUnmapMemory p.pageTable s = .ok p'.pageTable := by
  simp only [processFreeVmem, hfind] at h
  obtain ⟨u, hunmap, h⟩ := of_bind h
  cases h
  exact hunmap

/-- At the last MiB the comparison always holds. -/
theorem armIs1mbSection_last (stop : BitVec 32) : armIs1mbSection 0xFFF00000#32 stop = true := by
  unfold armIs1mbSection
  rw [if_neg (by decide), if_neg]
  exact BitVec.not_lt_zero

/-- Unmapping undoes mapping for single pages that do not begin the last MiB, and for no other
section; and `process_free_vmem` unmaps in the same way. -/
theorem unmapUndoesMap_iff (aligned : s.PageAligned) :
    (UnmapUndoesMap s ↔ s.size.toNat ≤ 4096 ∧ s.virtAddress ≠ 0xFFF00000#32) ∧
      ∀ p p' : ProcessMemory,
        (p.sections.find? fun r => r.virtAddress = s.virtAddress) = some s →
        processFreeVmem p s.virtAddress = .ok p' →
        armUnmapMemory p.pageTable s = .ok p'.pageTable := by
  refine ⟨⟨fun undoes => ?_, fun h => aligned.unmapUndoesMap h.1 h.2⟩,
    fun p p' => processFreeVmem_pageTable⟩
  have hpos := aligned.pos
  have hpages := s.pages_eq
  have hmod := aligned.virt
  unfold mmuPageSize at hmod
  obtain ⟨t', hmap⟩ := stocked_tablePool.armMapPages ok_tablePool s 0
  obtain ⟨ok', -, -, hmapped⟩ := ok_tablePool.armMapPages_mapped hmap
  have hfirst := hmapped 0 le_rfl (by omega)
  rw [s.pageVirt_zero] at hfirst
  obtain ⟨t'', hunmap⟩ := exists_armUnmapMemory hfirst
  obtain ⟨hnone, hrest⟩ :=
    undoes _ ok_tablePool (fun o _ => walk_initialise ..) _ t' t'' hmap hunmap
  have hwalk := ok'.armUnmapMemory hunmap
  split at hwalk
  · -- the section entry stays
    have hzero := hnone 0 hpos
    rw [show s.virtAddress + BitVec.ofNat 32 0 = s.virtAddress from BitVec.add_zero _, hwalk]
      at hzero
    exact absurd hzero hfirst
  · refine ⟨?_, ?_⟩
    · -- the second page stays mapped
      by_contra hlong
      have hsecond := hmapped 1 (by decide) (by omega)
      have hzero := hnone 4096 (by omega)
      rw [hwalk, if_neg] at hzero
      · exact hsecond hzero
      · have hlt := s.virtAddress.isLt
        rw [BitVec.toNat_add, BitVec.toNat_ofNat]
        omega
    · -- for the last MiB a section entry is made in any case
      intro hvirt
      next hno =>
      refine hno ?_
      have hmib : armIs1mbSection (s.pageVirt 0)
          (s.pageVirt 0 + BitVec.ofNat 32 ((s.pages - 0) * mmuPageSize)) = true := by
        rw [s.pageVirt_zero, hvirt]
        exact armIs1mbSection_last _
      rw [armMapPages, if_pos (by omega)] at hmap
      dsimp only at hmap
      rw [if_pos hmib, s.pageVirt_zero] at hmap
      obtain ⟨-, -, hholds, -⟩ := ok_tablePool.mapSection.armMapPages_mapped hmap
      exact hholds _ (holdsSection_of_lvl1 armMapSection_self)

/-- One page, mapped and unmapped. -/
theorem unmapUndoesMap_iff_page :
    UnmapUndoesMap ⟨0x00100000#32, 0xC0100000#32, 0x00001000#32, .randomAccessMemory, .allAccess,
      .readWrite⟩ :=
  (unmapUndoesMap_iff ⟨by decide, by decide, by decide⟩).1.mpr (by decide)

theorem armMapPages_page (hpage : page < s.pages)
    (hno : armIs1mbSection (s.pageVirt page)
      (s.pageVirt page + BitVec.ofNat 32 ((s.pages - page) * mmuPageSize)) = false)
    (hmap : armMapPage s t (s.pageVirt page) (s.pageReal page) = .ok (.noError, t')) :
    armMapPages s page t = armMapPages s (page + 1) t' := by
  rw [armMapPages, if_pos hpage]
  dsimp only
  rw [hno, hmap]
  rfl

/-- Two pages; after they have been unmapped the second one is still there. -/
theorem not_unmapUndoesMap : ∃ t' t'',
    armMapMemory (tgtInitialisePageTable [0x00004000#32]) ⟨0x00100000#32, 0xC0100000#32,
      0x00002000#32, .randomAccessMemory, .allAccess, .readWrite⟩ = .ok (.noError, t') ∧
    armUnmapMemory t' ⟨0x00100000#32, 0xC0100000#32, 0x00002000#32, .randomAccessMemory,
      .allAccess, .readWrite⟩ = .ok t'' ∧
    (walk t'' 0xC0101000#32).map Translation.real = some 0x00101000#32 := by
  rw [armMapMemory, armMapPages_page (by decide) (by decide) rfl,
    armMapPages_page (by decide) (by decide) rfl, armMapPages, if_neg (by decide)]
  exact ⟨_, _, rfl, rfl, by decide⟩

/-! ## Runs of mapping and unmapping -/

/-- A call that changes the page table. -/
inductive MmuCall
  | map (s : MemSection)
  | unmap (s : MemSection)

namespace MmuCall

/-- One call. -/
def apply (t : PgTbl) : MmuCall → Exec PgTbl
  | map s => do
    let (_, t) ← armMapMemory t s
    return t
  | unmap s => armUnmapMemory t s

/-- The call comes upon no section entry, and a section that is mapped is aligned and in the
address space. -/
def Clear (t : PgTbl) : MmuCall → Prop
  | map s => s.PageAligned ∧ s.stop ≤ 2 ^ 32 ∧ NoSections s s.virtAddress.toNat t
  | unmap s => ¬ t.HoldsSection (armGetLvl1SectionIndex s.virtAddress)

/-- What the call does to the translation of addresses. -/
def translated (f : BitVec 32 → Option Translation) : MmuCall → BitVec 32 → Option Translation
  | map s, v => (s.translation s.virtAddress.toNat v).or (f v)
  | unmap s, v => if v.toNat / 4096 = s.virtAddress.toNat / 4096 then none else f v

theorem walk_apply {c : MmuCall} (ok : t.Ok) (clear : c.Clear t) (h : c.apply t = .ok t') :
    t'.Ok ∧ walk t' = c.translated (walk t) := by
  cases c with
  | map s =>
    obtain ⟨aligned, hfit, hsections⟩ := clear
    obtain ⟨⟨ret, u⟩, hmap, h⟩ := of_bind h
    cases h
    obtain ⟨-, ok', hwalk⟩ := ok.walk_armMapMemory aligned hfit hsections hmap
    exact ⟨ok', funext hwalk⟩
  | unmap s =>
    have hwalk := ok.armUnmapMemory h
    rw [if_neg clear] at hwalk
    obtain ⟨⟨base, u⟩, htable, h⟩ := of_bind h
    obtain ⟨hne, ok', -⟩ := ok.getLvl2Table_cases htable
    dsimp only at h
    rw [if_pos hne] at h
    cases h
    exact ⟨ok'.setLvl2, funext hwalk⟩

end MmuCall

/-- After every run of mappings and unmappings that come upon no section entry, the hardware
translates an address as the last call that covered it says. -/
theorem walk_of_run {pool : List (BitVec 32)} {calls : List MmuCall}
    (hbase : ∀ base ∈ pool, TableBase base) (hnodup : pool.Nodup)
    (run : Run MmuCall.apply (fun t c => c.Clear t) (tgtInitialisePageTable pool) calls t) :
    walk t = calls.foldl MmuCall.translated fun _ => none := by
  have hstart : walk (tgtInitialisePageTable pool) = fun _ => none :=
    funext (walk_initialise pool)
  rw [← hstart]
  exact run.foldl_view (.initialise hbase hnodup) fun _ _ _ ok clear h =>
    MmuCall.walk_apply ok clear h

/-- Two pages of one MiB, mapped to places far from each other. -/
def firstPage : MemSection :=
  ⟨0x00100000#32, 0xC0100000#32, 0x00001000#32, .randomAccessMemory, .allAccess, .readWrite⟩

@[inherit_doc firstPage]
def secondPage : MemSection :=
  ⟨0x00300000#32, 0xC0101000#32, 0x00001000#32, .deviceMemory, .kernelAccess, .readWrite⟩

theorem MmuCall.apply_page (hone : s.pages = 1)
    (hno : armIs1mbSection (s.pageVirt 0)
      (s.pageVirt 0 + BitVec.ofNat 32 ((s.pages - 0) * mmuPageSize)) = false)
    (hmap : armMapPage s t (s.pageVirt 0) (s.pageReal 0) = .ok (.noError, t')) :
    MmuCall.apply t (.map s) = .ok t' := by
  rw [apply, armMapMemory, armMapPages_page (by omega) hno hmap, armMapPages, if_neg (by omega)]
  rfl

theorem MmuCall.Clear.onePage (aligned : s.PageAligned) (hlo : 0xC0100000 ≤ s.virtAddress.toNat)
    (hhi : s.stop ≤ 0xC0200000) (hno : ¬ t.HoldsSection 0xC01#12) : (MmuCall.map s).Clear t := by
  refine ⟨aligned, by omega, fun i hi hi' => ?_⟩
  have htoNat : i.toNat = 0xC01 := by omega
  obtain rfl : i = 0xC01#12 := BitVec.eq_of_toNat_eq htoNat
  exact hno

/-- Both pages are mapped, and the first one is unmapped. -/
theorem walk_of_run_pages : ∃ t, Run MmuCall.apply (fun t c => c.Clear t)
      (tgtInitialisePageTable [0x00004000#32]) [.map firstPage, .map secondPage, .unmap firstPage]
      t ∧
    walk t 0xC0100123#32 = none ∧
    (walk t 0xC0101123#32).map Translation.real = some 0x00300123#32 := by
  obtain ⟨t₁, t₂, t₃, h₁, h₂, h₃, hno₁, hno₂⟩ : ∃ t₁ t₂ t₃,
      MmuCall.apply (tgtInitialisePageTable [0x00004000#32]) (.map firstPage) = .ok t₁ ∧
      MmuCall.apply t₁ (.map secondPage) = .ok t₂ ∧ MmuCall.apply t₂ (.unmap firstPage) = .ok t₃ ∧
      ¬ t₁.HoldsSection 0xC01#12 ∧ ¬ t₂.HoldsSection 0xC01#12 :=
    ⟨_, _, _, MmuCall.apply_page rfl rfl rfl, MmuCall.apply_page rfl rfl rfl, rfl, by decide,
      by decide⟩
  have run : Run MmuCall.apply (fun t c => c.Clear t) (tgtInitialisePageTable [0x00004000#32])
      [.map firstPage, .map secondPage, .unmap firstPage] t₃ := by
    refine .cons (.onePage ?_ ?_ ?_ ?_) h₁ (.cons (.onePage ?_ ?_ ?_ hno₁) h₂
      (.cons hno₂ h₃ (.nil t₃)))
    · exact ⟨by decide, by decide, by decide⟩
    · decide
    · decide
    · decide
    · exact ⟨by decide, by decide, by decide⟩
    · decide
    · decide
  have hbase : ∀ base ∈ [0x00004000#32], TableBase base := by
    intro base hbase
    obtain rfl := List.mem_singleton.mp hbase
    exact ⟨by decide, by decide⟩
  refine ⟨t₃, run, ?_⟩
  rw [walk_of_run hbase (List.nodup_singleton _) run]
  decide

end Tinker
