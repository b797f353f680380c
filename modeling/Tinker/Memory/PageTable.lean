import Tinker.Errors
import Tinker.Lib.BitField
import Tinker.Lib.Exec
import Tinker.Memory.Section

/-!
# The page table of the ARM

A table of two levels. An entry of the first one is empty, it is a section entry and translates
1 MiB, or it leads to a table of 256 entries for 4 KiB each. The kernel makes the entries as
numbers, adding up their fields; the hardware takes them apart again.

The memory for level 2 tables is a list of their addresses. A page table that the kernel has made
satisfies `PgTbl.Ok`: each entry is of one of the three kinds, and no two lead to the same table.
-/

namespace Tinker

open Tinker.Lib Function Exec MemSection

/-! ## Descriptors -/

/-- The kind of an entry that leads to a table. -/
def armPgTblSecondLevel : BitVec 32 := 1

/-- The kind of a section entry. -/
def armPgTblSection : BitVec 32 := 2

/-- The kind of a page of 4 KiB. -/
def armPgTbl4kExecuteEntry : BitVec 32 := 2

/-- The bit `nG`. -/
def armPgTblProcessSpecific : BitVec 32 := 1

/-- The bit `NS`. -/
def armPgTblNotTrustZone : BitVec 32 := 0

/-- The bit `S`. -/
def armPgTblNotShared : BitVec 32 := 0

/-- The bit `XN`. -/
def armPgTblExecute : BitVec 32 := 0

/-- The domain of every entry. -/
def defaultDomain : BitVec 32 := 0

/-- The bit `P`. -/
def eccOff : BitVec 32 := 0

/-- The field `TEX`. -/
def defaultTex : BitVec 32 := 1

/-- The field `AP` for a privilege. -/
def apBits : MmuPrivilege → BitVec 32
  | .noPrivilege => 0
  | .userAccess => 3
  | .kernelAccess => 1
  | .allAccess => 3

/-- A flag as a word. -/
def wordOfBool (b : Bool) : BitVec 32 := if b then 1 else 0

/-- The entry of level 1 for an address. -/
def armGetLvl1SectionIndex (v : BitVec 32) : BitVec 12 := ((v &&& 0xFFF00000#32) >>> 20).setWidth 12

/-- The entry of level 2 for an address. -/
def armGetLvl2PageIndex (v : BitVec 32) : BitVec 8 := ((v &&& 0x000FF000#32) >>> 12).setWidth 8

/-- An address without its last 12 bits. -/
def armGetLvl2VirtAddr (v : BitVec 32) : BitVec 32 := v &&& 0xFFFFF000#32

/-- An entry that leads to a table. -/
def armGenerateLvl1Course (base p domain ns : BitVec 32) : BitVec 32 :=
  armPgTblSecondLevel + (ns <<< 3) + (domain <<< 5) + (p <<< 9) + (base &&& (0x3FFFFF#32 <<< 10))

/-- An entry that translates 1 MiB. -/
def armGenerateLvl1Section (real ng s apx tex ap p domain nx cached buffered : BitVec 32) :
    BitVec 32 :=
  armPgTblSection + (buffered <<< 2) + (cached <<< 3) + (nx <<< 4) + (domain <<< 5) + (p <<< 9) +
    (ap <<< 10) + (tex <<< 12) + (apx <<< 15) + (s <<< 16) + (ng <<< 17) + (real &&& 0xFFF00000#32)

/-- An entry that translates 4 KiB. -/
def armGenerateLvl2 (real ng s apx tex ap cached buffered : BitVec 32) : BitVec 32 :=
  0#32 + armPgTbl4kExecuteEntry + (buffered <<< 2) + (cached <<< 3) + (ap <<< 4) + (tex <<< 6) +
    (apx <<< 9) + (s <<< 10) + (ng <<< 11) + armGetLvl2VirtAddr real

/-! ## Mapping and unmapping -/

/-- The entries of level 1, and of the tables at each address. -/
structure PgTbl where
  lvl1Entry : BitVec 12 → BitVec 32
  l2Tbl : BitVec 32 → BitVec 8 → BitVec 32
  /-- The addresses that the pool has for further tables. -/
  pool : List (BitVec 32)

open PgTbl

/-- A page table without entries. -/
def tgtInitialisePageTable (pool : List (BitVec 32)) : PgTbl := ⟨fun _ => 0, fun _ _ => 0, pool⟩

/-- The entry for the table at an address. -/
def courseEntry (base : BitVec 32) : BitVec 32 :=
  armGenerateLvl1Course base eccOff defaultDomain armPgTblNotTrustZone

/-- Enter an empty table. -/
def PgTbl.addTable (table : PgTbl) (i : BitVec 12) (base : BitVec 32) (pool : List (BitVec 32)) :
    PgTbl where
  lvl1Entry := update table.lvl1Entry i (courseEntry base)
  l2Tbl := update table.l2Tbl base fun _ => 0
  pool := pool

/-- The address of the table, or 0. -/
def armGetLvl2Table (virtual : BitVec 32) (createIfMissing : Bool) (table : PgTbl) :
    Exec (BitVec 32 × PgTbl) := do
  let virtSection := armGetLvl1SectionIndex virtual
  let table ←
    if table.lvl1Entry virtSection = 0 ∧ createIfMissing then
      match table.pool with
      | entry :: pool => pure (table.addTable virtSection entry pool)
      | [] => .error .halted
    else pure table
  let entry := armGetLvl2VirtAddr (table.lvl1Entry virtSection)
  -- meant to find section entries, but the mask has cleared the bit
  if entry &&& armPgTblSection = armPgTblSection then pure (0, table) else pure (entry, table)

/-- The sum is one of 32 bits. -/
def armIs1mbSection (start endAddress : BitVec 32) : Bool :=
  if start % 0x100000#32 ≠ 0 then false
  else if endAddress < start + 0x100000#32 then false
  else true

/-- The section entry for a part of a section. -/
def MemSection.lvl1 (s : MemSection) (real : BitVec 32) : BitVec 32 :=
  armGenerateLvl1Section real armPgTblProcessSpecific armPgTblNotShared
    (wordOfBool (s.accessRights = .readOnly)) defaultTex (apBits s.privilege) eccOff defaultDomain
    armPgTblExecute (wordOfBool (s.memoryType = .randomAccessMemory))
    (wordOfBool (s.memoryType = .randomAccessMemory))

/-- Map 1 MiB. -/
def armMapSection (s : MemSection) (virt real : BitVec 32) (table : PgTbl) : PgTbl :=
  { table with
    lvl1Entry := update table.lvl1Entry (armGetLvl1SectionIndex virt) (s.lvl1 real) }

/-- The page entry for a part of a section. -/
def MemSection.lvl2 (s : MemSection) (real : BitVec 32) : BitVec 32 :=
  armGenerateLvl2 real armPgTblProcessSpecific armPgTblNotShared
    (wordOfBool (s.accessRights = .readOnly)) defaultTex (apBits s.privilege)
    (wordOfBool (s.memoryType = .randomAccessMemory))
    (wordOfBool (s.memoryType = .randomAccessMemory))

/-- Write an entry of level 2. -/
def PgTbl.setLvl2 (table : PgTbl) (base : BitVec 32) (page : BitVec 8) (entry : BitVec 32) :
    PgTbl :=
  { table with
    l2Tbl := update table.l2Tbl base (update (table.l2Tbl base) page entry) }

/-- Map 4 KiB. -/
def armMapPage (s : MemSection) (table : PgTbl) (virt real : BitVec 32) :
    Exec (ReturnT × PgTbl) := do
  let (lvl2Tbl, table) ← armGetLvl2Table virt true table
  if lvl2Tbl ≠ 0 then
    pure (.noError, table.setLvl2 lvl2Tbl (armGetLvl2PageIndex virt) (s.lvl2 real))
  else pure (.outOfMemory, table)

/-- The pages of a section, the last one rounded up. -/
def MemSection.pages (s : MemSection) : ℕ :=
  let pages := s.size.toNat / mmuPageSize
  if s.size.toNat % mmuPageSize ≠ 0 then pages + 1 else pages

/-- The pages of 1 MiB, less the one that the loop adds. -/
def armMmuSectionPages : ℕ := 255

/-- Where a page begins. -/
def MemSection.pageVirt (s : MemSection) (page : ℕ) : BitVec 32 :=
  s.virtAddress + BitVec.ofNat 32 (page * mmuPageSize)

/-- Where the memory of a page begins. -/
def MemSection.pageReal (s : MemSection) (page : ℕ) : BitVec 32 :=
  s.realAddress + BitVec.ofNat 32 (page * mmuPageSize)

/-- The loop of `arm_map_memory` from a page on. -/
def armMapPages (s : MemSection) (page : ℕ) (table : PgTbl) : Exec (ReturnT × PgTbl) :=
  if page < s.pages then
    let virt := s.pageVirt page
    let endAddress := virt + BitVec.ofNat 32 ((s.pages - page) * mmuPageSize)
    let real := s.pageReal page
    if armIs1mbSection virt endAddress then
      armMapPages s (page + armMmuSectionPages + 1) (armMapSection s virt real table)
    else do
      let (ret, table) ← armMapPage s table virt real
      if ret ≠ .noError then pure (ret, table) else armMapPages s (page + 1) table
  else pure (.noError, table)
termination_by s.pages - page
decreasing_by all_goals omega

/-- Map every page of a section. -/
def armMapMemory (table : PgTbl) (s : MemSection) : Exec (ReturnT × PgTbl) := armMapPages s 0 table

/-- Clear the entry of the first page. -/
def armUnmapMemory (table : PgTbl) (s : MemSection) : Exec PgTbl := do
  let (lvl2Tbl, table) ← armGetLvl2Table s.virtAddress true table
  if lvl2Tbl ≠ 0 then
    pure (table.setLvl2 lvl2Tbl (armGetLvl2PageIndex s.virtAddress) 0)
  else pure table

/-! ## The walk of the hardware -/

/-- The fields of an entry that decide about access and caching. -/
structure Attributes where
  ap : BitVec 2
  apx : Bool
  c : Bool
  b : Bool
  deriving DecidableEq, Repr

/-- What the hardware takes an entry of level 1 for. -/
inductive Lvl1Descriptor
  | fault
  | course (base : BitVec 32)
  | section (base : BitVec 32) (attributes : Attributes)
  | supersection (base : BitVec 32) (attributes : Attributes)
  deriving DecidableEq, Repr

/-- What the hardware takes an entry of level 2 for. -/
inductive Lvl2Descriptor
  | fault
  | largePage (base : BitVec 32) (attributes : Attributes)
  | smallPage (base : BitVec 32) (attributes : Attributes)
  deriving DecidableEq, Repr

/-- Take an entry of level 1 apart. -/
def decodeLvl1 (entry : BitVec 32) : Lvl1Descriptor :=
  let attributes := ⟨entry.extractLsb' 10 2, entry.getLsbD 15, entry.getLsbD 3, entry.getLsbD 2⟩
  if entry.extractLsb' 0 2 = 1#2 then .course (entry &&& 0xFFFFFC00#32)
  else if entry.extractLsb' 0 2 = 2#2 then
    if entry.getLsbD 18 then .supersection (entry &&& 0xFF000000#32) attributes
    else .section (entry &&& 0xFFF00000#32) attributes
  else .fault

/-- Take an entry of level 2 apart. -/
def decodeLvl2 (entry : BitVec 32) : Lvl2Descriptor :=
  let attributes := ⟨entry.extractLsb' 4 2, entry.getLsbD 9, entry.getLsbD 3, entry.getLsbD 2⟩
  if entry.getLsbD 1 then .smallPage (entry &&& 0xFFFFF000#32) attributes
  else if entry.getLsbD 0 then .largePage (entry &&& 0xFFFF0000#32) attributes
  else .fault

/-- The result of a walk. -/
structure Translation where
  real : BitVec 32
  attributes : Attributes
  deriving DecidableEq, Repr

/-- The second step of a walk. -/
def walkLvl2 (entry v : BitVec 32) : Option Translation :=
  match decodeLvl2 entry with
  | .fault => none
  | .largePage base attributes => some ⟨base + (v &&& 0x0000FFFF#32), attributes⟩
  | .smallPage base attributes => some ⟨base + (v &&& 0x00000FFF#32), attributes⟩

/-- What the hardware translates an address to. -/
def walk (table : PgTbl) (v : BitVec 32) : Option Translation :=
  match decodeLvl1 (table.lvl1Entry (armGetLvl1SectionIndex v)) with
  | .fault => none
  | .course base => walkLvl2 (table.l2Tbl base (armGetLvl2PageIndex v)) v
  | .section base attributes => some ⟨base + (v &&& 0x000FFFFF#32), attributes⟩
  | .supersection base attributes => some ⟨base + (v &&& 0x00FFFFFF#32), attributes⟩

/-! ## Fields of the descriptors -/

section Fields

theorem toNat_armGetLvl2VirtAddr (v : BitVec 32) :
    (armGetLvl2VirtAddr v).toNat = v.toNat / 4096 * 4096 :=
  toNat_and_highMask v 12

theorem toNat_sectionMask (v : BitVec 32) :
    (v &&& 0xFFF00000#32).toNat = v.toNat / 1048576 * 1048576 :=
  toNat_and_highMask v 20

theorem toNat_armGetLvl1SectionIndex (v : BitVec 32) :
    (armGetLvl1SectionIndex v).toNat = v.toNat / 1048576 := by
  rw [armGetLvl1SectionIndex, BitVec.toNat_setWidth, BitVec.toNat_ushiftRight, toNat_sectionMask,
    Nat.shiftRight_eq_div_pow]
  omega

theorem toNat_armGetLvl2PageIndex (v : BitVec 32) :
    (armGetLvl2PageIndex v).toNat = v.toNat / 4096 % 256 := by
  have hmask : v &&& 0x000FF000#32 = v &&& 0xFFFFF000#32 &&& 0xFFFFF#32 := by
    rw [BitVec.and_assoc]
    rfl
  have hlow := toNat_and_lowMask (v &&& 0xFFFFF000#32) (show 20 ≤ 32 by decide)
  have hhigh := toNat_armGetLvl2VirtAddr v
  rw [armGetLvl2PageIndex, BitVec.toNat_setWidth, BitVec.toNat_ushiftRight, hmask,
    Nat.shiftRight_eq_div_pow]
  unfold armGetLvl2VirtAddr at hhigh
  change (v &&& 0xFFFFF000#32 &&& 0xFFFFF#32).toNat = _ at hlow
  omega

/-- A level 2 table begins at a page boundary, and not at 0. -/
structure TableBase (base : BitVec 32) : Prop where
  aligned : base.toNat % 4096 = 0
  ne_zero : base ≠ 0

theorem TableBase.toNat_courseEntry {base : BitVec 32} (h : TableBase base) :
    (courseEntry base).toNat = base.toNat + 1 := by
  have haligned := h.aligned
  have hmask : (base &&& 0x3FFFFF#32 <<< 10).toNat = base.toNat / 1024 * 1024 :=
    toNat_and_highMask base 10
  simp only [courseEntry, armGenerateLvl1Course, armPgTblSecondLevel, armPgTblNotTrustZone,
    defaultDomain, eccOff, BitVec.toNat_add, hmask]
  simp only [BitVec.ofNat_eq_ofNat, BitVec.zero_shiftLeft, BitVec.toNat_ofNat]
  omega

theorem TableBase.courseEntry_kind {base : BitVec 32} (h : TableBase base) :
    (courseEntry base).extractLsb' 0 2 = 1#2 := by
  have haligned := h.aligned
  apply BitVec.eq_of_toNat_eq
  rw [BitVec.extractLsb'_toNat, h.toNat_courseEntry, Nat.shiftRight_zero, BitVec.toNat_ofNat]
  omega

theorem TableBase.decodeLvl1_courseEntry {base : BitVec 32} (h : TableBase base) :
    decodeLvl1 (courseEntry base) = .course base := by
  have htoNat := h.toNat_courseEntry
  have haligned := h.aligned
  have hbase : courseEntry base &&& 0xFFFFFC00#32 = base := by
    apply BitVec.eq_of_toNat_eq
    have hmask : (courseEntry base &&& 0xFFFFFC00#32).toNat =
        (courseEntry base).toNat / 1024 * 1024 := toNat_and_highMask _ 10
    omega
  simp only [decodeLvl1, h.courseEntry_kind, hbase, if_true]

theorem TableBase.armGetLvl2VirtAddr_courseEntry {base : BitVec 32} (h : TableBase base) :
    armGetLvl2VirtAddr (courseEntry base) = base := by
  apply BitVec.eq_of_toNat_eq
  have haligned := h.aligned
  rw [toNat_armGetLvl2VirtAddr, h.toNat_courseEntry]
  omega

theorem toNat_wordOfBool (b : Bool) : (wordOfBool b).toNat = b.toNat := by
  cases b <;> rfl

theorem toNat_apBits_lt (privilege : MmuPrivilege) : (apBits privilege).toNat < 4 := by
  cases privilege <;> decide

/-- The attributes that a section is mapped with. -/
def MemSection.attributes (s : MemSection) : Attributes where
  ap := (apBits s.privilege).setWidth 2
  apx := s.accessRights = .readOnly
  c := s.memoryType = .randomAccessMemory
  b := s.memoryType = .randomAccessMemory

theorem toNat_armGenerateLvl1Section
    (real ng s apx tex ap p domain nx cached buffered : BitVec 32) :
    (armGenerateLvl1Section real ng s apx tex ap p domain nx cached buffered).toNat =
      (2 + buffered.toNat * 2 ^ 2 + cached.toNat * 2 ^ 3 + nx.toNat * 2 ^ 4 +
        domain.toNat * 2 ^ 5 + p.toNat * 2 ^ 9 + ap.toNat * 2 ^ 10 + tex.toNat * 2 ^ 12 +
        apx.toNat * 2 ^ 15 + s.toNat * 2 ^ 16 + ng.toNat * 2 ^ 17 +
        real.toNat / 1048576 * 1048576) % 2 ^ 32 := by
  have hkind : armPgTblSection.toNat = 2 := rfl
  unfold armGenerateLvl1Section
  simp only [BitVec.toNat_add, BitVec.toNat_shiftLeft, Nat.shiftLeft_eq, toNat_sectionMask, hkind,
    Nat.add_mod_mod, Nat.mod_add_mod]

theorem MemSection.toNat_lvl1 (s : MemSection) (real : BitVec 32) :
    (s.lvl1 real).toNat = 135170 + 12 * s.attributes.c.toNat + 1024 * (apBits s.privilege).toNat +
      32768 * s.attributes.apx.toNat + real.toNat / 1048576 * 1048576 := by
  have hap := toNat_apBits_lt s.privilege
  have hc := s.attributes.c.toNat_le
  have hapx := s.attributes.apx.toNat_le
  have hzero : (0 : BitVec 32).toNat = 0 := rfl
  have hone : (1 : BitVec 32).toNat = 1 := rfl
  simp only [attributes] at hc hapx ⊢
  rw [lvl1, toNat_armGenerateLvl1Section, toNat_wordOfBool, toNat_wordOfBool,
    armPgTblProcessSpecific, armPgTblNotShared, defaultTex, eccOff, defaultDomain, armPgTblExecute,
    hzero, hone]
  omega

theorem lvl1_fields (c apx : Bool) {ap : ℕ} (hap : ap < 4) (base : ℕ) :
    let entry := 135170 + 12 * c.toNat + 1024 * ap + 32768 * apx.toNat + base * 1048576
    (entry % 4 = 2 ∧ entry / 262144 % 2 = 0 ∧ entry / 1048576 = base) ∧
      entry / 1024 % 4 = ap ∧ decide (entry / 32768 % 2 = 1) = apx ∧
      decide (entry / 8 % 2 = 1) = c ∧ decide (entry / 4 % 2 = 1) = c := by
  have hap : ap = 0 ∨ ap = 1 ∨ ap = 2 ∨ ap = 3 := by omega
  rcases hap with rfl | rfl | rfl | rfl <;> cases c <;> cases apx <;>
    simp only [Bool.toNat_false, Bool.toNat_true, decide_eq_true_eq, decide_eq_false_iff_not] <;>
    omega

theorem MemSection.lvl1_kind (s : MemSection) (real : BitVec 32) :
    (s.lvl1 real).extractLsb' 0 2 = 2#2 := by
  apply BitVec.eq_of_toNat_eq
  rw [BitVec.extractLsb'_toNat, Nat.shiftRight_zero, s.toNat_lvl1]
  exact (lvl1_fields s.attributes.c s.attributes.apx (toNat_apBits_lt s.privilege) _).1.1

theorem MemSection.decodeLvl1_lvl1 (s : MemSection) (real : BitVec 32) :
    decodeLvl1 (s.lvl1 real) = .section (real &&& 0xFFF00000#32) s.attributes := by
  have htoNat := s.toNat_lvl1 real
  obtain ⟨⟨-, hsuper, hbase⟩, hap, hapx, hc, hb⟩ := lvl1_fields s.attributes.c
    s.attributes.apx (toNat_apBits_lt s.privilege) (real.toNat / 1048576)
  rw [← htoNat] at hsuper hbase hap hapx hc hb
  have hsuper : (s.lvl1 real).getLsbD 18 = false := by
    rw [getLsbD_eq_decide, decide_eq_false_iff_not]
    omega
  have hbase : s.lvl1 real &&& 0xFFF00000#32 = real &&& 0xFFF00000#32 := by
    apply BitVec.eq_of_toNat_eq
    rw [toNat_sectionMask, toNat_sectionMask, hbase]
  have hap : (s.lvl1 real).extractLsb' 10 2 = s.attributes.ap := by
    apply BitVec.eq_of_toNat_eq
    rw [BitVec.extractLsb'_toNat, Nat.shiftRight_eq_div_pow, attributes, BitVec.toNat_setWidth]
    omega
  have hapx : (s.lvl1 real).getLsbD 15 = s.attributes.apx := (getLsbD_eq_decide ..).trans hapx
  have hc : (s.lvl1 real).getLsbD 3 = s.attributes.c := (getLsbD_eq_decide ..).trans hc
  have hb : (s.lvl1 real).getLsbD 2 = s.attributes.b := (getLsbD_eq_decide ..).trans hb
  simp only [decodeLvl1, s.lvl1_kind, hsuper, hbase, hap, hapx, hc, hb, BitVec.reduceEq, reduceIte,
    Bool.false_eq_true]

/-- The kernel takes a section entry for the address of a table, which is not 0. -/
theorem MemSection.armGetLvl2VirtAddr_lvl1_ne_zero (s : MemSection) (real : BitVec 32) :
    armGetLvl2VirtAddr (s.lvl1 real) ≠ 0 := by
  intro hzero
  have hle : 4096 ≤ (s.lvl1 real).toNat := by
    rw [s.toNat_lvl1]
    omega
  have hdiv : (s.lvl1 real).toNat / 4096 * 4096 = 0 := by
    rw [← toNat_armGetLvl2VirtAddr, hzero]
    rfl
  omega

theorem toNat_armGenerateLvl2 (real ng s apx tex ap cached buffered : BitVec 32) :
    (armGenerateLvl2 real ng s apx tex ap cached buffered).toNat =
      (2 + buffered.toNat * 2 ^ 2 + cached.toNat * 2 ^ 3 + ap.toNat * 2 ^ 4 + tex.toNat * 2 ^ 6 +
        apx.toNat * 2 ^ 9 + s.toNat * 2 ^ 10 + ng.toNat * 2 ^ 11 +
        real.toNat / 4096 * 4096) % 2 ^ 32 := by
  have hkind : (0#32 + armPgTbl4kExecuteEntry).toNat = 2 := rfl
  unfold armGenerateLvl2
  rw [BitVec.toNat_add, toNat_armGetLvl2VirtAddr]
  generalize 0#32 + armPgTbl4kExecuteEntry = kind at hkind
  simp only [BitVec.toNat_add, BitVec.toNat_shiftLeft, Nat.shiftLeft_eq, hkind, Nat.add_mod_mod,
    Nat.mod_add_mod]

theorem MemSection.toNat_lvl2 (s : MemSection) (real : BitVec 32) :
    (s.lvl2 real).toNat = 2114 + 12 * s.attributes.c.toNat + 16 * (apBits s.privilege).toNat +
      512 * s.attributes.apx.toNat + real.toNat / 4096 * 4096 := by
  have hap := toNat_apBits_lt s.privilege
  have hc := s.attributes.c.toNat_le
  have hapx := s.attributes.apx.toNat_le
  have hzero : (0 : BitVec 32).toNat = 0 := rfl
  have hone : (1 : BitVec 32).toNat = 1 := rfl
  simp only [attributes] at hc hapx ⊢
  rw [lvl2, toNat_armGenerateLvl2, toNat_wordOfBool, toNat_wordOfBool,
    armPgTblProcessSpecific, armPgTblNotShared, defaultTex, hzero, hone]
  omega

theorem lvl2_fields (c apx : Bool) {ap : ℕ} (hap : ap < 4) (base : ℕ) :
    let entry := 2114 + 12 * c.toNat + 16 * ap + 512 * apx.toNat + base * 4096
    (entry / 2 % 2 = 1 ∧ entry / 4096 = base) ∧ entry / 16 % 4 = ap ∧
      decide (entry / 512 % 2 = 1) = apx ∧ decide (entry / 8 % 2 = 1) = c ∧
      decide (entry / 4 % 2 = 1) = c := by
  have hap : ap = 0 ∨ ap = 1 ∨ ap = 2 ∨ ap = 3 := by omega
  rcases hap with rfl | rfl | rfl | rfl <;> cases c <;> cases apx <;>
    simp only [Bool.toNat_false, Bool.toNat_true, decide_eq_true_eq, decide_eq_false_iff_not] <;>
    omega

theorem MemSection.decodeLvl2_lvl2 (s : MemSection) (real : BitVec 32) :
    decodeLvl2 (s.lvl2 real) = .smallPage (real &&& 0xFFFFF000#32) s.attributes := by
  have htoNat := s.toNat_lvl2 real
  obtain ⟨⟨hkind, hbase⟩, hap, hapx, hc, hb⟩ := lvl2_fields s.attributes.c
    s.attributes.apx (toNat_apBits_lt s.privilege) (real.toNat / 4096)
  rw [← htoNat] at hkind hbase hap hapx hc hb
  have hkind : (s.lvl2 real).getLsbD 1 = true := by
    rw [getLsbD_eq_decide, decide_eq_true_eq]
    exact hkind
  have hbase : s.lvl2 real &&& 0xFFFFF000#32 = real &&& 0xFFFFF000#32 := by
    apply BitVec.eq_of_toNat_eq
    have hmask := toNat_armGetLvl2VirtAddr (s.lvl2 real)
    have hmask' := toNat_armGetLvl2VirtAddr real
    rw [hbase] at hmask
    exact hmask.trans hmask'.symm
  have hap : (s.lvl2 real).extractLsb' 4 2 = s.attributes.ap := by
    apply BitVec.eq_of_toNat_eq
    rw [BitVec.extractLsb'_toNat, Nat.shiftRight_eq_div_pow, attributes, BitVec.toNat_setWidth]
    omega
  have hapx : (s.lvl2 real).getLsbD 9 = s.attributes.apx := (getLsbD_eq_decide ..).trans hapx
  have hc : (s.lvl2 real).getLsbD 3 = s.attributes.c := (getLsbD_eq_decide ..).trans hc
  have hb : (s.lvl2 real).getLsbD 2 = s.attributes.b := (getLsbD_eq_decide ..).trans hb
  simp only [decodeLvl2, hkind, hbase, hap, hapx, hc, hb, reduceIte]

theorem decodeLvl1_zero : decodeLvl1 0 = .fault := by decide

theorem decodeLvl2_zero : decodeLvl2 0 = .fault := by decide

end Fields

/-! ## Tables that the kernel has made -/

/-- An entry of the first level is one of a section. -/
def PgTbl.HoldsSection (t : PgTbl) (i : BitVec 12) : Prop := (t.lvl1Entry i).extractLsb' 0 2 = 2#2

deriving instance Decidable for HoldsSection

/-- What holds of every page table that the kernel has made. -/
structure PgTbl.Ok (t : PgTbl) : Prop where
  /-- An entry is empty, is one of a section, or leads to a table that has left the pool. -/
  entry : ∀ i, t.lvl1Entry i = 0 ∨ (∃ (s : MemSection) (real : _), t.lvl1Entry i = s.lvl1 real) ∨
    ∃ base, TableBase base ∧ base ∉ t.pool ∧ t.lvl1Entry i = courseEntry base
  /-- No two entries lead to the same table. -/
  distinct : ∀ i j base, TableBase base → t.lvl1Entry i = courseEntry base →
    t.lvl1Entry j = courseEntry base → i = j
  pool : ∀ base ∈ t.pool, TableBase base
  nodup : t.pool.Nodup

section Ok

variable {t t' : PgTbl} {s : MemSection} {base virt real v entry : BitVec 32} {i : BitVec 12}

theorem TableBase.courseEntry_ne_zero (h : TableBase base) : courseEntry base ≠ 0 := by
  intro hzero
  have hkind := h.courseEntry_kind
  rw [hzero] at hkind
  exact absurd hkind (by decide)

theorem TableBase.courseEntry_inj {base' : BitVec 32} (h : TableBase base) (h' : TableBase base')
    (hsame : courseEntry base = courseEntry base') : base = base' := by
  have hdecode := h.decodeLvl1_courseEntry
  rw [hsame, h'.decodeLvl1_courseEntry, Lvl1Descriptor.course.injEq] at hdecode
  exact hdecode.symm

theorem holdsSection_of_lvl1 (h : t.lvl1Entry i = s.lvl1 real) : t.HoldsSection i := by
  rw [HoldsSection, h, s.lvl1_kind]

theorem not_holdsSection_of_zero (h : t.lvl1Entry i = 0) : ¬ t.HoldsSection i := by
  rw [HoldsSection, h]
  decide

theorem not_holdsSection_of_course (hbase : TableBase base) (h : t.lvl1Entry i = courseEntry base) :
    ¬ t.HoldsSection i := by
  rw [HoldsSection, h, hbase.courseEntry_kind]
  decide

theorem PgTbl.Ok.section_of_holds (ok : t.Ok) (h : t.HoldsSection i) :
    ∃ (s : MemSection) (real : _), t.lvl1Entry i = s.lvl1 real := by
  rcases ok.entry i with hzero | hsection | ⟨base, hbase, -, hcourse⟩
  · exact absurd h (not_holdsSection_of_zero hzero)
  · exact hsection
  · exact absurd h (not_holdsSection_of_course hbase hcourse)

/-! ### Walks by the kind of the entry -/

theorem walk_of_zero (h : t.lvl1Entry (armGetLvl1SectionIndex v) = 0) : walk t v = none := by
  simp only [walk, h, decodeLvl1_zero]

theorem walk_of_section (h : t.lvl1Entry (armGetLvl1SectionIndex v) = s.lvl1 real) :
    walk t v = some ⟨(real &&& 0xFFF00000#32) + (v &&& 0x000FFFFF#32), s.attributes⟩ := by
  simp only [walk, h, s.decodeLvl1_lvl1]

theorem walk_of_course (hbase : TableBase base)
    (h : t.lvl1Entry (armGetLvl1SectionIndex v) = courseEntry base) :
    walk t v = walkLvl2 (t.l2Tbl base (armGetLvl2PageIndex v)) v := by
  simp only [walk, h, hbase.decodeLvl1_courseEntry]

theorem walkLvl2_zero : walkLvl2 0 v = none := by
  simp only [walkLvl2, decodeLvl2_zero]

theorem walkLvl2_lvl2 : walkLvl2 (s.lvl2 real) v =
    some ⟨(real &&& 0xFFFFF000#32) + (v &&& 0x00000FFF#32), s.attributes⟩ := by
  simp only [walkLvl2, s.decodeLvl2_lvl2]

/-! ### Writing entries -/

theorem sameSection_iff : armGetLvl1SectionIndex v = armGetLvl1SectionIndex virt ↔
    v.toNat / 1048576 = virt.toNat / 1048576 := by
  rw [← BitVec.toNat_inj, toNat_armGetLvl1SectionIndex, toNat_armGetLvl1SectionIndex]

theorem samePage_iff : (armGetLvl1SectionIndex v = armGetLvl1SectionIndex virt ∧
    armGetLvl2PageIndex v = armGetLvl2PageIndex virt) ↔ v.toNat / 4096 = virt.toNat / 4096 := by
  rw [sameSection_iff, ← BitVec.toNat_inj, toNat_armGetLvl2PageIndex, toNat_armGetLvl2PageIndex]
  omega

theorem armMapSection_self :
    (armMapSection s virt real t).lvl1Entry (armGetLvl1SectionIndex virt) = s.lvl1 real :=
  update_self ..

theorem armMapSection_of_ne (h : i ≠ armGetLvl1SectionIndex virt) :
    (armMapSection s virt real t).lvl1Entry i = t.lvl1Entry i :=
  update_of_ne h ..

theorem PgTbl.Ok.mapSection (ok : t.Ok) : (armMapSection s virt real t).Ok := by
  have hcourse : ∀ j base, TableBase base →
      (armMapSection s virt real t).lvl1Entry j = courseEntry base →
      t.lvl1Entry j = courseEntry base := by
    intro j base hbase h
    have hj : j ≠ armGetLvl1SectionIndex virt := by
      rintro rfl
      exact not_holdsSection_of_course hbase h (holdsSection_of_lvl1 armMapSection_self)
    rwa [armMapSection_of_ne hj] at h
  refine ⟨fun j => ?_, fun j k base hbase hj hk => ?_, ok.pool, ok.nodup⟩
  · by_cases hj : j = armGetLvl1SectionIndex virt
    · subst hj
      exact .inr (.inl ⟨s, real, armMapSection_self⟩)
    rw [armMapSection_of_ne hj]
    exact ok.entry j
  · exact ok.distinct j k base hbase (hcourse j base hbase hj) (hcourse k base hbase hk)

theorem walk_mapSection (s : MemSection) (virt real v : BitVec 32) (t : PgTbl) :
    walk (armMapSection s virt real t) v =
      if v.toNat / 1048576 = virt.toNat / 1048576 then
        some ⟨(real &&& 0xFFF00000#32) + (v &&& 0x000FFFFF#32), s.attributes⟩
      else walk t v := by
  by_cases hsame : v.toNat / 1048576 = virt.toNat / 1048576
  · rw [if_pos hsame]
    refine walk_of_section ?_
    rw [sameSection_iff.mpr hsame, armMapSection_self]
  rw [if_neg hsame, walk, walk, armMapSection_of_ne (mt sameSection_iff.mp hsame)]
  rfl

theorem PgTbl.setLvl2_l2Tbl (t : PgTbl) (base base' : BitVec 32) (page page' : BitVec 8)
    (entry : BitVec 32) : (t.setLvl2 base page entry).l2Tbl base' page' =
      if base' = base ∧ page' = page then entry else t.l2Tbl base' page' := by
  by_cases hb : base' = base
  · subst hb
    by_cases hp : page' = page
    · subst hp
      simp [setLvl2]
    · simp [setLvl2, hp]
  · simp [setLvl2, hb]

theorem PgTbl.Ok.setLvl2 (ok : t.Ok) {page : BitVec 8} : (t.setLvl2 base page entry).Ok :=
  ⟨ok.entry, ok.distinct, ok.pool, ok.nodup⟩

theorem PgTbl.Ok.walk_setLvl2 (ok : t.Ok) (hbase : TableBase base)
    (h : t.lvl1Entry (armGetLvl1SectionIndex virt) = courseEntry base) (entry v : BitVec 32) :
    walk (t.setLvl2 base (armGetLvl2PageIndex virt) entry) v =
      if v.toNat / 4096 = virt.toNat / 4096 then walkLvl2 entry v else walk t v := by
  rcases ok.entry (armGetLvl1SectionIndex v) with hzero | ⟨s, real, hsection⟩ |
    ⟨base', hbase', -, hcourse⟩
  · rw [if_neg, walk_of_zero hzero, walk_of_zero (t := t.setLvl2 ..) hzero]
    intro hsame
    rw [(samePage_iff.mpr hsame).1, h] at hzero
    exact hbase.courseEntry_ne_zero hzero
  · rw [if_neg, walk_of_section hsection, walk_of_section (t := t.setLvl2 ..) hsection]
    intro hsame
    rw [(samePage_iff.mpr hsame).1] at hsection
    exact not_holdsSection_of_course hbase h (holdsSection_of_lvl1 hsection)
  -- the written table belongs to one entry only
  have hiff : base' = base ∧ armGetLvl2PageIndex v = armGetLvl2PageIndex virt ↔
      v.toNat / 4096 = virt.toNat / 4096 := by
    rw [← samePage_iff]
    refine and_congr_left' ⟨?_, fun hsection => ?_⟩
    · rintro rfl
      exact ok.distinct _ _ base' hbase hcourse h
    rw [hsection, h] at hcourse
    exact (hbase.courseEntry_inj hbase' hcourse).symm
  rw [walk_of_course hbase' hcourse, walk_of_course (t := t.setLvl2 ..) hbase' hcourse,
    setLvl2_l2Tbl, if_congr hiff rfl rfl]
  split <;> rfl

section AddTable

variable {pool : List (BitVec 32)}

theorem PgTbl.addTable_self : (t.addTable i base pool).lvl1Entry i = courseEntry base :=
  update_self ..

theorem PgTbl.addTable_of_ne {j : BitVec 12} (h : j ≠ i) :
    (t.addTable i base pool).lvl1Entry j = t.lvl1Entry j :=
  update_of_ne h ..

theorem PgTbl.addTable_l2Tbl_self : (t.addTable i base pool).l2Tbl base = fun _ => 0 :=
  update_self ..

theorem PgTbl.addTable_l2Tbl_of_ne {base' : BitVec 32} (h : base' ≠ base) :
    (t.addTable i base pool).l2Tbl base' = t.l2Tbl base' :=
  update_of_ne h ..

theorem PgTbl.Ok.addTable (ok : t.Ok) (hpool : t.pool = base :: pool)
    (hzero : t.lvl1Entry i = 0) : (t.addTable i base pool).Ok := by
  have hbase : TableBase base := ok.pool base (by rw [hpool]; exact .head _)
  have hnodup := ok.nodup
  rw [hpool, List.nodup_cons] at hnodup
  have hsub : ∀ b, b ∉ t.pool → b ∉ pool := fun b hb hmem =>
    hb (by rw [hpool]; exact .tail _ hmem)
  -- a table that an entry leads to has left the pool before
  have hfresh : ∀ j, t.lvl1Entry j ≠ courseEntry base := by
    intro j hj
    rcases ok.entry j with hz | ⟨s, real, hsection⟩ | ⟨base', hbase', hnot, hcourse⟩
    · exact hbase.courseEntry_ne_zero (hj.symm.trans hz)
    · exact not_holdsSection_of_course hbase hj (holdsSection_of_lvl1 hsection)
    obtain rfl := hbase.courseEntry_inj hbase' (hj.symm.trans hcourse)
    exact hnot (by rw [hpool]; exact .head _)
  refine ⟨fun j => ?_, fun j k b hb hj hk => ?_, fun b hb => ?_, hnodup.2⟩
  · by_cases hj : j = i
    · subst hj
      exact .inr (.inr ⟨base, hbase, hnodup.1, addTable_self⟩)
    rw [addTable_of_ne hj]
    rcases ok.entry j with hz | hsection | ⟨base', hbase', hnot, hcourse⟩
    · exact .inl hz
    · exact .inr (.inl hsection)
    · exact .inr (.inr ⟨base', hbase', hsub base' hnot, hcourse⟩)
  · by_cases hji : j = i <;> by_cases hki : k = i
    · rw [hji, hki]
    · subst hji
      rw [addTable_of_ne hki] at hk
      rw [addTable_self] at hj
      obtain rfl := hbase.courseEntry_inj hb hj
      exact absurd hk (hfresh k)
    · subst hki
      rw [addTable_of_ne hji] at hj
      rw [addTable_self] at hk
      obtain rfl := hbase.courseEntry_inj hb hk
      exact absurd hj (hfresh j)
    rw [addTable_of_ne hji] at hj
    rw [addTable_of_ne hki] at hk
    exact ok.distinct j k b hb hj hk
  · exact ok.pool b (by rw [hpool]; exact .tail _ hb)

theorem PgTbl.Ok.walk_addTable (ok : t.Ok) (hpool : t.pool = base :: pool)
    (hzero : t.lvl1Entry i = 0) (v : BitVec 32) : walk (t.addTable i base pool) v = walk t v := by
  have hbase : TableBase base := ok.pool base (by rw [hpool]; exact .head _)
  by_cases hi : armGetLvl1SectionIndex v = i
  · subst hi
    rw [walk_of_zero hzero, walk_of_course hbase addTable_self, addTable_l2Tbl_self, walkLvl2_zero]
  have hsame : (t.addTable i base pool).lvl1Entry (armGetLvl1SectionIndex v) =
      t.lvl1Entry (armGetLvl1SectionIndex v) := addTable_of_ne hi
  rcases ok.entry (armGetLvl1SectionIndex v) with hz | ⟨s, real, hsection⟩ |
    ⟨base', hbase', hnot, hcourse⟩
  · rw [walk_of_zero hz, walk_of_zero (hsame.trans hz)]
  · rw [walk_of_section hsection, walk_of_section (hsame.trans hsection)]
  have hne : base' ≠ base := by
    rintro rfl
    exact hnot (by rw [hpool]; exact .head _)
  rw [walk_of_course hbase' hcourse, walk_of_course hbase' (hsame.trans hcourse),
    addTable_l2Tbl_of_ne hne]

end AddTable

/-! ### Finding the table of an address -/

theorem armGetLvl2VirtAddr_and_section (v : BitVec 32) :
    armGetLvl2VirtAddr v &&& armPgTblSection = 0 := by
  rw [armGetLvl2VirtAddr, BitVec.and_assoc]
  exact BitVec.and_zero

theorem armGetLvl2Table_of_ne_zero (h : t.lvl1Entry (armGetLvl1SectionIndex virt) ≠ 0) :
    armGetLvl2Table virt true t =
      .ok (armGetLvl2VirtAddr (t.lvl1Entry (armGetLvl1SectionIndex virt)), t) := by
  simp only [armGetLvl2Table, h, false_and, if_false, pure_eq_ok, ok_bind,
    armGetLvl2VirtAddr_and_section]
  rfl

theorem armGetLvl2Table_of_zero {pool : List (BitVec 32)} (hbase : TableBase base)
    (h : t.lvl1Entry (armGetLvl1SectionIndex virt) = 0) (hpool : t.pool = base :: pool) :
    armGetLvl2Table virt true t =
      .ok (base, t.addTable (armGetLvl1SectionIndex virt) base pool) := by
  simp only [armGetLvl2Table, h, hpool, and_self, if_true, pure_eq_ok, ok_bind,
    armGetLvl2VirtAddr_and_section, addTable_self, hbase.armGetLvl2VirtAddr_courseEntry]
  rfl

/-- The table of an address is a new one, or the one that the entry leads to. For a section entry
the result is no table. -/
theorem PgTbl.Ok.getLvl2Table_cases (ok : t.Ok)
    (h : armGetLvl2Table virt true t = .ok (base, t')) :
    base ≠ 0 ∧ t'.Ok ∧ (∀ v, walk t' v = walk t v) ∧
      (∀ i, t'.HoldsSection i ↔ t.HoldsSection i) ∧
      (¬ t.HoldsSection (armGetLvl1SectionIndex virt) →
        TableBase base ∧ t'.lvl1Entry (armGetLvl1SectionIndex virt) = courseEntry base) := by
  by_cases hzero : t.lvl1Entry (armGetLvl1SectionIndex virt) = 0
  · cases hpool : t.pool with
    | nil => simp [armGetLvl2Table, hzero, hpool] at h
    | cons b pool =>
      have hbase : TableBase b := ok.pool b (by rw [hpool]; exact .head _)
      rw [armGetLvl2Table_of_zero hbase hzero hpool] at h
      cases h
      refine ⟨hbase.ne_zero, ok.addTable hpool hzero, ok.walk_addTable hpool hzero,
        fun i => ?_, fun _ => ⟨hbase, addTable_self⟩⟩
      by_cases hi : i = armGetLvl1SectionIndex virt
      · subst hi
        exact iff_of_false (not_holdsSection_of_course hbase addTable_self)
          (not_holdsSection_of_zero hzero)
      · rw [HoldsSection, HoldsSection, addTable_of_ne hi]
  rw [armGetLvl2Table_of_ne_zero hzero] at h
  cases h
  rcases ok.entry (armGetLvl1SectionIndex virt) with hz | ⟨s, real, hsection⟩ |
    ⟨b, hbase, -, hcourse⟩
  · exact absurd hz hzero
  · refine ⟨?_, ok, fun _ => rfl, fun _ => .rfl, fun hno => ?_⟩
    · rw [hsection]
      exact s.armGetLvl2VirtAddr_lvl1_ne_zero real
    · exact absurd (holdsSection_of_lvl1 hsection) hno
  rw [hcourse, hbase.armGetLvl2VirtAddr_courseEntry]
  exact ⟨hbase.ne_zero, ok, fun _ => rfl, fun _ => .rfl, fun _ => ⟨hbase, rfl⟩⟩

theorem PgTbl.Ok.mapPage {ret : ReturnT} (ok : t.Ok)
    (hsection : ¬ t.HoldsSection (armGetLvl1SectionIndex virt))
    (h : armMapPage s t virt real = .ok (ret, t')) :
    ret = .noError ∧ t'.Ok ∧ (∀ i, t'.HoldsSection i ↔ t.HoldsSection i) ∧
      ∀ v, walk t' v =
        if v.toNat / 4096 = virt.toNat / 4096 then
          some ⟨(real &&& 0xFFFFF000#32) + (v &&& 0x00000FFF#32), s.attributes⟩
        else walk t v := by
  obtain ⟨⟨base, u⟩, htable, h⟩ := of_bind h
  obtain ⟨hne, ok', hwalk, hholds, hcourse⟩ := ok.getLvl2Table_cases htable
  obtain ⟨hbase, hcourse⟩ := hcourse hsection
  dsimp only at h
  rw [if_pos hne] at h
  cases h
  refine ⟨rfl, ok'.setLvl2, hholds, fun v => ?_⟩
  rw [ok'.walk_setLvl2 hbase hcourse, walkLvl2_lvl2, hwalk]

theorem walk_setLvl2_ne_none {page : BitVec 8} (h : walk t v ≠ none) :
    walk (t.setLvl2 base page (s.lvl2 real)) v ≠ none := by
  have hlvl1 : (t.setLvl2 base page (s.lvl2 real)).lvl1Entry = t.lvl1Entry := rfl
  unfold walk at h ⊢
  rw [hlvl1]
  split at h
  · exact h
  · rw [setLvl2_l2Tbl]
    split
    · rw [walkLvl2_lvl2]
      exact Option.some_ne_none _
    · exact h
  · exact h
  · exact h

theorem PgTbl.Ok.mapPage_mapped {ret : ReturnT} (ok : t.Ok)
    (h : armMapPage s t virt real = .ok (ret, t')) :
    ret = .noError ∧ t'.Ok ∧ (∀ i, t'.HoldsSection i ↔ t.HoldsSection i) ∧
      walk t' virt ≠ none ∧ ∀ v, walk t v ≠ none → walk t' v ≠ none := by
  by_cases hsection : t.HoldsSection (armGetLvl1SectionIndex virt)
  · -- the write goes astray, but the section entry translates the page already
    obtain ⟨⟨base, u⟩, htable, h⟩ := of_bind h
    obtain ⟨hne, ok', hwalk, hholds, -⟩ := ok.getLvl2Table_cases htable
    dsimp only at h
    rw [if_pos hne] at h
    cases h
    have hkeeps : ∀ v, walk t v ≠ none →
        walk (u.setLvl2 base (armGetLvl2PageIndex virt) (s.lvl2 real)) v ≠ none :=
      fun v hv => walk_setLvl2_ne_none (by rwa [hwalk])
    refine ⟨rfl, ok'.setLvl2, hholds, hkeeps virt ?_, hkeeps⟩
    obtain ⟨s', real', hentry⟩ := ok.section_of_holds hsection
    rw [walk_of_section hentry]
    exact Option.some_ne_none _
  obtain ⟨hret, ok', hholds, hwalk⟩ := ok.mapPage hsection h
  refine ⟨hret, ok', hholds, ?_, fun v hv => ?_⟩
  · rw [hwalk, if_pos rfl]
    exact Option.some_ne_none _
  rw [hwalk]
  split
  · exact Option.some_ne_none _
  · exact hv

/-! ### Enough memory -/

/-- The pool has a table for every empty entry. -/
def PgTbl.Stocked (t : PgTbl) : Prop :=
  ∃ empty : List (BitVec 12), (∀ i, t.lvl1Entry i = 0 → i ∈ empty) ∧
    empty.length ≤ t.pool.length

theorem PgTbl.Stocked.mapSection (stocked : t.Stocked) :
    (armMapSection s virt real t).Stocked := by
  obtain ⟨empty, hempty, hlength⟩ := stocked
  refine ⟨empty, fun i hi => ?_, hlength⟩
  by_cases hvirt : i = armGetLvl1SectionIndex virt
  · subst hvirt
    exact absurd (holdsSection_of_lvl1 armMapSection_self) (not_holdsSection_of_zero hi)
  rw [armMapSection_of_ne hvirt] at hi
  exact hempty i hi

theorem PgTbl.Stocked.getLvl2Table (stocked : t.Stocked) (ok : t.Ok) (virt : BitVec 32) :
    ∃ base t', armGetLvl2Table virt true t = .ok (base, t') ∧ t'.Stocked := by
  obtain ⟨empty, hempty, hlength⟩ := stocked
  by_cases hzero : t.lvl1Entry (armGetLvl1SectionIndex virt) = 0
  · have hmem := hempty _ hzero
    obtain ⟨base, pool, hpool⟩ : ∃ base pool, t.pool = base :: pool := by
      refine List.exists_cons_of_length_pos ?_
      exact (List.length_pos_of_mem hmem).trans_le hlength
    have hbase : TableBase base := ok.pool base (by rw [hpool]; exact .head _)
    refine ⟨base, _, armGetLvl2Table_of_zero hbase hzero hpool,
      empty.erase (armGetLvl1SectionIndex virt), fun i hi => ?_, ?_⟩
    · have hne : i ≠ armGetLvl1SectionIndex virt := by
        rintro rfl
        rw [addTable_self] at hi
        exact hbase.courseEntry_ne_zero hi
      rw [addTable_of_ne hne] at hi
      exact (List.mem_erase_of_ne hne).mpr (hempty i hi)
    rw [List.length_erase_of_mem hmem]
    rw [hpool, List.length_cons] at hlength
    exact Nat.sub_le_of_le_add hlength
  · exact ⟨_, t, armGetLvl2Table_of_ne_zero hzero, empty, hempty, hlength⟩

theorem PgTbl.Stocked.mapPage (stocked : t.Stocked) (ok : t.Ok) (s : MemSection)
    (virt real : BitVec 32) :
    ∃ t', armMapPage s t virt real = .ok (.noError, t') ∧ t'.Stocked := by
  obtain ⟨base, u, htable, hstocked⟩ := stocked.getLvl2Table ok virt
  obtain ⟨hne, -⟩ := ok.getLvl2Table_cases htable
  refine ⟨u.setLvl2 base (armGetLvl2PageIndex virt) (s.lvl2 real), ?_, hstocked⟩
  simp only [armMapPage, htable, ok_bind, if_pos hne, pure_eq_ok]

end Ok

/-! ### New tables -/

section New

variable {pool : List (BitVec 32)}

theorem PgTbl.Ok.initialise (hbase : ∀ base ∈ pool, TableBase base) (hnodup : pool.Nodup) :
    (tgtInitialisePageTable pool).Ok :=
  ⟨fun _ => .inl rfl, fun _ _ _ hbase h => absurd h.symm hbase.courseEntry_ne_zero, hbase, hnodup⟩

theorem walk_initialise (pool : List (BitVec 32)) (v : BitVec 32) :
    walk (tgtInitialisePageTable pool) v = none :=
  walk_of_zero rfl

/-- A pool with a table for each MiB. -/
def tablePool : List (BitVec 32) := (List.range 4096).map fun n => BitVec.ofNat 32 ((n + 1) * 4096)

theorem tableBase_of_mem_tablePool {base : BitVec 32} (h : base ∈ tablePool) : TableBase base := by
  obtain ⟨n, hn, rfl⟩ := List.mem_map.mp h
  rw [List.mem_range] at hn
  have htoNat : (BitVec.ofNat 32 ((n + 1) * 4096)).toNat = (n + 1) * 4096 := by
    rw [BitVec.toNat_ofNat]
    omega
  refine ⟨by omega, fun hzero => ?_⟩
  rw [hzero] at htoNat
  have hzero : (0 : BitVec 32).toNat = 0 := rfl
  omega

theorem nodup_tablePool : tablePool.Nodup := by
  refine (List.nodup_range).map_on fun n hn m hm hsame => ?_
  rw [List.mem_range] at hn hm
  have htoNat := congrArg BitVec.toNat hsame
  rw [BitVec.toNat_ofNat, BitVec.toNat_ofNat] at htoNat
  omega

theorem ok_tablePool : (tgtInitialisePageTable tablePool).Ok :=
  .initialise (fun _ => tableBase_of_mem_tablePool) nodup_tablePool

theorem stocked_tablePool : (tgtInitialisePageTable tablePool).Stocked := by
  refine ⟨(List.range 4096).map (BitVec.ofNat 12), fun i _ => ?_, ?_⟩
  · exact List.mem_map.mpr ⟨i.toNat, List.mem_range.mpr i.isLt, BitVec.ofNat_toNat ..⟩
  · simp [tgtInitialisePageTable, tablePool]

end New

end Tinker
