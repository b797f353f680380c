import Mathlib.Data.List.Chain
import Tinker.Memory.Mapping
import Tinker.Process.Translation

/-!
# Virtual allocation

`process_allocate_vmem` looks for a gap between the sections of a process, from the private pool on.
Its candidate is the end of the section that it has passed last, padded by the remainder modulo the
page size; that is a multiple of the page size only if the end is one of half a page. Whether the
gap is large enough is decided with a sum of 32 bits.
-/

namespace Tinker

open Tinker.Lib Exec MemSection

def MemSection.behind (s : MemSection) : ℕ := s.virtAddress.toNat + s.size.toNat

def MemSection.Below (r s : MemSection) : Prop := r.behind ≤ s.virtAddress.toNat

deriving instance Decidable for Below

def padVmem (v : BitVec 32) : BitVec 32 := v + v % BitVec.ofNat 32 mmuPageSize

/-- The same without the limit of 32 bits. -/
def padded (n : ℕ) : ℕ := n + n % 4096

/-- The gap that the search finds, when it has passed the section `r`. Behind the first section that
the 32 bit test finds a gap after, there is a gap, and the candidate is at a page boundary. Behind
the last one the padding is done twice. -/
def VmemFits (size : BitVec 32) : MemSection → List MemSection → Prop
  | r, [] => padded (padded r.behind) % 4096 = 0 ∧ padded (padded r.behind) + size.toNat ≤ 2 ^ 32
  | r, s :: rest =>
    if padVmem (r.virtAddress + r.size) + size < s.virtAddress then
      padded r.behind % 4096 = 0 ∧ padded r.behind + size.toNat ≤ s.virtAddress.toNat
    else VmemFits size s rest

/-- A section has been put into the list at a page boundary in the address space of the process, and
it does not overlap any other. -/
structure ProcessMemory.Allocated (p p' : ProcessMemory) (new : MemSection) : Prop where
  aligned : new.virtAddress.toNat % mmuPageSize = 0
  base_le : virtualAddressSpace p.kernelProcess ≤ new.virtAddress
  fits : new.Fits
  apart : ∀ r ∈ p.sections, r.Apart new
  added : ∃ before after, p.sections = before ++ after ∧ p'.sections = before ++ new :: after
  sorted : p'.sections.Pairwise Below

section Search

variable {base size v : BitVec 32} {r pool : MemSection} {pre post passed left : List MemSection}

theorem findVmem_passed (hle : ¬ base < r.virtAddress) (cand : BitVec 32) :
    findVmem base size cand (r :: post) =
      ((findVmem base size (padVmem (r.virtAddress + r.size)) post).1,
        r :: (findVmem base size (padVmem (r.virtAddress + r.size)) post).2.1,
        (findVmem base size (padVmem (r.virtAddress + r.size)) post).2.2) := by
  rw [findVmem, if_neg fun h => hle h.1]
  rfl

theorem findVmem_pool (hpre : ∀ r ∈ pre, ¬ base < r.virtAddress) (hpool : ¬ base < pool.virtAddress)
    (cand : BitVec 32) :
    findVmem base size cand (pre ++ pool :: post) =
      ((findVmem base size (padVmem (pool.virtAddress + pool.size)) post).1,
        pre ++ pool :: (findVmem base size (padVmem (pool.virtAddress + pool.size)) post).2.1,
        (findVmem base size (padVmem (pool.virtAddress + pool.size)) post).2.2) := by
  induction pre generalizing cand with
  | nil => exact findVmem_passed hpool cand
  | cons s rest ih =>
    rw [List.cons_append, findVmem_passed (hpre s (.head _)), ih (fun r hr => hpre r (.tail _ hr))]
    rfl

/-- Where the search ends: the candidate is the padded end of the section that has been passed last.
The gap behind it fits exactly if it is large enough and at a page boundary. -/
theorem findVmem_spec (hbase : ∀ s ∈ post, base < s.virtAddress)
    (h : findVmem base size (padVmem (r.virtAddress + r.size)) post = (v, passed, left)) :
    ∃ before last, r :: passed = before ++ [last] ∧ post = passed ++ left ∧
      v = padVmem (last.virtAddress + last.size) ∧
      (VmemFits size r post ↔
        match left with
        | [] => padded (padded last.behind) % 4096 = 0 ∧
            padded (padded last.behind) + size.toNat ≤ 2 ^ 32
        | s :: _ => padded last.behind % 4096 = 0 ∧
            padded last.behind + size.toNat ≤ s.virtAddress.toNat) := by
  induction post generalizing r passed with
  | nil =>
    obtain ⟨rfl, rfl, rfl⟩ : _ ∧ _ ∧ _ := by simpa [findVmem] using h
    exact ⟨[], r, rfl, rfl, rfl, .rfl⟩
  | cons s rest ih =>
    by_cases hgap : padVmem (r.virtAddress + r.size) + size < s.virtAddress
    · rw [findVmem, if_pos ⟨hbase s (.head _), hgap⟩] at h
      obtain ⟨rfl, rfl, rfl⟩ : _ ∧ _ ∧ _ := by simpa using h
      refine ⟨[], r, rfl, rfl, rfl, ?_⟩
      rw [VmemFits, if_pos hgap]
    rw [findVmem, if_neg fun h => hgap h.2] at h
    obtain ⟨v', passed', left', hrest⟩ : ∃ v' passed' left',
        findVmem base size (padVmem (s.virtAddress + s.size)) rest = (v', passed', left') :=
      ⟨_, _, _, rfl⟩
    have hfound : (v', s :: passed', left') = (v, passed, left) := by
      rw [← h]
      simp only [padVmem] at hrest
      simp only [hrest]
    obtain ⟨rfl, rfl, rfl⟩ : v' = v ∧ s :: passed' = passed ∧ left' = left := by
      simpa using hfound
    obtain ⟨before, last, hlast, hpost, hv, hfits⟩ :=
      ih (fun x hx => hbase x (.tail _ hx)) hrest
    refine ⟨r :: before, last, by rw [hlast, List.cons_append], by rw [hpost, List.cons_append],
      hv, ?_⟩
    rw [VmemFits, if_neg hgap]
    exact hfits

theorem findVmem_append (base size vmemStart : BitVec 32) (sections : List MemSection) :
    (findVmem base size vmemStart sections).2.1 ++ (findVmem base size vmemStart sections).2.2 =
      sections := by
  induction sections generalizing vmemStart with
  | nil => rfl
  | cons current rest ih =>
    rw [findVmem]
    split
    · rfl
    · simp [ih]

end Search

section Order

variable {r s t new last : MemSection} {before left : List MemSection}

theorem MemSection.Below.trans (h : r.Below s) (h' : s.Below t) : r.Below t := by
  unfold Below behind at *
  omega

instance : Trans Below Below Below := ⟨Below.trans⟩

theorem MemSection.Below.apart (h : r.Below s) : r.Apart s := apart_of_le h

theorem MemSection.Apart.symm (h : r.Apart s) : s.Apart r := fun a hs hr => h a hr hs

theorem pairwise_below_insert (old : (before ++ last :: left).Pairwise Below) :
    (before ++ last :: new :: left).Pairwise Below ↔
      last.Below new ∧ ∀ s ∈ left.head?, new.Below s := by
  rw [← List.isChain_iff_pairwise] at old ⊢
  obtain ⟨hbefore, hleft⟩ := List.isChain_split.mp old
  rw [List.isChain_append_cons_cons, List.isChain_cons, and_iff_right hbefore]
  exact and_congr_right' (and_iff_left hleft.tail)

end Order

section Allocate

variable {p p' : ProcessMemory} {realAddress size v : BitVec 32} {type : MmuMemory}
  {priv : MmuPrivilege} {access : MmuAccess} {room : Bool} {pool : MemSection}
  {pre post : List MemSection} {ret : ReturnT}

theorem toNat_padVmem (v : BitVec 32) : (padVmem v).toNat = padded v.toNat % 2 ^ 32 := by
  rw [padVmem, padded, BitVec.toNat_add, BitVec.toNat_umod]
  rfl

theorem tgtMapMemory_sections {s : MemSection} {ret : ReturnT}
    (h : tgtMapMemory p (some s) = .ok (ret, p')) : p'.sections = p.sections := by
  obtain ⟨⟨ret', t⟩, -, h⟩ := of_bind h
  cases h
  rfl

/-- A section is added exactly if there is memory for it and there are sections already. -/
theorem processAllocateVmem_adds
    (h : processAllocateVmem p realAddress size type priv access room = .ok (ret, v, p')) :
    (∃ before after, (room ∧ p.sections ≠ []) ∧ p.sections = before ++ after ∧
      tgtMapMemory
        { p with sections := before ++ ⟨realAddress, v, size, type, priv, access⟩ :: after }
        (some ⟨realAddress, v, size, type, priv, access⟩) = .ok (ret, p')) ∨
      (¬ (room ∧ p.sections ≠ []) ∧ p' = p) := by
  have hall := findVmem_append (virtualAddressSpace p.kernelProcess) size
    (virtualAddressSpace p.kernelProcess) p.sections
  unfold processAllocateVmem at h
  dsimp only at h
  split at h
  next vmemStart passed current rest hfind =>
    rw [hfind] at hall
    split at h
    next hroom =>
      obtain ⟨⟨ret', q⟩, hmap, h⟩ := of_bind h
      cases h
      exact .inl ⟨passed, current :: rest, ⟨hroom, by simp [← hall]⟩, hall.symm, hmap⟩
    next hroom =>
      cases h
      exact .inr ⟨fun hadded => hroom hadded.1, rfl⟩
  next vmemStart hfind =>
    rw [hfind] at hall
    cases h
    exact .inr ⟨fun hadded => hadded.2 hall.symm, rfl⟩
  next vmemStart first passed hfind =>
    rw [hfind] at hall
    split at h
    next hroom =>
      obtain ⟨⟨ret', q⟩, hmap, h⟩ := of_bind h
      cases h
      exact .inl ⟨p.sections, [], ⟨hroom, by simp [← hall]⟩, (List.append_nil _).symm, hmap⟩
    next hroom =>
      obtain ⟨⟨ret', q⟩, hmap, h⟩ := of_bind h
      cases h
      cases hmap
      exact .inr ⟨fun hadded => hroom hadded.1, rfl⟩

/-- The address that `process_allocate_vmem` hands back. Where there is no memory for a section this
is 0 if the search ends in front of a section, and otherwise the address of the section that could
not be made. -/
def ProcessMemory.vmemAnswer (p : ProcessMemory) (size : BitVec 32) (room : Bool) : BitVec 32 :=
  match findVmem (virtualAddressSpace p.kernelProcess) size
      (virtualAddressSpace p.kernelProcess) p.sections with
  | (cand, _, _ :: _) => if room then cand else 0
  | (_, [], []) => 0
  | (cand, _ :: _, []) => padVmem cand

theorem processAllocateVmem_answer
    (h : processAllocateVmem p realAddress size type priv access room = .ok (ret, v, p')) :
    v = p.vmemAnswer size room := by
  unfold processAllocateVmem at h
  unfold ProcessMemory.vmemAnswer
  rcases hfind : findVmem (virtualAddressSpace p.kernelProcess) size
    (virtualAddressSpace p.kernelProcess) p.sections with ⟨cand, passed, left⟩
  simp only [hfind] at h ⊢
  cases left with
  | cons s rest =>
    cases room with
    | true =>
      obtain ⟨⟨ret', q⟩, -, h⟩ := of_bind h
      cases h
      rfl
    | false =>
      cases h
      rfl
  | nil =>
    cases passed with
    | nil =>
      cases h
      rfl
    | cons r passed =>
      cases room <;> obtain ⟨⟨ret', q⟩, -, h⟩ := of_bind h <;> cases h <;> rfl

/-- An allocation that returns an address puts the section in front of the one where the search
ends, or behind the last one. -/
theorem processAllocateVmem_cases
    (h : processAllocateVmem p realAddress size type priv access room = .ok (.noError, v, p'))
    (hv : v ≠ 0) :
    ∃ cand passed left, findVmem (virtualAddressSpace p.kernelProcess) size
        (virtualAddressSpace p.kernelProcess) p.sections = (cand, passed, left) ∧
      ((left ≠ [] ∧ v = cand ∧
          p'.sections = passed ++ ⟨realAddress, v, size, type, priv, access⟩ :: left) ∨
        (left = [] ∧ v = padVmem cand ∧
          p'.sections = p.sections ++ [⟨realAddress, v, size, type, priv, access⟩])) := by
  unfold processAllocateVmem at h
  dsimp only at h
  split at h
  next cand passed s rest hfind =>
    refine ⟨cand, passed, s :: rest, hfind, .inl ?_⟩
    split at h
    · obtain ⟨⟨ret, q⟩, hmap, h⟩ := of_bind h
      cases h
      exact ⟨List.cons_ne_nil _ _, rfl, tgtMapMemory_sections hmap⟩
    cases h
    exact absurd rfl hv
  · cases h
    exact absurd rfl hv
  next cand r passed hfind =>
    refine ⟨cand, r :: passed, [], hfind, .inr ?_⟩
    split at h
    · obtain ⟨⟨ret, q⟩, hmap, h⟩ := of_bind h
      cases h
      exact ⟨rfl, rfl, tgtMapMemory_sections hmap⟩
    obtain ⟨⟨ret, q⟩, hmap, h⟩ := of_bind h
    cases hmap
    obtain ⟨hret, -⟩ := triple_inj h
    cases hret

theorem allocated_of_below {before left : List MemSection} {last new : MemSection}
    (hsections : p.sections = before ++ last :: left)
    (hsections' : p'.sections = before ++ last :: new :: left)
    (below : p.sections.Pairwise Below)
    (hbase : virtualAddressSpace p.kernelProcess ≤ last.virtAddress) :
    p.Allocated p' new ↔ (new.virtAddress.toNat % mmuPageSize = 0 ∧ new.Fits) ∧
      last.Below new ∧ ∀ s ∈ left.head?, new.Below s := by
  rw [hsections] at below
  constructor
  · intro h
    have hsorted := h.sorted
    rw [hsections', pairwise_below_insert below] at hsorted
    exact ⟨⟨h.aligned, h.fits⟩, hsorted⟩
  rintro ⟨⟨haligned, hfits⟩, horder⟩
  have hsorted := (pairwise_below_insert below).mpr horder
  refine ⟨haligned, ?_, hfits, fun r hr => ?_, ⟨before ++ [last], left, ?_, ?_⟩, ?_⟩
  · have hlast := horder.1
    unfold Below behind at hlast
    rw [BitVec.le_def] at hbase ⊢
    omega
  · rw [← List.singleton_append, ← List.append_assoc, List.pairwise_append,
      List.pairwise_cons] at hsorted
    rw [hsections, ← List.singleton_append, ← List.append_assoc, List.mem_append] at hr
    rcases hr with hr | hr
    · exact (hsorted.2.2 r hr new (.head _)).apart
    · exact (hsorted.2.1.1 r hr).apart.symm
  · simp [hsections]
  · simp [hsections']
  · rwa [hsections']

theorem le_last {before passed left : List MemSection} {last : MemSection}
    (below : (pool :: (passed ++ left)).Pairwise Below)
    (hlast : pool :: passed = before ++ [last]) :
    pool.virtAddress ≤ last.virtAddress := by
  have hmem : last ∈ pool :: passed := by
    rw [hlast]
    simp
  rcases List.mem_cons.mp hmem with rfl | hmem
  · exact BitVec.le_refl _
  have hbelow := (List.pairwise_cons.mp below).1 last (List.mem_append_left _ hmem)
  unfold Below behind at hbelow
  rw [BitVec.le_def]
  omega

theorem padded_gap {e size start : ℕ} (he : e ≤ start) (hstart : start < 2 ^ 32) :
    ((padded (e % 2 ^ 32) % 2 ^ 32 % 4096 = 0 ∧ padded (e % 2 ^ 32) % 2 ^ 32 + size ≤ 2 ^ 32) ∧
        e ≤ padded (e % 2 ^ 32) % 2 ^ 32 ∧ padded (e % 2 ^ 32) % 2 ^ 32 + size ≤ start) ↔
      padded e % 4096 = 0 ∧ padded e + size ≤ start := by
  rw [Nat.mod_eq_of_lt (he.trans_lt hstart)]
  unfold padded
  omega

theorem padded_end {e size : ℕ} (he : e ≤ 2 ^ 32)
    (hne : padded (padded (e % 2 ^ 32) % 2 ^ 32) % 2 ^ 32 ≠ 0) :
    ((padded (padded (e % 2 ^ 32) % 2 ^ 32) % 2 ^ 32 % 4096 = 0 ∧
        padded (padded (e % 2 ^ 32) % 2 ^ 32) % 2 ^ 32 + size ≤ 2 ^ 32) ∧
        e ≤ padded (padded (e % 2 ^ 32) % 2 ^ 32) % 2 ^ 32) ↔
      padded (padded e) % 4096 = 0 ∧ padded (padded e) + size ≤ 2 ^ 32 := by
  unfold padded at *
  omega

/-- An allocation does not collide if the gap that is found fits, and only then. -/
theorem allocated_iff (hsections : p.sections = pre ++ pool :: post)
    (hpool : pool.virtAddress = virtualAddressSpace p.kernelProcess) (hpos : 0 < pool.size.toNat)
    (below : p.sections.Pairwise MemSection.Below) (fits : ∀ r ∈ p.sections, r.Fits)
    (h : processAllocateVmem p realAddress size type priv access room = .ok (.noError, v, p'))
    (hv : v ≠ 0) :
    p.Allocated p' ⟨realAddress, v, size, type, priv, access⟩ ↔ VmemFits size pool post := by
  obtain ⟨cand, passed, left, hfind, hcases⟩ := processAllocateVmem_cases h hv
  have below' := below
  rw [hsections, List.pairwise_append, List.pairwise_cons] at below'
  obtain ⟨-, ⟨hbehind, hpost⟩, hpre⟩ := below'
  rw [hsections, ← hpool, findVmem_pool] at hfind
  rotate_left
  · intro r hr
    have hr := hpre r hr pool (.head _)
    unfold MemSection.Below MemSection.behind at hr
    rw [BitVec.lt_def]
    omega
  · rw [BitVec.lt_def]
    omega
  obtain ⟨v', passed', left', hrest⟩ : ∃ v' passed' left', findVmem pool.virtAddress size
      (padVmem (pool.virtAddress + pool.size)) post = (v', passed', left') := ⟨_, _, _, rfl⟩
  rw [hrest] at hfind
  obtain ⟨rfl, rfl, rfl⟩ : v' = cand ∧ pre ++ pool :: passed' = passed ∧ left' = left := by
    simpa using hfind
  obtain ⟨before, last, hlast, rfl, hcand, hfits⟩ := findVmem_spec (fun s hs => by
    have hs := hbehind s hs
    unfold MemSection.Below MemSection.behind at hs
    rw [BitVec.lt_def]
    omega) hrest
  have hold : p.sections = (pre ++ before) ++ last :: left' := by
    rw [hsections, ← List.cons_append, hlast]
    simp
  have hnew : p'.sections = (pre ++ before) ++
      last :: ⟨realAddress, v, size, type, priv, access⟩ :: left' := by
    rcases hcases with ⟨-, -, hp'⟩ | ⟨rfl, -, hp'⟩
    · rw [hp', hlast]
      simp
    · rw [hp', hold]
      simp
  have hbase := le_last (List.pairwise_cons.mpr ⟨hbehind, hpost⟩) hlast
  rw [hpool] at hbase
  rw [allocated_of_below hold hnew below hbase, hfits]
  have hlastFits : last.Fits := fits last (by rw [hold]; simp)
  have htoNat : (last.virtAddress + last.size).toNat = last.behind % 2 ^ 32 := by
    rw [BitVec.toNat_add, MemSection.behind]
  unfold MemSection.Fits at hlastFits ⊢
  unfold MemSection.Below mmuPageSize
  dsimp only
  rcases hcases with ⟨hne, rfl, -⟩ | ⟨rfl, rfl, -⟩
  · -- in front of a section
    obtain ⟨s, rest, rfl⟩ := List.exists_cons_of_ne_nil hne
    have hbelow : last.Below s := by
      rw [hold, List.pairwise_append, List.pairwise_cons] at below
      exact below.2.1.1 s (.head _)
    simp only [List.head?_cons, Option.mem_some_iff, forall_eq']
    rw [MemSection.behind, hcand, toNat_padVmem, htoNat]
    exact padded_gap hbelow s.virtAddress.isLt
  · -- behind the last one
    simp only [List.head?_nil, Option.not_mem_none, false_implies, implies_true, and_true]
    have hne : padded (padded (last.behind % 2 ^ 32) % 2 ^ 32) % 2 ^ 32 ≠ 0 := by
      rw [← htoNat, ← toNat_padVmem, ← toNat_padVmem, ← hcand]
      exact fun hzero => hv (BitVec.eq_of_toNat_eq hzero)
    rw [hcand, toNat_padVmem, toNat_padVmem, htoNat]
    exact padded_end hlastFits hne

theorem exists_tgtMapMemory (ok : p.pageTable.Ok) (stocked : p.pageTable.Stocked)
    (sections : List MemSection) (s : MemSection) :
    ∃ q, tgtMapMemory { p with sections } (some s) = .ok (.noError, q) := by
  obtain ⟨t, hmap⟩ := stocked.armMapPages ok s 0
  refine ⟨{ p with sections, pageTable := t }, ?_⟩
  simp only [tgtMapMemory, armMapMemory, hmap, ok_bind, pure_eq_ok]

/-- With enough memory for the page table, the allocation returns the address that the search leads
to. -/
theorem exists_processAllocateVmem {cand : BitVec 32} {r : MemSection}
    {passed left : List MemSection} (ok : p.pageTable.Ok) (stocked : p.pageTable.Stocked)
    (hfind : findVmem (virtualAddressSpace p.kernelProcess) size
      (virtualAddressSpace p.kernelProcess) p.sections = (cand, r :: passed, left)) :
    ∃ p', processAllocateVmem p realAddress size type priv access true =
      .ok (.noError, if left = [] then padVmem cand else cand, p') := by
  unfold processAllocateVmem
  dsimp only
  rw [hfind]
  cases left with
  | nil =>
    obtain ⟨q, hq⟩ := exists_tgtMapMemory ok stocked
      (p.sections ++ [⟨realAddress, padVmem cand, size, type, priv, access⟩])
      ⟨realAddress, padVmem cand, size, type, priv, access⟩
    refine ⟨q, ?_⟩
    simp only [padVmem] at hq ⊢
    simp only [if_true, hq, ok_bind, pure_eq_ok]
  | cons s rest =>
    obtain ⟨q, hq⟩ := exists_tgtMapMemory ok stocked
      (r :: passed ++ ⟨realAddress, cand, size, type, priv, access⟩ :: s :: rest)
      ⟨realAddress, cand, size, type, priv, access⟩
    refine ⟨q, ?_⟩
    simp only [if_true, hq, ok_bind, pure_eq_ok, reduceCtorEq, if_false]

def stockedProcess : ProcessMemory :=
  { smallProcess with pageTable := tgtInitialisePageTable tablePool }

/-- One page behind the public pool. -/
theorem allocated_iff_page : ∃ p',
    processAllocateVmem stockedProcess 0x00800000#32 0x00001000#32 .randomAccessMemory .allAccess
      .readWrite true = .ok (.noError, 0xC0140000#32, p') ∧
    stockedProcess.Allocated p' ⟨0x00800000#32, 0xC0140000#32, 0x00001000#32, .randomAccessMemory,
      .allAccess, .readWrite⟩ := by
  have hfind : findVmem (virtualAddressSpace stockedProcess.kernelProcess) 0x00001000#32
      (virtualAddressSpace stockedProcess.kernelProcess) stockedProcess.sections =
      (0xC0140000#32, stockedProcess.sections, []) := by
    decide
  obtain ⟨p', h⟩ := exists_processAllocateVmem ok_tablePool stocked_tablePool hfind
  have hsections : stockedProcess.sections =
      [⟨0x00008000#32, 0x00008000#32, 0x00001000#32, .randomAccessMemory, .allAccess, .readOnly⟩] ++
      ⟨0x00200000#32, 0xC0000000#32, 0x00040000#32, .randomAccessMemory, .kernelAccess,
        .readWrite⟩ ::
      [⟨0x00400000#32, 0xC0040000#32, 0x00100000#32, .randomAccessMemory, .allAccess,
        .readWrite⟩] := by
    decide
  refine ⟨p', h, (allocated_iff hsections rfl (by decide) (by decide) (by decide) h
    (by decide)).mpr ?_⟩
  rw [VmemFits, if_neg (by decide), VmemFits]
  decide

/-- With a size of 1 GiB the sum wraps around, and the new section begins where the public pool
does. -/
theorem not_allocated : ∃ p',
    processAllocateVmem stockedProcess 0x00800000#32 0x40000000#32 .randomAccessMemory .allAccess
      .readWrite true = .ok (.noError, 0xC0040000#32, p') ∧
    ∃ r ∈ stockedProcess.sections, r.Holds 0xC0040000#32 ∧
      MemSection.Holds ⟨0x00800000#32, 0xC0040000#32, 0x40000000#32, .randomAccessMemory,
        .allAccess, .readWrite⟩ 0xC0040000#32 := by
  have hfind : findVmem (virtualAddressSpace stockedProcess.kernelProcess) 0x40000000#32
      (virtualAddressSpace stockedProcess.kernelProcess) stockedProcess.sections =
      (0xC0040000#32, stockedProcess.sections.take 2, stockedProcess.sections.drop 2) := by
    decide
  obtain ⟨p', h⟩ := exists_processAllocateVmem ok_tablePool stocked_tablePool hfind
  exact ⟨p', h, by decide⟩

end Allocate

/-! ## Device memory -/

section Device

open Function

/-- The loop of `kernel_device_map_memory`. Every call writes the address, and no result is looked
at. -/
def mapDevice (allocate : ℕ → ProcessMemory → Exec (ReturnT × BitVec 32 × ProcessMemory)) :
    List ℕ → BitVec 32 → (ℕ → ProcessMemory) → Exec (BitVec 32 × (ℕ → ProcessMemory))
  | [], virt, memory => return (virt, memory)
  | p :: procs, _, memory => do
    let (_, virt, m) ← allocate p (memory p)
    mapDevice allocate procs virt (update memory p m)

/-- The processes are the kernel and those of the list; `room` says which ones have memory for a
section. -/
def kernelDeviceMapMemory (addr size : BitVec 32) (type : MmuMemory) (room : ℕ → Bool) (kernel : ℕ)
    (procs : List ℕ) (memory : ℕ → ProcessMemory) :
    Exec (ReturnT × BitVec 32 × (ℕ → ProcessMemory)) := do
  let allocate p m := processAllocateVmem m addr size type .kernelAccess .readWrite (room p)
  let (result, virt, m) ← allocate kernel (memory kernel)
  let memory := update memory kernel m
  if result = .noError then do
    let (virt, memory) ← mapDevice allocate (procs.filter (· ≠ kernel)) virt memory
    return (result, virt, memory)
  else return (result, virt, memory)

variable {allocate : ℕ → ProcessMemory → Exec (ReturnT × BitVec 32 × ProcessMemory)} {kernel : ℕ}
  {procs : List ℕ} {memory memory' : ℕ → ProcessMemory} {addr size virt virt' : BitVec 32}

theorem mapDevice_cases (nodup : procs.Nodup)
    (h : mapDevice allocate procs virt memory = .ok (virt', memory')) :
    (procs = [] → virt' = virt) ∧ (∀ p ∉ procs, memory' p = memory p) ∧
      ∀ p ∈ procs, ∃ r v, allocate p (memory p) = .ok (r, v, memory' p) ∧
        (procs.getLast? = some p → virt' = v) := by
  induction procs generalizing virt memory with
  | nil =>
    cases h
    exact ⟨fun _ => rfl, fun _ _ => rfl, by simp⟩
  | cons q procs ih =>
    obtain ⟨⟨r, v, m⟩, hq, h⟩ := of_bind h
    obtain ⟨hnew, nodup⟩ := List.nodup_cons.mp nodup
    obtain ⟨hlast, hkept, hall⟩ := ih nodup h
    refine ⟨by simp, fun p hp => ?_, fun p hp => ?_⟩
    · rw [List.mem_cons, not_or] at hp
      rw [hkept p hp.2, update_of_ne hp.1]
    rcases List.mem_cons.mp hp with rfl | hp
    · rw [hkept p hnew, update_self]
      refine ⟨r, v, hq, fun hend => ?_⟩
      cases procs with
      | nil => exact hlast rfl
      | cons a procs => exact absurd (List.mem_of_getLast? (by simpa using hend)) hnew
    obtain ⟨r, v, hp', hend⟩ := hall p hp
    have hne : p ≠ q := fun e => hnew (e ▸ hp)
    rw [update_of_ne hne] at hp'
    obtain ⟨a, procs, rfl⟩ := List.exists_cons_of_ne_nil (List.ne_nil_of_mem hp)
    exact ⟨r, v, hp', fun h => hend (by simpa using h)⟩

/-- The process has got one section more, and nothing but its page table has changed with it. If the
section keeps the offsets of its addresses and comes upon no section entry, each of them is
translated to the real address. -/
structure ProcessMemory.Maps (p p' : ProcessMemory) (new : MemSection) : Prop where
  added : ∃ before after, p.sections = before ++ after ∧
    p' = ⟨p.kernelProcess, before ++ new :: after, p.poolStart, p'.pageTable⟩
  table : ∃ ret, armMapMemory p.pageTable new = .ok (ret, p'.pageTable)
  pages : new.PageAligned → new.virtAddress.toNat + new.size.toNat ≤ 2 ^ 32 → new.KeepsOffsets →
    p.pageTable.Ok → NoSections new new.virtAddress.toNat p.pageTable →
    ∀ o < new.size.toNat, walk p'.pageTable (new.virtAddress + BitVec.ofNat 32 o) =
      some ⟨new.realAddress + BitVec.ofNat 32 o, new.attributes⟩

theorem maps_of_tgtMapMemory {p p' : ProcessMemory} {new : MemSection}
    {before after : List MemSection} {ret : ReturnT} (hsections : p.sections = before ++ after)
    (h : tgtMapMemory { p with sections := before ++ new :: after } (some new) = .ok (ret, p')) :
    ret = .noError ∧ p.Maps p' new := by
  obtain ⟨⟨ret', t⟩, hmap, h⟩ := of_bind h
  cases h
  exact ⟨rfl, ⟨before, after, hsections, rfl⟩, ⟨ret', hmap⟩,
    fun aligned hfit keeps ok hnone => ok.walk_offset aligned hfit keeps hnone hmap⟩

/-- What becomes of the memory of one process: the section is made and mapped if there is memory for
it and the process has sections already, and otherwise nothing happens. -/
theorem processAllocateVmem_maps {p p' : ProcessMemory} {type : MmuMemory} {priv : MmuPrivilege}
    {access : MmuAccess} {room : Bool} {ret : ReturnT}
    (h : processAllocateVmem p addr size type priv access room = .ok (ret, virt, p')) :
    virt = p.vmemAnswer size room ∧ (ret ≠ .noError → p' = p) ∧
      if room ∧ p.sections ≠ [] then
        p.Maps p' ⟨addr, p.vmemAnswer size true, size, type, priv, access⟩
      else p' = p := by
  have hanswer := processAllocateVmem_answer h
  refine ⟨hanswer, ?_⟩
  obtain ⟨before, after, hadded, hsections, hmap⟩ | ⟨hnot, rfl⟩ := processAllocateVmem_adds h
  · obtain ⟨rfl, maps⟩ := maps_of_tgtMapMemory hsections hmap
    rw [if_pos hadded]
    rw [hanswer, hadded.1] at maps
    exact ⟨fun hne => absurd rfl hne, maps⟩
  · rw [if_neg hnot]
    exact ⟨fun _ => rfl, rfl⟩

/-- When the kernel process gets the device, so does every process of the list that has memory for a
section: it gets a section for it, where its own search leads to, and the pages of the section are
those of the device. No other process changes. The address that is handed back is that of the last
process, whatever it is worth. When the kernel process does not get it, nothing has changed. -/
theorem kernelDeviceMapMemory_all {type : MmuMemory} {room : ℕ → Bool} {result : ReturnT}
    (nodup : procs.Nodup)
    (h : kernelDeviceMapMemory addr size type room kernel procs memory =
      .ok (result, virt, memory')) :
    (result ≠ .noError ∧ memory' = memory ∧
        virt = (memory kernel).vmemAnswer size (room kernel)) ∨
      (result = .noError ∧
        (∀ p, p = kernel ∨ p ∈ procs →
          if room p ∧ (memory p).sections ≠ [] then
            (memory p).Maps (memory' p) ⟨addr, (memory p).vmemAnswer size true, size, type,
              .kernelAccess, .readWrite⟩
          else memory' p = memory p) ∧
        (∀ p, p ≠ kernel → p ∉ procs → memory' p = memory p) ∧
        ∀ p ∈ (kernel :: procs.filter (· ≠ kernel)).getLast?,
          virt = (memory p).vmemAnswer size (room p)) := by
  unfold kernelDeviceMapMemory at h
  extract_lets allocate at h
  obtain ⟨⟨result', v, m⟩, hkernel, h⟩ := of_bind h
  dsimp only at h
  split at h
  next hok =>
    obtain ⟨⟨virt', memory₁⟩, hloop, h⟩ := of_bind h
    cases h
    have hfirst : mapDevice allocate (kernel :: procs.filter (· ≠ kernel)) 0 memory =
        .ok (virt', memory₁) := by
      rw [mapDevice, hkernel]
      exact hloop
    obtain ⟨-, hkept, hall⟩ := mapDevice_cases (by simp [nodup.filter]) hfirst
    refine .inr ⟨hok, fun p hp => ?_, fun p hp hprocs => hkept p (by simp [hp, hprocs]),
      fun p hp => ?_⟩
    · have hmem : p ∈ kernel :: procs.filter (· ≠ kernel) := by
        by_cases heq : p = kernel
        · simp [heq]
        · simp [heq, hp.resolve_left heq]
      obtain ⟨r, w, hallocate, -⟩ := hall p hmem
      exact (processAllocateVmem_maps hallocate).2.2
    · obtain ⟨r, w, hallocate, hlast⟩ := hall p (List.mem_of_getLast? hp)
      rw [hlast hp, (processAllocateVmem_maps hallocate).1]
  next hfailed =>
    cases h
    obtain ⟨hanswer, hsame, -⟩ := processAllocateVmem_maps hkernel
    refine .inl ⟨hfailed, ?_, hanswer⟩
    rw [hsame hfailed, update_eq_self]

/-- The kernel process and the others as `process_create` makes them. -/
def deviceProcesses (p : ℕ) : ProcessMemory :=
  { stockedProcess with
    kernelProcess := p = 0
    sections := processCreateSections (p = 0) [] 0x08000000#32 0x00200000#32 0x00400000#32
      0x00100000#32 [] 0x00008000#32 0x00009000#32 }

/-- A page behind the public pool is mapped to a page of registers. -/
theorem ProcessMemory.Maps.registers {p p' : ProcessMemory} {virt : BitVec 32}
    (maps : p.Maps p' ⟨0x20003000#32, virt, 0x00001000#32, .deviceMemory, .kernelAccess,
      .readWrite⟩) (hvirt : virt.toNat % 1048576 = 0x00040000)
    (hnew : p.pageTable = tgtInitialisePageTable tablePool) :
    ∀ o < 4096, (walk p'.pageTable (virt + BitVec.ofNat 32 o)).map Translation.real =
      some (0x20003000#32 + BitVec.ofNat 32 o) := by
  intro o ho
  have hlt := virt.isLt
  have hsize : (0x00001000#32).toNat = 4096 := rfl
  have hpage : virt.toNat % mmuPageSize = 0 := by
    unfold mmuPageSize
    omega
  have hreal : (0x20003000#32).toNat % mmuPageSize = 0 := by decide
  have hwalk := maps.pages ⟨hpage, hreal, hsize.symm ▸ Nat.zero_lt_succ _⟩
    (by dsimp only; omega) (.inr fun k hk => ?_) (hnew ▸ ok_tablePool)
    (hnew ▸ fun i _ _ => not_holdsSection_of_zero rfl) o ho
  · rw [hwalk]
    rfl
  · -- no boundary of 1 MiB lies in the page
    obtain ⟨hlo, hhi, -⟩ := hk
    rw [MemSection.stop, MemSection.pages_eq] at hhi
    dsimp only at hlo hhi
    omega

/-- A page of registers is mapped in both processes, at an address of each one's own, and the one
that is handed back is that of the second. -/
theorem kernelDeviceMapMemory_all_two : ∃ memory',
    kernelDeviceMapMemory 0x20003000#32 0x00001000#32 .deviceMemory (fun _ => true) 0 [0, 1]
      deviceProcesses = .ok (.noError, 0xC0140000#32, memory') ∧
    memory' 2 = deviceProcesses 2 ∧
    ∀ o < 4096,
      (walk (memory' 0).pageTable (0x80140000#32 + BitVec.ofNat 32 o)).map Translation.real =
        some (0x20003000#32 + BitVec.ofNat 32 o) ∧
      (walk (memory' 1).pageTable (0xC0140000#32 + BitVec.ofNat 32 o)).map Translation.real =
        some (0x20003000#32 + BitVec.ofNat 32 o) := by
  have hfind₀ : findVmem (virtualAddressSpace (deviceProcesses 0).kernelProcess) 0x00001000#32
      (virtualAddressSpace (deviceProcesses 0).kernelProcess) (deviceProcesses 0).sections =
      (0x80140000#32, (deviceProcesses 0).sections, []) := by
    decide
  have hfind₁ : findVmem (virtualAddressSpace (deviceProcesses 1).kernelProcess) 0x00001000#32
      (virtualAddressSpace (deviceProcesses 1).kernelProcess) (deviceProcesses 1).sections =
      (0xC0140000#32, (deviceProcesses 1).sections, []) := by
    decide
  obtain ⟨q₀, h₀⟩ : ∃ q, processAllocateVmem (deviceProcesses 0) 0x20003000#32 0x00001000#32
      .deviceMemory .kernelAccess .readWrite true = .ok (.noError, 0x80140000#32, q) :=
    exists_processAllocateVmem ok_tablePool stocked_tablePool hfind₀
  obtain ⟨q₁, h₁⟩ : ∃ q, processAllocateVmem (deviceProcesses 1) 0x20003000#32 0x00001000#32
      .deviceMemory .kernelAccess .readWrite true = .ok (.noError, 0xC0140000#32, q) :=
    exists_processAllocateVmem ok_tablePool stocked_tablePool hfind₁
  have h : kernelDeviceMapMemory 0x20003000#32 0x00001000#32 .deviceMemory (fun _ => true) 0 [0, 1]
      deviceProcesses = .ok (.noError, 0xC0140000#32,
        update (update deviceProcesses 0 q₀) 1 q₁) := by
    refine bind_of ⟨_, h₀, ?_⟩
    exact bind_of ⟨_, bind_of ⟨_, h₁, rfl⟩, rfl⟩
  refine ⟨_, h, rfl, ?_⟩
  obtain ⟨hne, -⟩ | ⟨-, hmaps, -⟩ := kernelDeviceMapMemory_all (by decide) h
  · exact absurd rfl hne
  have hkernel := hmaps 0 (by decide)
  have hother := hmaps 1 (by decide)
  rw [if_pos (by decide)] at hkernel hother
  intro o ho
  exact ⟨hkernel.registers (by decide) rfl o ho, hother.registers (by decide) rfl o ho⟩

end Device

end Tinker
