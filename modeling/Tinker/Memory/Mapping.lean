import Tinker.Memory.PageTable

/-!
# Mapping a section

The loop of `arm_map_memory` goes through the pages of a section. Where a page begins at a boundary
of 1 MiB and at least as much is left, one section entry is made for it.

A section entry keeps only the upper 12 bits of the real address. If the real and the virtual
address differ modulo 1 MiB, its addresses are translated to the wrong place. And the comparison
that finds out how much is left is one of 32 bits: at `0xFFF00000` the sum wraps around, and a
section entry is made also for the pages behind the section.
-/

namespace Tinker

open Tinker.Lib MemSection

/-! ## What the loop maps -/

/-- A section entry is made for the `k`-th MiB, when the pages from `lo` to `hi` are mapped. -/
def SectionAt (lo hi k : ℕ) : Prop :=
  lo ≤ k * 1048576 ∧ k * 1048576 < hi ∧
    (k = 4095 ∨ (hi < 2 ^ 32 ∧ k * 1048576 + 1048576 ≤ hi))

deriving instance Decidable for SectionAt

namespace MemSection

/-- The end of the last page. -/
def stop (s : MemSection) : ℕ := s.virtAddress.toNat + s.pages * 4096

/-- Where a page translates an address to. -/
def pageTarget (s : MemSection) (v : BitVec 32) : BitVec 32 := s.realAddress + (v - s.virtAddress)

/-- Where a section entry translates an address to. -/
def sectionTarget (s : MemSection) (v : BitVec 32) : BitVec 32 :=
  (s.pageTarget (v &&& 0xFFF00000#32) &&& 0xFFF00000#32) + (v &&& 0x000FFFFF#32)

/-- What an address is translated to, if the loop reaches it from the address `lo` on. -/
def translation (s : MemSection) (lo : ℕ) (v : BitVec 32) : Option Translation :=
  if SectionAt lo s.stop (v.toNat / 1048576) then some ⟨s.sectionTarget v, s.attributes⟩
  else if lo ≤ v.toNat ∧ v.toNat < s.stop then some ⟨s.pageTarget v, s.attributes⟩
  else none

end MemSection

section Loop

variable {s : MemSection} {t t' : PgTbl} {page : ℕ} {v : BitVec 32} {ret : ReturnT}

theorem MemSection.pages_eq (s : MemSection) : s.pages = (s.size.toNat + 4095) / 4096 := by
  unfold pages
  by_cases hrest : s.size.toNat % mmuPageSize ≠ 0
  · rw [if_pos hrest]
    unfold mmuPageSize at hrest ⊢
    omega
  rw [if_neg hrest]
  unfold mmuPageSize at hrest ⊢
  omega

theorem MemSection.toNat_pageVirt (hfit : s.stop ≤ 2 ^ 32) (hpage : page < s.pages) :
    (s.pageVirt page).toNat = s.virtAddress.toNat + page * 4096 := by
  simp only [stop] at hfit
  rw [pageVirt, BitVec.toNat_add, BitVec.toNat_ofNat, mmuPageSize]
  omega

theorem armIs1mbSection_iff (hfit : s.stop ≤ 2 ^ 32) (hpage : page < s.pages) :
    armIs1mbSection (s.pageVirt page)
        (s.pageVirt page + BitVec.ofNat 32 ((s.pages - page) * mmuPageSize)) = true ↔
      (s.pageVirt page).toNat % 1048576 = 0 ∧
        SectionAt (s.pageVirt page).toNat s.stop ((s.pageVirt page).toNat / 1048576) := by
  have hvirt := s.toNat_pageVirt hfit hpage
  have hstop : (s.pages - page) * 4096 + (s.pageVirt page).toNat = s.stop := by
    rw [hvirt, stop, Nat.sub_mul]
    omega
  have hend : (s.pageVirt page + BitVec.ofNat 32 ((s.pages - page) * mmuPageSize)).toNat =
      s.stop % 2 ^ 32 := by
    rw [BitVec.toNat_add, BitVec.toNat_ofNat, mmuPageSize]
    omega
  have hmod : (s.pageVirt page % 0x100000#32 ≠ 0) ↔ (s.pageVirt page).toNat % 1048576 ≠ 0 := by
    rw [ne_eq, ← BitVec.toNat_inj, BitVec.toNat_umod]
    rfl
  have hmib : (s.pageVirt page + 0x100000#32).toNat =
      ((s.pageVirt page).toNat + 1048576) % 2 ^ 32 := by
    rw [BitVec.toNat_add, BitVec.toNat_ofNat]
  unfold armIs1mbSection SectionAt
  split
  next hne => exact iff_of_false Bool.false_ne_true fun h => hmod.mp hne h.1
  next hzero =>
    rw [hmod, ne_eq, not_not] at hzero
    split
    next hshort =>
      rw [BitVec.lt_def, hend, hmib] at hshort
      exact iff_of_false Bool.false_ne_true fun h => by omega
    next hlong =>
      rw [BitVec.lt_def, hend, hmib] at hlong
      exact iff_of_true rfl ⟨hzero, by omega⟩

theorem MemSection.PageAligned.stop_mod (aligned : s.PageAligned) : s.stop % 4096 = 0 := by
  have hvirt := aligned.virt
  unfold mmuPageSize at hvirt
  unfold stop
  omega

theorem MemSection.translation_page {lo : ℕ} (aligned : s.PageAligned) (hlo : lo % 4096 = 0)
    (hlt : lo < s.stop)
    (hpage : ¬ (lo % 1048576 = 0 ∧ SectionAt lo s.stop (lo / 1048576))) (v : BitVec 32) :
    s.translation lo v =
      if v.toNat / 4096 = lo / 4096 then some ⟨s.pageTarget v, s.attributes⟩
      else s.translation (lo + 4096) v := by
  have hstop := aligned.stop_mod
  have hsection : SectionAt lo s.stop (v.toNat / 1048576) ↔
      SectionAt (lo + 4096) s.stop (v.toNat / 1048576) := by
    unfold SectionAt at hpage ⊢
    omega
  unfold translation
  by_cases hsame : v.toNat / 4096 = lo / 4096
  · have hno : ¬ SectionAt lo s.stop (v.toNat / 1048576) := by
      unfold SectionAt at hpage ⊢
      omega
    rw [if_neg hno, if_pos (by omega), if_pos hsame]
  have hrange : lo ≤ v.toNat ∧ v.toNat < s.stop ↔ lo + 4096 ≤ v.toNat ∧ v.toNat < s.stop := by
    omega
  rw [if_neg hsame, if_congr hsection rfl (if_congr hrange rfl rfl)]

theorem MemSection.translation_section {lo : ℕ} (haligned : lo % 1048576 = 0)
    (hsection : SectionAt lo s.stop (lo / 1048576)) (v : BitVec 32) :
    s.translation lo v =
      if v.toNat / 1048576 = lo / 1048576 then some ⟨s.sectionTarget v, s.attributes⟩
      else s.translation (lo + 1048576) v := by
  unfold translation
  by_cases hsame : v.toNat / 1048576 = lo / 1048576
  · rw [if_pos hsame, hsame, if_pos hsection]
  have hnext : SectionAt lo s.stop (v.toNat / 1048576) ↔
      SectionAt (lo + 1048576) s.stop (v.toNat / 1048576) := by
    unfold SectionAt
    omega
  have hrange : lo ≤ v.toNat ∧ v.toNat < s.stop ↔
      lo + 1048576 ≤ v.toNat ∧ v.toNat < s.stop := by
    omega
  rw [if_neg hsame, if_congr hnext rfl (if_congr hrange rfl rfl)]

theorem MemSection.translation_of_le {lo : ℕ} (h : s.stop ≤ lo) (v : BitVec 32) :
    s.translation lo v = none := by
  unfold translation
  rw [if_neg, if_neg (by omega)]
  unfold SectionAt
  omega

theorem MemSection.translation_of_lt {lo : ℕ} (h : v.toNat < lo) : s.translation lo v = none := by
  unfold translation
  rw [if_neg, if_neg (by omega)]
  unfold SectionAt
  omega

theorem MemSection.PageAligned.pageTarget_eq (aligned : s.PageAligned)
    (h : v.toNat / 4096 = (s.pageVirt page).toNat / 4096) :
    (s.pageReal page &&& 0xFFFFF000#32) + (v &&& 0x00000FFF#32) = s.pageTarget v := by
  have hvirt := aligned.virt
  have hreal := aligned.real
  have hhigh := toNat_armGetLvl2VirtAddr (s.pageReal page)
  have hlow : (v &&& 0x00000FFF#32).toNat = v.toNat % 4096 :=
    toNat_and_lowMask v (show 12 ≤ 32 by decide)
  simp only [pageVirt, pageReal, BitVec.toNat_add, BitVec.toNat_ofNat,
    armGetLvl2VirtAddr, mmuPageSize] at *
  apply BitVec.eq_of_toNat_eq
  rw [pageTarget, BitVec.toNat_add, BitVec.toNat_add, BitVec.toNat_sub, hlow]
  simp only [hhigh]
  omega

theorem MemSection.sectionTarget_eq (h : v &&& 0xFFF00000#32 = s.pageVirt page) :
    (s.pageReal page &&& 0xFFF00000#32) + (v &&& 0x000FFFFF#32) = s.sectionTarget v := by
  have hreal : s.pageTarget (s.pageVirt page) = s.pageReal page := by
    rw [pageTarget, pageVirt, pageReal, add_sub_cancel_left]
  rw [sectionTarget, h, hreal]

/-- The entries that the loop comes upon from the address `lo` on are not those of sections. -/
def NoSections (s : MemSection) (lo : ℕ) (t : PgTbl) : Prop :=
  ∀ i : BitVec 12, lo < (i.toNat + 1) * 1048576 → i.toNat * 1048576 < s.stop → ¬ t.HoldsSection i

theorem MemSection.walk_sectionRound (hfit : s.stop ≤ 2 ^ 32) (hpage : page < s.pages)
    (hboundary : (s.virtAddress.toNat + page * 4096) % 1048576 = 0)
    (hsection : SectionAt (s.virtAddress.toNat + page * 4096) s.stop
      ((s.virtAddress.toNat + page * 4096) / 1048576)) (t : PgTbl) (v : BitVec 32) :
    (s.translation (s.virtAddress.toNat + page * 4096 + 1048576) v).or
        (walk (armMapSection s (s.pageVirt page) (s.pageReal page) t) v) =
      (s.translation (s.virtAddress.toNat + page * 4096) v).or (walk t v) := by
  have hvirt := s.toNat_pageVirt hfit hpage
  rw [walk_mapSection, s.translation_section hboundary hsection, hvirt]
  by_cases hsame : v.toNat / 1048576 = (s.virtAddress.toNat + page * 4096) / 1048576
  · have hmask : v &&& 0xFFF00000#32 = s.pageVirt page := by
      apply BitVec.eq_of_toNat_eq
      rw [toNat_sectionMask, hvirt]
      omega
    rw [if_pos hsame, if_pos hsame, s.translation_of_lt (by omega), s.sectionTarget_eq hmask,
      Option.none_or, Option.some_or]
  · rw [if_neg hsame, if_neg hsame]

theorem MemSection.PageAligned.walk_pageRound {u : PgTbl} (aligned : s.PageAligned)
    (hfit : s.stop ≤ 2 ^ 32) (hpage : page < s.pages)
    (hno : ¬ ((s.virtAddress.toNat + page * 4096) % 1048576 = 0 ∧
      SectionAt (s.virtAddress.toNat + page * 4096) s.stop
        ((s.virtAddress.toNat + page * 4096) / 1048576)))
    (hwalk : ∀ v, walk u v =
      if v.toNat / 4096 = (s.pageVirt page).toNat / 4096 then
        some ⟨(s.pageReal page &&& 0xFFFFF000#32) + (v &&& 0x00000FFF#32), s.attributes⟩
      else walk t v) (v : BitVec 32) :
    (s.translation (s.virtAddress.toNat + page * 4096 + 4096) v).or (walk u v) =
      (s.translation (s.virtAddress.toNat + page * 4096) v).or (walk t v) := by
  have hvirt := s.toNat_pageVirt hfit hpage
  have hstart := aligned.virt
  unfold mmuPageSize at hstart
  have hstop : s.virtAddress.toNat + page * 4096 < s.stop := by
    unfold stop
    omega
  rw [hwalk, s.translation_page aligned (by omega) hstop hno, hvirt]
  by_cases hsame : v.toNat / 4096 = (s.virtAddress.toNat + page * 4096) / 4096
  · rw [if_pos hsame, if_pos hsame, s.translation_of_lt (by omega),
      aligned.pageTarget_eq (by rw [hvirt, hsame]), Option.none_or, Option.some_or]
  · rw [if_neg hsame, if_neg hsame]

theorem NoSections.mapSection (hfit : s.stop ≤ 2 ^ 32) (hpage : page < s.pages)
    (hsections : NoSections s (s.virtAddress.toNat + page * 4096) t) :
    NoSections s (s.virtAddress.toNat + page * 4096 + 1048576)
      (armMapSection s (s.pageVirt page) (s.pageReal page) t) := by
  intro i hlo hhi hholds
  have hne : i ≠ armGetLvl1SectionIndex (s.pageVirt page) := by
    rintro rfl
    rw [toNat_armGetLvl1SectionIndex, s.toNat_pageVirt hfit hpage] at hlo
    omega
  rw [PgTbl.HoldsSection, armMapSection_of_ne hne] at hholds
  exact hsections i (by omega) hhi hholds

theorem PgTbl.Ok.walk_armMapPages (aligned : s.PageAligned) (hfit : s.stop ≤ 2 ^ 32) (ok : t.Ok)
    (hsections : NoSections s (s.virtAddress.toNat + page * 4096) t)
    (h : armMapPages s page t = .ok (ret, t')) :
    ret = .noError ∧ t'.Ok ∧
      ∀ v, walk t' v = (s.translation (s.virtAddress.toNat + page * 4096) v).or (walk t v) := by
  induction hleft : s.pages - page using Nat.strong_induction_on generalizing page t with
  | _ left ih =>
    rw [armMapPages] at h
    split at h
    next hpage =>
      have hvirt := s.toNat_pageVirt hfit hpage
      have hiff := armIs1mbSection_iff hfit hpage
      rw [hvirt] at hiff
      dsimp only at h
      split at h
      · -- 1 MiB at once
        next hmib =>
        obtain ⟨hboundary, hsection⟩ := hiff.mp hmib
        have hnext : s.virtAddress.toNat + (page + armMmuSectionPages + 1) * 4096 =
            s.virtAddress.toNat + page * 4096 + 1048576 := by
          unfold armMmuSectionPages
          omega
        have hsections' := hsections.mapSection hfit hpage
        rw [← hnext] at hsections'
        obtain ⟨hret, ok', hwalk⟩ := ih _ (by omega) ok.mapSection hsections' h rfl
        refine ⟨hret, ok', fun v => ?_⟩
        rw [hwalk, hnext, s.walk_sectionRound hfit hpage hboundary hsection]
      -- one page
      next hmib =>
      obtain ⟨⟨ret₁, u⟩, hmap, h⟩ := Exec.of_bind h
      have hstop : s.virtAddress.toNat + page * 4096 < s.stop := by
        unfold stop
        omega
      have hsection : ¬ t.HoldsSection (armGetLvl1SectionIndex (s.pageVirt page)) := by
        refine hsections _ ?_ ?_ <;> rw [toNat_armGetLvl1SectionIndex, hvirt] <;> omega
      obtain ⟨rfl, ok₁, hholds, hwalk₁⟩ := ok.mapPage hsection hmap
      have hnext : s.virtAddress.toNat + (page + 1) * 4096 =
          s.virtAddress.toNat + page * 4096 + 4096 := by
        omega
      have hsections' : NoSections s (s.virtAddress.toNat + (page + 1) * 4096) u := by
        intro i hlo hhi
        rw [hholds]
        rw [hnext] at hlo
        exact hsections i (Nat.lt_of_add_right_lt hlo) hhi
      obtain ⟨hret, ok', hwalk⟩ := ih _ (by omega) ok₁ hsections' h rfl
      refine ⟨hret, ok', fun v => ?_⟩
      rw [hwalk, hnext, aligned.walk_pageRound hfit hpage (mt hiff.mpr hmib) hwalk₁]
    next hpage =>
      cases h
      refine ⟨rfl, ok, fun v => ?_⟩
      rw [translation_of_le, Option.none_or]
      unfold stop
      omega

theorem PgTbl.Stocked.armMapPages (stocked : t.Stocked) (ok : t.Ok) (s : MemSection) (page : ℕ) :
    ∃ t', armMapPages s page t = .ok (.noError, t') := by
  induction hleft : s.pages - page using Nat.strong_induction_on generalizing page t with
  | _ left ih =>
    rw [Tinker.armMapPages]
    split
    · dsimp only
      split
      · exact ih _ (by omega) stocked.mapSection ok.mapSection _ rfl
      obtain ⟨u, hmap, hstocked⟩ := stocked.mapPage ok s (s.pageVirt page) (s.pageReal page)
      obtain ⟨-, ok', -⟩ := ok.mapPage_mapped hmap
      rw [hmap, Exec.ok_bind]
      rw [if_neg (not_not.mpr rfl)]
      exact ih _ (by omega) hstocked ok' _ rfl
    · exact ⟨t, rfl⟩

end Loop

/-! ## Faithful mappings -/

section Faithful

variable {s : MemSection} {t t' : PgTbl} {v : BitVec 32} {ret : ReturnT}

theorem MemSection.PageAligned.stop_le (aligned : s.PageAligned)
    (hfit : s.virtAddress.toNat + s.size.toNat ≤ 2 ^ 32) : s.stop ≤ 2 ^ 32 := by
  have hvirt := aligned.virt
  unfold mmuPageSize at hvirt
  rw [stop, s.pages_eq]
  omega

theorem PgTbl.Ok.walk_armMapMemory (aligned : s.PageAligned) (hfit : s.stop ≤ 2 ^ 32) (ok : t.Ok)
    (hsections : NoSections s s.virtAddress.toNat t) (h : armMapMemory t s = .ok (ret, t')) :
    ret = .noError ∧ t'.Ok ∧
      ∀ v, walk t' v = (s.translation s.virtAddress.toNat v).or (walk t v) := by
  -- the loop begins with the page 0
  exact ok.walk_armMapPages aligned hfit hsections h

/-- In an empty page table, every address of the section is translated to its real address, with
the attributes that the section asks for. -/
def MapsFaithfully (s : MemSection) : Prop :=
  ∀ t : PgTbl, t.Ok → (∀ i, t.lvl1Entry i = 0) → ∀ ret t', armMapMemory t s = .ok (ret, t') →
    ret = .noError ∧ ∀ o < s.size.toNat, walk t' (s.virtAddress + BitVec.ofNat 32 o) =
      some ⟨s.realAddress + BitVec.ofNat 32 o, s.attributes⟩

/-- A section entry keeps the offset of an address only if the real and the virtual address of the
section have the same one. -/
theorem MemSection.sectionTarget_eq_iff : s.sectionTarget v = s.pageTarget v ↔
    s.realAddress.toNat % 1048576 = s.virtAddress.toNat % 1048576 := by
  have htarget : ∀ x, s.pageTarget x = (s.realAddress - s.virtAddress) + x := fun x => by
    rw [pageTarget, add_sub, add_sub_right_comm]
  have hlow : (v &&& 0x000FFFFF#32).toNat = v.toNat % 1048576 :=
    toNat_and_lowMask v (show 20 ≤ 32 by decide)
  have hoffset : (s.realAddress - s.virtAddress).toNat % 1048576 = 0 ↔
      s.realAddress.toNat % 1048576 = s.virtAddress.toNat % 1048576 := by
    rw [BitVec.toNat_sub]
    omega
  rw [← hoffset, ← BitVec.toNat_inj, sectionTarget, BitVec.toNat_add,
    toNat_sectionMask, hlow, htarget, htarget, BitVec.toNat_add, BitVec.toNat_add,
    toNat_sectionMask]
  generalize (s.realAddress - s.virtAddress).toNat = d
  omega

theorem MemSection.toNat_add_offset (hfit : s.virtAddress.toNat + s.size.toNat ≤ 2 ^ 32) {o : ℕ}
    (ho : o < s.size.toNat) :
    (s.virtAddress + BitVec.ofNat 32 o).toNat = s.virtAddress.toNat + o := by
  rw [BitVec.toNat_add, BitVec.toNat_ofNat]
  omega

theorem MemSection.pageTarget_add (s : MemSection) (o : BitVec 32) :
    s.pageTarget (s.virtAddress + o) = s.realAddress + o := by
  rw [pageTarget, add_sub_cancel_left]

/-- The offset of an address is kept: the real and the virtual address of the section agree modulo
1 MiB, or no section entry is made for it. -/
def MemSection.KeepsOffsets (s : MemSection) : Prop :=
  s.realAddress.toNat % 1048576 = s.virtAddress.toNat % 1048576 ∨
    ∀ k, ¬ SectionAt s.virtAddress.toNat s.stop k

/-- Where the section comes upon no section entry, each of its addresses is translated to its real
address if the offsets are kept. -/
theorem PgTbl.Ok.walk_offset (aligned : s.PageAligned)
    (hfit : s.virtAddress.toNat + s.size.toNat ≤ 2 ^ 32) (keeps : s.KeepsOffsets) (ok : t.Ok)
    (hsections : NoSections s s.virtAddress.toNat t) (h : armMapMemory t s = .ok (ret, t')) :
    ∀ o < s.size.toNat, walk t' (s.virtAddress + BitVec.ofNat 32 o) =
      some ⟨s.realAddress + BitVec.ofNat 32 o, s.attributes⟩ := by
  intro o ho
  have hlast : s.virtAddress.toNat + s.size.toNat ≤ s.stop := by
    rw [MemSection.stop, s.pages_eq]
    omega
  have hv := s.toNat_add_offset hfit ho
  rw [(ok.walk_armMapMemory aligned (aligned.stop_le hfit) hsections h).2.2, ← s.pageTarget_add]
  unfold MemSection.translation
  split
  · next hsection =>
    rcases keeps with hoffset | hnone
    · rw [sectionTarget_eq_iff.mpr hoffset, Option.some_or]
    · exact absurd hsection (hnone _)
  · rw [if_pos (by omega), Option.some_or]

/-- A section is mapped faithfully if its real and its virtual address agree modulo 1 MiB, or if no
section entry is made for it, and only then. -/
theorem mapsFaithfully_iff (aligned : s.PageAligned)
    (hfit : s.virtAddress.toNat + s.size.toNat ≤ 2 ^ 32) :
    (MapsFaithfully s ↔ s.realAddress.toNat % 1048576 = s.virtAddress.toNat % 1048576 ∨
        ∀ k, ¬ SectionAt s.virtAddress.toNat s.stop k) ∧
      ∀ t : PgTbl, t.Ok → t.Stocked → ∃ t', armMapMemory t s = .ok (.noError, t') := by
  have hstop := aligned.stop_le hfit
  refine ⟨⟨fun faithful => ?_, fun hcond t ok hempty ret t' h => ?_⟩,
    fun t ok stocked => stocked.armMapPages ok s 0⟩
  · -- with a section entry, look at its first address
    by_contra hnot
    rw [not_or, not_forall] at hnot
    obtain ⟨hoffset, k, hk⟩ := hnot
    rw [not_not] at hk
    obtain ⟨t', h⟩ := stocked_tablePool.armMapPages ok_tablePool s 0
    obtain ⟨-, hall⟩ := faithful _ ok_tablePool (fun _ => rfl) _ t' h
    obtain ⟨-, -, hwalk⟩ := ok_tablePool.walk_armMapMemory aligned hstop
      (fun i _ _ => not_holdsSection_of_zero rfl) h
    have hvirt := aligned.virt
    unfold mmuPageSize at hvirt
    have ho : k * 1048576 - s.virtAddress.toNat < s.size.toNat := by
      obtain ⟨hlo, hhi, -⟩ := hk
      rw [MemSection.stop, s.pages_eq] at hhi
      omega
    have hfirst := hall _ ho
    have htoNat := s.toNat_add_offset hfit ho
    rw [Nat.add_sub_of_le hk.1] at htoNat
    rw [hwalk, MemSection.translation, htoNat, Nat.mul_div_cancel _ (by decide), if_pos hk,
      Option.some_or, ← s.pageTarget_add, Option.some.injEq, Translation.mk.injEq] at hfirst
    exact hoffset (sectionTarget_eq_iff.mp hfirst.1)
  · have hnone : NoSections s s.virtAddress.toNat t :=
      fun i _ _ => not_holdsSection_of_zero (hempty i)
    exact ⟨(ok.walk_armMapMemory aligned hstop hnone h).1,
      ok.walk_offset aligned hfit hcond hnone h⟩

/-- 2 MiB at a boundary of 1 MiB, from a boundary of 1 MiB on. -/
theorem mapsFaithfully_iff_two_sections :
    MapsFaithfully ⟨0x00100000#32, 0x80000000#32, 0x00200000#32, .randomAccessMemory, .allAccess,
      .readWrite⟩ :=
  (mapsFaithfully_iff ⟨by decide, by decide, by decide⟩ (by decide)).1.mpr (.inl (by decide))

/-- `process_create` maps the RAM without its first page to the virtual address 0. The first MiB is
mapped to itself, and not to the addresses one page further. -/
theorem not_mapsFaithfully : ∃ t',
    armMapMemory (tgtInitialisePageTable []) ⟨0x00001000#32, 0x00000000#32, 0x00100000#32,
      .randomAccessMemory, .kernelAccess, .readWrite⟩ = .ok (.noError, t') ∧
    (walk t' 0x00000000#32).map Translation.real = some 0x00000000#32 := by
  rw [armMapMemory, armMapPages, if_pos (by decide), if_pos (by decide), armMapPages,
    if_neg (by decide)]
  exact ⟨_, rfl, by decide⟩

/-! ## The rest of the page table -/

/-- Where the section comes upon no section entry, the translation of all pages outside of it stays
what it was. -/
def LeavesRest (s : MemSection) : Prop :=
  ∀ t : PgTbl, t.Ok → NoSections s s.virtAddress.toNat t →
    ∀ ret t', armMapMemory t s = .ok (ret, t') →
      ∀ v : BitVec 32, ¬ (s.virtAddress.toNat ≤ v.toNat ∧ v.toNat < s.stop) → walk t' v = walk t v

/-- A section leaves the rest alone unless it reaches into the last MiB from its beginning on, and
not up to its end. -/
theorem leavesRest_iff (aligned : s.PageAligned)
    (hfit : s.virtAddress.toNat + s.size.toNat ≤ 2 ^ 32) :
    LeavesRest s ↔
      ¬ (s.virtAddress.toNat ≤ 0xFFF00000 ∧ 0xFFF00000 < s.stop ∧ s.stop < 2 ^ 32) := by
  have hstop := aligned.stop_le hfit
  refine ⟨fun leaves hlast => ?_, fun hcond t ok hsections ret t' h v hv => ?_⟩
  · -- the last address becomes translated
    have hmod := aligned.stop_mod
    obtain ⟨t', h⟩ := stocked_tablePool.armMapPages ok_tablePool s 0
    have hnone : NoSections s s.virtAddress.toNat (tgtInitialisePageTable tablePool) :=
      fun i _ _ => not_holdsSection_of_zero rfl
    obtain ⟨-, -, hwalk⟩ := ok_tablePool.walk_armMapMemory aligned hstop hnone h
    have htop : (0xFFFFFFFF#32).toNat = 0xFFFFFFFF := rfl
    have hsame := leaves _ ok_tablePool hnone _ t' h 0xFFFFFFFF#32 (by omega)
    have hsection : SectionAt s.virtAddress.toNat s.stop ((0xFFFFFFFF#32).toNat / 1048576) := by
      rw [htop]
      unfold SectionAt
      omega
    rw [hwalk, walk_initialise, MemSection.translation, if_pos hsection] at hsame
    cases hsame
  · obtain ⟨-, -, hwalk⟩ := ok.walk_armMapMemory aligned hstop hsections h
    have hno : ¬ SectionAt s.virtAddress.toNat s.stop (v.toNat / 1048576) := by
      have hlt := v.isLt
      unfold SectionAt
      omega
    rw [hwalk, MemSection.translation, if_neg hno, if_neg hv, Option.none_or]

/-- Two pages below the last MiB. -/
theorem leavesRest_iff_below :
    LeavesRest ⟨0x00100000#32, 0xFFEFE000#32, 0x00002000#32, .randomAccessMemory, .allAccess,
      .readWrite⟩ :=
  (leavesRest_iff ⟨by decide, by decide, by decide⟩ (by decide)).mpr (by decide)

/-- One page at the beginning of the last MiB, and all the pages behind it are mapped too. -/
theorem not_leavesRest : ∃ t',
    armMapMemory (tgtInitialisePageTable []) ⟨0x00100000#32, 0xFFF00000#32, 0x00001000#32,
      .randomAccessMemory, .allAccess, .readWrite⟩ = .ok (.noError, t') ∧
    walk (tgtInitialisePageTable []) 0xFFF01000#32 = none ∧
    (walk t' 0xFFF01000#32).map Translation.real = some 0x00101000#32 := by
  rw [armMapMemory, armMapPages, if_pos (by decide), if_pos (by decide), armMapPages,
    if_neg (by decide)]
  exact ⟨_, rfl, rfl, by decide⟩

end Faithful

end Tinker
