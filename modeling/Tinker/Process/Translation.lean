import Tinker.Process.Sections

/-!
# Translation in software

System calls translate the addresses of their caller with `process_virt_to_real`, which takes the
first section of the list whose range it believes the address to be in. The first address behind a
section is still taken for one of it, and a section that ends with the address space has none.

So the address at which one section ends and the next begins is translated with the wrong one, and
a process can reach the memory behind each of its sections. It can also reach sections that are for
the kernel only, and, with an address that is in no section, any address at all.
-/

namespace Tinker

namespace MemSection

def Holds (s : MemSection) (a : BitVec 32) : Prop :=
  s.virtAddress.toNat ≤ a.toNat ∧ a.toNat < s.virtAddress.toNat + s.size.toNat

deriving instance Decidable for MemSection.Holds

def Apart (r s : MemSection) : Prop := ∀ a, r.Holds a → ¬ s.Holds a

/-- The section does not wrap around, though it may end with the address space. -/
def Fits (s : MemSection) : Prop := s.virtAddress.toNat + s.size.toNat ≤ 2 ^ 32

deriving instance Decidable for MemSection.Fits

theorem apart_of_le {r s : MemSection}
    (h : r.virtAddress.toNat + r.size.toNat ≤ s.virtAddress.toNat) : r.Apart s := by
  intro a hr hs
  unfold Holds at hr hs
  omega

end MemSection

section VirtToReal

variable {p : ProcessMemory} {s r : MemSection} {a : BitVec 32} {before after : List MemSection}

theorem processVirtToReal_of_find (h : p.sections.find? (·.Takes a) = some s) :
    processVirtToReal p a = s.realAddress + (a - s.virtAddress) := by
  rw [processVirtToReal, h]

/-- A section of the process takes its addresses and the one behind them. -/
theorem MemSection.Fits.takes_iff (fits : s.Fits) : s.Takes a = true ↔
    (s.Holds a ∧ s.virtAddress.toNat + s.size.toNat < 2 ^ 32) ∨
      a.toNat = s.virtAddress.toNat + s.size.toNat := by
  unfold MemSection.Fits at fits
  simp only [MemSection.Takes]
  rw [decide_eq_true_eq, BitVec.le_def, BitVec.le_def, BitVec.toNat_add, MemSection.Holds]
  omega

/-- The section that an address is in takes it, unless it ends with the address space. -/
theorem MemSection.Fits.takes_of_holds (fits : s.Fits) (ha : s.Holds a) :
    s.Takes a = true ↔ s.virtAddress.toNat + s.size.toNat < 2 ^ 32 := by
  rw [fits.takes_iff]
  unfold MemSection.Holds at ha ⊢
  omega

theorem MemSection.Fits.takes_of_not_holds (fits : r.Fits) (ha : ¬ r.Holds a) :
    r.Takes a = true ↔ r.virtAddress.toNat + r.size.toNat = a.toNat := by
  rw [fits.takes_iff, eq_comm (a := a.toNat)]
  exact or_iff_right fun h => ha h.1

/-- If the section that is changed is not the first one that takes the address, the translation is
the same as before. -/
theorem processVirtToReal_of_not_first {s' : MemSection} (hsame : s'.Takes a = s.Takes a)
    (h : (∃ r ∈ before, r.Takes a = true) ∨ s.Takes a = false) :
    processVirtToReal { p with sections := before ++ s' :: after } a =
      processVirtToReal { p with sections := before ++ s :: after } a := by
  have hfind : (before ++ s' :: after).find? (·.Takes a) =
      (before ++ s :: after).find? (·.Takes a) := by
    rw [List.find?_append, List.find?_append]
    rcases h with hbefore | hnot
    · obtain ⟨r, hr⟩ := Option.isSome_iff_exists.mp (List.find?_isSome.mpr hbefore)
      rw [hr, Option.some_or, Option.some_or]
    · rw [List.find?_cons, List.find?_cons, hsame, hnot]
  simp only [processVirtToReal, hfind]

/-- Whatever real address the section of an address has, the address is translated with it: this
holds if the section ends before the address space does and no section that is listed before it ends
at the address, and only then. -/
theorem processVirtToReal_iff (hsections : p.sections = before ++ s :: after)
    (apart : p.sections.Pairwise MemSection.Apart) (fits : ∀ r ∈ p.sections, r.Fits)
    (ha : s.Holds a) :
    (∀ real, processVirtToReal
        { p with sections := before ++ { s with realAddress := real } :: after } a =
          real + (a - s.virtAddress)) ↔
      s.virtAddress.toNat + s.size.toNat < 2 ^ 32 ∧
        ∀ r ∈ before, r.virtAddress.toNat + r.size.toNat ≠ a.toNat := by
  rw [hsections] at apart fits
  have hs := (fits s (by simp)).takes_of_holds ha
  have hbefore : ∀ r ∈ before, (r.Takes a = true ↔
      r.virtAddress.toNat + r.size.toNat = a.toNat) := by
    intro r hr
    have hrs := (List.pairwise_append.mp apart).2.2 r hr s (.head _)
    exact (fits r (by simp [hr])).takes_of_not_holds fun h => hrs a h ha
  constructor
  · intro h
    by_contra hnot
    -- the section is not the one that is found, so its real address does not matter
    have hother : (∃ r ∈ before, r.Takes a = true) ∨ s.Takes a = false := by
      by_contra hfirst
      rw [not_or, Bool.not_eq_false, hs] at hfirst
      exact hnot ⟨hfirst.2, fun r hr hend => hfirst.1 ⟨r, hr, (hbefore r hr).mpr hend⟩⟩
    have hsame : ∀ real, processVirtToReal
        { p with sections := before ++ { s with realAddress := real } :: after } a =
        processVirtToReal { p with sections := before ++ s :: after } a :=
      fun real => processVirtToReal_of_not_first rfl hother
    have hzero := (h 0#32).symm.trans ((hsame 0#32).trans ((hsame 1#32).symm.trans (h 1#32)))
    exact absurd (add_right_cancel hzero) (by decide)
  · rintro ⟨hend, hnone⟩ real
    refine processVirtToReal_of_find (s := { s with realAddress := real }) ?_
    have hnot : before.find? (·.Takes a) = none :=
      List.find?_eq_none.mpr fun r hr htakes => hnone r hr ((hbefore r hr).mp htakes)
    rw [List.find?_append, hnot, Option.none_or]
    exact List.find?_cons_of_pos (hs.mpr hend)

/-- A process as `process_create` makes it, with its private pool at `0x00200000` and its public
pool at `0x00400000`. -/
def smallProcess : ProcessMemory where
  kernelProcess := false
  sections := processCreateSections false [] 0x08000000#32 0x00200000#32 0x00400000#32
    0x00100000#32 [] 0x00008000#32 0x00009000#32
  poolStart := 0x00400000#32
  pageTable := tgtInitialisePageTable []

/-- The first address of the private pool. -/
theorem processVirtToReal_iff_private :
    processVirtToReal smallProcess 0xC0000000#32 = 0x00200000#32 := by
  have hsections : smallProcess.sections =
      [⟨0x00008000#32, 0x00008000#32, 0x00001000#32, .randomAccessMemory, .allAccess, .readOnly⟩] ++
      ⟨0x00200000#32, 0xC0000000#32, 0x00040000#32, .randomAccessMemory, .kernelAccess,
        .readWrite⟩ ::
      [⟨0x00400000#32, 0xC0040000#32, 0x00100000#32, .randomAccessMemory, .allAccess,
        .readWrite⟩] := by
    decide
  have hsorted : smallProcess.sections.Pairwise fun r s =>
      r.virtAddress.toNat + r.size.toNat ≤ s.virtAddress.toNat := by
    decide
  exact (processVirtToReal_iff hsections (hsorted.imp MemSection.apart_of_le) (by decide)
    (by decide)).mpr (by decide) 0x00200000#32

/-- The first address of the public pool is translated with the private pool, which ends there. -/
theorem processVirtToReal_boundary :
    smallProcess.sections[2]? = some ⟨0x00400000#32, 0xC0040000#32, 0x00100000#32,
      .randomAccessMemory, .allAccess, .readWrite⟩ ∧
    processVirtToReal smallProcess 0xC0040000#32 = 0x00240000#32 := by
  decide

end VirtToReal

/-! ## The memory of the caller -/

def MemSection.UserAccess (s : MemSection) : Prop :=
  s.privilege = .userAccess ∨ s.privilege = .allAccess

deriving instance Decidable for MemSection.UserAccess

/-- A real address lies in a section of the process with user access. -/
def ProcessMemory.UserReal (p : ProcessMemory) (x : BitVec 32) : Prop :=
  ∃ s ∈ p.sections, s.UserAccess ∧ x - s.realAddress < s.size

open ProcessMemory

deriving instance Decidable for UserReal

/-- Two sections differ in their real addresses at most, as far as translation is concerned. -/
structure MemSection.SameRange (r s : MemSection) : Prop where
  virt : r.virtAddress = s.virtAddress
  size : r.size = s.size
  privilege : r.privilege = s.privilege

/-- The process with its sections at any real addresses. Its public pool is the section `pool`, and
that one is where the pool is. -/
structure ProcessMemory.Placed (p : ProcessMemory) (pool : MemSection) (q : ProcessMemory) :
    Prop where
  kernel : q.kernelProcess = p.kernelProcess
  sections : List.Forall₂ MemSection.SameRange p.sections q.sections
  pool : ∃ r ∈ q.sections, pool.SameRange r ∧ r.realAddress = q.poolStart

section Caller

variable {p q : ProcessMemory} {pool r s : MemSection} {a : BitVec 32}
  {sections sections' : List MemSection}

namespace MemSection.SameRange

theorem takes (same : r.SameRange s) (a : BitVec 32) : r.Takes a = s.Takes a := by
  simp only [MemSection.Takes, same.virt, same.size]

theorem userAccess (same : r.SameRange s) : r.UserAccess ↔ s.UserAccess := by
  simp only [MemSection.UserAccess, same.privilege]

theorem find? (same : List.Forall₂ MemSection.SameRange sections sections') (a : BitVec 32) :
    Option.Rel MemSection.SameRange (sections.find? (·.Takes a)) (sections'.find? (·.Takes a)) := by
  induction same with
  | nil => exact .none
  | @cons r r' rest rest' hr _ ih =>
    rw [List.find?_cons, List.find?_cons, ← hr.takes a]
    cases r.Takes a with
    | false => exact ih
    | true => exact .some hr

end MemSection.SameRange

/-- The offset of an address in the public pool, if it is in no section. -/
def fallbackOffset (a : BitVec 32) : BitVec 32 :=
  if userAddressSpace ≤ a then a - userAddressSpace else a

theorem virtualToReal_of_none (hkernel : p.kernelProcess = false)
    (h : p.sections.find? (·.Takes a) = none) :
    virtualToReal p a = fallbackOffset a + p.poolStart := by
  simp only [virtualToReal, processVirtToReal, h, hkernel, virtualAddressSpace, fallbackOffset,
    Bool.false_eq_true, if_false]

theorem virtualToReal_of_some (hkernel : p.kernelProcess = false)
    (h : p.sections.find? (·.Takes a) = some s) :
    virtualToReal p a = s.realAddress + (a - s.virtAddress) := by
  rw [virtualToReal, hkernel]
  exact processVirtToReal_of_find h

/-- Of the addresses that a section takes, only the last one is not in it. -/
theorem MemSection.sub_lt_size_iff (h : s.Takes a = true) :
    a - s.virtAddress < s.size ↔ a ≠ s.virtAddress + s.size := by
  simp only [MemSection.Takes, decide_eq_true_eq, BitVec.le_def, BitVec.toNat_add] at h
  rw [BitVec.lt_def, BitVec.toNat_sub, ne_eq, ← BitVec.toNat_inj, BitVec.toNat_add]
  omega

/-- The process with one section at the real address 0, and all others right behind `x`. -/
def ProcessMemory.away (p : ProcessMemory) (pool target : MemSection) (x : BitVec 32) :
    ProcessMemory where
  kernelProcess := p.kernelProcess
  sections := p.sections.map fun s => { s with realAddress := if s = target then 0 else x + 1 }
  poolStart := if pool = target then 0 else x + 1
  pageTable := p.pageTable

theorem ProcessMemory.placed_away (hpool : pool ∈ p.sections) (target : MemSection)
    (x : BitVec 32) : p.Placed pool (p.away pool target x) := by
  refine ⟨rfl, ?_, _, List.mem_map_of_mem hpool, ⟨rfl, rfl, rfl⟩, rfl⟩
  rw [away, List.forall₂_map_right_iff]
  exact List.forall₂_same.mpr fun s _ => ⟨rfl, rfl, rfl⟩

theorem ProcessMemory.find?_away (p : ProcessMemory) (pool target : MemSection) (x a : BitVec 32) :
    (p.away pool target x).sections.find? (·.Takes a) =
      (p.sections.find? (·.Takes a)).map fun s =>
        { s with realAddress := if s = target then 0 else x + 1 } := by
  rw [away, List.find?_map]
  rfl

theorem ProcessMemory.userReal_away {target : MemSection} {x : BitVec 32}
    (h : (p.away pool target x).UserReal x) : target.UserAccess ∧ x < target.size := by
  obtain ⟨s, hs, huser, hlt⟩ := h
  obtain ⟨r, -, rfl⟩ := List.mem_map.mp hs
  by_cases hr : r = target
  · subst hr
    exact ⟨huser, by simpa using hlt⟩
  -- the section begins right behind the address, and does not reach around to it
  rw [if_neg hr, BitVec.lt_def, BitVec.toNat_sub, BitVec.toNat_add] at hlt
  have hone : (1 : BitVec 32).toNat = 1 := rfl
  omega

theorem ProcessMemory.virtualToReal_away_of_some (hkernel : p.kernelProcess = false)
    (h : p.sections.find? (·.Takes a) = some s) (x : BitVec 32) :
    virtualToReal (p.away pool s x) a = a - s.virtAddress := by
  have hfind := p.find?_away pool s x a
  rw [h, Option.map_some, if_pos rfl] at hfind
  rw [virtualToReal_of_some (p := p.away pool s x) hkernel hfind]
  exact BitVec.zero_add _

theorem ProcessMemory.virtualToReal_away_of_none (hkernel : p.kernelProcess = false)
    (h : p.sections.find? (·.Takes a) = none) (x : BitVec 32) :
    virtualToReal (p.away pool pool x) a = fallbackOffset a := by
  have hfind := p.find?_away pool pool x a
  rw [h, Option.map_none] at hfind
  rw [virtualToReal_of_none (p := p.away pool pool x) hkernel hfind, away, if_pos rfl]
  exact BitVec.add_zero _

/-- Wherever the sections of a process are, an address that it passes to a system call is translated
to memory that it may use: this holds if the first section that takes the address has user access
and does not end there, or if no section takes it and it is in the range of the public pool; and
only then. -/
theorem userReal_iff (hkernel : p.kernelProcess = false) (hpool : pool ∈ p.sections)
    (a : BitVec 32) :
    (∀ q, p.Placed pool q → q.UserReal (virtualToReal q a)) ↔
      match p.sections.find? (·.Takes a) with
      | some s => s.UserAccess ∧ a ≠ s.virtAddress + s.size
      | none => pool.UserAccess ∧ fallbackOffset a < pool.size := by
  cases hfind : p.sections.find? (·.Takes a) with
  | some s =>
    have htakes := List.find?_some hfind
    dsimp only
    rw [← MemSection.sub_lt_size_iff htakes]
    constructor
    · intro h
      have huser := h _ (p.placed_away hpool s (a - s.virtAddress))
      rw [p.virtualToReal_away_of_some hkernel hfind] at huser
      exact p.userReal_away huser
    · rintro ⟨huser, hlt⟩ q placed
      have hrel := MemSection.SameRange.find? placed.sections a
      rw [hfind] at hrel
      cases hq : q.sections.find? (·.Takes a) with
      | none =>
        rw [hq] at hrel
        cases hrel
      | some r =>
        rw [hq] at hrel
        obtain ⟨hsame⟩ := hrel
        rw [virtualToReal_of_some (placed.kernel.trans hkernel) hq]
        refine ⟨r, List.mem_of_find?_eq_some hq, hsame.userAccess.mp huser, ?_⟩
        rwa [add_sub_cancel_left, ← hsame.virt, ← hsame.size]
  | none =>
    dsimp only
    constructor
    · intro h
      have huser := h _ (p.placed_away hpool pool (fallbackOffset a))
      rw [p.virtualToReal_away_of_none hkernel hfind] at huser
      exact p.userReal_away huser
    · rintro ⟨huser, hlt⟩ q placed
      have hrel := MemSection.SameRange.find? placed.sections a
      rw [hfind] at hrel
      cases hq : q.sections.find? (·.Takes a) with
      | some r =>
        rw [hq] at hrel
        cases hrel
      | none =>
        obtain ⟨r, hr, hsame, hreal⟩ := placed.pool
        rw [virtualToReal_of_none (placed.kernel.trans hkernel) hq, ← hreal]
        refine ⟨r, hr, hsame.userAccess.mp huser, ?_⟩
        rwa [add_sub_cancel_right, ← hsame.size]

/-- An address of the public pool. -/
theorem userReal_iff_pool :
    smallProcess.UserReal (virtualToReal smallProcess 0xC0040001#32) := by
  have hpool : ⟨0x00400000#32, 0xC0040000#32, 0x00100000#32, .randomAccessMemory, .allAccess,
      .readWrite⟩ ∈ smallProcess.sections := by
    decide
  refine (userReal_iff rfl hpool 0xC0040001#32).mpr ⟨by decide, by decide⟩ smallProcess
    ⟨rfl, List.forall₂_same.mpr fun _ _ => ⟨rfl, rfl, rfl⟩, _, hpool, ⟨rfl, rfl, rfl⟩, rfl⟩

/-- The first address of the private pool, which is for the kernel only. -/
theorem not_userReal : smallProcess.kernelProcess = false ∧
    virtualToReal smallProcess 0xC0000000#32 = 0x00200000#32 ∧
    ¬ smallProcess.UserReal 0x00200000#32 := by
  decide

end Caller

end Tinker
