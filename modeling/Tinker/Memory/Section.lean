import Mathlib.Data.BitVec

/-!
# Memory sections

A section is a range of virtual addresses, the real addresses behind it, and who may do what with
it. Addresses are words of 32 bits, so their sums wrap around.
-/

namespace Tinker

/-- `mmu_memory_t` -/
inductive MmuMemory
  | deviceMemory
  | randomAccessMemory
  deriving DecidableEq, Repr

/-- `mmu_privilege_t` -/
inductive MmuPrivilege
  | noPrivilege
  | userAccess
  | kernelAccess
  | allAccess
  deriving DecidableEq, Repr

/-- `mmu_access_t` -/
inductive MmuAccess
  | noAccess
  | readOnly
  | readWrite
  deriving DecidableEq, Repr

/-- `mem_section_t`, without its name and its links. -/
structure MemSection where
  realAddress : BitVec 32
  virtAddress : BitVec 32
  size : BitVec 32
  memoryType : MmuMemory
  privilege : MmuPrivilege
  accessRights : MmuAccess
  deriving DecidableEq, Repr

/-- The bytes of a page. -/
def mmuPageSize : ℕ := 4096

/-- The addresses of a section are those of pages, and it is not empty. -/
structure MemSection.PageAligned (s : MemSection) : Prop where
  virt : s.virtAddress.toNat % mmuPageSize = 0
  real : s.realAddress.toNat % mmuPageSize = 0
  pos : 0 < s.size.toNat

end Tinker
