import Tinker.Process.Creation

/-!
# The memory of a pool

A pool begins with a header, and the rest of its memory is given to the allocator.
`mem_init_memory_pool` adds the size of the header to a pointer to headers, which moves it by 64
bytes instead of 8, but takes only 8 bytes off the size.

Of the three callers, `mem_initialise` and `process_create` pass the size of the memory they have,
and the pool runs over its end. `mem_init_process_memory` allocates one page more than it was asked
for and passes one page less, which leaves room enough, unless these sums of 32 bits wrap around.
-/

namespace Tinker

structure MemRange where
  base : BitVec 32
  size : BitVec 32

/-- An address lies in a range if its distance from the base is smaller than the size. -/
def MemRange.Contains (r : MemRange) (a : BitVec 32) : Prop := (a - r.base).toNat < r.size.toNat

deriving instance Decidable for MemRange.Contains

/-- `sizeof(mem_pool_info_t)`: a pointer and a size. -/
def memPoolInfoSize : BitVec 32 := 8#32

/-- `mem_pool_info_t`: its address, its contents, and what `create_mspace_with_base` was given. -/
structure PoolInfo where
  address : BitVec 32
  poolAllocSize : BitVec 32
  space : MemRange

def PoolInfo.header (pool : PoolInfo) : MemRange := ⟨pool.address, memPoolInfoSize⟩

def memInitMemoryPool (baseAddr poolSize : BitVec 32) : PoolInfo where
  address := baseAddr
  poolAllocSize := poolSize
  -- `pool_info + n` is the address of the header that follows `n` headers
  space := ⟨baseAddr + memPoolInfoSize * memPoolInfoSize, poolSize - memPoolInfoSize⟩

def memInitialise (start endAddress : BitVec 32) : PoolInfo :=
  memInitMemoryPool start (endAddress - start)

/-- `mem_init_process_memory`, with what `mem_alloc_aligned` returns for `size + MMU_PAGE_SIZE`
bytes. -/
def memInitProcessMemory (procMemoryPool size : BitVec 32) : Option PoolInfo :=
  if procMemoryPool ≠ 0 then
    some (memInitMemoryPool procMemoryPool (size - BitVec.ofNat 32 mmuPageSize))
  else none

def initialiseMemPoolSize (heapSize stackSize : BitVec 32) : BitVec 32 :=
  heapSize + stackSize + BitVec.ofNat 32 pageTableSize + BitVec.ofNat 32 privatePoolSize

/-! ## The calls -/

inductive PoolRequest
  | memInitialise (start endAddress : BitVec 32)
  /-- `process_create`, with what `mem_alloc` returns for `PRIVATE_POOL_SIZE` bytes; it is not
  compared with null. -/
  | processCreate (memory : BitVec 32)
  | initialiseMemPool (heapSize stackSize memory : BitVec 32)

/-- What an allocation of some size gives: nothing, if it returns null. -/
def allocatedRange (memory size : BitVec 32) : MemRange :=
  if memory = 0 then ⟨0, 0⟩ else ⟨memory, size⟩

namespace PoolRequest

def pool : PoolRequest → Option PoolInfo
  | memInitialise start endAddress => some (Tinker.memInitialise start endAddress)
  | processCreate memory => some (memInitMemoryPool memory (BitVec.ofNat 32 privatePoolSize))
  | initialiseMemPool heapSize stackSize memory =>
    memInitProcessMemory memory (initialiseMemPoolSize heapSize stackSize)

def memory : PoolRequest → MemRange
  | memInitialise start endAddress => ⟨start, endAddress - start⟩
  | processCreate memory => allocatedRange memory (BitVec.ofNat 32 privatePoolSize)
  | initialiseMemPool heapSize stackSize memory =>
    allocatedRange memory (initialiseMemPoolSize heapSize stackSize + BitVec.ofNat 32 mmuPageSize)

end PoolRequest

/-- What the allocator is given lies behind the header and in the memory of the pool. -/
def PoolInfo.StaysInside (pool : PoolInfo) (memory : MemRange) : Prop :=
  ∀ a, pool.space.Contains a → ¬ pool.header.Contains a ∧ memory.Contains a

/-- A pool at the beginning of its memory stays inside if there are 64 bytes more than the allocator
is given, or if that is nothing. -/
theorem staysInside_memInitMemoryPool_iff (baseAddr poolSize size : BitVec 32) :
    (memInitMemoryPool baseAddr poolSize).StaysInside ⟨baseAddr, size⟩ ↔
      (poolSize - memPoolInfoSize).toNat = 0 ∨
        64 + (poolSize - memPoolInfoSize).toNat ≤ size.toNat := by
  have hcapacity := (poolSize - memPoolInfoSize).isLt
  generalize hc : (poolSize - memPoolInfoSize).toNat = capacity at hcapacity
  have h64 : memPoolInfoSize * memPoolInfoSize = 64#32 := rfl
  -- in terms of the distance from the base
  have hdistance : (memInitMemoryPool baseAddr poolSize).StaysInside ⟨baseAddr, size⟩ ↔
      ∀ d : BitVec 32, (d - 64#32).toNat < capacity → ¬ d.toNat < 8 ∧ d.toNat < size.toNat := by
    have h8 : memPoolInfoSize.toNat = 8 := rfl
    simp only [PoolInfo.StaysInside, PoolInfo.header, MemRange.Contains, memInitMemoryPool, hc, h64,
      h8]
    constructor
    · intro stays d hd
      simpa using stays (baseAddr + d) (by rwa [add_sub_add_left_eq_sub])
    intro stays a ha
    exact stays (a - baseAddr) (by rwa [sub_sub])
  rw [hdistance]
  constructor
  · intro stays
    by_contra hover
    rw [not_or, not_le] at hover
    obtain ⟨hne, hover⟩ := hover
    by_cases hsmall : size.toNat ≤ 64
    · have hfirst := stays 64#32 (by rw [BitVec.sub_self]; exact Nat.pos_of_ne_zero hne)
      have h64 : (64#32).toNat = 64 := rfl
      omega
    -- the first byte behind the memory
    have hbehind := stays size (by rw [BitVec.toNat_sub]; simp; omega)
    omega
  rintro hfits d hd
  rw [BitVec.toNat_sub] at hd
  have h64 : (64#32).toNat = 64 := rfl
  omega

/-- The requests whose pool stays inside its memory. -/
def PoolRequest.Fits : PoolRequest → Prop
  | memInitialise start endAddress => endAddress - start = 8#32
  | processCreate _ => False
  | initialiseMemPool heapSize stackSize memory =>
    memory = 0 ∨ 4104 ≤ (initialiseMemPoolSize heapSize stackSize).toNat ∧
      (initialiseMemPoolSize heapSize stackSize).toNat + 4096 < 2 ^ 32

/-- The pools that stay inside their memory: none of `process_create`, of `mem_initialise` only one
with nothing behind its header, and of `mem_init_process_memory` those whose size does not wrap
around when a page is added or taken off. -/
theorem staysInside_iff (request : PoolRequest) :
    (∀ pool, request.pool = some pool → pool.StaysInside request.memory) ↔ request.Fits := by
  cases request with
  | memInitialise start endAddress =>
    have hiff := staysInside_memInitMemoryPool_iff start (endAddress - start) (endAddress - start)
    simp only [PoolRequest.pool, PoolRequest.memory, PoolRequest.Fits, Tinker.memInitialise,
      Option.some.injEq, forall_eq', hiff, memPoolInfoSize]
    generalize endAddress - start = size
    have hsize := size.isLt
    rw [BitVec.toNat_sub, BitVec.toNat_eq, show (8#32).toNat = 8 from rfl]
    omega
  | processCreate memory =>
    have hiff := staysInside_memInitMemoryPool_iff memory (BitVec.ofNat 32 privatePoolSize)
    refine iff_of_false (fun stays => ?_) id
    have hstays := stays _ rfl
    simp only [PoolRequest.memory, allocatedRange] at hstays
    split at hstays
    · next hnull =>
      subst hnull
      exact absurd ((hiff 0).mp hstays) (by decide)
    · exact absurd ((hiff _).mp hstays) (by decide)
  | initialiseMemPool heapSize stackSize memory =>
    simp only [PoolRequest.pool, PoolRequest.memory, PoolRequest.Fits, memInitProcessMemory]
    generalize initialiseMemPoolSize heapSize stackSize = size
    by_cases hnull : memory = 0
    · simp [hnull]
    · have hiff := staysInside_memInitMemoryPool_iff memory (size - BitVec.ofNat 32 mmuPageSize)
        (size + BitVec.ofNat 32 mmuPageSize)
      simp only [ne_eq, hnull, not_false_eq_true, if_true, if_false, allocatedRange,
        Option.some.injEq, forall_eq', hiff, memPoolInfoSize, false_or]
      have hsize := size.isLt
      have hpage : (BitVec.ofNat 32 mmuPageSize).toNat = 4096 := rfl
      rw [BitVec.toNat_sub, BitVec.toNat_sub, BitVec.toNat_add, hpage,
        show (8#32).toNat = 8 from rfl]
      omega

/-- The private pool of a process runs over its end: the byte 262144 behind its beginning is given
to the allocator. -/
theorem not_staysInside_private :
    ¬ ∀ pool, (PoolRequest.processCreate 0x100000#32).pool = some pool →
      pool.StaysInside (PoolRequest.processCreate 0x100000#32).memory := by
  intro stays
  have hinside := stays _ rfl (0x100000#32 + BitVec.ofNat 32 privatePoolSize) (by decide)
  exact absurd hinside.2 (by decide)

end Tinker
