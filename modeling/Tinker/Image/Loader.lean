import Tinker.Image.Elf
import Tinker.Lib.Logged
import Tinker.Process.Creation

/-!
# Starting a process from an ELF file

`load_elf` lets the library copy the segments of a file to a buffer, and goes through the program
headers once more to make the memory parts for `proc_create_process`. A segment is placed at its
virtual address behind the start of the buffer; its part begins at its offset in the file behind
that start. So a process reads its segments only if the two are the same for each of them.
-/

namespace Tinker.Image

open Tinker.Lib Logged

/-- What the pool answers to `load_elf`. -/
structure LoaderPool where
  allocAligned : BitVec 32 → BitVec 32 → Option (BitVec 32)
  part : ℕ → Bool

/-- The callback that places a segment. -/
def alloccb (_phys virt _size : BitVec 32) : BitVec 32 := virt

/-- The access rights of a part: those of `PF_X`, `PF_W` and `PF_R`. -/
def partAccess (pFlags : BitVec 32) : MmuAccess :=
  if pFlags &&& 1 ≠ 0 then .readWrite
  else if pFlags &&& 2 ≠ 0 then .readWrite
  else if pFlags &&& 4 ≠ 0 then .readOnly
  else .noAccess

/-- The part for a segment. -/
def partOf (buffer : BitVec 32) (ph : ElfPhdr) : MemSection where
  realAddress := buffer + ph.pOffset
  virtAddress := ph.pVaddr
  size := ph.pMemsz
  memoryType := .randomAccessMemory
  privilege := .allAccess
  accessRights := partAccess ph.pFlags

/-- One round of the loop of `load_elf`: the number of rounds and the parts so far. A segment for
which there is no memory is left out. -/
def addPart (pool : LoaderPool) (buffer : BitVec 32) (parts : ℕ × List MemSection) (ph : ElfPhdr) :
    ℕ × List MemSection :=
  (parts.1 + 1, if pool.part parts.1 then parts.2 ++ [partOf buffer ph] else parts.2)

/-- The loop of `load_elf`. -/
def loadParts (file : Ram) (ehdr : ElfEhdr) (pool : LoaderPool) (buffer : BitVec 32) :
    List MemSection :=
  (forPhdrs (m := Id) file ehdr ptLoad (fun parts ph => pure (addPart pool buffer parts ph))
    (0, []) 0).run.2

/-- The context once there is a buffer. -/
def ElCtx.loadedAt (ctx : ElCtx) (buffer : BitVec 32) : ElCtx :=
  { ctx with baseLoadVaddr := buffer, baseLoadPaddr := buffer }

/-- What `proc_create_process` is asked for. -/
def elfRequest (ehdr : ElfEhdr) (parts : List MemSection) (new : ProcessRequest) :
    ProcessRequest :=
  { new with
    heapSize := 4096 * 4
    parts := parts
    main := { new.main with entryPoint := ehdr.eEntry, stackSize := 4096 } }

/-- The event is the call of `proc_create_process`; `new` has what that one is given besides, and
what the allocators answer to it. -/
def loadElf (s : CreateSys) (file : Ram) (pool : LoaderPool) (mem : Ram) (new : ProcessRequest) :
    Logged ProcessRequest (ReturnT × CreateSys) :=
  match elInit file with
  | .error _ => return (.invalidElf, s)
  | .ok ctx =>
    match pool.allocAligned ctx.memsz ctx.align with
    | none => return (.outOfMemory, s)
    | some buffer =>
      match elLoad file (ctx.loadedAt buffer) alloccb mem with
      | .error _ => return (.invalidElf, s)
      | .ok _ =>
        let parts := loadParts file ctx.ehdr pool buffer
        if parts ≠ [] then do
          let request := elfRequest ctx.ehdr parts new
          Logged.emit request
          let (ret, _, s) ← Logged.lift (s.procCreateProcess request)
          return (ret, s)
        else return (.invalidElf, s)

/-! ## The parts -/

section Parts

variable {pool : LoaderPool} {buffer : BitVec 32}

/-- Which addresses a part maps where. -/
def mapping (part : MemSection) : BitVec 32 × BitVec 32 × BitVec 32 :=
  (part.virtAddress, part.size, part.realAddress)

end Parts

/-! ## The parts and the segments -/

section Mapped

variable {file mem loaded : Ram} {ctx : ElCtx} {buffer : BitVec 32} {pool : LoaderPool}

end Mapped

end Tinker.Image
