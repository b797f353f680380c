import Tinker.Lib.Bytes

/-!
# Loading an ELF file

The library that reads ELF files, compiled for ARM: numbers are of 32 bits and their lowest byte is
the first one. `el_init` checks the header of the file and finds out how much memory its segments
take, `el_load` copies the segments to memory.

Reading the file does not fail here, and the file is not where the segments are copied to. The other
fields of the header are not read.
-/

namespace Tinker.Image

open Tinker.Lib

/-- `el_status`, without `EL_OK`. -/
inductive ElStatus
  | eio
  | enomem
  | notElf
  | wrongBits
  | wrongEndian
  | wrongArch
  | wrongOs
  | notExec
  | noDyn
  | badRel
  deriving DecidableEq, Repr

/-- The ELF header. -/
structure ElfEhdr where
  eIdent : ℕ → BitVec 8
  eType : BitVec 16
  eMachine : BitVec 16
  eVersion : BitVec 32
  eEntry : BitVec 32
  ePhoff : BitVec 32
  ePhentsize : BitVec 16
  ePhnum : BitVec 16

/-- A program header. -/
structure ElfPhdr where
  pType : BitVec 32
  pOffset : BitVec 32
  pVaddr : BitVec 32
  pPaddr : BitVec 32
  pFilesz : BitVec 32
  pMemsz : BitVec 32
  pFlags : BitVec 32
  pAlign : BitVec 32
  deriving DecidableEq

/-- A segment that is loaded. -/
def ptLoad : BitVec 32 := 1

/-- The dynamic section. -/
def ptDynamic : BitVec 32 := 2

/-- An executable file. -/
def etExec : BitVec 16 := 2

/-- A shared object. -/
def etDyn : BitVec 16 := 3

/-- The machine. -/
def emArm : BitVec 16 := 40

/-- The version. -/
def evCurrent : ℕ := 1

/-- The header at the start of the file. -/
def ehdrOf (file : Ram) : ElfEhdr where
  eIdent i := file (BitVec.ofNat 32 i)
  eType := halfAt file 16
  eMachine := halfAt file 18
  eVersion := wordAt file 20
  eEntry := wordAt file 24
  ePhoff := wordAt file 28
  ePhentsize := halfAt file 42
  ePhnum := halfAt file 44

/-- The program header at an offset. -/
def phdrAt (file : Ram) (offset : BitVec 32) : ElfPhdr where
  pType := wordAt file offset
  pOffset := wordAt file (offset + 4)
  pVaddr := wordAt file (offset + 8)
  pPaddr := wordAt file (offset + 12)
  pFilesz := wordAt file (offset + 16)
  pMemsz := wordAt file (offset + 20)
  pFlags := wordAt file (offset + 24)
  pAlign := wordAt file (offset + 28)

/-- `el_ctx` -/
structure ElCtx where
  baseLoadPaddr : BitVec 32
  baseLoadVaddr : BitVec 32
  memsz : BitVec 32
  align : BitVec 32
  ehdr : ElfEhdr
  dynoff : BitVec 32
  dynsize : BitVec 32

/-! ## The program headers -/

/-- The offset of a program header. -/
def elPhoff (ehdr : ElfEhdr) (num : ℕ) : BitVec 32 :=
  ehdr.ePhoff + BitVec.ofNat 32 num * ehdr.ePhentsize.setWidth 32

/-- There is no header where the index is set to -1. -/
def elFindphdr (file : Ram) (ehdr : ElfEhdr) (type : BitVec 32) (i : ℕ) : Option (ℕ × ElfPhdr) :=
  if i < ehdr.ePhnum.toNat then
    let phdr := phdrAt file (elPhoff ehdr i)
    if phdr.pType = type then some (i, phdr) else elFindphdr file ehdr type (i + 1)
  else none
termination_by ehdr.ePhnum.toNat - i

section Headers

variable {file : Ram} {ehdr : ElfEhdr} {type : BitVec 32} {i : ℕ}

theorem elFindphdr_of_eq (hi : i < ehdr.ePhnum.toNat)
    (htype : (phdrAt file (elPhoff ehdr i)).pType = type) :
    elFindphdr file ehdr type i = some (i, phdrAt file (elPhoff ehdr i)) := by
  rw [elFindphdr, if_pos hi]
  exact if_pos htype

theorem elFindphdr_of_ne (hi : i < ehdr.ePhnum.toNat)
    (htype : (phdrAt file (elPhoff ehdr i)).pType ≠ type) :
    elFindphdr file ehdr type i = elFindphdr file ehdr type (i + 1) := by
  rw [elFindphdr, if_pos hi]
  exact if_neg htype

theorem elFindphdr_of_le (hi : ehdr.ePhnum.toNat ≤ i) : elFindphdr file ehdr type i = none := by
  rw [elFindphdr, if_neg (Nat.not_lt.mpr hi)]

theorem le_of_elFindphdr {j : ℕ} {phdr : ElfPhdr}
    (h : elFindphdr file ehdr type i = some (j, phdr)) : i ≤ j ∧ j < ehdr.ePhnum.toNat := by
  induction hleft : ehdr.ePhnum.toNat - i generalizing i with
  | zero =>
    rw [elFindphdr_of_le (by omega)] at h
    cases h
  | succ left ih =>
    have hi : i < ehdr.ePhnum.toNat := by omega
    by_cases htype : (phdrAt file (elPhoff ehdr i)).pType = type
    · rw [elFindphdr_of_eq hi htype] at h
      obtain ⟨rfl, -⟩ := Prod.mk.inj (Option.some.inj h)
      exact ⟨Nat.le_refl i, hi⟩
    rw [elFindphdr_of_ne hi htype] at h
    have := ih h (by omega)
    exact ⟨by omega, this.2⟩

end Headers

/-- The loop of `el_init`, `el_load` and `load_elf` over the headers of a type, from an index on. -/
def forPhdrs {m : Type → Type} [Monad m] {σ : Type} (file : Ram) (ehdr : ElfEhdr)
    (type : BitVec 32) (body : σ → ElfPhdr → m σ) (s : σ) (i : ℕ) : m σ :=
  match h : elFindphdr file ehdr type i with
  | some (j, phdr) => do
    have := le_of_elFindphdr h
    let s ← body s phdr
    forPhdrs file ehdr type body s (j + 1)
  | none => pure s
termination_by ehdr.ePhnum.toNat - i

section Loop

variable {m : Type → Type} [Monad m] {σ : Type} {file : Ram} {ehdr : ElfEhdr}
  {type : BitVec 32} {body : σ → ElfPhdr → m σ} {i : ℕ}

end Loop

/-! ## Checking a file -/

/-- What `el_init` checks. -/
def IsElf (ehdr : ElfEhdr) : Prop :=
  ehdr.eIdent 0 = 0x7F ∧ ehdr.eIdent 1 = 0x45 ∧ ehdr.eIdent 2 = 0x4C ∧ ehdr.eIdent 3 = 0x46

deriving instance Decidable for IsElf

/-- The checks of `el_init`: the class, the order of the bytes and the version are in `e_ident`. -/
def validateHeader (ehdr : ElfEhdr) : Except ElStatus Unit :=
  if ¬ IsElf ehdr then .error .notElf
  else if ehdr.eIdent 4 ≠ 1 then .error .wrongBits
  else if ehdr.eIdent 5 ≠ 1 then .error .wrongEndian
  else if ehdr.eIdent 6 ≠ BitVec.ofNat 8 evCurrent then .error .notElf
  else if ehdr.eType ≠ etExec ∧ ehdr.eType ≠ etDyn then .error .notExec
  else if ehdr.eMachine ≠ emArm then .error .wrongArch
  else if ehdr.eVersion ≠ BitVec.ofNat 32 evCurrent then .error .notElf
  else .ok ()

/-- The size and the alignment of the memory, with one more segment. -/
def extend (extent : BitVec 32 × BitVec 32) (ph : ElfPhdr) : BitVec 32 × BitVec 32 :=
  let phend := ph.pVaddr + ph.pMemsz
  (if extent.1 < phend then phend else extent.1,
    if extent.2 < ph.pAlign then ph.pAlign else extent.2)

/-- Read the header and find the range of the segments. -/
def elInit (file : Ram) : Except ElStatus ElCtx := do
  let ehdr := ehdrOf file
  validateHeader ehdr
  let extent ← forPhdrs file ehdr ptLoad (fun extent ph => .ok (extend extent ph)) (0, 1) 0
  if ehdr.eType = etDyn then
    match elFindphdr file ehdr ptDynamic 0 with
    | some (_, ph) => .ok ⟨0, 0, extent.1, extent.2, ehdr, ph.pOffset, ph.pFilesz⟩
    | none => .error .noDyn
  else .ok ⟨0, 0, extent.1, extent.2, ehdr, 0, 0⟩

section Init

variable {file : Ram} {ctx : ElCtx}

end Init

/-! ## Copying the segments -/

/-- One round of `el_load`. The callback `alloc` is given the physical and the virtual address and
the size. -/
def loadSegment (file : Ram) (ctx : ElCtx)
    (alloc : BitVec 32 → BitVec 32 → BitVec 32 → BitVec 32) (mem : Ram) (ph : ElfPhdr) :
    Except ElStatus Ram :=
  let pload := ph.pPaddr + ctx.baseLoadPaddr
  let vload := ph.pVaddr + ctx.baseLoadVaddr
  let dest := alloc pload vload ph.pMemsz
  if dest = 0 then .error .enomem
  else .ok (zeroBytes (copyBytes mem dest file ph.pOffset ph.pFilesz) (dest + ph.pFilesz)
    (ph.pMemsz - ph.pFilesz))

/-- Copy every segment. -/
def elLoad (file : Ram) (ctx : ElCtx)
    (alloc : BitVec 32 → BitVec 32 → BitVec 32 → BitVec 32) (mem : Ram) : Except ElStatus Ram :=
  forPhdrs file ctx.ehdr ptLoad (loadSegment file ctx alloc) mem 0

section Load

variable {file mem mem' : Ram} {ctx : ElCtx}
  {alloc : BitVec 32 → BitVec 32 → BitVec 32 → BitVec 32}

end Load

end Tinker.Image
