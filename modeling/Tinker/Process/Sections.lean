import Tinker.Memory.PageTable

/-!
# The memory sections of a process

A process has a list of sections, which `process_add_mem_sec` keeps in the order of their virtual
addresses, and a page table that they are mapped in. System calls translate the addresses of the
caller in software, with the list; new sections are put into the first gap that is large enough.
-/

namespace Tinker

open Tinker.Lib

def userAddressSpace : BitVec 32 := 0xC0000000#32

def kernelAddressSpace : BitVec 32 := 0x80000000#32

def virtualAddressSpace (kernel : Bool) : BitVec 32 :=
  if kernel then kernelAddressSpace else userAddressSpace

def privatePoolSize : ℕ := 256 * 1024

structure ProcessMemory where
  kernelProcess : Bool
  sections : List MemSection
  poolStart : BitVec 32
  pageTable : PgTbl

/-- The section is put in front of the first one that has a higher virtual address. -/
def processAddMemSec (new : MemSection) : List MemSection → List MemSection
  | [] => [new]
  | s :: rest =>
    if new.virtAddress < s.virtAddress then new :: s :: rest else s :: processAddMemSec new rest

/-- The sections that `process_create` gives a process: those of the kernel that lie behind the RAM,
the private and the public pool, the parts of the image, and the code of the system calls. -/
def processCreateSections (kernel : Bool) (ksections : List MemSection) (endOfRam : BitVec 32)
    (privatePool memoryPool memorySize : BitVec 32) (parts : List MemSection)
    (api apiEnd : BitVec 32) : List MemSection :=
  let base := virtualAddressSpace kernel
  let devices := ksections.filter fun s => endOfRam < s.realAddress
  let added := devices ++
    [⟨privatePool, base, BitVec.ofNat 32 privatePoolSize, .randomAccessMemory, .kernelAccess,
      .readWrite⟩,
     ⟨memoryPool, base + BitVec.ofNat 32 privatePoolSize, memorySize, .randomAccessMemory,
      .allAccess, .readWrite⟩] ++
    parts ++ [⟨api, api, apiEnd - api, .randomAccessMemory, .allAccess, .readOnly⟩]
  added.foldl (fun sections new => processAddMemSec new sections) []

/-- The test of `process_virt_to_real`: the address is between the first address of the section and
the first one behind it, which is a sum of 32 bits. -/
def MemSection.Takes (s : MemSection) (virt : BitVec 32) : Bool :=
  let vstart := s.virtAddress
  let vend := vstart + s.size
  vstart ≤ virt ∧ virt ≤ vend

/-- The first section that passes the test is taken. -/
def processVirtToReal (p : ProcessMemory) (virt : BitVec 32) : BitVec 32 :=
  match p.sections.find? (·.Takes virt) with
  | some s => s.realAddress + (virt - s.virtAddress)
  | none =>
    let base := virtualAddressSpace p.kernelProcess
    (if base ≤ virt then virt - base else virt) + p.poolStart

def virtualToReal (p : ProcessMemory) (address : BitVec 32) : BitVec 32 :=
  if p.kernelProcess then
    if virtualAddressSpace true ≤ address then processVirtToReal p address else address
  else processVirtToReal p address

/-- The result of the mapping is not looked at. -/
def tgtMapMemory (p : ProcessMemory) (s : Option MemSection) : Exec (ReturnT × ProcessMemory) :=
  match s with
  | some s => do
    let (_, pageTable) ← armMapMemory p.pageTable s
    pure (.noError, { p with pageTable })
  | none => pure (.parametersInvalid, p)

/-- The search of `process_allocate_vmem` from a candidate on: the candidate that it ends with, the
sections it has passed, and those that are left. -/
def findVmem (base size vmemStart : BitVec 32) :
    List MemSection → BitVec 32 × List MemSection × List MemSection
  | [] => (vmemStart, [], [])
  | current :: rest =>
    let svt := current.virtAddress
    if base < svt ∧ vmemStart + size < svt then (vmemStart, [], current :: rest)
    else
      let vmemStart := current.virtAddress + current.size
      let vmemStart := vmemStart + vmemStart % BitVec.ofNat 32 mmuPageSize
      let (found, passed, left) := findVmem base size vmemStart rest
      (found, current :: passed, left)

/-- The virtual address comes with the result. `room` says whether the pool has memory for a
section. -/
def processAllocateVmem (p : ProcessMemory) (realAddress size : BitVec 32) (type : MmuMemory)
    (priv : MmuPrivilege) (access : MmuAccess) (room : Bool) :
    Exec (ReturnT × BitVec 32 × ProcessMemory) := do
  let base := virtualAddressSpace p.kernelProcess
  let newSection (virt : BitVec 32) : MemSection := ⟨realAddress, virt, size, type, priv, access⟩
  match findVmem base size base p.sections with
  | (vmemStart, passed, current :: rest) =>
    if room then
      let new := newSection vmemStart
      let (result, p) ←
        tgtMapMemory { p with sections := passed ++ new :: current :: rest } (some new)
      pure (result, vmemStart, p)
    else pure (.noError, 0, p)
  | (_, [], []) => pure (.noError, 0, p)
  | (vmemStart, _ :: _, []) =>
    let vmemStart := vmemStart + vmemStart % BitVec.ofNat 32 mmuPageSize
    if room then
      let new := newSection vmemStart
      let (result, p) ← tgtMapMemory { p with sections := p.sections ++ [new] } (some new)
      pure (result, vmemStart, p)
    else
      let (result, p) ← tgtMapMemory p none
      pure (result, vmemStart, p)

/-- The list after `process_free_vmem`. The first section is not taken out of it, since nothing
leads to it that could be changed. -/
def removeVmem (virt : BitVec 32) (sections : List MemSection) : List MemSection :=
  match sections with
  | [] => []
  | first :: rest =>
    if first.virtAddress = virt then first :: rest
    else first :: rest.eraseP fun s => s.virtAddress = virt

def processFreeVmem (p : ProcessMemory) (virtAddress : BitVec 32) : Exec ProcessMemory :=
  match p.sections.find? fun s => s.virtAddress = virtAddress with
  | some current => do
    let pageTable ← armUnmapMemory p.pageTable current
    pure { p with sections := removeVmem virtAddress p.sections, pageTable }
  | none => pure p

end Tinker
