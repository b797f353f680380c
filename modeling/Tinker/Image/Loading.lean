import Tinker.Errors
import Tinker.Image.Payload
import Tinker.Lib.Logged
import Tinker.Scheduler.Basic

/-!
# Starting the applications of an image

When the kernel comes up, `end_of_bin` is the address behind the kernel binary. `load_processes`
goes through the table of offsets that follows, from its second word to the zero, and hands each
application to `load_elf`. The addresses are those at which the builder has put the applications.
-/

namespace Tinker.Image

open Tinker.Lib

/-- The loop of `load_processes` from an entry of the table on. What `load_elf` returns is a
parameter; it writes to memory that it has allocated, and not to the table. -/
def loadProcessesFrom (mem : Ram) (loadElf : BitVec 32 → ReturnT) (endOfBin : BitVec 32) :
    ℕ → BitVec 32 → Logged (BitVec 32) Unit
  | 0, _ => Logged.lift (.error .diverges)
  | fuel + 1, appStart =>
    if wordAt mem appStart ≠ 0 then do
      Logged.emit (endOfBin + wordAt mem appStart)
      let elfError := loadElf (endOfBin + wordAt mem appStart)
      Logged.lift (kernelAssert (elfError = .noError))
      loadProcessesFrom mem loadElf endOfBin fuel (appStart + 4)
    else return ()

/-- Load the application at each offset of the table. -/
def loadProcesses (mem : Ram) (loadElf : BitVec 32 → ReturnT) (fuel : ℕ) (endOfBin : BitVec 32) :
    Logged (BitVec 32) Unit :=
  loadProcessesFrom mem loadElf endOfBin fuel (endOfBin + 4)

/-! ## The table -/

/-- A table of words that are not zero, with a zero behind them. -/
def TableAt (mem : Ram) : BitVec 32 → List (BitVec 32) → Prop
  | a, [] => wordAt mem a = 0
  | a, w :: words => wordAt mem a = w ∧ w ≠ 0 ∧ TableAt mem (a + 4) words

variable {mem : Ram} {a base : BitVec 32} {words : List (BitVec 32)}

theorem tableAt_of_holdsBytes {tail : List (BitVec 8)}
    (h : HoldsBytes mem a (words.flatMap wordBytes ++ (wordBytes 0 ++ tail)))
    (hne : ∀ w ∈ words, w ≠ 0) : TableAt mem a words := by
  induction words generalizing a with
  | nil =>
    rw [List.flatMap_nil, List.nil_append] at h
    exact (holdsBytes_append.mp h).1.wordAt
  | cons w words ih =>
    rw [List.flatMap_cons, List.append_assoc, holdsBytes_append] at h
    obtain ⟨hword, hrest⟩ := h
    refine ⟨hword.wordAt, hne w List.mem_cons_self, ih hrest fun w' h' => ?_⟩
    exact hne w' (List.mem_cons_of_mem _ h')

theorem loadProcessesFrom_eq {loadElf : BitVec 32 → ReturnT} {endOfBin : BitVec 32}
    (table : TableAt mem a words)
    (loads : ∀ w ∈ words, loadElf (endOfBin + w) = .noError) {fuel : ℕ}
    (enough : words.length < fuel) :
    loadProcessesFrom mem loadElf endOfBin fuel a = ⟨words.map (endOfBin + ·), .ok ()⟩ := by
  induction words generalizing a fuel with
  | nil =>
    obtain ⟨fuel, rfl⟩ := Nat.exists_eq_add_of_lt enough
    have hzero : ¬ wordAt mem a ≠ 0 := not_not.mpr table
    simp only [List.length_nil, Nat.zero_add, loadProcessesFrom, if_neg hzero]
    rfl
  | cons w words ih =>
    obtain ⟨rfl, hne, hrest⟩ := table
    cases fuel with
    | zero => exact absurd enough (Nat.not_lt_zero _)
    | succ fuel =>
      have hnext := ih hrest (fun w' h' => loads w' (List.mem_cons_of_mem _ h'))
        (Nat.lt_of_succ_lt_succ enough)
      have hassert : kernelAssert (loadElf (endOfBin + wordAt mem a) = .noError) = .ok () := by
        rw [loads _ List.mem_cons_self]
        rfl
      simp only [loadProcessesFrom, if_pos hne, hassert, hnext]
      rfl

/-- The address behind the kernel binary, in an image that begins at an address. -/
def Payload.endOfBin (p : Payload) (base : BitVec 32) : BitVec 32 :=
  base + length p.kernel.data

/-- In a file of at most `2 ^ 32` bytes no application is at the end of the kernel, so that the
table that the builder has written has no zero before its end. -/
theorem Payload.Built.tableAt {p : Payload} {file : List (BitVec 8)} {positions : List ℕ}
    (built : p.Built file positions) (hsize : file.length ≤ 2 ^ 32)
    (loaded : HoldsBytes mem base file) :
    TableAt mem (p.endOfBin base + 4)
      (positions.map fun pos => BitVec.ofNat 32 pos - length p.kernel.data) := by
  obtain ⟨endOfApps, tail, hshape⟩ := built.shape
  obtain ⟨offsets, packed, -⟩ := built.packed
  rw [hshape, holdsBytes_append, holdsBytes_append] at loaded
  refine tableAt_of_holdsBytes loaded.2.2 fun w hw hzero => ?_
  obtain ⟨pos, hpos, rfl⟩ := List.mem_map.mp hw
  have hbounds := packed.bounds.2 pos hpos
  rw [sub_eq_zero, length, ← BitVec.toNat_inj, BitVec.toNat_ofNat, BitVec.toNat_ofNat,
    Nat.mod_eq_of_lt (by omega), Nat.mod_eq_of_lt (by omega)] at hzero
  omega

/-- `load_processes` visits the applications where the builder has put them, one after the other
and no other address, and finds their bytes there. -/
theorem loadProcesses_visits {p : Payload} {file : List (BitVec 8)} {positions : List ℕ}
    (small : p.endian = .small) (distinct : p.Distinct)
    (built : p.writeToDisk = .ok (file, positions)) (hsize : file.length < 2 ^ 31)
    (loaded : HoldsBytes mem base file) {loadElf : BitVec 32 → ReturnT}
    (loads : ∀ pos ∈ positions, loadElf (base + BitVec.ofNat 32 pos) = .noError) :
    (∃ depth, ∀ fuel ≥ depth, loadProcesses mem loadElf fuel (p.endOfBin base) =
        ⟨positions.map (base + BitVec.ofNat 32 ·), .ok ()⟩) ∧
      List.Forall₂ (fun app pos => HoldsBytes mem (base + BitVec.ofNat 32 pos) app.data)
        p.apps positions := by
  have built := p.built small distinct built
  have hword (pos : ℕ) : p.endOfBin base + (BitVec.ofNat 32 pos - length p.kernel.data) =
      base + BitVec.ofNat 32 pos := by
    rw [Payload.endOfBin, add_assoc, add_sub_cancel]
  constructor
  · refine ⟨positions.length + 1, fun fuel enough => ?_⟩
    have table := built.tableAt (by omega) loaded
    rw [loadProcesses, loadProcessesFrom_eq table ?_ (by simpa using enough)]
    · simp only [List.map_map, Function.comp_def, hword]
    · intro w hw
      obtain ⟨pos, hpos, rfl⟩ := List.mem_map.mp hw
      rw [hword]
      exact loads pos hpos
  · obtain ⟨offsets, packed, -⟩ := built.packed
    exact packed.holdsBytes loaded

/-- A kernel of one byte with applications of eight bytes and of one byte. -/
def twoApps : Payload where
  endian := .small
  kernel := ⟨0, [0xAA], true, by decide⟩
  apps := [⟨1, [1, 2, 3, 4, 5, 6, 7, 8], true, by decide⟩, ⟨2, [9], true, by decide⟩]

theorem valid_twoApps : twoApps.Valid := ⟨rfl, by simp [twoApps]⟩

theorem distinct_twoApps : twoApps.Distinct := by
  simp [Payload.Distinct, twoApps]

theorem exists_twoApps : ∃ file, twoApps.writeToDisk = .ok (file, [4096, 12288]) ∧
    file.length < 2 ^ 31 := by
  obtain ⟨file, hwritten, hlength⟩ := Payload.exists_writeToDisk valid_twoApps distinct_twoApps
    (by decide) (.inr (by decide))
  refine ⟨file, hwritten, hlength.trans_lt (by decide)⟩

/-- Both applications are visited. -/
theorem loadProcesses_visits_two : ∃ file,
    twoApps.writeToDisk = .ok (file, [4096, 12288]) ∧ file.length < 2 ^ 31 ∧
    ∃ depth, ∀ fuel ≥ depth,
      loadProcesses (placed file 0x8000#32) (fun _ => .noError) fuel 0x8001#32 =
        ⟨[0x9000#32, 0xB000#32], .ok ()⟩ := by
  obtain ⟨file, built, hlength⟩ := exists_twoApps
  have loaded : HoldsBytes (placed file 0x8000#32) 0x8000#32 file :=
    holdsBytes_placed (by omega) 0x8000#32
  have loads : ∀ pos ∈ [4096, 12288],
      (fun _ => ReturnT.noError) (0x8000#32 + BitVec.ofNat 32 pos) = ReturnT.noError :=
    fun _ _ => rfl
  exact ⟨file, built, hlength,
    (loadProcesses_visits rfl distinct_twoApps built hlength loaded loads).1⟩

end Tinker.Image
