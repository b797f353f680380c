import Tinker.Image.Loading

/-!
# Where the kernel's memory pool begins

`calculate_start_of_pool` adds up the words of the table behind the kernel binary as if they were
the sizes of the applications. They are offsets, each at least as large as the sum of those before
it: the result is behind all applications but the last one, and behind that one only if it is
short enough.

`kernel_initialise` zeroes the memory from the next page on and makes it the default pool.
-/

namespace Tinker.Image

open Tinker.Lib Exec Payload

/-! ## The start of the pool -/

/-- The loop of `calculate_start_of_pool`. -/
def sumSizesFrom (mem : Ram) : ℕ → BitVec 32 → BitVec 32 → Exec (BitVec 32)
  | 0, _, _ => .error .diverges
  | fuel + 1, sizes, sizePtr =>
    if wordAt mem sizePtr = 0 then .ok sizes
    else sumSizesFrom mem fuel (sizes + wordAt mem sizePtr) (sizePtr + 4)

/-- Add up the words of the table. -/
def calculateStartOfPool (mem : Ram) (fuel : ℕ) (endOfBin : BitVec 32) : Exec (BitVec 32) := do
  let sizes ← sumSizesFrom mem fuel 4 (endOfBin + 4)
  return endOfBin + sizes

/-- The loop that moves the start to a page boundary. -/
def alignStart : ℕ → BitVec 32 → Exec (BitVec 32)
  | 0, _ => .error .diverges
  | fuel + 1, alignedStart =>
    if alignedStart % 4096#32 ≠ 0 then alignStart fuel (alignedStart + 1) else .ok alignedStart

/-- The part of `kernel_initialise` that finds the memory of the default pool: from the first
address up to the second, it is zeroed and given to `mem_initialise`. -/
def kernelInitialisePool (mem : Ram) (fuel : ℕ) (endOfBin usableMemoryEnd : BitVec 32) :
    Exec (BitVec 32 × BitVec 32) := do
  let memoryStart ← calculateStartOfPool mem fuel endOfBin
  let memoryEnd := usableMemoryEnd - 4096#32
  let alignedStart ← alignStart fuel memoryStart
  kernelAssert (0 < memoryEnd)
  kernelAssert (alignedStart < memoryEnd)
  return (alignedStart, memoryEnd)

variable {mem : Ram} {a base : BitVec 32} {words : List (BitVec 32)}

theorem sumSizesFrom_eq (table : TableAt mem a words) (sizes : BitVec 32) {fuel : ℕ}
    (enough : words.length < fuel) :
    sumSizesFrom mem fuel sizes a = .ok (sizes + words.sum) := by
  induction words generalizing a fuel sizes with
  | nil =>
    obtain ⟨fuel, rfl⟩ := Nat.exists_eq_add_of_lt enough
    have hzero : wordAt mem a = 0 := table
    rw [sumSizesFrom, if_pos hzero, List.sum_nil, add_zero]
  | cons w words ih =>
    obtain ⟨rfl, hne, hrest⟩ := table
    cases fuel with
    | zero => exact absurd enough (Nat.not_lt_zero _)
    | succ fuel =>
      rw [sumSizesFrom, if_neg hne, ih hrest _ (Nat.lt_of_succ_lt_succ enough), List.sum_cons,
        add_assoc]

theorem alignUp_succ {n : ℕ} (hne : n % 4096 ≠ 0) : alignUp (n + 1) = alignUp n := by
  have hpage : (n + 1 + 4095) / 4096 = (n + 4095) / 4096 := by omega
  rw [alignUp, alignUp, hpage]

theorem alignUp_sub_lt {n left : ℕ} (hn : n < 2 ^ 32) (hne : n % 4096 ≠ 0)
    (h : alignUp n - n < left + 1) :
    alignUp ((n + 1) % 2 ^ 32) - (n + 1) % 2 ^ 32 < left := by
  have hbehind : n < alignUp n := by
    unfold alignUp
    omega
  by_cases hlast : n + 1 = 2 ^ 32
  · rw [hlast, Nat.mod_self]
    change 0 < left
    omega
  rw [Nat.mod_eq_of_lt (by omega), alignUp_succ hne]
  omega

/-- The next page is reached after less than 4096 rounds; behind the last page it is at 0. -/
theorem alignStart_eq (a : BitVec 32) {fuel : ℕ} (enough : alignUp a.toNat - a.toNat < fuel) :
    alignStart fuel a = .ok (BitVec.ofNat 32 (alignUp a.toNat)) := by
  induction fuel generalizing a with
  | zero => exact absurd enough (Nat.not_lt_zero _)
  | succ fuel ih =>
    have ha := a.isLt
    have hmod : (a % 4096#32).toNat = a.toNat % 4096 := BitVec.toNat_umod
    rw [alignStart]
    split
    next hne =>
      have hne : a.toNat % 4096 ≠ 0 := fun hzero => hne (BitVec.eq_of_toNat_eq (hmod.trans hzero))
      have hnext : (a + 1#32).toNat = (a.toNat + 1) % 2 ^ 32 := BitVec.toNat_add a 1#32
      have hsame : BitVec.ofNat 32 (alignUp (a + 1#32).toNat) =
          BitVec.ofNat 32 (alignUp a.toNat) := by
        apply BitVec.eq_of_toNat_eq
        rw [BitVec.toNat_ofNat, BitVec.toNat_ofNat, hnext, alignUp, alignUp]
        omega
      rw [← hsame]
      refine ih (a + 1#32) ?_
      rw [hnext]
      exact alignUp_sub_lt ha hne enough
    next hzero =>
      have hzero : a.toNat % 4096 = 0 := by
        rw [← hmod, not_not.mp hzero]
        rfl
      have hpage : alignUp a.toNat = a.toNat := by
        unfold alignUp
        omega
      rw [hpage, BitVec.ofNat_toNat, BitVec.setWidth_eq]

/-! ## Sums of offsets -/

theorem startsFrom_concat (start : ℕ) (lengths : List ℕ) (length : ℕ) :
    startsFrom start (lengths ++ [length]) =
      startsFrom start lengths ++ [nextStart start lengths] := by
  induction lengths generalizing start with
  | nil => rfl
  | cons first lengths ih =>
    rw [List.cons_append, startsFrom_cons, startsFrom_cons, ih, nextStart, List.cons_append]

theorem sum_startsFrom_le (start : ℕ) (lengths : List ℕ) :
    (startsFrom start lengths).sum + start ≤ nextStart start lengths := by
  induction lengths generalizing start with
  | nil => simp [nextStart]
  | cons length lengths ih =>
    have hnext := ih (start + alignUp (start + length))
    have halign := le_alignUp (start + length)
    rw [startsFrom_cons, List.sum_cons, nextStart]
    omega

theorem end_le_nextStart (start : ℕ) (apps : List Application) :
    ∀ x ∈ apps.zip (startsFrom start (lengths apps)),
      x.2 + x.1.data.length ≤ nextStart start (lengths apps) := by
  induction apps generalizing start with
  | nil => simp
  | cons app apps ih =>
    intro x hx
    have halign := le_alignUp (start + app.data.length)
    have hsum := sum_startsFrom_le (start + alignUp (start + app.data.length)) (lengths apps)
    rw [lengths_cons, nextStart]
    rcases List.mem_cons.mp hx with rfl | hx
    · dsimp only
      omega
    · exact ih _ x hx

theorem sum_offsets {kernelLength : ℕ} {starts : List ℕ} (hle : ∀ s ∈ starts, kernelLength ≤ s) :
    (starts.map fun s => BitVec.ofNat 32 s - BitVec.ofNat 32 kernelLength).sum =
      BitVec.ofNat 32 (starts.map (· - kernelLength)).sum := by
  induction starts with
  | nil => rfl
  | cons s starts ih =>
    rw [List.map_cons, List.sum_cons, List.map_cons, List.sum_cons, BitVec.ofNat_add,
      ofNat_sub_ofNat (hle s List.mem_cons_self), ih fun s' h => hle s' (List.mem_cons_of_mem _ h)]

theorem sum_sub_le (kernelLength : ℕ) (starts : List ℕ) :
    (starts.map (· - kernelLength)).sum ≤ starts.sum := by
  induction starts with
  | nil => exact Nat.le_refl _
  | cons s starts ih =>
    rw [List.map_cons, List.sum_cons, List.sum_cons]
    omega

/-! ## The pool and the applications -/

/-- The start of the pool, computed without overflow. -/
def Payload.poolStart (p : Payload) (base : BitVec 32) : ℕ :=
  base.toNat + p.kernel.data.length + 4 + (p.starts.map (· - p.kernel.data.length)).sum

/-- The start of the pool is not below the end of any application, and the memory that is zeroed
holds no byte of one. -/
def PoolBehindApps (mem : Ram) (base usableMemoryEnd : BitVec 32) (p : Payload)
    (positions : List ℕ) : Prop :=
  ∃ depth, ∀ fuel ≥ depth, ∃ start, calculateStartOfPool mem fuel (p.endOfBin base) = .ok start ∧
    (∀ x ∈ p.apps.zip positions, base.toNat + x.2 + x.1.data.length ≤ start.toNat) ∧
    ∀ first stop, kernelInitialisePool mem fuel (p.endOfBin base) usableMemoryEnd =
      .ok (first, stop) → ∀ x ∈ p.apps.zip positions, ∀ i < x.1.data.length,
        ¬ (first.toNat ≤ base.toNat + x.2 + i ∧ base.toNat + x.2 + i < stop.toNat)

/-- The last application is not longer than the offsets of the others together, and the word in
front of the table. The sum of the offsets does not wrap around; neither does the page behind it,
or else the applications are not in the memory that begins at 0. -/
def Payload.LastFits (p : Payload) (base usableMemoryEnd : BitVec 32) : Prop :=
  ∀ last, p.apps.getLast? = some last →
    last.data.length ≤ 4 + (p.starts.dropLast.map (· - p.kernel.data.length)).sum ∧
    p.poolStart base < 2 ^ 32 ∧
    (p.poolStart base ≤ 2 ^ 32 - 4096 ∨ ∀ x ∈ p.apps.zip p.starts, x.1.data ≠ [] →
      (usableMemoryEnd - 4096#32).toNat ≤ base.toNat + x.2)

section Built

variable {p : Payload} {file : List (BitVec 8)} {positions : List ℕ} {usableMemoryEnd : BitVec 32}

/-- The starts of the applications in a file that fits into memory. -/
structure Payload.Fits (p : Payload) (base : BitVec 32) : Prop where
  behind : ∀ s ∈ p.starts, p.kernel.data.length ≤ s
  inside : ∀ x ∈ p.apps.zip p.starts, base.toNat + x.2 + x.1.data.length + 128 ≤ 2 ^ 32

theorem Payload.Built.fits (built : p.Built file positions)
    (hfits : base.toNat + file.length ≤ 2 ^ 32) : p.Fits base := by
  obtain ⟨offsets, packed, -⟩ := built.packed
  have hstarts := built.positions_eq_starts (by omega)
  subst hstarts
  refine ⟨fun s hs => ?_, fun x hx => ?_⟩
  · have := (packed.bounds.2 s hs).1
    omega
  have := packed.end_le x hx
  omega

theorem calculateStartOfPool_eq (built : p.Built file positions)
    (hfits : base.toNat + file.length ≤ 2 ^ 32) (loaded : HoldsBytes mem base file) {fuel : ℕ}
    (enough : p.apps.length < fuel) :
    calculateStartOfPool mem fuel (p.endOfBin base) =
      .ok (BitVec.ofNat 32 (p.poolStart base)) := by
  have table := built.tableAt (by omega) loaded
  rw [built.positions_eq_starts (by omega)] at table
  have hlength : p.starts.length < fuel := by rwa [length_starts]
  rw [calculateStartOfPool, sumSizesFrom_eq table 4 (by simpa using hlength)]
  rw [ok_bind, pure_eq_ok, length, sum_offsets (built.fits hfits).behind,
    endOfBin, length, poolStart]
  simp only [BitVec.ofNat_add, BitVec.ofNat_toNat, BitVec.setWidth_eq, add_assoc]
  rfl

theorem of_kernelAssert {condition : Bool} {u : Unit} (h : kernelAssert condition = .ok u) :
    condition = true := by
  unfold kernelAssert at h
  split at h
  next hcondition => exact hcondition
  · cases h

theorem kernelInitialisePool_eq_ok_iff {start first stop : BitVec 32} {fuel : ℕ}
    (hstart : calculateStartOfPool mem fuel (p.endOfBin base) = .ok start) (enough : 4096 ≤ fuel) :
    kernelInitialisePool mem fuel (p.endOfBin base) usableMemoryEnd = .ok (first, stop) ↔
      first = BitVec.ofNat 32 (alignUp start.toNat) ∧ stop = usableMemoryEnd - 4096#32 ∧
        0 < stop ∧ first < stop := by
  have hrounds : alignUp start.toNat - start.toNat < fuel := by
    have : alignUp start.toNat ≤ start.toNat + 4095 := by
      unfold alignUp
      omega
    omega
  rw [kernelInitialisePool, hstart, ok_bind]
  rw [alignStart_eq start hrounds, ok_bind]
  generalize BitVec.ofNat 32 (alignUp start.toNat) = alignedStart
  generalize usableMemoryEnd - 4096#32 = memoryEnd
  constructor
  · intro h
    obtain ⟨_, hpos, h⟩ := of_bind h
    obtain ⟨_, hlt, h⟩ := of_bind h
    cases h
    exact ⟨rfl, rfl, of_decide_eq_true (of_kernelAssert hpos),
      of_decide_eq_true (of_kernelAssert hlt)⟩
  rintro ⟨rfl, rfl, hpos, hlt⟩
  rw [kernelAssert, if_pos (decide_eq_true hpos), ok_bind, kernelAssert,
    if_pos (decide_eq_true hlt), ok_bind, pure_eq_ok]

theorem Payload.starts_concat {init : List Application} {last : Application}
    (happs : p.apps = init ++ [last]) :
    ∃ before s, p.starts = before ++ [s] ∧ init.length = before.length ∧
      before.sum + 4096 ≤ s ∧ ∀ x ∈ init.zip before, x.2 + x.1.data.length ≤ s := by
  refine ⟨_, _, ?_, ?_, ?_, end_le_nextStart
    (alignUp (p.kernel.data.length + 4 * (p.apps.length + 1))) init⟩
  · rw [starts, ← startsFrom_concat _ (lengths init) last.data.length]
    rw [happs, lengths, List.map_append]
    rfl
  · rw [length_startsFrom, lengths, List.length_map]
  have hsum := sum_startsFrom_le (alignUp (p.kernel.data.length + 4 * (p.apps.length + 1)))
    (lengths init)
  have hfirst : 4096 ≤ alignUp (p.kernel.data.length + 4 * (p.apps.length + 1)) := by
    unfold alignUp
    omega
  omega

/-- The sum is not below the end of any application exactly if the last one is short enough and the
sum does not wrap around. -/
theorem Payload.Fits.ends_le_iff (fits : p.Fits base) {init : List Application}
    {last : Application} (happs : p.apps = init ++ [last]) :
    (∀ x ∈ p.apps.zip p.starts,
        base.toNat + x.2 + x.1.data.length ≤ (BitVec.ofNat 32 (p.poolStart base)).toNat) ↔
      last.data.length ≤ 4 + (p.starts.dropLast.map (· - p.kernel.data.length)).sum ∧
        p.poolStart base < 2 ^ 32 := by
  obtain ⟨before, s, hstarts, hlength, hsum, hends⟩ := starts_concat happs
  have hzip : p.apps.zip p.starts = init.zip before ++ [(last, s)] := by
    rw [happs, hstarts, List.zip_append hlength]
    rfl
  have hbehind := fits.behind s (by rw [hstarts]; simp)
  have hinside := fits.inside (last, s) (by rw [hzip]; simp)
  have hoffsets := sum_sub_le p.kernel.data.length before
  have hpool : p.poolStart base =
      base.toNat + 4 + (before.map (· - p.kernel.data.length)).sum + s := by
    rw [poolStart, hstarts, List.map_append, List.sum_append, List.map_singleton,
      List.sum_singleton]
    omega
  rw [hzip, hpool, hstarts, List.dropLast_concat, BitVec.toNat_ofNat]
  constructor
  · intro hall
    -- if the sum wraps around it is not even behind the start of the last application
    have hlast := hall (last, s) (by simp)
    dsimp only at hlast
    omega
  rintro ⟨hshort, hwrap⟩ x hx
  rw [Nat.mod_eq_of_lt hwrap]
  rcases List.mem_append.mp hx with hx | hx
  · have := hends x hx
    omega
  obtain rfl := List.mem_singleton.mp hx
  dsimp only
  omega

/-- When the pool begins behind the applications, the memory that is zeroed holds a byte of one
only if the next page is behind the last address. -/
theorem clear_iff {fuel : ℕ} (hwrap : p.poolStart base < 2 ^ 32)
    (hstart : calculateStartOfPool mem fuel (p.endOfBin base) =
      .ok (BitVec.ofNat 32 (p.poolStart base))) (enough : 4096 ≤ fuel)
    (hends : ∀ x ∈ p.apps.zip p.starts, base.toNat + x.2 + x.1.data.length ≤ p.poolStart base) :
    (∀ first stop, kernelInitialisePool mem fuel (p.endOfBin base) usableMemoryEnd =
      .ok (first, stop) → ∀ x ∈ p.apps.zip p.starts, ∀ i < x.1.data.length,
        ¬ (first.toNat ≤ base.toNat + x.2 + i ∧ base.toNat + x.2 + i < stop.toNat)) ↔
      (p.poolStart base ≤ 2 ^ 32 - 4096 ∨ ∀ x ∈ p.apps.zip p.starts, x.1.data ≠ [] →
        (usableMemoryEnd - 4096#32).toNat ≤ base.toNat + x.2) := by
  have hpool : (BitVec.ofNat 32 (p.poolStart base)).toNat = p.poolStart base := by
    rw [BitVec.toNat_ofNat, Nat.mod_eq_of_lt hwrap]
  simp only [kernelInitialisePool_eq_ok_iff hstart enough, hpool]
  by_cases hpage : p.poolStart base ≤ 2 ^ 32 - 4096
  · refine iff_of_true ?_ (.inl hpage)
    rintro first stop ⟨rfl, -, -, -⟩ x hx i hi ⟨hle, -⟩
    have hend := hends x hx
    have halign := le_alignUp (p.poolStart base)
    have hbelow : alignUp (p.poolStart base) < 2 ^ 32 := by
      unfold alignUp
      omega
    rw [BitVec.toNat_ofNat, Nat.mod_eq_of_lt hbelow] at hle
    omega
  have hzero : BitVec.ofNat 32 (alignUp (p.poolStart base)) = 0#32 := by
    have : alignUp (p.poolStart base) = 2 ^ 32 := by
      unfold alignUp
      omega
    rw [this]
    rfl
  rw [hzero, or_iff_right hpage]
  constructor
  · intro hclear x hx hne
    by_contra hlt
    have hpos : 0#32 < usableMemoryEnd - 4096#32 := by
      rw [BitVec.lt_def]
      change 0 < _
      omega
    refine hclear 0#32 _ ⟨rfl, rfl, hpos, hpos⟩ x hx 0 (List.length_pos_of_ne_nil hne) ⟨?_, ?_⟩
    · exact Nat.zero_le _
    · omega
  rintro hclear first stop ⟨rfl, rfl, -, -⟩ x hx i hi ⟨-, hlt⟩
  have := hclear x hx (List.ne_nil_of_length_pos (by omega))
  omega

/-- The pool begins behind the applications, and holds none of their bytes, exactly if the last
application is short enough and nothing wraps around. -/
theorem poolBehindApps_iff (small : p.endian = .small) (distinct : p.Distinct)
    (built : p.writeToDisk = .ok (file, positions)) (hfits : base.toNat + file.length ≤ 2 ^ 32)
    (loaded : HoldsBytes mem base file) (usableMemoryEnd : BitVec 32) :
    PoolBehindApps mem base usableMemoryEnd p positions ↔ p.LastFits base usableMemoryEnd := by
  have built := p.built small distinct built
  have fits := built.fits hfits
  have hstart (fuel : ℕ) (enough : p.apps.length < fuel) :=
    calculateStartOfPool_eq built hfits loaded enough
  obtain rfl := built.positions_eq_starts (by omega)
  rcases List.eq_nil_or_concat' p.apps with hnil | ⟨init, last, happs⟩
  · refine iff_of_true ⟨p.apps.length + 1, fun fuel enough => ⟨_, hstart fuel enough, ?_, ?_⟩⟩ ?_
    · simp [hnil]
    · simp [hnil]
    · simp [Payload.LastFits, hnil]
  have hlast : p.apps.getLast? = some last := by rw [happs, List.getLast?_concat]
  have hiff := fits.ends_le_iff happs
  constructor
  · rintro ⟨depth, behind⟩ last' hlast'
    cases hlast.symm.trans hlast'
    -- enough rounds for both loops
    obtain ⟨fuel, hdepth, hmore, hpage⟩ : ∃ fuel, depth ≤ fuel ∧ p.apps.length < fuel ∧
        4096 ≤ fuel := ⟨depth + p.apps.length + 4096, by omega, by omega, by omega⟩
    obtain ⟨start, hcalculated, hends, hclear⟩ := behind fuel hdepth
    cases hcalculated.symm.trans (hstart fuel hmore)
    obtain ⟨hshort, hwrap⟩ := hiff.mp hends
    rw [BitVec.toNat_ofNat, Nat.mod_eq_of_lt hwrap] at hends
    exact ⟨hshort, hwrap, (clear_iff hwrap hcalculated hpage hends).mp hclear⟩
  · intro hfit
    obtain ⟨hshort, hwrap, hclear⟩ := hfit last hlast
    have hends := hiff.mpr ⟨hshort, hwrap⟩
    refine ⟨p.apps.length + 4096, fun fuel enough => ⟨_, hstart fuel (by omega), hends, ?_⟩⟩
    rw [BitVec.toNat_ofNat, Nat.mod_eq_of_lt hwrap] at hends
    exact (clear_iff hwrap (hstart fuel (by omega)) (by omega) hends).mpr hclear

end Built

/-- The second application is shorter than the offset of the first. -/
theorem poolBehindApps_iff_two : ∃ file,
    twoApps.writeToDisk = .ok (file, [4096, 12288]) ∧
    PoolBehindApps (placed file 0x8000#32) 0x8000#32 0x2000000#32 twoApps [4096, 12288] := by
  obtain ⟨file, built, hlength⟩ := exists_twoApps
  have hbase : (0x8000#32).toNat = 0x8000 := rfl
  refine ⟨file, built, (poolBehindApps_iff rfl distinct_twoApps built (by omega)
    (holdsBytes_placed (by omega) 0x8000#32) _).mpr fun last hlast => ?_⟩
  cases hlast
  exact ⟨by decide, by decide, .inl (by decide)⟩

/-- A kernel of one byte with an application of eight bytes. -/
def oneApp : Payload := { twoApps with apps := twoApps.apps.take 1 }

/-- The pool does not begin behind the application, but after its fourth byte. -/
theorem not_poolBehindApps_eight : ∃ file, oneApp.writeToDisk = .ok (file, [4096]) ∧
    ¬ PoolBehindApps (placed file 0x8000#32) 0x8000#32 0x2000000#32 oneApp [4096] := by
  have distinct : oneApp.Distinct := by simp [Payload.Distinct, oneApp, twoApps]
  have valid : oneApp.Valid := ⟨rfl, by simp [oneApp, twoApps]⟩
  obtain ⟨file, disk, hlength⟩ := Payload.exists_writeToDisk valid distinct (by decide)
    (.inr (by decide))
  have hlength : file.length < 2 ^ 31 := hlength.trans_lt (by decide)
  have hbase : (0x8000#32).toNat = 0x8000 := rfl
  refine ⟨file, disk, ?_⟩
  rintro ⟨depth, behind⟩
  obtain ⟨start, hstart, hends, -⟩ := behind (depth + 2) (by omega)
  have built := Payload.built rfl distinct disk
  have hpool := calculateStartOfPool_eq built (by omega) (holdsBytes_placed (by omega) 0x8000#32)
    (show 1 < depth + 2 by omega)
  cases hstart.symm.trans hpool
  exact absurd (hends _ List.mem_cons_self) (by decide)

end Tinker.Image
