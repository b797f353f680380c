import Tinker.Lib.Bytes

/-!
# The image builder

`Payload.java` packs the kernel binary and the applications into one file: the kernel, a table of
words, and then each application at a page boundary. The first word of the table is the length of
all of it, the others are the offsets of the applications from the end of the kernel, and a zero
ends the table. The offsets are computed with room for one word less. The numbers are Java
integers, which wrap around.
-/

namespace Tinker.Image

open Tinker.Lib

/-! ## The builder -/

/-- The order of the bytes of a word. -/
inductive Endian
  | big
  | small
  deriving DecidableEq

/-- The four bytes of a word. -/
def intToByteArray (value : BitVec 32) : Endian → List (BitVec 8)
  | .big => [(value >>> 24).setWidth 8, (value >>> 16).setWidth 8, (value >>> 8).setWidth 8,
      value.setWidth 8]
  | .small => [value.setWidth 8, (value >>> 8).setWidth 8, (value >>> 16).setWidth 8,
      (value >>> 24).setWidth 8]

/-- The bytes are those of a Java array, which has less than `2 ^ 31` elements. -/
structure Application where
  /-- The object itself: applications are keys of a map. -/
  object : ℕ
  data : List (BitVec 8)
  /-- `validate` does not throw. -/
  valid : Bool
  length_lt : data.length < 2 ^ 31

/-- The length, as a Java integer. -/
def Application.length (app : Application) : BitVec 32 := BitVec.ofNat 32 app.data.length

/-- What the builder throws. -/
inductive BuildError
  | applicationException
  | negativeArraySizeException
  deriving DecidableEq

/-- A kernel and its applications. -/
structure Payload where
  endian : Endian
  kernel : Application
  apps : List Application

/-- `Payload.align`. The division rounds towards zero. -/
def align (value : BitVec 32) : BitVec 32 :=
  let whole := value.sdiv 4096#32
  let up := whole * 4096#32
  if value.sle up then up else up + 4096#32

/-- The length of what has been written. -/
def length (file : List (BitVec 8)) : BitVec 32 := BitVec.ofNat 32 file.length

/-- The local variables of `writeToDisk`. -/
structure Layout where
  aligned : BitVec 32
  alignedOffsets : List (BitVec 32)
  offsets : ℕ → BitVec 32

/-- The first loop of `writeToDisk`: where the applications go. -/
def placeApps (kernelLength : BitVec 32) : Layout → List Application → Except BuildError Layout
  | layout, [] => .ok layout
  | layout, app :: apps =>
    if app.valid then
      placeApps kernelLength
        { aligned := layout.aligned + align (layout.aligned + app.length)
          alignedOffsets := layout.alignedOffsets ++ [layout.aligned - kernelLength]
          offsets := Function.update layout.offsets app.object layout.aligned } apps
    else .error .applicationException

/-- The loop of `writeToDisk` that writes the applications. The positions at which they begin come
with the file, as the builder logs them. -/
def writeApps (offsets : ℕ → BitVec 32) :
    List (BitVec 8) → List Application → Except BuildError (List (BitVec 8) × List ℕ)
  | file, [] => .ok (file, [])
  | file, app :: apps =>
    let fill := offsets app.object - length file
    if fill.msb then .error .negativeArraySizeException
    else do
      let file := file ++ List.replicate fill.toNat 0
      let (written, positions) ← writeApps offsets (file ++ app.data) apps
      return (written, file.length :: positions)

namespace Payload

variable (p : Payload)

/-- The offsets of the applications. -/
def layout : Except BuildError Layout :=
  let kernelLength := length p.kernel.data
  let afterLengths := kernelLength + 4 * (BitVec.ofNat 32 p.apps.length + 1)
  placeApps kernelLength ⟨align afterLengths, [], fun _ => 0⟩ p.apps

/-- The end of the applications, their offsets and a zero. -/
def table (layout : Layout) : List (BitVec 8) :=
  intToByteArray (layout.aligned - length p.kernel.data) p.endian ++
    layout.alignedOffsets.flatMap (intToByteArray · p.endian) ++ [0, 0, 0, 0]

/-- The image, and where in it the applications begin. -/
def writeToDisk : Except BuildError (List (BitVec 8) × List ℕ) :=
  if p.kernel.valid then do
    let layout ← p.layout
    let (file, positions) ← writeApps layout.offsets (p.kernel.data ++ p.table layout) p.apps
    return (file ++ List.replicate 128 0, positions)
  else .error .applicationException

end Payload

/-! ## Alignment -/

/-- The next multiple of 4096. -/
def alignUp (n : ℕ) : ℕ := (n + 4095) / 4096 * 4096

theorem toNat_align (v : BitVec 32) : (align v).toNat = alignUp v.toNat % 2 ^ 32 := by
  have h4096 : (4096#32).toNat = 4096 := rfl
  by_cases hmsb : v.msb = true
  · -- a negative number: rounding towards zero is rounding up
    have hneg : 2 ^ 31 ≤ v.toNat := by
      rw [BitVec.msb_eq_decide] at hmsb
      simpa using hmsb
    have hsdiv : v.sdiv 4096#32 = -((-v) / 4096#32) := by
      rw [BitVec.sdiv_eq, hmsb]
      rfl
    have hquot : ((-v) / 4096#32).toNat = (2 ^ 32 - v.toNat) / 4096 := by
      rw [BitVec.toNat_udiv, BitVec.toNat_neg, h4096, Nat.mod_eq_of_lt (by omega)]
    have hup : (v.sdiv 4096#32 * 4096#32).toNat =
        (2 ^ 32 - (2 ^ 32 - v.toNat) / 4096 * 4096) % 2 ^ 32 := by
      rw [hsdiv, BitVec.toNat_mul, BitVec.toNat_neg, hquot, h4096]
      omega
    have hle : v.sle (v.sdiv 4096#32 * 4096#32) = true := by
      rw [BitVec.sle_eq_decide, decide_eq_true_iff, BitVec.toInt_eq_toNat_cond,
        BitVec.toInt_eq_toNat_cond, hup]
      split <;> split <;> omega
    rw [align, if_pos hle, hup, alignUp]
    omega
  have hsdiv : v.sdiv 4096#32 = v / 4096#32 := by
    rw [BitVec.sdiv_eq, Bool.eq_false_of_not_eq_true hmsb]
    rfl
  have hup : (v.sdiv 4096#32 * 4096#32).toNat = v.toNat / 4096 * 4096 := by
    rw [hsdiv, BitVec.toNat_mul, BitVec.toNat_udiv, h4096]
    omega
  have hle : v.sle (v.sdiv 4096#32 * 4096#32) = true ↔ v.toNat % 4096 = 0 := by
    rw [BitVec.sle_eq_decide, decide_eq_true_iff, BitVec.toInt_eq_toNat_cond,
      BitVec.toInt_eq_toNat_cond, hup]
    split <;> split <;> omega
  by_cases hzero : v.toNat % 4096 = 0
  · rw [align, if_pos (hle.mpr hzero), hup, alignUp]
    omega
  rw [align, if_neg (mt hle.mp hzero), BitVec.toNat_add, hup, h4096, alignUp]
  omega

theorem align_ofNat (n : ℕ) : align (BitVec.ofNat 32 n) = BitVec.ofNat 32 (alignUp n) := by
  apply BitVec.eq_of_toNat_eq
  rw [toNat_align, BitVec.toNat_ofNat, BitVec.toNat_ofNat, alignUp, alignUp]
  omega

theorem le_alignUp (n : ℕ) : n ≤ alignUp n := by
  unfold alignUp
  omega

/-! ## The layout -/

/-- Where the applications of some lengths begin, if the first of them begins at a position. The
distance to the next one is counted from the beginning of the file, so that it doubles. -/
def startsFrom : ℕ → List ℕ → List ℕ
  | _, [] => []
  | start, length :: lengths => start :: startsFrom (start + alignUp (start + length)) lengths

/-- Where the next application would begin. -/
def nextStart : ℕ → List ℕ → ℕ
  | start, [] => start
  | start, length :: lengths => nextStart (start + alignUp (start + length)) lengths

/-- The lengths of the applications. -/
def lengths (apps : List Application) : List ℕ := apps.map (·.data.length)

@[simp] theorem lengths_nil : lengths [] = [] := rfl

@[simp] theorem lengths_cons (app : Application) (apps : List Application) :
    lengths (app :: apps) = app.data.length :: lengths apps := rfl

@[simp] theorem startsFrom_nil (start : ℕ) : startsFrom start [] = [] := rfl

@[simp] theorem startsFrom_cons (start length : ℕ) (lengths : List ℕ) :
    startsFrom start (length :: lengths) =
      start :: startsFrom (start + alignUp (start + length)) lengths := rfl

theorem startsFrom_bounds (start : ℕ) (lengths : List ℕ) :
    start ≤ nextStart start lengths ∧
      ∀ s ∈ startsFrom start lengths, start ≤ s ∧ s ≤ nextStart start lengths := by
  induction lengths generalizing start with
  | nil => exact ⟨le_rfl, by simp⟩
  | cons length lengths ih =>
    obtain ⟨hnext, hrest⟩ := ih (start + alignUp (start + length))
    rw [nextStart, startsFrom_cons]
    refine ⟨by omega, fun s hs => ?_⟩
    rcases List.mem_cons.mp hs with rfl | hs
    · omega
    have := hrest s hs
    omega

variable {kernelLength : BitVec 32} {layout layout' : Layout} {apps : List Application}

theorem exists_placeApps (valid : ∀ app ∈ apps, app.valid = true) (layout : Layout) :
    ∃ layout', placeApps kernelLength layout apps = .ok layout' := by
  induction apps generalizing layout with
  | nil => exact ⟨layout, rfl⟩
  | cons app apps ih =>
    rw [placeApps, if_pos (valid app List.mem_cons_self)]
    exact ih (fun app' h => valid app' (List.mem_cons_of_mem _ h)) _

theorem placeApps_ok {start : ℕ} (h : placeApps kernelLength layout apps = .ok layout')
    (hstart : layout.aligned = BitVec.ofNat 32 start) :
    layout'.alignedOffsets = layout.alignedOffsets ++
        (startsFrom start (lengths apps)).map (BitVec.ofNat 32 · - kernelLength) ∧
      (∀ object ∉ apps.map Application.object, layout'.offsets object = layout.offsets object) ∧
      ((apps.map Application.object).Nodup → apps.map (layout'.offsets ·.object) =
        (startsFrom start (lengths apps)).map (BitVec.ofNat 32)) := by
  induction apps generalizing layout start with
  | nil =>
    cases h
    simp
  | cons app apps ih =>
    rw [placeApps] at h
    split at h
    · have hnext : layout.aligned + align (layout.aligned + app.length) =
          BitVec.ofNat 32 (start + alignUp (start + app.data.length)) := by
        rw [hstart, Application.length, ← BitVec.ofNat_add, align_ofNat, ← BitVec.ofNat_add]
      obtain ⟨halignedOffsets, hkeeps, hoffsets⟩ := ih h hnext
      dsimp only at halignedOffsets hkeeps
      refine ⟨?_, fun object hobject => ?_, fun hnodup => ?_⟩
      · rw [halignedOffsets, hstart, lengths_cons, startsFrom_cons, List.map_cons,
          List.append_assoc, List.singleton_append]
      · rw [List.map_cons, List.mem_cons, not_or] at hobject
        rw [hkeeps object hobject.2, Function.update_of_ne hobject.1]
      rw [List.map_cons, List.nodup_cons] at hnodup
      rw [List.map_cons, hoffsets hnodup.2, hkeeps _ hnodup.1, Function.update_self, hstart]
      rfl
    · cases h

/-- The file holds the applications at the positions, from a position on, and the builder has
filled up to each of them. -/
inductive Packed (offsets : ℕ → BitVec 32) (file : List (BitVec 8)) :
    ℕ → List Application → List ℕ → Prop
  | nil {stop : ℕ} (inside : stop + 128 ≤ file.length) : Packed offsets file stop [] []
  | cons {stop : ℕ} {app : Application} {apps : List Application} {positions : List ℕ}
      (filled : (offsets app.object - BitVec.ofNat 32 stop).msb = false)
      (bytes : app.data <+:
        file.drop (stop + (offsets app.object - BitVec.ofNat 32 stop).toNat))
      (rest : Packed offsets file
        (stop + (offsets app.object - BitVec.ofNat 32 stop).toNat + app.data.length) apps
        positions) :
      Packed offsets file stop (app :: apps)
        ((stop + (offsets app.object - BitVec.ofNat 32 stop).toNat) :: positions)

theorem writeApps_ok {offsets : ℕ → BitVec 32} {file written : List (BitVec 8)}
    {positions : List ℕ} (h : writeApps offsets file apps = .ok (written, positions)) :
    (∃ tail, written = file ++ tail) ∧
      Packed offsets (written ++ List.replicate 128 0) file.length apps positions := by
  induction apps generalizing file positions with
  | nil =>
    cases h
    exact ⟨⟨[], (List.append_nil _).symm⟩, .nil (by simp)⟩
  | cons app apps ih =>
    rw [writeApps] at h
    dsimp only at h
    split at h
    · cases h
    next hfill =>
      have hfill := Bool.eq_false_of_not_eq_true hfill
      generalize hfiled : file ++ List.replicate (offsets app.object - length file).toNat 0 =
        filled at h
      have hlength : filled.length =
          file.length + (offsets app.object - BitVec.ofNat 32 file.length).toNat := by
        rw [← hfiled, List.length_append, List.length_replicate]
        rfl
      cases hrest : writeApps offsets (filled ++ app.data) apps with
      | error e =>
        rw [hrest] at h
        cases h
      | ok result =>
        obtain ⟨w, rest⟩ := result
        rw [hrest] at h
        cases h
        obtain ⟨⟨tail, rfl⟩, packed⟩ := ih hrest
        refine ⟨⟨_, by rw [← hfiled, List.append_assoc, List.append_assoc]⟩, ?_⟩
        rw [hlength]
        refine .cons hfill ?_ ?_
        · rw [← hlength, List.append_assoc, List.append_assoc, List.drop_left]
          exact List.prefix_append _ _
        · rwa [← hlength, ← List.length_append]

theorem writeApps_cons {offsets : ℕ → BitVec 32} {file written : List (BitVec 8)}
    {app : Application} {apps : List Application} {positions : List ℕ} {n : ℕ}
    (hfill : offsets app.object - length file = BitVec.ofNat 32 n) (hlt : n < 2 ^ 31)
    (hrest : writeApps offsets (file ++ List.replicate n 0 ++ app.data) apps =
      .ok (written, positions)) :
    writeApps offsets file (app :: apps) = .ok (written, (file.length + n) :: positions) := by
  have hmod : (BitVec.ofNat 32 n).toNat = n := by
    rw [BitVec.toNat_ofNat, Nat.mod_eq_of_lt (by omega)]
  have hmsb : (BitVec.ofNat 32 n).msb = false := by
    rw [BitVec.msb_eq_decide, hmod]
    simpa using hlt
  rw [writeApps, hfill, hmsb, hmod]
  dsimp only
  rw [if_neg Bool.false_ne_true, hrest, List.length_append, List.length_replicate]
  rfl

section Packed

variable {offsets : ℕ → BitVec 32} {file : List (BitVec 8)} {stop : ℕ} {positions : List ℕ}

section

variable (packed : Packed offsets file stop apps positions)
include packed

theorem Packed.map_ofNat : positions.map (BitVec.ofNat 32) = apps.map (offsets ·.object) := by
  induction packed with
  | nil => rfl
  | cons filled bytes rest ih =>
    rw [List.map_cons, List.map_cons, ih, BitVec.ofNat_add, BitVec.ofNat_toNat, BitVec.setWidth_eq,
      add_sub_cancel]

theorem Packed.bounds :
    stop + 128 ≤ file.length ∧ ∀ pos ∈ positions, stop ≤ pos ∧ pos + 128 ≤ file.length := by
  induction packed with
  | nil inside => exact ⟨inside, by simp⟩
  | cons filled bytes rest ih =>
    obtain ⟨hstop, hrest⟩ := ih
    refine ⟨by omega, fun pos hpos => ?_⟩
    rcases List.mem_cons.mp hpos with rfl | hpos
    · omega
    have := hrest pos hpos
    omega

theorem Packed.end_le : ∀ x ∈ apps.zip positions, x.2 + x.1.data.length + 128 ≤ file.length := by
  induction packed with
  | nil => simp
  | cons filled bytes rest ih =>
    intro x hx
    rcases List.mem_cons.mp hx with rfl | hx
    · exact rest.bounds.1
    · exact ih x hx

theorem Packed.holdsBytes {mem : Ram} {base : BitVec 32} (loaded : HoldsBytes mem base file) :
    List.Forall₂ (fun app pos => HoldsBytes mem (base + BitVec.ofNat 32 pos) app.data)
      apps positions := by
  induction packed with
  | nil => exact .nil
  | @cons stop app apps positions filled bytes rest ih =>
    refine .cons ?_ ih
    generalize stop + (offsets app.object - BitVec.ofNat 32 stop).toNat = pos at bytes rest
    obtain ⟨behind, hbehind⟩ := bytes
    have hpos : (file.take pos).length = pos := by
      have := rest.bounds.1
      rw [List.length_take]
      omega
    rw [← List.take_append_drop pos file, ← hbehind, holdsBytes_append, hpos] at loaded
    exact (holdsBytes_append.mp loaded.2).1

end

theorem ofNat_sub_ofNat {m k : ℕ} (h : k ≤ m) :
    BitVec.ofNat 32 m - BitVec.ofNat 32 k = BitVec.ofNat 32 (m - k) := by
  rw [sub_eq_iff_eq_add, ← BitVec.ofNat_add, Nat.sub_add_cancel h]

/-- Filling up to a position that is at most `2 ^ 31` before the end of the file, as long as that is
not exceeded, is possible only if it is not before the end. -/
theorem add_fill_eq {start : ℕ} (hnear : stop ≤ start + 2 ^ 31) (hfar : start < stop + 2 ^ 32)
    (hfill : (BitVec.ofNat 32 start - BitVec.ofNat 32 stop).msb = false) :
    stop + (BitVec.ofNat 32 start - BitVec.ofNat 32 stop).toNat = start := by
  rw [BitVec.msb_eq_decide, decide_eq_false_iff_not, BitVec.toNat_sub, BitVec.toNat_ofNat,
    BitVec.toNat_ofNat] at hfill
  rw [BitVec.toNat_sub, BitVec.toNat_ofNat, BitVec.toNat_ofNat]
  omega

/-- If the exact positions are Java integers and nothing has been written behind the first one, the
applications are written there. -/
theorem exists_writeApps {start : ℕ} (room : file.length ≤ start)
    (hoffsets : apps.map (offsets ·.object) =
      (startsFrom start (lengths apps)).map (BitVec.ofNat 32))
    (inRange : nextStart start (lengths apps) < 2 ^ 31) :
    ∃ written, writeApps offsets file apps = .ok (written, startsFrom start (lengths apps)) ∧
      written.length ≤ nextStart start (lengths apps) := by
  induction apps generalizing file start with
  | nil => exact ⟨file, rfl, room⟩
  | cons app apps ih =>
    rw [List.map_cons, lengths_cons, startsFrom_cons, List.map_cons, List.cons.injEq] at hoffsets
    rw [lengths_cons, nextStart] at inRange ⊢
    have hbound := (startsFrom_bounds (start + alignUp (start + app.data.length)) (lengths apps)).1
    have halign := le_alignUp (start + app.data.length)
    have hroom : (file ++ List.replicate (start - file.length) 0 ++ app.data).length ≤
        start + alignUp (start + app.data.length) := by
      simp only [List.length_append, List.length_replicate]
      omega
    have hfill : offsets app.object - length file = BitVec.ofNat 32 (start - file.length) := by
      rw [hoffsets.1, length, ofNat_sub_ofNat room]
    obtain ⟨written, hrest, hlength⟩ := ih hroom hoffsets.2 inRange
    refine ⟨written, ?_, hlength⟩
    rw [writeApps_cons hfill (by omega) hrest, Nat.add_sub_of_le room, startsFrom_cons]

theorem Packed.positions_eq {start : ℕ} (packed : Packed offsets file stop apps positions)
    (hsize : file.length ≤ 2 ^ 32) (hnear : stop ≤ start + 2 ^ 31) (hfar : start < stop + 2 ^ 32)
    (haligned : start % 4096 = 0)
    (hoffsets : apps.map (offsets ·.object) =
      (startsFrom start (lengths apps)).map (BitVec.ofNat 32)) :
    positions = startsFrom start (lengths apps) := by
  induction packed generalizing start with
  | nil => rfl
  | @cons stop app apps positions filled bytes rest ih =>
    rw [List.map_cons, lengths_cons, startsFrom_cons, List.map_cons, List.cons.injEq] at hoffsets
    obtain ⟨hoffset, hoffsets⟩ := hoffsets
    rw [hoffset] at filled rest ih ⊢
    have hstart := add_fill_eq hnear hfar filled
    rw [hstart] at rest ih ⊢
    have hinside := rest.bounds.1
    rw [lengths_cons, startsFrom_cons]
    refine congrArg _ (ih ?_ ?_ ?_ hoffsets)
    · unfold alignUp
      omega
    · unfold alignUp
      omega
    unfold alignUp
    omega

end Packed

/-! ## The file -/

namespace Payload

variable (p : Payload)

/-- No application was added twice. -/
def Distinct : Prop := (p.apps.map Application.object).Nodup

/-- Where the applications begin. -/
def starts : List ℕ :=
  startsFrom (alignUp (p.kernel.data.length + 4 * (p.apps.length + 1))) (lengths p.apps)

/-- What is known of a file that has been built. -/
structure Built (file : List (BitVec 8)) (positions : List ℕ) : Prop where
  /-- The kernel, a word, the offsets of the positions, and a zero. -/
  shape : ∃ endOfApps tail, file = p.kernel.data ++ (wordBytes endOfApps ++
    ((positions.map fun pos => BitVec.ofNat 32 pos - length p.kernel.data).flatMap wordBytes ++
      (wordBytes 0 ++ tail)))
  packed : ∃ offsets, Packed offsets file (p.kernel.data.length + 4 * (p.apps.length + 2))
      p.apps positions ∧
    p.apps.map (offsets ·.object) = p.starts.map (BitVec.ofNat 32)

variable {p} {file : List (BitVec 8)} {positions : List ℕ}

theorem layout_ok (h : p.layout = .ok layout) :
    layout.alignedOffsets = p.starts.map (BitVec.ofNat 32 · - length p.kernel.data) ∧
      (p.Distinct → p.apps.map (layout.offsets ·.object) = p.starts.map (BitVec.ofNat 32)) := by
  have hfirst : align (length p.kernel.data + 4 * (BitVec.ofNat 32 p.apps.length + 1)) =
      BitVec.ofNat 32 (alignUp (p.kernel.data.length + 4 * (p.apps.length + 1))) := by
    rw [← align_ofNat, BitVec.ofNat_add, BitVec.ofNat_mul, BitVec.ofNat_add]
    rfl
  obtain ⟨halignedOffsets, -, hoffsets⟩ := placeApps_ok h hfirst
  exact ⟨halignedOffsets, hoffsets⟩

theorem length_startsFrom (start : ℕ) (lengths : List ℕ) :
    (startsFrom start lengths).length = lengths.length := by
  induction lengths generalizing start with
  | nil => rfl
  | cons length lengths ih => rw [startsFrom_cons, List.length_cons, ih, List.length_cons]

theorem length_starts : p.starts.length = p.apps.length := by
  rw [starts, length_startsFrom, lengths, List.length_map]

theorem length_intToByteArray (value : BitVec 32) (endian : Endian) :
    (intToByteArray value endian).length = 4 := by
  cases endian <;> rfl

theorem length_table (h : p.layout = .ok layout) : (p.kernel.data ++ p.table layout).length =
    p.kernel.data.length + 4 * (p.apps.length + 2) := by
  have hcount : layout.alignedOffsets.length = p.apps.length := by
    rw [(layout_ok h).1, List.length_map, length_starts]
  simp [table, length_intToByteArray, hcount]
  omega

theorem built (small : p.endian = .small) (distinct : p.Distinct)
    (h : p.writeToDisk = .ok (file, positions)) : p.Built file positions := by
  rw [writeToDisk] at h
  split at h
  · cases hlayout : p.layout with
    | error e =>
      rw [hlayout] at h
      cases h
    | ok layout =>
      obtain ⟨halignedOffsets, hoffsets⟩ := layout_ok hlayout
      have hoffsets := hoffsets distinct
      rw [hlayout] at h
      change (writeApps layout.offsets (p.kernel.data ++ p.table layout) p.apps >>= _) = _ at h
      cases hwritten : writeApps layout.offsets (p.kernel.data ++ p.table layout) p.apps with
      | error e =>
        rw [hwritten] at h
        cases h
      | ok result =>
        obtain ⟨written, positions'⟩ := result
        rw [hwritten] at h
        obtain ⟨rfl, rfl⟩ := Prod.mk.inj (Except.ok.inj h)
        obtain ⟨⟨tail, rfl⟩, packed⟩ := writeApps_ok hwritten
        have htable : p.table layout =
            wordBytes (layout.aligned - length p.kernel.data) ++
              ((positions'.map fun pos =>
                BitVec.ofNat 32 pos - length p.kernel.data).flatMap wordBytes ++
                wordBytes 0) := by
          have hwords : layout.alignedOffsets =
              positions'.map fun pos => BitVec.ofNat 32 pos - length p.kernel.data := by
            have hmap := congrArg (List.map (· - length p.kernel.data))
              (packed.map_ofNat.trans hoffsets)
            rw [List.map_map, List.map_map] at hmap
            exact halignedOffsets.trans hmap.symm
          rw [table, hwords, small, List.append_assoc]
          rfl
        refine ⟨⟨layout.aligned - length p.kernel.data, tail ++ List.replicate 128 0, ?_⟩,
          layout.offsets, ?_, hoffsets⟩
        · rw [htable]
          simp only [List.append_assoc]
        · rwa [← length_table hlayout]
  · cases h

theorem writeToDisk_eq {written : List (BitVec 8)} (valid : p.kernel.valid = true)
    (hlayout : p.layout = .ok layout)
    (happs : writeApps layout.offsets (p.kernel.data ++ p.table layout) p.apps =
      .ok (written, positions)) :
    p.writeToDisk = .ok (written ++ List.replicate 128 0, positions) := by
  rw [writeToDisk, if_pos valid, hlayout]
  change (writeApps layout.offsets (p.kernel.data ++ p.table layout) p.apps >>= _) = _
  rw [happs]
  rfl

theorem Built.positions_eq_starts (h : p.Built file positions) (hsize : file.length ≤ 2 ^ 32) :
    positions = p.starts := by
  obtain ⟨offsets, packed, hoffsets⟩ := h.packed
  refine packed.positions_eq hsize ?_ ?_ ?_ hoffsets
  · unfold alignUp
    omega
  · unfold alignUp
    omega
  unfold alignUp
  omega

/-- No `validate` throws. -/
structure Valid (p : Payload) : Prop where
  kernel : p.kernel.valid = true
  apps : ∀ app ∈ p.apps, app.valid = true

/-- Where the first application is to begin. -/
def firstStart (p : Payload) : ℕ := alignUp (p.kernel.data.length + 4 * (p.apps.length + 1))

/-- Where the table ends. -/
def tableEnd (p : Payload) : ℕ := p.kernel.data.length + 4 * (p.apps.length + 2)

theorem Valid.exists_layout (valid : p.Valid) : ∃ layout, p.layout = .ok layout :=
  exists_placeApps valid.apps _

/-- Valid, different applications are written to their starts, if those are Java integers and the
first one is behind the table. -/
theorem exists_writeToDisk (valid : p.Valid) (distinct : p.Distinct)
    (inRange : nextStart p.firstStart (lengths p.apps) < 2 ^ 31)
    (room : p.apps = [] ∨ p.tableEnd ≤ p.firstStart) :
    ∃ file, p.writeToDisk = .ok (file, p.starts) ∧
      file.length ≤ max p.tableEnd (nextStart p.firstStart (lengths p.apps)) + 128 := by
  obtain ⟨layout, hlayout⟩ := valid.exists_layout
  have hlength := length_table hlayout
  rw [← tableEnd] at hlength
  obtain ⟨written, hwritten, hle⟩ :
      ∃ written, writeApps layout.offsets (p.kernel.data ++ p.table layout) p.apps =
          .ok (written, p.starts) ∧
        written.length ≤ max p.tableEnd (nextStart p.firstStart (lengths p.apps)) := by
    rcases room with hnil | room
    · rw [starts, hnil]
      exact ⟨_, rfl, by rw [hlength]; exact Nat.le_max_left _ _⟩
    · obtain ⟨written, hwritten, hle⟩ := exists_writeApps (by rwa [hlength])
        ((layout_ok hlayout).2 distinct) inRange
      exact ⟨written, hwritten, hle.trans (Nat.le_max_right _ _)⟩
  refine ⟨_, writeToDisk_eq valid.kernel hlayout hwritten, ?_⟩
  rw [List.length_append, List.length_replicate]
  omega

end Payload

end Tinker.Image
