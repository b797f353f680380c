import Mathlib.Algebra.BigOperators.Fin
import Tinker.Image.PoolStart

/-!
# When the builder can pack an image

`writeToDisk` computes where the applications begin from a table that has one word less than the
one it writes. If that word makes the difference, the first application would begin inside the
table, and the builder gives up. And it counts the distance to the next application from the
beginning of the file, so that the positions double and soon are no Java integers.

Whether an operation of the builder overflows is asked of its operands, as `Math.addExact` would.
-/

namespace Tinker.Image

open Tinker.Lib

/-! ## Overflow -/

/-- No operation of `align` overflows. -/
def AlignExact (value : BitVec 32) : Prop :=
  let up := value.sdiv 4096#32 * 4096#32
  (value.sdiv 4096#32).smulOverflow 4096#32 = false ∧
    (value.sle up = false → up.saddOverflow 4096#32 = false)

/-- No operation of the loop that places the applications overflows. -/
def PlacesExact (kernelLength : BitVec 32) : BitVec 32 → List Application → Prop
  | _, [] => True
  | aligned, app :: apps =>
    aligned.ssubOverflow kernelLength = false ∧ aligned.saddOverflow app.length = false ∧
      AlignExact (aligned + app.length) ∧
      aligned.saddOverflow (align (aligned + app.length)) = false ∧
      PlacesExact kernelLength (aligned + align (aligned + app.length)) apps

/-- No operation of the loop that writes the applications overflows, and the length of the file is
a Java integer. A negative padding ends the loop. -/
def FillsExact (offsets : ℕ → BitVec 32) : List (BitVec 8) → List Application → Prop
  | _, [] => True
  | file, app :: apps =>
    let fill := offsets app.object - length file
    file.length < 2 ^ 31 ∧ (offsets app.object).ssubOverflow (length file) = false ∧
      (fill.msb = false →
        FillsExact offsets (file ++ List.replicate fill.toNat 0 ++ app.data) apps)

section

variable {m n : ℕ} (hm : m < 2 ^ 31) (hn : n < 2 ^ 31)

theorem toInt_ofNat_of_lt {n : ℕ} (hn : n < 2 ^ 31) : (BitVec.ofNat 32 n).toInt = n := by
  rw [BitVec.toInt_eq_toNat_cond, BitVec.toNat_ofNat]
  split <;> omega

include hm hn

theorem saddOverflow_ofNat :
    (BitVec.ofNat 32 m).saddOverflow (BitVec.ofNat 32 n) = false ↔ m + n < 2 ^ 31 := by
  simp only [BitVec.saddOverflow, toInt_ofNat_of_lt hm, toInt_ofNat_of_lt hn, Bool.or_eq_false_iff,
    decide_eq_false_iff_not]
  omega

theorem ssubOverflow_ofNat :
    (BitVec.ofNat 32 m).ssubOverflow (BitVec.ofNat 32 n) = false := by
  simp only [BitVec.ssubOverflow, toInt_ofNat_of_lt hm, toInt_ofNat_of_lt hn, Bool.or_eq_false_iff,
    decide_eq_false_iff_not]
  omega

theorem smulOverflow_ofNat :
    (BitVec.ofNat 32 m).smulOverflow (BitVec.ofNat 32 n) = false ↔ m * n < 2 ^ 31 := by
  have hcast : (m : ℤ) * n = (m * n : ℕ) := (Nat.cast_mul m n).symm
  simp only [BitVec.smulOverflow, toInt_ofNat_of_lt hm, toInt_ofNat_of_lt hn, hcast,
    Bool.or_eq_false_iff, decide_eq_false_iff_not]
  omega

end

theorem sdiv_ofNat {n : ℕ} (hn : n < 2 ^ 31) :
    (BitVec.ofNat 32 n).sdiv 4096#32 = BitVec.ofNat 32 (n / 4096) := by
  have h4096 : (4096#32).toNat = 4096 := rfl
  have hmsb : (BitVec.ofNat 32 n).msb = false := by
    rw [BitVec.msb_eq_decide, BitVec.toNat_ofNat, decide_eq_false_iff_not]
    omega
  have hsdiv : (BitVec.ofNat 32 n).sdiv 4096#32 = BitVec.ofNat 32 n / 4096#32 := by
    rw [BitVec.sdiv_eq, hmsb]
    rfl
  apply BitVec.eq_of_toNat_eq
  rw [hsdiv, BitVec.toNat_udiv, h4096, BitVec.toNat_ofNat, BitVec.toNat_ofNat,
    Nat.mod_eq_of_lt (hn.trans (by decide)), Nat.mod_eq_of_lt (by omega)]

theorem alignExact_ofNat {n : ℕ} (hn : n < 2 ^ 31) :
    AlignExact (BitVec.ofNat 32 n) ↔ alignUp n < 2 ^ 31 := by
  have hwhole := sdiv_ofNat hn
  have hup : BitVec.ofNat 32 (n / 4096) * 4096#32 = BitVec.ofNat 32 (n / 4096 * 4096) :=
    (BitVec.ofNat_mul ..).symm
  have hle : (BitVec.ofNat 32 n).sle (BitVec.ofNat 32 (n / 4096 * 4096)) = false ↔
      n % 4096 ≠ 0 := by
    rw [BitVec.sle_eq_decide, decide_eq_false_iff_not, toInt_ofNat_of_lt hn,
      toInt_ofNat_of_lt (by omega)]
    omega
  have hmul := (smulOverflow_ofNat (m := n / 4096) (n := 4096) (by omega) (by decide)).mpr
    (by omega)
  simp only [AlignExact, hwhole, hup, hle, hmul, true_and]
  rw [saddOverflow_ofNat (n := 4096) (by omega) (by decide), alignUp]
  omega

/-! ## The two loops -/

theorem alignUp_add {start : ℕ} (hstart : start % 4096 = 0) (n : ℕ) :
    alignUp (start + n) = start + alignUp n := by
  unfold alignUp
  omega

theorem alignUp_mod (n : ℕ) : alignUp n % 4096 = 0 := Nat.mul_mod_left _ _

/-- The position doubles with each application. -/
theorem nextStart_eq_sum {start : ℕ} (hstart : start % 4096 = 0) (apps : List Application) :
    nextStart start (lengths apps) = 2 ^ apps.length * start +
      ∑ i : Fin apps.length, 2 ^ (apps.length - 1 - i) * alignUp apps[i].data.length := by
  induction apps generalizing start with
  | nil => simp [nextStart]
  | cons app apps ih =>
    have hnext : (start + alignUp (start + app.data.length)) % 4096 = 0 := by
      have := alignUp_mod (start + app.data.length)
      omega
    have hsum : ∑ i : Fin (app :: apps).length,
        2 ^ ((app :: apps).length - 1 - i) * alignUp (app :: apps)[i].data.length =
        2 ^ apps.length * alignUp app.data.length +
          ∑ i : Fin apps.length, 2 ^ (apps.length - 1 - i) * alignUp apps[i].data.length := by
      refine (Fin.sum_univ_succ (n := apps.length) _).trans ?_
      congr 1
      refine Finset.sum_congr rfl fun i _ => ?_
      have hexp : apps.length - (i + 1) = apps.length - 1 - i := by omega
      simp [hexp]
    rw [lengths_cons, nextStart, ih hnext, alignUp_add hstart, hsum, List.length_cons, pow_succ]
    ring

theorem placeApps_aligned {kernelLength : BitVec 32} {apps : List Application}
    {layout layout' : Layout} {start : ℕ} (h : placeApps kernelLength layout apps = .ok layout')
    (hstart : layout.aligned = BitVec.ofNat 32 start) :
    layout'.aligned = BitVec.ofNat 32 (nextStart start (lengths apps)) := by
  induction apps generalizing layout start with
  | nil =>
    cases h
    exact hstart
  | cons app apps ih =>
    rw [placeApps] at h
    split at h
    · refine ih h ?_
      rw [hstart, Application.length, ← BitVec.ofNat_add, align_ofNat, ← BitVec.ofNat_add]
    · cases h

/-- The loop overflows if and only if the last position is no Java integer. -/
theorem placesExact_iff {kernelLength start : ℕ} (hkernel : kernelLength < 2 ^ 31)
    (hstart : start < 2 ^ 31) (apps : List Application) :
    PlacesExact (BitVec.ofNat 32 kernelLength) (BitVec.ofNat 32 start) apps ↔
      nextStart start (lengths apps) < 2 ^ 31 := by
  induction apps generalizing start with
  | nil => exact iff_of_true trivial hstart
  | cons app apps ih =>
    have hbehind := le_alignUp (start + app.data.length)
    have hbound := (startsFrom_bounds (start + alignUp (start + app.data.length)) (lengths apps)).1
    rw [PlacesExact, Application.length, lengths_cons, nextStart,
      and_iff_right (ssubOverflow_ofNat hstart hkernel), saddOverflow_ofNat hstart app.length_lt]
    simp only [← BitVec.ofNat_add, align_ofNat]
    constructor
    · rintro ⟨hadd, halign, hnext, hrest⟩
      have halign := (alignExact_ofNat hadd).mp halign
      exact (ih ((saddOverflow_ofNat hstart halign).mp hnext)).mp hrest
    · intro hlast
      have hadd : start + app.data.length < 2 ^ 31 := by omega
      have halign : alignUp (start + app.data.length) < 2 ^ 31 := by omega
      have hnext : start + alignUp (start + app.data.length) < 2 ^ 31 := by omega
      exact ⟨hadd, (alignExact_ofNat hadd).mpr halign,
        (saddOverflow_ofNat hstart halign).mpr hnext, (ih hnext).mpr hlast⟩

/-- No padding overflows as long as nothing has been written where an application begins. -/
theorem fillsExact_of_lt {offsets : ℕ → BitVec 32} {apps : List Application}
    {file : List (BitVec 8)} {start : ℕ} (room : file.length ≤ start)
    (hoffsets : apps.map (offsets ·.object) =
      (startsFrom start (lengths apps)).map (BitVec.ofNat 32))
    (inRange : nextStart start (lengths apps) < 2 ^ 31) : FillsExact offsets file apps := by
  induction apps generalizing file start with
  | nil => trivial
  | cons app apps ih =>
    rw [List.map_cons, lengths_cons, startsFrom_cons, List.map_cons, List.cons.injEq] at hoffsets
    rw [lengths_cons, nextStart] at inRange
    have hbound := (startsFrom_bounds (start + alignUp (start + app.data.length)) (lengths apps)).1
    have halign := le_alignUp (start + app.data.length)
    refine ⟨by omega, ?_, fun _ => ih ?_ hoffsets.2 inRange⟩
    · rw [hoffsets.1]
      exact ssubOverflow_ofNat (by omega) (by omega)
    · rw [hoffsets.1, length, ofNat_sub_ofNat room, BitVec.toNat_ofNat,
        Nat.mod_eq_of_lt (by omega)]
      simp only [List.length_append, List.length_replicate]
      omega

namespace Payload

variable {p : Payload}

/-! ## The whole image -/

/-- The last value of `aligned`, if nothing overflows. -/
def lastAligned (p : Payload) : ℕ :=
  2 ^ p.apps.length * p.firstStart +
    ∑ i : Fin p.apps.length, 2 ^ (p.apps.length - 1 - i) * alignUp p.apps[i].data.length

/-- `afterLengths` of `writeToDisk`. -/
def afterLengths (p : Payload) : BitVec 32 :=
  length p.kernel.data + 4 * (BitVec.ofNat 32 p.apps.length + 1)

/-- No operation of `writeToDisk` overflows. -/
structure NoOverflow (p : Payload) : Prop where
  size : p.apps.length < 2 ^ 31
  words : (BitVec.ofNat 32 p.apps.length).saddOverflow 1#32 = false
  bytes : (4#32).smulOverflow (BitVec.ofNat 32 p.apps.length + 1) = false
  afterLengths : (length p.kernel.data).saddOverflow
    (4 * (BitVec.ofNat 32 p.apps.length + 1)) = false
  first : AlignExact p.afterLengths
  places : PlacesExact (length p.kernel.data) (align p.afterLengths) p.apps
  endOfApps : ∀ layout, p.layout = .ok layout →
    layout.aligned.ssubOverflow (length p.kernel.data) = false
  fills : ∀ layout, p.layout = .ok layout →
    FillsExact layout.offsets (p.kernel.data ++ p.table layout) p.apps

/-- Nothing overflows, a file is written, and the offsets that it records are positive. -/
structure Packs (p : Payload) : Prop where
  noOverflow : p.NoOverflow
  written : ∃ file positions, p.writeToDisk = .ok (file, positions)
  positive : ∀ layout, p.layout = .ok layout → ∀ offset ∈ layout.alignedOffsets, 0 < offset.toInt

theorem nextStart_eq_lastAligned : nextStart p.firstStart (lengths p.apps) = p.lastAligned := by
  have hpage : p.firstStart % 4096 = 0 := alignUp_mod _
  rw [nextStart_eq_sum hpage, lastAligned]

theorem afterLengths_eq :
    p.afterLengths = BitVec.ofNat 32 (p.kernel.data.length + 4 * (p.apps.length + 1)) := by
  rw [afterLengths, BitVec.ofNat_add, BitVec.ofNat_mul, BitVec.ofNat_add]
  rfl

theorem align_afterLengths : align p.afterLengths = BitVec.ofNat 32 p.firstStart := by
  rw [afterLengths_eq, align_ofNat, firstStart]

/-- What the builder computes is the last value of `aligned` on 32 bits. -/
theorem aligned_layout {layout : Layout} (h : p.layout = .ok layout) :
    layout.aligned = BitVec.ofNat 32 p.lastAligned := by
  rw [placeApps_aligned h align_afterLengths, nextStart_eq_lastAligned]

/-- If the first application would begin inside the table, its padding is negative. -/
theorem Valid.writeToDisk_eq_error (valid : p.Valid) (distinct : p.Distinct)
    (happs : p.apps ≠ []) (inside : p.firstStart < p.tableEnd) :
    p.writeToDisk = .error .negativeArraySizeException := by
  obtain ⟨layout, hlayout⟩ := valid.exists_layout
  have hoffsets := (layout_ok hlayout).2 distinct
  have hlength : length (p.kernel.data ++ p.table layout) = BitVec.ofNat 32 p.tableEnd := by
    rw [length, length_table hlayout, tableEnd]
  have hbegin : p.tableEnd ≤ p.firstStart + 4 := by
    have := le_alignUp (p.kernel.data.length + 4 * (p.apps.length + 1))
    unfold tableEnd firstStart
    omega
  rw [writeToDisk, if_pos valid.kernel, hlayout]
  change (writeApps layout.offsets (p.kernel.data ++ p.table layout) p.apps >>= _) = _
  generalize p.kernel.data ++ p.table layout = file at hlength
  obtain ⟨app, apps, hcons⟩ := List.exists_cons_of_ne_nil happs
  have hoffset : layout.offsets app.object = BitVec.ofNat 32 p.firstStart := by
    rw [starts, ← firstStart, hcons] at hoffsets
    exact (List.cons.inj hoffsets).1
  have hmsb : (layout.offsets app.object - length file).msb = true := by
    by_contra hfill
    rw [hoffset, hlength] at hfill
    have := add_fill_eq (by omega) (by omega) (Bool.eq_false_of_not_eq_true hfill)
    omega
  rw [hcons, writeApps]
  simp only [hmsb]
  rfl

/-- The operations in front of the loops overflow if and only if the first position is no Java
integer. -/
theorem firstStart_lt_iff (size : p.apps.length < 2 ^ 31) :
    ((BitVec.ofNat 32 p.apps.length).saddOverflow 1#32 = false ∧
      (4#32).smulOverflow (BitVec.ofNat 32 p.apps.length + 1) = false ∧
      (length p.kernel.data).saddOverflow (4 * (BitVec.ofNat 32 p.apps.length + 1)) = false ∧
      AlignExact p.afterLengths) ↔ p.firstStart < 2 ^ 31 := by
  have hword : BitVec.ofNat 32 p.apps.length + 1 = BitVec.ofNat 32 (p.apps.length + 1) :=
    (BitVec.ofNat_add ..).symm
  have hbyte : 4 * BitVec.ofNat 32 (p.apps.length + 1) =
      BitVec.ofNat 32 (4 * (p.apps.length + 1)) := (BitVec.ofNat_mul ..).symm
  have hbehind := le_alignUp (p.kernel.data.length + 4 * (p.apps.length + 1))
  rw [← firstStart] at hbehind
  rw [saddOverflow_ofNat (n := 1) size (by decide), hword, hbyte, afterLengths_eq, length]
  constructor
  · rintro ⟨hwords, hbytes, hafter, hfirst⟩
    rw [smulOverflow_ofNat (m := 4) (by decide) hwords] at hbytes
    rw [saddOverflow_ofNat p.kernel.length_lt hbytes] at hafter
    exact (alignExact_ofNat hafter).mp hfirst
  · intro hfirst
    have hbytes : 4 * (p.apps.length + 1) < 2 ^ 31 := by omega
    have hafter : p.kernel.data.length + 4 * (p.apps.length + 1) < 2 ^ 31 := by omega
    exact ⟨by omega, (smulOverflow_ofNat (m := 4) (by decide) (by omega)).mpr hbytes,
      (saddOverflow_ofNat p.kernel.length_lt hbytes).mpr hafter,
      (alignExact_ofNat hafter).mpr hfirst⟩

theorem placesExact_iff_lastAligned (hfirst : p.firstStart < 2 ^ 31) :
    PlacesExact (length p.kernel.data) (align p.afterLengths) p.apps ↔
      p.lastAligned < 2 ^ 31 := by
  rw [align_afterLengths, length, placesExact_iff p.kernel.length_lt hfirst,
    nextStart_eq_lastAligned]

theorem firstStart_le_lastAligned : p.firstStart ≤ p.lastAligned := by
  rw [← nextStart_eq_lastAligned]
  exact (startsFrom_bounds _ _).1

theorem NoOverflow.lastAligned_lt (h : p.NoOverflow) : p.lastAligned < 2 ^ 31 := by
  have hfirst := (firstStart_lt_iff h.size).mp ⟨h.words, h.bytes, h.afterLengths, h.first⟩
  exact (placesExact_iff_lastAligned hfirst).mp h.places

/-- If the last position is a Java integer, nothing overflows as long as the padding is not
negative. -/
theorem noOverflow_of_lastAligned_lt (hlast : p.lastAligned < 2 ^ 31)
    (fills : ∀ layout, p.layout = .ok layout →
      FillsExact layout.offsets (p.kernel.data ++ p.table layout) p.apps) : p.NoOverflow := by
  have hfirst := firstStart_le_lastAligned.trans_lt hlast
  have hbehind := le_alignUp (p.kernel.data.length + 4 * (p.apps.length + 1))
  rw [← firstStart] at hbehind
  have size : p.apps.length < 2 ^ 31 := by omega
  obtain ⟨hwords, hbytes, hafter, halign⟩ := (firstStart_lt_iff size).mpr hfirst
  refine ⟨size, hwords, hbytes, hafter, halign, (placesExact_iff_lastAligned hfirst).mpr hlast,
    fun layout hlayout => ?_, fills⟩
  rw [aligned_layout hlayout]
  exact ssubOverflow_ofNat hlast p.kernel.length_lt

/-- The recorded offsets are positive if the last position is a Java integer. -/
theorem offset_pos {layout : Layout} (hlast : p.lastAligned < 2 ^ 31)
    (hlayout : p.layout = .ok layout) : ∀ offset ∈ layout.alignedOffsets, 0 < offset.toInt := by
  intro offset hoffset
  rw [(layout_ok hlayout).1] at hoffset
  obtain ⟨s, hs, rfl⟩ := List.mem_map.mp hoffset
  obtain ⟨hfirst, hle⟩ := (startsFrom_bounds p.firstStart (lengths p.apps)).2 s hs
  have hbehind := le_alignUp (p.kernel.data.length + 4 * (p.apps.length + 1))
  rw [← firstStart] at hbehind
  rw [nextStart_eq_lastAligned] at hle
  rw [length, ofNat_sub_ofNat (by omega), toInt_ofNat_of_lt (by omega)]
  omega

/-- The builder packs valid, different applications if and only if the position behind the last one,
which doubles with each of them, is a Java integer, and there is no application or the first one
begins behind the table. -/
theorem packs_iff (valid : p.Valid) (distinct : p.Distinct) :
    p.Packs ↔
      2 ^ p.apps.length * alignUp (p.kernel.data.length + 4 * (p.apps.length + 1)) +
          ∑ i : Fin p.apps.length, 2 ^ (p.apps.length - 1 - i) * alignUp p.apps[i].data.length <
        2 ^ 31 ∧
      (p.apps = [] ∨ p.kernel.data.length + 4 * (p.apps.length + 2) ≤
        alignUp (p.kernel.data.length + 4 * (p.apps.length + 1))) := by
  rw [← firstStart, ← tableEnd, ← lastAligned]
  constructor
  · rintro ⟨noOverflow, ⟨file, positions, written⟩, -⟩
    refine ⟨noOverflow.lastAligned_lt, or_iff_not_imp_left.mpr fun happs =>
      Nat.le_of_not_lt fun inside => ?_⟩
    rw [valid.writeToDisk_eq_error distinct happs inside] at written
    cases written
  · rintro ⟨inRange, hroom⟩
    have hnext := nextStart_eq_lastAligned.trans_lt inRange
    obtain ⟨file, hwritten, -⟩ := exists_writeToDisk valid distinct hnext hroom
    refine ⟨noOverflow_of_lastAligned_lt inRange fun layout hlayout => ?_,
      ⟨file, _, hwritten⟩, fun _ => offset_pos inRange⟩
    rcases hroom with hnil | hroom
    · rw [hnil]
      trivial
    · refine fillsExact_of_lt ?_ ((layout_ok hlayout).2 distinct) hnext
      rwa [length_table hlayout]

/-- Two applications behind a kernel of one byte. -/
theorem packs_twoApps : twoApps.Packs :=
  (packs_iff valid_twoApps distinct_twoApps).mpr ⟨by decide, .inr (by decide)⟩

/-- With a kernel of 4088 bytes the table for one application ends four bytes behind the page
boundary at which the application is to begin. -/
theorem writeToDisk_4088 : Payload.writeToDisk
    ⟨.small, ⟨0, List.replicate 4088 0, true, by rw [List.length_replicate]; decide⟩,
      [⟨1, [7], true, by decide⟩]⟩ = .error .negativeArraySizeException := by
  refine Valid.writeToDisk_eq_error ⟨rfl, by simp⟩ (by simp [Distinct]) (by simp) ?_
  have hlength : (List.replicate 4088 (0 : BitVec 8)).length = 4088 := List.length_replicate
  simp only [firstStart, tableEnd, hlength]
  decide

end Payload

end Tinker.Image
