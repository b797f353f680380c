import Mathlib.Tactic
import Tinker.Lib.Exec

/-!
# Byte buffers

A buffer is a block of memory that a program may read and write byte by byte. An access
that leaves the block does not return. Words of 32 bits are stored as four bytes, the
lowest one first.

## Main results

* `Buffer.read_write` — a block of bytes reads back as it was written
* `Buffer.read_write_of_disjoint` — a write elsewhere does not change what is read
* `decode32_encode32` — a word survives being stored
-/

namespace Tinker.Lib

structure Buffer where
  base : ℕ
  size : ℕ
  bytes : ℕ → UInt8

namespace Buffer

/-- The `n` bytes from an address on all belong to the buffer. -/
def Within (b : Buffer) (addr n : ℕ) : Prop := b.base ≤ addr ∧ addr + n ≤ b.base + b.size

deriving instance Decidable for Buffer.Within

def read (b : Buffer) (addr n : ℕ) : Exec (List UInt8) :=
  if b.Within addr n then .ok ((List.range n).map fun i => b.bytes (addr + i))
  else .error .badPointer

def write (b : Buffer) (addr : ℕ) (data : List UInt8) : Exec Buffer :=
  if b.Within addr data.length then
    .ok { b with
      bytes := fun a => if addr ≤ a then (data[a - addr]?).getD (b.bytes a) else b.bytes a }
  else .error .badPointer

variable {b b' : Buffer} {addr addr' n : ℕ} {data : List UInt8}

theorem exists_write (within : b.Within addr data.length) : ∃ b', b.write addr data = .ok b' :=
  ⟨_, if_pos within⟩

section

variable (h : b.write addr data = .ok b')
include h

theorem within_of_write : b.Within addr data.length := by
  by_contra hout
  simp [write, hout] at h

theorem write_block : b'.base = b.base ∧ b'.size = b.size := by
  unfold write at h
  split at h
  · cases h
    exact ⟨rfl, rfl⟩
  · cases h

theorem within_write (addr' n : ℕ) : b'.Within addr' n ↔ b.Within addr' n := by
  obtain ⟨hbase, hsize⟩ := write_block h
  rw [Within, Within, hbase, hsize]

theorem read_write : b'.read addr data.length = .ok data := by
  have hwithin := within_of_write h
  rw [read, if_pos ((within_write h _ _).mpr hwithin)]
  simp only [write, hwithin, if_true] at h
  cases h
  congr 1
  apply List.ext_getElem
  · simp
  intro i hi hi'
  simp [hi']

theorem read_write_of_disjoint (apart : addr' + n ≤ addr ∨ addr + data.length ≤ addr') :
    b'.read addr' n = b.read addr' n := by
  have hwithin := within_write h addr' n
  unfold read
  by_cases hin : b.Within addr' n
  · rw [if_pos hin, if_pos (hwithin.mpr hin)]
    unfold write at h
    split at h
    · cases h
      congr 1
      refine List.map_congr_left fun i hi => ?_
      have hlt : i < n := List.mem_range.mp hi
      dsimp only
      split
      next hle =>
        have hout : data.length ≤ addr' + i - addr := by omega
        rw [List.getElem?_eq_none hout, Option.getD_none]
      · rfl
    · cases h
  · rw [if_neg hin, if_neg fun hin' => hin (hwithin.mp hin')]

end

end Buffer

/-! ## Words -/

def encode32 (n : ℕ) : List UInt8 :=
  [UInt8.ofNat n, UInt8.ofNat (n / 256), UInt8.ofNat (n / 65536), UInt8.ofNat (n / 16777216)]

def decode32 (data : List UInt8) : ℕ :=
  data.foldr (fun byte n => byte.toNat + 256 * n) 0

@[simp] theorem length_encode32 (n : ℕ) : (encode32 n).length = 4 := rfl

theorem decode32_encode32 {n : ℕ} (h : n < 2 ^ 32) : decode32 (encode32 n) = n := by
  simp only [encode32, decode32, List.foldr_cons, List.foldr_nil, UInt8.toNat_ofNat']
  omega

end Tinker.Lib
