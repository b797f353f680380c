import Mathlib.Tactic

/-!
# Ring buffers

A ring of `n` slots with a read and a write position. The items it holds are in the slots
from the read position on, wrapping at the end; how a slot holds an item is a parameter.

## Main results

* `RingHolds.push` — an item written at the write position is the last one
* `RingHolds.pop` — the first item is at the read position
-/

namespace Tinker.Lib

variable {α : Type}

def ringNext (n p : ℕ) : ℕ := if p + 1 = n then 0 else p + 1

theorem ringNext_lt {n p : ℕ} (h : p < n) : ringNext n p < n := by
  unfold ringNext
  split <;> omega

theorem ringNext_eq_mod {n p : ℕ} (h : p < n) : ringNext n p = (p + 1) % n := by
  unfold ringNext
  split
  next hlast => rw [hlast, Nat.mod_self]
  · rw [Nat.mod_eq_of_lt (by omega)]

/-- The ring of `n` slots, read at `r` and written at `w`, holds the items. -/
structure RingHolds (slot : ℕ → α → Prop) (n r w : ℕ) (items : List α) : Prop where
  length_le : items.length ≤ n
  read_lt : r < n
  write_eq : w = (r + items.length) % n
  holds : ∀ i a, items[i]? = some a → slot ((r + i) % n) a

namespace RingHolds

variable {slot slot' : ℕ → α → Prop} {n r w : ℕ} {items : List α} {a : α}

theorem empty (h : 0 < n) : RingHolds slot n 0 0 [] :=
  ⟨by simp, h, by simp [Nat.zero_mod], by simp⟩

theorem write_lt (h : RingHolds slot n r w items) : w < n := by
  rw [h.write_eq]
  exact Nat.mod_lt _ (Nat.zero_lt_of_lt h.read_lt)

theorem offset_ne {n r i j : ℕ} (hi : i < j) (hj : j < n) : (r + i) % n ≠ (r + j) % n := by
  intro heq
  have hdvd : n ∣ j - i := by
    have := (Nat.modEq_iff_dvd' (by omega : r + i ≤ r + j)).mp heq
    rwa [Nat.add_sub_add_left] at this
  have := Nat.le_of_dvd (by omega) hdvd
  omega

theorem push (h : RingHolds slot n r w items) (room : items.length < n)
    (frame : ∀ p b, p < n → p ≠ w → slot p b → slot' p b) (written : slot' w a) :
    RingHolds slot' n r (ringNext n w) (items ++ [a]) := by
  refine ⟨by simp; omega, h.read_lt, ?_, fun i b hb => ?_⟩
  · rw [ringNext_eq_mod h.write_lt, h.write_eq, List.length_append, List.length_singleton,
      ← Nat.add_assoc, Nat.mod_add_mod]
  rcases Nat.lt_trichotomy i items.length with hi | rfl | hi
  · -- an older item: its slot is not the one just written
    rw [List.getElem?_append_left hi] at hb
    refine frame _ b (Nat.mod_lt _ (Nat.zero_lt_of_lt h.read_lt)) ?_ (h.holds i b hb)
    rw [h.write_eq]
    exact offset_ne hi room
  · rw [List.getElem?_append_right le_rfl, Nat.sub_self, List.getElem?_cons_zero] at hb
    cases hb
    rwa [← h.write_eq]
  rw [List.getElem?_eq_none (by simp; omega)] at hb
  cases hb

theorem pop (h : RingHolds slot n r w (a :: items)) :
    slot r a ∧ RingHolds slot n (ringNext n r) w items := by
  have hlen := h.length_le
  rw [List.length_cons] at hlen
  refine ⟨?_, by omega, ringNext_lt h.read_lt, ?_, fun i b hb => ?_⟩
  · have hfirst := h.holds 0 a rfl
    rwa [Nat.add_zero, Nat.mod_eq_of_lt h.read_lt] at hfirst
  · rw [h.write_eq, ringNext_eq_mod h.read_lt, Nat.mod_add_mod, List.length_cons]
    congr 1
    omega
  have hnext := h.holds (i + 1) b (by simpa using hb)
  rw [ringNext_eq_mod h.read_lt, Nat.mod_add_mod]
  rwa [show r + 1 + i = r + (i + 1) by omega]

end RingHolds

end Tinker.Lib
