import Mathlib.Data.Fintype.Card
import Mathlib.Data.List.FinRange

/-!
# Slots in use

A finite array of slots, each of which is free or holds something: the number of those in use,
where filling a free slot adds one and clearing a used one takes one away, and the search for
the first slot with a property.

## Main results

* `usedCount_fill`, `usedCount_clear` — how the number changes with one slot
* `usedCount_le` — there are at most as many as there are slots
* `find?_finRange_eq_some` — a search in order finds the first slot
-/

namespace Tinker.Lib

variable {ι β : Type} [Fintype ι] {slot slot' : ι → Option β} {p : ι}

def usedCount (slot : ι → Option β) : ℕ := (Finset.univ.filter fun p => (slot p).isSome).card

theorem usedCount_le (slot : ι → Option β) : usedCount slot ≤ Fintype.card ι :=
  Finset.card_le_univ _

theorem usedCount_eq_zero (free : ∀ p, slot p = none) : usedCount slot = 0 := by
  simp [usedCount, free]

theorem usedCount_congr (same : ∀ p, (slot' p).isSome = (slot p).isSome) :
    usedCount slot' = usedCount slot := by
  simp [usedCount, same]

theorem usedCount_fill (free : slot p = none) (filled : (slot' p).isSome)
    (others : ∀ q, q ≠ p → slot' q = slot q) : usedCount slot' = usedCount slot + 1 := by
  classical
  have hnew : p ∉ Finset.univ.filter fun q => (slot q).isSome := by simp [free]
  have hset : (Finset.univ.filter fun q => (slot' q).isSome) =
      insert p (Finset.univ.filter fun q => (slot q).isSome) := by
    ext q
    by_cases hq : q = p
    · simp [hq, filled]
    · simp [hq, others q hq]
  rw [usedCount, hset, Finset.card_insert_of_notMem hnew]
  rfl

theorem usedCount_clear (used : (slot p).isSome) (cleared : slot' p = none)
    (others : ∀ q, q ≠ p → slot' q = slot q) : usedCount slot' = usedCount slot - 1 := by
  have hfill := usedCount_fill cleared used fun q hq => (others q hq).symm
  omega

/-! ## The first slot with a property -/

variable {n : ℕ} {found : Fin n → Bool} {i : Fin n}

theorem find?_finRange_eq_some (h : (List.finRange n).find? found = some i) :
    found i = true ∧ ∀ j, j < i → found j = false := by
  obtain ⟨hfound, k, hk, hget, hbefore⟩ := List.find?_eq_some_iff_getElem.mp h
  have hki : i.val = k := by rw [← hget]; simp
  refine ⟨hfound, fun j hj => ?_⟩
  have hjk : j.val < k := hki ▸ hj
  simpa using hbefore j.val hjk

theorem find?_finRange_eq_none (h : (List.finRange n).find? found = none) (j : Fin n) :
    found j = false :=
  Bool.eq_false_iff.mpr (List.find?_eq_none.mp h j (List.mem_finRange j))

end Tinker.Lib
