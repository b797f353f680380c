import Mathlib.Data.List.Nodup
import Mathlib.Logic.Function.Basic

/-!
# Two-sided adjacency lists

A directed graph can be kept as two families of lists: for each node the nodes its edges
lead to, and the nodes they come from. The two are paired if they list the same edges, each
once. This file says what becomes of that when one list, or one of each, is edited.

## Main results

* `Paired.link` — an edge entered on both sides
* `Paired.not_link_out` — an edge entered on one side only
* `Paired.clear_iff` — a node that is dropped without its edges
-/

namespace Tinker.Lib

open Function

variable {ν : Type} [DecidableEq ν]

/-- The lists of outgoing and incoming edges agree, and have no repetitions. -/
structure Paired (out inn : ν → List ν) : Prop where
  symm : ∀ p r, r ∈ out p ↔ p ∈ inn r
  out_nodup : ∀ p, (out p).Nodup
  inn_nodup : ∀ r, (inn r).Nodup

def enter (f : ν → List ν) (p r : ν) : ν → List ν := update f p (f p ++ [r])

variable {out inn : ν → List ν} {p q r : ν}

theorem mem_enter {f : ν → List ν} {a b : ν} : b ∈ enter f p r a ↔ b ∈ f a ∨ (a = p ∧ b = r) := by
  unfold enter
  by_cases ha : a = p
  · subst ha
    simp
  · simp [ha]

theorem nodup_enter {f : ν → List ν} (nodup : ∀ a, (f a).Nodup) (new : r ∉ f p) (a : ν) :
    (enter f p r a).Nodup := by
  unfold enter
  by_cases ha : a = p
  · subst ha
    rw [update_self]
    refine List.Nodup.append (nodup a) (List.nodup_singleton r) ?_
    simpa using new
  rw [update_of_ne ha]
  exact nodup a

theorem enter_comm (f : ν → List ν) {a b c d : ν} (h : a ≠ c) :
    enter (enter f a b) c d = enter (enter f c d) a b := by
  funext x
  by_cases ha : x = a
  · subst ha
    simp [enter, h]
  by_cases hc : x = c
  · subst hc
    simp [enter, ha]
  · simp [enter, ha, hc]

namespace Paired

theorem link (h : Paired out inn) (new : r ∉ out p) : Paired (enter out p r) (enter inn r p) where
  symm a b := by
    rw [mem_enter, mem_enter, h.symm a b]
    exact or_congr_right and_comm
  out_nodup := nodup_enter h.out_nodup new
  inn_nodup := nodup_enter h.inn_nodup fun hmem => new ((h.symm p r).mpr hmem)

theorem not_link_out (h : Paired out inn) (new : r ∉ out p) : ¬ Paired (enter out p r) inn := by
  intro h'
  exact new ((h.symm p r).mpr ((h'.symm p r).mp (mem_enter.mpr (.inr ⟨rfl, rfl⟩))))

theorem clear_iff (h : Paired out inn) (loopless : p ∉ out p) :
    Paired (update out p []) (update inn p []) ↔ out p = [] ∧ inn p = [] := by
  constructor
  · -- an edge of the node stays behind in the list of its other end
    intro h'
    refine ⟨List.eq_nil_iff_forall_not_mem.mpr fun r hr => ?_,
      List.eq_nil_iff_forall_not_mem.mpr fun q hq => ?_⟩
    · have hne : r ≠ p := fun e => loopless (e ▸ hr)
      have hin : p ∈ update inn p [] r := by
        rw [update_of_ne hne]
        exact (h.symm p r).mp hr
      have hout := (h'.symm p r).mpr hin
      simp at hout
    have hne : q ≠ p := fun e => loopless ((h.symm p p).mpr (e ▸ hq))
    have hout : p ∈ update out p [] q := by
      rw [update_of_ne hne]
      exact (h.symm q p).mpr hq
    have hin := (h'.symm q p).mp hout
    simp at hin
  rintro ⟨hout, hinn⟩
  have hout' : update out p [] = out := by rw [← hout, update_eq_self]
  have hinn' : update inn p [] = inn := by rw [← hinn, update_eq_self]
  rwa [hout', hinn']

end Paired

end Tinker.Lib
