import Tinker.Collections.HeadToTail

/-!
# Queues and stacks

`unbounded_queue.c` and `stack.c`: a queue and a stack are an unbounded list each, seen
through fewer operations. The top of a stack is the last element of its list.
-/

namespace Tinker.Collections

open Tinker.Lib

variable {α : Type} {l : ListT α}

abbrev queuePush (q : ListT α) (item : α) : Exec (ListT α) := listAdd q item

abbrev queuePop (q : ListT α) : Exec (Bool × ListT α) := listRemove q 0

abbrev queueFront (q : ListT α) : Exec (Option α) := listGet q 0

abbrev queueReorderFirst (q : ListT α) : Exec (Bool × ListT α) := listHeadToTail q

abbrev queueSize (q : ListT α) : ℕ := listSize q

abbrev queueRemove [DecidableEq α] (q : ListT α) (item : α) : Exec (Bool × ListT α) :=
  listRemoveItem q item

abbrev queueContains [DecidableEq α] (q : ListT α) (item : α) : Exec Bool := listContains q item

abbrev stackCreate : ListT α := listCreate

abbrev stackPush (s : ListT α) (item : α) : Exec (ListT α) := listAdd s item

abbrev stackInsert (s : ListT α) (index : ℕ) (item : α) : Exec (Bool × ListT α) :=
  listInsert s index item

abbrev stackFront (s : ListT α) : Exec (Option α) := listGetTail s

def stackPop (s : ListT α) : Exec (Option α × ListT α) := do
  match ← listGetTail s with
  | some item => do
    let (_, s) ← listRemoveTail s
    return (some item, s)
  | none => return (none, s)

theorem IsStack.stackPop (xs : List α) (x : α) (h : IsStack l (xs ++ [x])) :
    ∃ l', stackPop l = .ok (some x, l') ∧ IsStack l' xs := by
  obtain ⟨l', hl', hstack⟩ := h.listRemoveTail
  refine ⟨l', ?_, hstack⟩
  simp [Collections.stackPop, h.listGetTail, hl']

end Tinker.Collections
