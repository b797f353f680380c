import Tinker.Lib.Chain
import Tinker.Lib.Exec

/-!
# The kernel's unbounded list

`unbounded_list.c` at the level of its pointers. An operation that follows a null pointer, or the
address of an element that has been given back to the pool, does not return.

The pool of a list is modelled by the elements it has handed out and not got back. It always has
room, and it does not hand out an address a second time.
-/

namespace Tinker.Collections

open Tinker.Lib

/-- The counters and end pointers, and the elements that are live in the list's pool. -/
structure ListT (α : Type) where
  size : ℕ
  head : Option ℕ
  tail : Option ℕ
  mem : Memory α
  brk : ℕ

variable {α : Type}

namespace ListT

def load (l : ListT α) (p : Option ℕ) : Exec (Node α) :=
  match p.bind l.mem with
  | some n => .ok n
  | none => .error .badPointer

def store (l : ListT α) (p : Option ℕ) (f : Node α → Node α) : Exec (ListT α) :=
  match p with
  | none => .error .badPointer
  | some a =>
    match l.mem a with
    | some n => .ok { l with mem := Function.update l.mem a (some (f n)) }
    | none => .error .badPointer

def setNext (l : ListT α) (p q : Option ℕ) : Exec (ListT α) :=
  l.store p fun n => { n with next := q }

def setPrev (l : ListT α) (p q : Option ℕ) : Exec (ListT α) :=
  l.store p fun n => { n with prev := q }

/-- `mem_alloc` of an element, initialised with its item and null pointers. -/
def alloc (l : ListT α) (item : α) : ListT α :=
  { l with mem := Function.update l.mem l.brk (some ⟨item, none, none⟩), brk := l.brk + 1 }

def free (l : ListT α) (p : Option ℕ) : Exec (ListT α) :=
  match p with
  | none => .ok l
  | some a =>
    match l.mem a with
    | some _ => .ok { l with mem := Function.update l.mem a none }
    | none => .error .badPointer

end ListT

def listCreate : ListT α := ⟨0, none, none, fun _ => none, 0⟩

/-- Append an element. The pool is taken to have room for it: `list_add` answers false and leaves
the list alone if `mem_alloc` finds none, an answer that `sch_notify_new_thread` and
`obj_push_semaphore_listener` do not look at. -/
def listAdd (l : ListT α) (item : α) : Exec (ListT α) := do
  let element := some l.brk
  let l := l.alloc item
  let l ← match l.tail with
    | some prev => do
      let l ← l.setNext (some prev) element
      let l := { l with tail := element }
      l.setPrev element (some prev)
    | none => .ok { l with head := element, tail := element }
  return { l with size := l.size + 1 }

/-- Follow `next` a number of times; null if the list ends before. -/
def listWalk (l : ListT α) : ℕ → Option ℕ → Exec (Option ℕ)
  | 0, e => .ok e
  | p + 1, e => do
    let n ← l.load e
    match n.next with
    | some m => listWalk l p (some m)
    | none => .ok none

/-- `element_before` of `list_insert`: the head for the index 0 as well as for the
index 1. -/
def listElementBefore (l : ListT α) (index : ℕ) : Exec (Option ℕ) :=
  if index ≠ 0 then listWalk l (index - 1) l.head else .ok l.head

/-- The part of `list_insert` that links the new element in behind another one. -/
def listLinkBehind (l : ListT α) (newElement elementBefore : Option ℕ) : Exec (ListT α) := do
  let before ← l.load elementBefore
  let l ← match before.next with
    | some next => do
      let l ← l.setNext newElement (some next)
      l.setPrev (some next) newElement
    | none => .ok l
  let l := if elementBefore = l.tail then { l with tail := newElement } else l
  let l ← l.setPrev newElement elementBefore
  l.setNext elementBefore newElement

def listInsert (l : ListT α) (index : ℕ) (item : α) : Exec (Bool × ListT α) :=
  if index ≤ l.size then do
    let newElement := some l.brk
    let l := l.alloc item
    match ← listElementBefore l index with
    | some before => do
      let l ← listLinkBehind l newElement (some before)
      return (true, { l with size := l.size + 1 })
    | none =>
      if l.size = 0 then
        return (true, { l with head := newElement, tail := newElement, size := l.size + 1 })
      else do
        let l ← l.free newElement
        return (false, l)
  else
    return (false, l)

/-- The search of `list_remove`: the element at an index and the one before it, which
is the element itself for the index 0. -/
def listSeek (l : ListT α) : ℕ → Option ℕ → Option ℕ → Exec (Option ℕ × Option ℕ)
  | 0, p, e => .ok (p, e)
  | c + 1, _, e =>
    match e with
    | none => .ok (none, none)
    | some _ => do
      let n ← l.load e
      match n.next with
      | some m => listSeek l c e (some m)
      | none => .ok (none, none)

/-- Unlink and free the element at an index. The `prev` pointer of the element behind it is left as
it was. -/
def listRemove (l : ListT α) (index : ℕ) : Exec (Bool × ListT α) :=
  if index < l.size then do
    let (p, e) ← listSeek l index l.head l.head
    let l ← if p ≠ none ∧ p ≠ e ∧ e ≠ none then do
        let n ← l.load e
        let l ← l.setNext p n.next
        l.setPrev e p
      else .ok l
    let l ← if l.size = 1 then
        .ok { l with head := none, tail := none }
      else if e ≠ none then do
        let l := if e = l.tail then { l with tail := p } else l
        if e = l.head then do
          let n ← l.load e
          pure { l with head := n.next }
        else .ok l
      else .ok l
    let l ← l.free e
    return (true, { l with size := l.size - 1 })
  else
    return (false, l)

/-- The loop that `list_remove_item` and `list_contains` share: the position of the
first element with the item among the next `k` ones. -/
def listFind [DecidableEq α] (l : ListT α) (item : α) :
    ℕ → ℕ → Option ℕ → Exec (Option ℕ)
  | 0, _, _ => .ok none
  | k + 1, p, e => do
    let n ← l.load e
    if n.item = item then .ok (some p) else listFind l item k (p + 1) n.next

def listRemoveItem [DecidableEq α] (l : ListT α) (item : α) : Exec (Bool × ListT α) := do
  match ← listFind l item l.size 0 l.head with
  | some p => listRemove l p
  | none => return (false, l)

def listContains [DecidableEq α] (l : ListT α) (item : α) : Exec Bool := do
  let found ← listFind l item l.size 0 l.head
  return found.isSome

/-- The only removal that uses a `prev` pointer. -/
def listRemoveTail (l : ListT α) : Exec (Bool × ListT α) :=
  match l.tail with
  | some _ => do
    let e := l.tail
    let l ← if l.head = l.tail then
        .ok { l with head := none, tail := none }
      else do
        let n ← l.load l.tail
        let l ← l.setNext n.prev none
        pure { l with tail := n.prev }
    let l ← l.free e
    return (true, { l with size := l.size - 1 })
  | none => return (false, l)

def listHeadToTail (l : ListT α) : Exec (Bool × ListT α) :=
  if l.size ≤ 1 then
    return (true, l)
  else do
    let oldHead := l.head
    let oldTail := l.tail
    let headNode ← l.load oldHead
    let tailNode ← l.load oldTail
    let oldHeadNext := headNode.next
    let oldTailPrev := tailNode.prev
    let l := { l with head := oldTail }
    let l ← l.setPrev l.head none
    let l ← l.setNext l.head oldHeadNext
    let l := { l with tail := oldHead }
    let l ← l.setPrev l.tail oldTailPrev
    let l ← l.setNext l.tail none
    let l ← l.setNext oldTailPrev l.tail
    let l ← l.setPrev oldHeadNext l.head
    return (true, l)

def listGet (l : ListT α) (index : ℕ) : Exec (Option α) :=
  if index < l.size then do
    match ← listWalk l index l.head with
    | some a => do
      let n ← l.load (some a)
      return some n.item
    | none => return none
  else
    return none

def listGetTail (l : ListT α) : Exec (Option α) :=
  match l.tail with
  | some a => do
    let n ← l.load (some a)
    return some n.item
  | none => return none

def listSize (l : ListT α) : ℕ := l.size

/-- `list_it_t`, without the list it walks over. -/
structure ListIt where
  current : Option ℕ
  pos : ℕ

def listItCreate (l : ListT α) : ListIt :=
  ⟨if l.size > 0 then l.head else none, 0⟩

def listItGet (l : ListT α) (it : ListIt) : Exec (Option α × ListIt) := do
  let it := if it.current = none then { it with current := l.head } else it
  match it.current with
  | some a => do
    let n ← l.load (some a)
    return (some n.item, it)
  | none => return (none, it)

/-- Move on and give the item there, if there is one. -/
def listItNext (l : ListT α) (it : ListIt) : Exec (Option α × ListIt) :=
  match it.current with
  | some a => do
    let n ← l.load (some a)
    match n.next with
    | some b => do
      let m ← l.load (some b)
      return (some m.item, ⟨some b, it.pos + 1⟩)
    | none => return (none, it)
  | none => return (none, it)

def listItWhere (it : ListIt) : ℕ := it.pos

end Tinker.Collections
