import Tinker.Collections.Queue
import Tinker.Lib.Run

/-!
# Histories of a list

What a list looks like after any sequence of calls on it, from `list_create` on.

As a queue the list is a sequence, and whatever reads it from the head on answers so. As a doubly
linked list it is less: `list_remove` leaves the `prev` pointer behind the element as it was, which
leads to a freed element from then on. `list_remove_tail` follows it.
-/

namespace Tinker.Collections

open Tinker.Lib Exec ListT

variable {α : Type} {l l' : ListT α} {ns ms : List (ℕ × α)} {a : ℕ} {x : α} {xs : List α}

/-! ## A walk with an iterator -/

def listItRest (l : ListT α) : ℕ → ListIt → Exec (List α)
  | 0, _ => .error .diverges
  | fuel + 1, it => do
    match ← listItNext l it with
    | (some item, it) => do
      let rest ← listItRest l fuel it
      return item :: rest
    | (none, _) => return []

def listItWalk (l : ListT α) (fuel : ℕ) : Exec (List α) := do
  match ← listItGet l (listItCreate l) with
  | (some item, it) => do
    let rest ← listItRest l fuel it
    return item :: rest
  | (none, _) => return []

theorem listItRest_eq {fuel pos : ℕ} (h : Seg l.mem (some a) ((a, x) :: ns) none)
    (hfuel : ns.length < fuel) : listItRest l fuel ⟨some a, pos⟩ = .ok (ns.map Prod.snd) := by
  induction ns generalizing a x fuel pos with
  | nil =>
    obtain ⟨fuel, rfl⟩ : ∃ k, fuel = k + 1 := ⟨fuel - 1, by omega⟩
    obtain ⟨-, n, hn, -, hnext⟩ := h
    have hnone : n.next = none := hnext
    simp [listItRest, listItNext, load_of_mem hn, hnone]
  | cons node ns ih =>
    obtain ⟨fuel, rfl⟩ : ∃ k, fuel = k + 1 := ⟨fuel - 1, by omega⟩
    obtain ⟨b, y⟩ := node
    obtain ⟨-, n, hn, -, hrest⟩ := h
    have hnext : n.next = some b := hrest.1
    have hbehind : Seg l.mem (some b) ((b, y) :: ns) none := hnext ▸ hrest
    obtain ⟨-, m, hm, hy, -⟩ := hrest
    have hfuel' : ns.length < fuel := by simpa using hfuel
    simp [listItRest, listItNext, load_of_mem hn, load_of_mem hm, hnext, hy, ih hbehind hfuel']

theorem Holds.listItWalk (h : Holds l ns) {fuel : ℕ} (hfuel : ns.length ≤ fuel) :
    listItWalk l fuel = .ok (ns.map Prod.snd) := by
  cases ns with
  | nil =>
    have hhead : l.head = none := h.seg
    have hsize : l.size = 0 := h.size_eq
    simp [Collections.listItWalk, listItGet, listItCreate, hhead, hsize]
  | cons node ns =>
    obtain ⟨a, x⟩ := node
    obtain ⟨hhead, n, hn, rfl, -⟩ := h.seg
    have hseg := h.seg
    rw [hhead] at hseg
    have hsize : 0 < l.size := by simp [h.size_eq]
    simp [Collections.listItWalk, listItGet, listItCreate, hhead, hsize, load_of_mem hn,
      listItRest_eq hseg hfuel]

/-! ## Queues -/

/-- A call that changes a queue: `list_add` or `queue_push`, `list_remove`, of which `queue_pop` is
the case of the index 0, and `list_remove_item` or `queue_remove`. -/
inductive QueueCall (α : Type)
  | add (item : α)
  | remove (index : ℕ)
  | removeItem (item : α)

namespace QueueCall

variable [DecidableEq α]

def run (l : ListT α) : QueueCall α → Exec (Bool × ListT α)
  | add item => do
    let l ← listAdd l item
    return (true, l)
  | remove index => listRemove l index
  | removeItem item => listRemoveItem l item

def apply (xs : List α) : QueueCall α → Bool × List α
  | add item => (true, xs ++ [item])
  | remove index => (decide (index < xs.length), xs.eraseIdx index)
  | removeItem item => (decide (item ∈ xs), xs.erase item)

def runAll (l : ListT α) : List (QueueCall α) → Exec (List Bool × ListT α)
  | [] => .ok ([], l)
  | call :: calls => do
    let (result, l) ← call.run l
    let (results, l) ← runAll l calls
    return (result :: results, l)

def applyAll (xs : List α) : List (QueueCall α) → List Bool × List α
  | [] => ([], xs)
  | call :: calls =>
    let (result, xs) := call.apply xs
    let (results, xs) := applyAll xs calls
    (result :: results, xs)

theorem isQueue_run (h : IsQueue l xs) (call : QueueCall α) :
    ∃ l', call.run l = .ok ((call.apply xs).1, l') ∧ IsQueue l' (call.apply xs).2 := by
  cases call with
  | add item =>
    obtain ⟨l', hadd, hqueue⟩ := h.listAdd item
    exact ⟨l', by simp [run, apply, hadd], hqueue⟩
  | remove index => exact h.listRemove index
  | removeItem item => exact h.listRemoveItem item

theorem isQueue_runAll (h : IsQueue l xs) (calls : List (QueueCall α)) :
    ∃ l', runAll l calls = .ok ((applyAll xs calls).1, l') ∧ IsQueue l' (applyAll xs calls).2 := by
  induction calls generalizing l xs with
  | nil => exact ⟨l, rfl, h⟩
  | cons call calls ih =>
    obtain ⟨l₁, hrun, hqueue⟩ := isQueue_run h call
    obtain ⟨l₂, hrest, hqueue'⟩ := ih hqueue
    exact ⟨l₂, by simp [runAll, applyAll, hrun, hrest], hqueue'⟩

end QueueCall

/-- Whatever reads the list answers as the sequence does. -/
structure ListT.Answers [DecidableEq α] (l : ListT α) (xs : List α) : Prop where
  listSize_eq : listSize l = xs.length
  listGet_eq : ∀ i, listGet l i = .ok xs[i]?
  listGetTail_eq : listGetTail l = .ok xs.getLast?
  listContains_eq : ∀ x, listContains l x = .ok (decide (x ∈ xs))
  queueFront_eq : queueFront l = .ok xs.head?
  listItWalk_eq : ∀ fuel, xs.length ≤ fuel → listItWalk l fuel = .ok xs

theorem IsQueue.answers [DecidableEq α] (h : IsQueue l xs) : l.Answers xs where
  listSize_eq := h.size_eq
  listContains_eq := h.listContains
  queueFront_eq := h.listGet_zero
  listGet_eq := by
    obtain ⟨ns, hholds, -, rfl⟩ := h
    exact hholds.listGet
  listGetTail_eq := by
    obtain ⟨ns, hholds, -, rfl⟩ := h
    exact hholds.listGetTail
  listItWalk_eq := by
    obtain ⟨ns, hholds, -, rfl⟩ := h
    intro fuel hfuel
    exact hholds.listItWalk (by simpa using hfuel)

/-- A list that is used as a queue is a sequence: every sequence of calls returns what it returns
on a sequence, and leaves a list that answers as the sequence does. -/
theorem answers_of_calls [DecidableEq α] (calls : List (QueueCall α)) :
    ∃ l, QueueCall.runAll listCreate calls = .ok ((QueueCall.applyAll [] calls).1, l) ∧
      l.Answers (QueueCall.applyAll [] calls).2 := by
  obtain ⟨l, hrun, hqueue⟩ := QueueCall.isQueue_runAll isQueue_listCreate calls
  exact ⟨l, hrun, hqueue.answers⟩

/-! ## Doubly linked lists -/

/-- Following `next` from the head visits exactly `size` distinct live elements, which end with the
tail, and the `prev` pointers lead back. -/
structure ListT.Linked (l : ListT α) (ns : List (ℕ × α)) : Prop where
  next : Seg l.mem l.head ns none
  distinct : (ns.map Prod.fst).Nodup
  size_eq : l.size = ns.length
  tail_eq : l.tail = lastPtr none ns
  prev : Links ∅ l.mem none ns

def ListT.WellFormed (l : ListT α) : Prop := ∃ ns, l.Linked ns

inductive ListCall (α : Type)
  | add (item : α)
  | insert (index : ℕ) (item : α)
  | remove (index : ℕ)
  | removeItem (item : α)
  | removeTail

namespace ListCall

variable [DecidableEq α]

def run (l : ListT α) : ListCall α → Exec (Bool × ListT α)
  | add item => do
    let l ← listAdd l item
    return (true, l)
  | insert index item => listInsert l index item
  | remove index => listRemove l index
  | removeItem item => listRemoveItem l item
  | removeTail => listRemoveTail l

def step (l : ListT α) (call : ListCall α) : Exec (ListT α) := do
  let (_, l) ← call.run l
  return l

/-- If the call is a removal by index or item, it takes the last element or none. -/
def KeepsLinks (l : ListT α) : ListCall α → Prop
  | add _ | insert _ _ | removeTail => True
  | remove index => l.size ≤ index + 1
  | removeItem item => l.size ≤ l.items.idxOf item + 1

instance decidableKeepsLinks (l : ListT α) (call : ListCall α) : Decidable (call.KeepsLinks l) := by
  unfold KeepsLinks
  split <;> infer_instance

end ListCall

theorem IsStack.wellFormed (h : IsStack l xs) : l.WellFormed := by
  obtain ⟨ns, hholds, hlinks, -⟩ := h
  exact ⟨ns, hholds.seg, hholds.nodup, hholds.size_eq, hholds.tail_eq, hlinks⟩

theorem links_erase_iff (hnodup : ((ms ++ (a, x) :: ns).map Prod.fst).Nodup)
    (h : Links ∅ l.mem none (ms ++ (a, x) :: ns)) : Links ∅ l.mem none (ms ++ ns) ↔ ns = [] := by
  obtain ⟨hleft, -, hright⟩ := links_append.mp h
  cases ns with
  | nil => simpa using hleft
  | cons node ns =>
    refine iff_of_false (fun hlinks => ?_) (List.cons_ne_nil _ _)
    obtain ⟨-, ⟨n, hn, hprev⟩, -⟩ := links_append.mp hlinks
    obtain ⟨⟨n', hn', hprev'⟩, -⟩ := hright
    cases hn.symm.trans hn'
    have hlast : lastPtr none ms = some a := by
      simpa using (hprev.resolve_right (by simp)).symm.trans (hprev'.resolve_right (by simp))
    have hmem : a ∈ ms.map Prod.fst := List.mem_of_getLast? (by simpa [lastPtr] using hlast)
    rw [List.map_append, List.nodup_append] at hnodup
    exact hnodup.2.2 a hmem a (by simp) rfl

/-- Removing an element keeps the links exactly if it is the last one. -/
theorem IsStack.listRemove (h : IsStack l xs) (i : ℕ) :
    ∃ r l', listRemove l i = .ok (r, l') ∧
      ((xs.length ≤ i + 1 ∧ IsStack l' (xs.eraseIdx i)) ∨
        (¬ xs.length ≤ i + 1 ∧ ¬ l'.WellFormed)) := by
  obtain ⟨ns, hholds, hlinks, rfl⟩ := h
  rw [List.length_map]
  by_cases hi : i < ns.length
  · obtain ⟨l', hl', hholds'⟩ := hholds.listRemove hi
    refine ⟨true, l', hl', ?_⟩
    obtain ⟨ms, a, x, ps, rfl, hlength, herase⟩ := exists_split hi
    obtain ⟨-, -, hsame⟩ := hholds.listRemove_prev hlength hl'
    have hnodup := hholds.nodup
    have hstay : ∀ c ∈ (ms ++ ps).map Prod.fst,
        (l'.mem c).map Node.prev = (l.mem c).map Node.prev := by
      intro c hc
      refine hsame c ?_
      rintro rfl
      simp only [List.map_append, List.map_cons, List.nodup_append, List.nodup_cons] at hnodup
      rw [List.map_append, List.mem_append] at hc
      rcases hc with hc | hc
      · exact hnodup.2.2 c hc c (by simp) rfl
      · exact hnodup.2.1.1 hc
    have hiff : Links ∅ l'.mem none (ms ++ ps) ↔ ps = [] := by
      rw [← links_erase_iff hnodup hlinks]
      exact ⟨fun hl => hl.congr subset_rfl fun c hc => (hstay c hc).symm,
        fun hl => hl.congr subset_rfl hstay⟩
    have hlast : (ms ++ (a, x) :: ps).length ≤ i + 1 ↔ ps = [] := by
      rw [← List.length_eq_zero_iff]
      simp only [List.length_append, List.length_cons]
      omega
    rw [hlast]
    by_cases hps : ps = []
    · refine .inl ⟨hps, _, hholds', ?_, (List.eraseIdx_map ..).symm⟩
      rw [herase]
      exact hiff.mpr hps
    refine .inr ⟨hps, ?_⟩
    rintro ⟨ns', hlinked⟩
    refine hps (hiff.mp ?_)
    obtain rfl : ns' = ms ++ ps := by
      rw [← herase]
      exact hlinked.next.unique hholds'.seg
    exact hlinked.prev
  refine ⟨false, l, ?_, .inl ⟨by omega, ns, hholds, hlinks, ?_⟩⟩
  · rw [Collections.listRemove, if_neg (by rwa [hholds.size_eq])]
    rfl
  · rw [List.eraseIdx_of_length_le (by simpa using hi)]

theorem listInsert_nil (h : IsStack l []) (x : α) :
    ∃ l', listInsert l 0 x = .ok (true, l') ∧ IsStack l' [x] := by
  obtain ⟨ns, hholds, -, hns⟩ := h
  obtain rfl := List.map_eq_nil_iff.mp hns
  have hhead : l.head = none := hholds.seg
  have hsize : l.size = 0 := hholds.size_eq
  refine ⟨⟨1, some l.brk, some l.brk, Function.update l.mem l.brk (some ⟨x, none, none⟩),
    l.brk + 1⟩, ?_, [(l.brk, x)], ⟨?_, rfl, rfl, fun c hc => ?_⟩, ?_, rfl⟩
  · simp [listInsert, listElementBefore, ListT.alloc, hhead, hsize]
  · simp [Seg]
  · have hlt : l.brk < c := hc
    change Function.update l.mem l.brk _ c = none
    rw [Function.update_of_ne hlt.ne']
    exact hholds.fresh c hlt.le
  · simp [Links]

theorem IsStack.listGet (h : IsStack l xs) (i : ℕ) : listGet l i = .ok xs[i]? := by
  obtain ⟨ns, hholds, -, rfl⟩ := h
  exact hholds.listGet i

theorem insertIdx_split (ys : List α) (y : α) (zs : List α) (x : α) :
    (ys ++ y :: zs).insertIdx (ys.length + 1) x = ys ++ y :: x :: zs := by
  induction ys with
  | nil => rfl
  | cons _ ys ih => simpa using ih

/-- `list_insert` keeps the links, whatever the index is. The index 0 of a list that is not empty
is taken for the index 1. -/
theorem listInsert_cases (h : IsStack l xs) (i : ℕ) (x : α) :
    (i ≤ xs.length ∧ ∃ l', listInsert l i x = .ok (true, l') ∧
        IsStack l' (xs.insertIdx (max i (min 1 xs.length)) x)) ∨
      (xs.length < i ∧ listInsert l i x = .ok (false, l)) := by
  rcases Nat.lt_or_ge xs.length i with hi | hi
  · refine .inr ⟨hi, ?_⟩
    rw [listInsert, if_neg (by rw [h.size_eq]; omega)]
    rfl
  refine .inl ⟨hi, ?_⟩
  by_cases hnil : xs = []
  · subst hnil
    obtain rfl : i = 0 := Nat.le_zero.mp hi
    exact listInsert_nil h x
  have hpos := List.length_pos_iff.mpr hnil
  obtain ⟨ys, y, zs, rfl, hys⟩ : ∃ ys y zs, xs = ys ++ y :: zs ∧ ys.length = i - 1 :=
    ⟨xs.take (i - 1), xs[i - 1], xs.drop (i - 1 + 1), by simp, by simp; omega⟩
  obtain ⟨l', hinsert, hstack⟩ := h.listInsert ys zs i hys x
  have hplace : max i (min 1 (ys ++ y :: zs).length) = ys.length + 1 := by omega
  refine ⟨l', hinsert, ?_⟩
  rwa [hplace, insertIdx_split]

/-- `list_insert` puts the item at the index, unless the index is 0 and there is another item at
the head: then the item comes behind that one. Beyond the end nothing is inserted. -/
theorem listInsert_insertIdx_iff (h : IsStack l xs) (i : ℕ) (x : α) :
    (i ≤ xs.length →
      ((∃ l', listInsert l i x = .ok (true, l') ∧ IsStack l' (xs.insertIdx i x) ∧
          listGet l' i = .ok (some x)) ↔ (i = 0 → ∀ y ∈ xs.head?, y = x))) ∧
    (xs.length < i → listInsert l i x = .ok (false, l)) := by
  rcases listInsert_cases h i x with ⟨hi, l', hinsert, hstack⟩ | ⟨hi, hinsert⟩
  · refine ⟨fun _ => ?_, fun hlt => absurd hlt (by omega)⟩
    have hput : (∃ l', listInsert l i x = .ok (true, l') ∧
        IsStack l' (xs.insertIdx i x) ∧ listGet l' i = .ok (some x)) ↔
        xs.insertIdx (max i (min 1 xs.length)) x = xs.insertIdx i x := by
      constructor
      · rintro ⟨l₁, hinsert', hstack', -⟩
        cases hinsert.symm.trans hinsert'
        rw [← hstack.items_eq, hstack'.items_eq]
      · intro heq
        rw [heq] at hstack
        refine ⟨l', hinsert, hstack, ?_⟩
        rw [hstack.listGet]
        simp [List.getElem?_insertIdx_self, hi]
    rw [hput]
    cases xs with
    | nil =>
      simp
    | cons y ys =>
      cases i with
      | zero => simpa using Eq.symm
      | succ i => simp
  · exact ⟨fun hle => absurd hle (by omega), fun _ => hinsert⟩

/-- An item is put at the index 1 of a list with two elements. -/
theorem listInsert_insertIdx_one : ∃ l l' : ListT ℕ, IsStack l [1, 2] ∧
    listInsert l 1 7 = .ok (true, l') ∧ IsStack l' [1, 7, 2] ∧ listGet l' 1 = .ok (some 7) := by
  obtain ⟨l₁, -, hone⟩ := (isStack_listCreate (α := ℕ)).listAdd 1
  obtain ⟨l, -, htwo⟩ := hone.listAdd 2
  obtain ⟨l', hinsert⟩ := ((listInsert_insertIdx_iff htwo 1 7).1 (by decide)).mpr (by decide)
  exact ⟨l, l', htwo, hinsert⟩

/-- An item that is inserted at the index 0 of a list with one element comes behind it. -/
theorem listInsert_zero_behind : ∃ l l' : ListT ℕ, IsStack l [1] ∧
    listInsert l 0 7 = .ok (true, l') ∧ IsStack l' [1, 7] ∧ listGet l' 0 = .ok (some 1) := by
  obtain ⟨l, -, hone⟩ := (isStack_listCreate (α := ℕ)).listAdd 1
  rcases listInsert_cases hone 0 7 with ⟨-, l', hinsert, hstack⟩ | ⟨hlt, -⟩
  · exact ⟨l, l', hone, hinsert, hstack, hstack.listGet 0⟩
  · cases hlt

theorem IsStack.exists_listRemoveTail (h : IsStack l xs) :
    ∃ r l' xs', Collections.listRemoveTail l = .ok (r, l') ∧ IsStack l' xs' := by
  rcases List.eq_nil_or_concat' xs with rfl | ⟨ys, y, rfl⟩
  · have htail : l.tail = none := by
      obtain ⟨ns, hholds, -, hns⟩ := h
      obtain rfl := List.map_eq_nil_iff.mp hns
      exact hholds.tail_eq
    exact ⟨false, l, [], by simp [Collections.listRemoveTail, htail], h⟩
  obtain ⟨l', hremove, hstack⟩ := h.listRemoveTail
  exact ⟨true, l', ys, hremove, hstack⟩

theorem IsStack.listRemoveItem_eq [DecidableEq α] (h : IsStack l xs) (x : α) :
    listRemoveItem l x = .ok (false, l) ∧ xs.length ≤ xs.idxOf x ∨
      listRemoveItem l x = Collections.listRemove l (xs.idxOf x) := by
  obtain ⟨ns, hholds, -, rfl⟩ := h
  rw [hholds.listRemoveItem_eq]
  cases hidx : (ns.map Prod.snd).idxOf? x with
  | none =>
    have hx : x ∉ ns.map Prod.snd := List.idxOf?_eq_none_iff.mp hidx
    exact .inl ⟨rfl, (List.idxOf_eq_length hx).ge⟩
  | some i =>
    obtain rfl : (ns.map Prod.snd).idxOf x = i := by
      rw [List.idxOf_eq_getD_idxOf?, hidx]
      rfl
    exact .inr rfl

/-- One call on a doubly linked list: it returns, and leaves a doubly linked list exactly if it
keeps the links. -/
theorem IsStack.run [DecidableEq α] (h : IsStack l xs) (call : ListCall α) :
    ∃ r l', call.run l = .ok (r, l') ∧
      ((call.KeepsLinks l ∧ ∃ xs', IsStack l' xs') ∨ (¬ call.KeepsLinks l ∧ ¬ l'.WellFormed)) := by
  cases call with
  | add item =>
    obtain ⟨l', hadd, hstack⟩ := h.listAdd item
    exact ⟨true, l', by simp [ListCall.run, hadd], .inl ⟨trivial, _, hstack⟩⟩
  | insert index item =>
    rcases listInsert_cases h index item with ⟨-, l', hinsert, hstack⟩ | ⟨-, hinsert⟩
    · exact ⟨true, l', hinsert, .inl ⟨trivial, _, hstack⟩⟩
    · exact ⟨false, l, hinsert, .inl ⟨trivial, xs, h⟩⟩
  | removeTail =>
    obtain ⟨r, l', xs', hremove, hstack⟩ := h.exists_listRemoveTail
    exact ⟨r, l', hremove, .inl ⟨trivial, xs', hstack⟩⟩
  | remove index =>
    obtain ⟨r, l', hremove, hcases⟩ := h.listRemove index
    rw [ListCall.KeepsLinks, h.size_eq]
    exact ⟨r, l', hremove, hcases.imp_left fun hkept => ⟨hkept.1, _, hkept.2⟩⟩
  | removeItem item =>
    rw [ListCall.KeepsLinks, h.size_eq, h.items_eq, ListCall.run]
    rcases h.listRemoveItem_eq item with ⟨hnone, habsent⟩ | hsome
    · exact ⟨false, l, hnone, .inl ⟨by omega, xs, h⟩⟩
    obtain ⟨r, l', hremove, hcases⟩ := h.listRemove (xs.idxOf item)
    exact ⟨r, l', hsome.trans hremove, hcases.imp_left fun hkept => ⟨hkept.1, _, hkept.2⟩⟩

theorem isStack_of_run [DecidableEq α] {calls : List (ListCall α)}
    (run : Run ListCall.step ListCall.KeepsLinks listCreate calls l) : ∃ xs, IsStack l xs := by
  refine @Run.invariant _ _ _ _ _ _ _ (fun l => ∃ xs, IsStack l xs) run ⟨[], isStack_listCreate⟩ ?_
  rintro l call l' ⟨xs, hstack⟩ hkeeps hstep
  obtain ⟨⟨r, l''⟩, hrun, hlast⟩ := of_bind hstep
  cases hlast
  obtain ⟨r', l', hrun', hcases⟩ := hstack.run call
  cases hrun.symm.trans hrun'
  exact (hcases.resolve_right fun hbroken => hbroken.1 hkeeps).2

/-- As long as every removal by index or item has taken the last element or none, the list is
doubly linked. Whatever is called next returns, and leaves a doubly linked list exactly if it is
not a removal of another element. -/
theorem wellFormed_of_run [DecidableEq α] {calls : List (ListCall α)}
    (run : Run ListCall.step ListCall.KeepsLinks listCreate calls l) :
    l.WellFormed ∧ ∀ call : ListCall α, ∃ r l', call.run l = .ok (r, l') ∧
      (l'.WellFormed ↔ call.KeepsLinks l) := by
  obtain ⟨xs, hstack⟩ := isStack_of_run run
  refine ⟨hstack.wellFormed, fun call => ?_⟩
  obtain ⟨r, l', hrun, hcases⟩ := hstack.run call
  refine ⟨r, l', hrun, ?_⟩
  rcases hcases with ⟨hkeeps, xs', hstack'⟩ | ⟨hbreaks, hbroken⟩
  · exact iff_of_true hstack'.wellFormed hkeeps
  · exact iff_of_false hbroken hbreaks

/-- An insertion between two elements, and removals at the end. -/
theorem wellFormed_of_run_ends : ∃ l : ListT ℕ,
    Run ListCall.step ListCall.KeepsLinks listCreate
      [.add 1, .add 2, .insert 1 7, .removeItem 2, .remove 5, .removeTail] l ∧
    l.items = [1] ∧ l.WellFormed := by
  refine exists_run_and (fun l => l.items = [1]) (by decide +kernel) fun l run hitems => ?_
  exact ⟨hitems, (wellFormed_of_run run).1⟩

/-- The element in the middle of three is removed. The last one still leads back to it, and
`list_remove_tail` follows the pointer. -/
theorem not_wellFormed_middle : ∃ l : ListT ℕ,
    Run ListCall.step (fun _ _ => True) listCreate [.add 1, .add 2, .add 3, .remove 1] l ∧
    ¬ l.WellFormed ∧ ListCall.removeTail.run l = .error .badPointer := by
  obtain ⟨l, run, hlast⟩ := exists_run_of_replay ListCall.step ListCall.KeepsLinks
    (listCreate : ListT ℕ) [.add 1, .add 2, .add 3]
    (fun l => ¬ (ListCall.remove 1).KeepsLinks l ∧
      ((ListCall.remove 1).step l).toOption.any fun l =>
        Exec.fault? (ListCall.removeTail.run l) = some .badPointer)
    (by decide +kernel)
  obtain ⟨hbreaks, hnext⟩ := of_decide_eq_true hlast
  obtain ⟨l', hstep, hfault⟩ := exists_of_any hnext
  obtain ⟨⟨r, l''⟩, hrun, hlast⟩ := of_bind hstep
  cases hlast
  obtain ⟨xs, hstack⟩ := isStack_of_run run
  obtain ⟨r', l', hrun', hcases⟩ := hstack.run (.remove 1)
  cases hrun.symm.trans hrun'
  refine ⟨_, (run.mono fun _ _ _ => trivial).snoc trivial hstep,
    (hcases.resolve_left fun hkeeps => hbreaks hkeeps.1).2, ?_⟩
  exact Exec.eq_error_of_fault? (of_decide_eq_true hfault)

/-! ## The head moved to the tail -/

/-- A list whose first element leads to itself has no end. -/
theorem not_wellFormed_of_self {n : Node α} (hhead : l.head = some a) (hn : l.mem a = some n)
    (hnext : n.next = some a) : ¬ l.WellFormed := by
  rintro ⟨ns, hlinked⟩
  have hseg := hlinked.next
  have hnodup := hlinked.distinct
  rw [hhead] at hseg
  cases ns with
  | nil => cases hseg
  | cons node ns =>
    obtain ⟨b, y⟩ := node
    obtain ⟨hb, n', hn', -, hrest⟩ := hseg
    obtain rfl : a = b := Option.some.inj hb
    cases hn.symm.trans hn'
    rw [hnext] at hrest
    cases ns with
    | nil => cases hrest
    | cons node ns =>
      obtain ⟨c, z⟩ := node
      obtain rfl : a = c := Option.some.inj hrest.1
      simp at hnodup

/-- `list_head_to_tail` returns true and leaves a doubly linked list with the same elements, of
which the old first one is the last, if and only if there are not two elements. -/
theorem listHeadToTail_wellFormed_iff (h : IsStack l xs) :
    (∃ l', listHeadToTail l = .ok (true, l') ∧ l'.WellFormed ∧ l'.items.Perm xs ∧
      l'.items.getLast? = xs.head?) ↔ xs.length ≠ 2 := by
  by_cases hsize : l.size ≤ 1
  · have hlength := h.size_eq
    refine iff_of_true ⟨l, listHeadToTail_of_size_le hsize, h.wellFormed, ?_, ?_⟩ (by omega)
    · rw [h.items_eq]
    · rw [h.items_eq]
      obtain rfl | ⟨x, rfl⟩ : xs = [] ∨ ∃ x, xs = [x] := by
        rw [← List.length_eq_zero_iff, ← List.length_eq_one_iff]
        omega
      · rfl
      · rfl
  · obtain ⟨ns, hholds, hlinks, rfl⟩ := h
    obtain ⟨a, x, ms, c, z, rfl⟩ := hholds.exists_ends (by omega)
    obtain ⟨hlt, hhead, htail, hac, na, nc, hna, -, hnc, -, hmid⟩ := hholds.ends
    have hprev := (links_last hlinks hnc).resolve_right (by simp)
    by_cases hms : ms = []
    · subst hms
      obtain ⟨l', hl', -, hhead', hc⟩ :=
        listHeadToTail_pair hlt hhead htail hna hnc hac hmid hprev
      refine iff_of_false ?_ (by simp)
      rintro ⟨l₁, hl₁, hwf, -⟩
      cases hl'.symm.trans hl₁
      exact not_wellFormed_of_self hhead' hc rfl hwf
    · obtain ⟨l', hl', hholds', hlinks', -, -⟩ :=
        hholds.listHeadToTail_swap hlinks hms hnc hprev
      have hstack : IsStack l' (z :: (ms.map Prod.snd ++ [x])) := ⟨_, hholds', hlinks', by simp⟩
      have hpos := List.length_pos_iff.mpr hms
      refine iff_of_true ⟨l', hl', hstack.wellFormed, ?_, ?_⟩ ?_
      · rw [hstack.items_eq]
        simpa using perm_ends x z (ms.map Prod.snd)
      · rw [hstack.items_eq, ← List.cons_append, List.getLast?_concat]
        rfl
      · simp only [List.length_map, List.length_cons, List.length_append, List.length_nil]
        omega

/-- The first of three elements becomes the last one. -/
theorem listHeadToTail_three : ∃ l l' : ListT ℕ, IsStack l [1, 2, 3] ∧
    listHeadToTail l = .ok (true, l') ∧ l'.WellFormed ∧ l'.items.getLast? = some 1 := by
  obtain ⟨l₁, -, hone⟩ := (isStack_listCreate (α := ℕ)).listAdd 1
  obtain ⟨l₂, -, htwo⟩ := hone.listAdd 2
  obtain ⟨l, -, hthree⟩ := htwo.listAdd 3
  obtain ⟨l', hl', hwf, -, hlast⟩ := (listHeadToTail_wellFormed_iff hthree).mpr (by decide)
  exact ⟨l, l', hthree, hl', hwf, hlast⟩

/-- Of two elements the first one is lost, and the other one leads to itself. -/
theorem listHeadToTail_two : ∃ l l' : ListT ℕ, IsStack l [1, 2] ∧
    listHeadToTail l = .ok (true, l') ∧ l'.items = [2, 2] := by
  obtain ⟨l₁, hadd₁, hone⟩ := (isStack_listCreate (α := ℕ)).listAdd 1
  obtain ⟨l, hadd, htwo⟩ := hone.listAdd 2
  have hmoved : ((listAdd listCreate 1 >>= fun l => listAdd l 2) >>= listHeadToTail).toOption.any
      fun p => p.1 = true ∧ p.2.items = [2, 2] := by decide +kernel
  rw [hadd₁, ok_bind, hadd, ok_bind] at hmoved
  obtain ⟨⟨r, l'⟩, hl', hitems⟩ := exists_of_any hmoved
  obtain ⟨rfl, hitems⟩ := of_decide_eq_true hitems
  exact ⟨l, l', htwo, hl', hitems⟩

/-! ## Stacks -/

inductive StackCall (α : Type)
  | push (item : α)
  | insert (index : ℕ) (item : α)
  | pop

/-- A stack, and what has been pushed or inserted and not popped. -/
structure StackHistory (α : Type) where
  stack : ListT α
  held : Multiset α

/-- One more call. An insertion counts if it returned true, and a pop if it gave an item. -/
def StackCall.apply [DecidableEq α] (s : StackHistory α) : StackCall α → Exec (StackHistory α)
  | push item => do
    let stack ← stackPush s.stack item
    return ⟨stack, item ::ₘ s.held⟩
  | insert index item => do
    let (ok, stack) ← stackInsert s.stack index item
    return ⟨stack, if ok then item ::ₘ s.held else s.held⟩
  | pop => do
    let (top, stack) ← stackPop s.stack
    return ⟨stack, top.elim s.held s.held.erase⟩

theorem stackPop_eq (h : IsStack l xs) :
    ∃ l', stackPop l = .ok (xs.getLast?, l') ∧ IsStack l' xs.dropLast := by
  rcases List.eq_nil_or_concat' xs with rfl | ⟨ys, y, rfl⟩
  · exact ⟨l, by simp [stackPop, h.listGetTail], h⟩
  · simpa using h.stackPop ys y

/-- The stack is a doubly linked list of what it holds. -/
def StackHistory.Intact (s : StackHistory α) : Prop :=
  ∃ xs : List α, IsStack s.stack xs ∧ ↑xs = s.held

theorem StackHistory.Intact.apply [DecidableEq α] {s : StackHistory α} (h : s.Intact)
    (call : StackCall α) : ∃ s', call.apply s = .ok s' ∧ s'.Intact := by
  obtain ⟨xs, hstack, hheld⟩ := h
  cases call with
  | push item =>
    obtain ⟨l', hpush, hstack'⟩ := hstack.listAdd item
    refine ⟨⟨l', item ::ₘ s.held⟩, by simp [StackCall.apply, hpush], _, hstack', ?_⟩
    rw [← hheld, Multiset.cons_coe, Multiset.coe_eq_coe]
    exact List.perm_append_singleton item xs
  | insert index item =>
    rcases listInsert_cases hstack index item with ⟨hle, l', hinsert, hstack'⟩ | ⟨-, hinsert⟩
    · refine ⟨⟨l', item ::ₘ s.held⟩, by simp [StackCall.apply, hinsert], _, hstack', ?_⟩
      rw [← hheld, Multiset.cons_coe, Multiset.coe_eq_coe]
      exact List.perm_insertIdx item xs (by omega)
    · exact ⟨s, by simp [StackCall.apply, hinsert], xs, hstack, hheld⟩
  | pop =>
    obtain ⟨l', hpop, hstack'⟩ := stackPop_eq hstack
    refine ⟨⟨l', _⟩, by simp [StackCall.apply, hpop]; rfl, _, hstack', ?_⟩
    rcases List.eq_nil_or_concat' xs with rfl | ⟨ys, y, rfl⟩
    · simpa using hheld
    have herase : (s.held).erase y = ys := by
      rw [← hheld, Multiset.coe_eq_coe.mpr (List.perm_append_singleton y ys),
        ← Multiset.cons_coe, Multiset.erase_cons_head]
    simp [herase]

theorem StackHistory.Intact.calls [DecidableEq α] {s : StackHistory α} (h : s.Intact)
    (calls : List (StackCall α)) : ∃ s', calls.foldlM StackCall.apply s = .ok s' ∧ s'.Intact := by
  induction calls generalizing s with
  | nil => exact ⟨s, rfl, h⟩
  | cons call calls ih =>
    obtain ⟨s₁, hcall, h₁⟩ := h.apply call
    obtain ⟨s', hcalls, h'⟩ := ih h₁
    exact ⟨s', by rw [List.foldlM_cons, hcall, ok_bind, hcalls], h'⟩

/-- After every sequence of calls the stack is a doubly linked list, whose elements are those that
have been pushed or inserted and not popped. `stack_front` and `stack_pop` give the one at the
tail, and a push followed by a pop gives the item back and changes nothing. -/
theorem stack_of_calls [DecidableEq α] (calls : List (StackCall α)) :
    ∃ s, calls.foldlM StackCall.apply ⟨stackCreate, 0⟩ = .ok s ∧ s.stack.WellFormed ∧
      ↑s.stack.items = s.held ∧ stackFront s.stack = .ok s.stack.items.getLast? ∧
      (∃ l, stackPop s.stack = .ok (s.stack.items.getLast?, l) ∧ l.WellFormed ∧
        l.items = s.stack.items.dropLast) ∧
      ∀ x, ∃ l l', stackPush s.stack x = .ok l ∧ stackPop l = .ok (some x, l') ∧
        l'.WellFormed ∧ l'.items = s.stack.items := by
  have hstart : (⟨stackCreate, 0⟩ : StackHistory α).Intact := ⟨[], isStack_listCreate, rfl⟩
  obtain ⟨s, hcalls, xs, hstack, hheld⟩ := hstart.calls calls
  obtain ⟨l, hpop, hpopped⟩ := stackPop_eq hstack
  refine ⟨s, hcalls, hstack.wellFormed, ?_, ?_, ⟨l, ?_, hpopped.wellFormed, ?_⟩, fun x => ?_⟩
  · rw [hstack.items_eq, hheld]
  · rw [hstack.items_eq]
    exact hstack.listGetTail
  · rw [hstack.items_eq, hpop]
  · rw [hstack.items_eq, hpopped.items_eq]
  · obtain ⟨l₁, hpush, hpushed⟩ := hstack.listAdd x
    obtain ⟨l₂, hpop₂, hrestored⟩ := hpushed.stackPop xs x
    refine ⟨l₁, l₂, hpush, hpop₂, hrestored.wellFormed, ?_⟩
    rw [hstack.items_eq, hrestored.items_eq]

end Tinker.Collections
