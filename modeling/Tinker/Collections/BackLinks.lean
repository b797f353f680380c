import Tinker.Collections.Sequence

/-!
# Back links, queues and stacks

`list_remove` unlinks an element without mending the `prev` pointer of the element
behind it, so a list that is used as a queue keeps `prev` pointers to freed elements.
`IsQueue` is what a list satisfies that is added to and removed from anywhere,
`IsStack` what a list satisfies that only loses its last element.
-/

namespace Tinker.Collections

open Tinker.Lib Function Exec ListT

variable {α : Type} {l l' : ListT α} {ns ms : List (ℕ × α)} {a b : ℕ} {n m : Node α} {x y : α}
  {xs : List α} {p q : Option ℕ} {D : Set ℕ}

def ListT.dead (l : ListT α) : Set ℕ := {d | d < l.brk ∧ l.mem d = none}

/-- The list holds the items `xs`; `prev` pointers may be left over from freed elements. -/
def IsQueue (l : ListT α) (xs : List α) : Prop :=
  ∃ ns, Holds l ns ∧ Links l.dead l.mem none ns ∧ ns.map Prod.snd = xs

/-- The list holds the items `xs` and every `prev` pointer is right. -/
def IsStack (l : ListT α) (xs : List α) : Prop :=
  ∃ ns, Holds l ns ∧ Links ∅ l.mem none ns ∧ ns.map Prod.snd = xs

/-! ## Adding -/

theorem listAdd_prev (h : Holds l ns) (hl : listAdd l x = .ok l') :
    l'.brk = l.brk + 1 ∧ (l'.mem l.brk).map Node.prev = some l.tail ∧
      ∀ c ≠ l.brk, (l'.mem c).map Node.prev = (l.mem c).map Node.prev := by
  rcases List.eq_nil_or_concat' ns with rfl | ⟨ns, ⟨a, y⟩, rfl⟩
  · have htail : l.tail = none := h.tail_eq
    rw [listAdd_of_tail_none htail, Except.ok.injEq] at hl
    subst hl
    refine ⟨rfl, by simp [htail], fun c hc => by simp [hc]⟩
  obtain ⟨r, -, rfl, n, hn, -, -⟩ := seg_append.mp h.seg
  have htail : l.tail = some a := by simpa using h.tail_eq
  rw [listAdd_of_tail_some htail hn (h.lt_brk hn), Except.ok.injEq] at hl
  subst hl
  refine ⟨rfl, by simp [htail], fun c hc => ?_⟩
  by_cases hca : c = a
  · simp [hca, (h.lt_brk hn).ne, hn]
  · simp [hc, hca]

theorem Holds.links_listAdd (h : Holds l ns) (hlinks : Links D l.mem none ns)
    (hl : Collections.listAdd l x = .ok l') : Links D l'.mem none (ns ++ [(l.brk, x)]) := by
  obtain ⟨-, hnew, hsame⟩ := listAdd_prev h hl
  obtain ⟨node, hnode, hprev⟩ := Option.map_eq_some_iff.mp hnew
  refine links_append.mpr ⟨hlinks.congr subset_rfl fun c hc => hsame c ?_, ⟨node, hnode, .inl ?_⟩,
    trivial⟩
  · rintro rfl
    exact h.brk_not_mem hc
  · rw [hprev, h.tail_eq]

theorem dead_subset_listAdd (h : Holds l ns) (hl : listAdd l x = .ok l') : l.dead ⊆ l'.dead := by
  obtain ⟨hbrk, -, hsame⟩ := listAdd_prev h hl
  rintro d ⟨hlt, hd⟩
  refine ⟨by omega, ?_⟩
  have := hsame d hlt.ne
  rwa [hd, Option.map_none, Option.map_eq_none_iff] at this

theorem IsQueue.listAdd (h : IsQueue l xs) (x : α) :
    ∃ l', listAdd l x = .ok l' ∧ IsQueue l' (xs ++ [x]) := by
  obtain ⟨ns, hholds, hlinks, rfl⟩ := h
  obtain ⟨l', hl, hholds'⟩ := hholds.listAdd x
  refine ⟨l', hl, _, hholds', ?_, by simp⟩
  exact (hholds.links_listAdd hlinks hl).congr (dead_subset_listAdd hholds hl) fun _ _ => rfl

theorem IsStack.listAdd (h : IsStack l xs) (x : α) :
    ∃ l', listAdd l x = .ok l' ∧ IsStack l' (xs ++ [x]) := by
  obtain ⟨ns, hholds, hlinks, rfl⟩ := h
  obtain ⟨l', hl, hholds'⟩ := hholds.listAdd x
  exact ⟨l', hl, _, hholds', hholds.links_listAdd hlinks hl, by simp⟩

theorem isQueue_listCreate : IsQueue (listCreate : ListT α) [] :=
  ⟨[], holds_listCreate, trivial, rfl⟩

theorem isStack_listCreate : IsStack (listCreate : ListT α) [] :=
  ⟨[], holds_listCreate, trivial, rfl⟩

/-! ## Removing from a queue -/

theorem Holds.listRemove_prev {i : ℕ} (h : Holds l (ms ++ (a, x) :: ns)) (hi : ms.length = i)
    (hl : Collections.listRemove l i = .ok (true, l')) :
    l'.brk = l.brk ∧ l'.mem a = none ∧
      ∀ c ≠ a, (l'.mem c).map Node.prev = (l.mem c).map Node.prev := by
  subst hi
  obtain ⟨r, -, rfl, n, hn, -, -⟩ := seg_append.mp h.seg
  rcases List.eq_nil_or_concat' ms with rfl | ⟨ms, ⟨b, y⟩, rfl⟩
  · rw [List.nil_append] at h
    rw [List.length_nil, listRemove_zero h hn, Except.ok.injEq, Prod.mk.injEq] at hl
    obtain ⟨-, rfl⟩ := hl
    exact ⟨rfl, by simp, fun c hc => by simp [hc]⟩
  rw [List.append_assoc] at h
  obtain ⟨r, -, rfl, m, hm, -, -⟩ := seg_append.mp h.seg
  have hlength : (ms ++ [(b, y)]).length = ms.length + 1 := by simp
  rw [hlength, listRemove_succ h hm hn, Except.ok.injEq, Prod.mk.injEq] at hl
  obtain ⟨-, rfl⟩ := hl
  refine ⟨rfl, by simp, fun c hc => ?_⟩
  by_cases hcb : c = b
  · subst hcb
    simp [hc, hm]
  · simp [hc, hcb]

theorem Holds.dead_subset_listRemove {i : ℕ} (h : Holds l (ms ++ (a, x) :: ns))
    (hi : ms.length = i) (hl : Collections.listRemove l i = .ok (true, l')) :
    l.dead ⊆ l'.dead ∧ a ∈ l'.dead := by
  obtain ⟨hbrk, hfree, hsame⟩ := h.listRemove_prev hi hl
  obtain ⟨r, -, rfl, n, hn, -, -⟩ := seg_append.mp h.seg
  refine ⟨fun d hd => ⟨hbrk ▸ hd.1, ?_⟩, hbrk ▸ h.lt_brk hn, hfree⟩
  by_cases hda : d = a
  · rw [hda, hfree]
  have hprev := hsame d hda
  rwa [hd.2, Option.map_none, Option.map_eq_none_iff] at hprev

theorem exists_split {i : ℕ} (hi : i < ns.length) :
    ∃ ms a x ps, ns = ms ++ (a, x) :: ps ∧ ms.length = i ∧ ns.eraseIdx i = ms ++ ps :=
  ⟨ns.take i, ns[i].1, ns[i].2, ns.drop (i + 1), by simp, by simp; omega,
    List.eraseIdx_eq_take_drop_succ ..⟩

theorem Holds.links_listRemove {i : ℕ} (h : Holds l ns) (hi : i < ns.length)
    (hlinks : Links l.dead l.mem none ns) (hl : Collections.listRemove l i = .ok (true, l')) :
    Links l'.dead l'.mem none (ns.eraseIdx i) := by
  obtain ⟨ms, a, x, ps, rfl, hlength, herase⟩ := exists_split hi
  obtain ⟨-, -, hsame⟩ := h.listRemove_prev hlength hl
  obtain ⟨hsub, hdead⟩ := h.dead_subset_listRemove hlength hl
  have hnodup := h.nodup
  simp only [List.map_append, List.map_cons, List.nodup_append, List.nodup_cons] at hnodup
  obtain ⟨-, ⟨ha, -⟩, hdisj⟩ := hnodup
  obtain ⟨hleft, -, hright⟩ := links_append.mp hlinks
  rw [herase]
  refine links_append.mpr ⟨hleft.congr hsub fun c hc => hsame c ?_, Links.unlink (a := a) ?_ hdead⟩
  · exact hdisj c hc a (by simp)
  refine hright.congr hsub fun c hc => hsame c ?_
  exact fun hca => ha (hca ▸ hc)

theorem IsQueue.listRemove (h : IsQueue l xs) (i : ℕ) :
    ∃ l', listRemove l i = .ok (decide (i < xs.length), l') ∧ IsQueue l' (xs.eraseIdx i) := by
  obtain ⟨ns, hholds, hlinks, rfl⟩ := h
  rw [List.length_map]
  by_cases hi : i < ns.length
  · obtain ⟨l', hl', hholds'⟩ := hholds.listRemove hi
    refine ⟨l', by simpa [hi] using hl', _, hholds', hholds.links_listRemove hi hlinks hl', ?_⟩
    exact (List.eraseIdx_map ..).symm
  refine ⟨l, ?_, ns, hholds, hlinks, ?_⟩
  · rw [Collections.listRemove, if_neg (by rwa [hholds.size_eq])]
    simp [hi]
  · rw [List.eraseIdx_of_length_le (by simpa using hi)]

theorem IsQueue.listRemoveItem [DecidableEq α] (h : IsQueue l xs) (x : α) :
    ∃ l', listRemoveItem l x = .ok (decide (x ∈ xs), l') ∧ IsQueue l' (xs.erase x) := by
  obtain ⟨ns, hholds, hlinks, rfl⟩ := h
  rw [hholds.listRemoveItem_eq, List.erase_eq_eraseIdx]
  cases hidx : (ns.map Prod.snd).idxOf? x with
  | none =>
    have hx : x ∉ ns.map Prod.snd := List.idxOf?_eq_none_iff.mp hidx
    exact ⟨l, by simp [hx], ns, hholds, hlinks, rfl⟩
  | some i =>
    have hx : x ∈ ns.map Prod.snd := by
      rw [← List.isSome_idxOf?, hidx]
      rfl
    obtain ⟨hlt, -⟩ := List.idxOf?_eq_some_iff.mp hidx
    rw [List.length_map] at hlt
    obtain ⟨l', hl', hholds'⟩ := hholds.listRemove hlt
    exact ⟨l', by simpa [hx] using hl', _, hholds', hholds.links_listRemove hlt hlinks hl',
      (List.eraseIdx_map ..).symm⟩

theorem IsQueue.listRemove_zero (h : IsQueue l (x :: xs)) :
    ∃ l', Collections.listRemove l 0 = .ok (true, l') ∧ IsQueue l' xs := by
  obtain ⟨l', hl', hqueue⟩ := h.listRemove 0
  exact ⟨l', by simpa using hl', hqueue⟩

/-! ## Reading -/

theorem IsQueue.size_eq (h : IsQueue l xs) : l.size = xs.length := by
  obtain ⟨ns, hholds, -, rfl⟩ := h
  simpa using hholds.size_eq

theorem IsQueue.listContains [DecidableEq α] (h : IsQueue l xs) (x : α) :
    listContains l x = .ok (decide (x ∈ xs)) := by
  obtain ⟨ns, hholds, -, rfl⟩ := h
  exact hholds.listContains x

theorem IsQueue.listGet_zero (h : IsQueue l xs) : listGet l 0 = .ok xs.head? := by
  obtain ⟨ns, hholds, -, rfl⟩ := h
  exact hholds.listGet_zero

theorem IsQueue.items_eq (h : IsQueue l xs) : l.items = xs := by
  obtain ⟨ns, hholds, -, rfl⟩ := h
  exact hholds.items_eq

theorem IsStack.size_eq (h : IsStack l xs) : l.size = xs.length := by
  obtain ⟨ns, hholds, -, rfl⟩ := h
  simpa using hholds.size_eq

theorem IsStack.listGetTail (h : IsStack l xs) : listGetTail l = .ok xs.getLast? := by
  obtain ⟨ns, hholds, -, rfl⟩ := h
  exact hholds.listGetTail

theorem IsStack.items_eq (h : IsStack l xs) : l.items = xs := by
  obtain ⟨ns, hholds, -, rfl⟩ := h
  exact hholds.items_eq

theorem IsStack.listItGet_listItCreate (h : IsStack l (x :: xs)) :
    listItGet l (listItCreate l) = .ok (some x, listItCreate l) := by
  obtain ⟨ns, hholds, -, hns⟩ := h
  obtain ⟨⟨a, x'⟩, ms, rfl, rfl, -⟩ := List.map_eq_cons_iff.mp hns
  obtain ⟨hhead, n, hn, hx, -⟩ := hholds.seg
  have hcreate : listItCreate l = ⟨some a, 0⟩ := by
    simp [listItCreate, hholds.size_eq, hhead]
  simp [hcreate, listItGet, load_of_mem hn, hx]

/-! ## Removing the last element of a stack -/

theorem listRemoveTail_singleton (h : Holds l [(a, x)]) (hn : l.mem a = some n) :
    listRemoveTail l = .ok (true, ⟨0, none, none, update l.mem a none, l.brk⟩) := by
  have hhead : l.head = some a := h.seg.1
  have htail : l.tail = some a := h.tail_eq
  simp [listRemoveTail, hhead, htail, free, hn, h.size_eq]

theorem listRemoveTail_concat (h : Holds l (ns ++ [(b, y)] ++ [(a, x)])) (hm : l.mem b = some m)
    (hn : l.mem a = some n) (hprev : n.prev = some b) :
    listRemoveTail l = .ok (true, ⟨l.size - 1, l.head, some b,
      update (update l.mem b (some { m with next := none })) a none,
      l.brk⟩) := by
  have hnodup := h.nodup
  have htail : l.tail = some a := by
    rw [h.tail_eq, lastPtr_concat]
  have hba : b ≠ a := by
    rintro rfl
    simp [List.nodup_append] at hnodup
  have hhead : l.head ≠ some a := by
    intro hcontra
    have hstart := h.seg.start
    rw [hcontra] at hstart
    cases ns with
    | nil => exact hba (by simpa using hstart.symm)
    | cons node ns =>
      have : node.1 = a := by simpa using hstart.symm
      simp [← this, List.nodup_append] at hnodup
  simp only [listRemoveTail, htail, hhead, ↓reduceIte, load_of_mem hn, ok_bind, hprev,
    setNext_of_mem hm, pure_eq_ok]
  simp [free, hba.symm, hn]

theorem IsStack.listRemoveTail (h : IsStack l (xs ++ [x])) :
    ∃ l', listRemoveTail l = .ok (true, l') ∧ IsStack l' xs := by
  obtain ⟨ns, hholds, hlinks, hns⟩ := h
  obtain ⟨ms, tl, rfl, rfl, htl⟩ := List.map_eq_append_iff.mp hns
  obtain ⟨⟨a, x'⟩, rfl, rfl⟩ := List.map_eq_singleton_iff.mp htl
  have hnodup := hholds.nodup
  have hfresh := hholds.fresh
  rcases List.eq_nil_or_concat' ms with rfl | ⟨ms, ⟨b, y⟩, rfl⟩
  · obtain ⟨-, n, hn, -, -⟩ := hholds.seg
    refine ⟨_, listRemoveTail_singleton hholds hn, [],
      ⟨rfl, rfl, rfl, fun c hc => ?_⟩, trivial, rfl⟩
    by_cases hca : c = a <;> simp [hca, hfresh c hc]
  obtain ⟨r, hleft, rfl, n, hn, -, -⟩ := seg_append.mp hholds.seg
  obtain ⟨hlinksl, ⟨n', hn', hprev⟩, -⟩ := links_append.mp hlinks
  cases hn.symm.trans hn'
  obtain ⟨r, hpre, rfl, m, hm, hy, hnext⟩ := seg_append.mp hleft
  have hprev : n.prev = some b := by simpa using hprev
  simp only [List.map_append, List.map_cons, List.map_nil, List.nodup_append] at hnodup
  have ha : a ∉ ms.map Prod.fst ++ [b] := fun hmem => hnodup.2.2 a hmem a (by simp) rfl
  have hb : b ∉ ms.map Prod.fst := fun hmem => hnodup.1.2.2 b hmem b (by simp) rfl
  have hba : b ≠ a := by
    rintro rfl
    simp at ha
  have hold : ∀ c ∈ ms.map Prod.fst, c ≠ a ∧ c ≠ b := fun c hc =>
    ⟨fun hca => ha (by simp [← hca, hc]), fun hcb => hb (hcb ▸ hc)⟩
  refine ⟨_, listRemoveTail_concat hholds hm hn hprev, ms ++ [(b, y)], ⟨?_, ?_, ?_, ?_⟩, ?_, rfl⟩
  · refine seg_append.mpr ⟨some b, hpre.congr fun c hc => ?_, rfl, { m with next := none },
      by simp [hba], hy, rfl⟩
    simp [hold c hc]
  · simp [hholds.size_eq]
  · simp
  · intro c hc
    have hcb : c ≠ b := (Nat.lt_of_lt_of_le (hholds.lt_brk hm) hc).ne'
    by_cases hca : c = a <;> simp [hca, hcb, hfresh c hc]
  refine hlinksl.congr subset_rfl fun c hc => ?_
  rcases List.mem_append.mp (by simpa using hc : c ∈ ms.map Prod.fst ++ [b]) with hc | hc
  · simp [hold c hc]
  obtain rfl : c = b := by simpa using hc
  simp [hba, hm]

/-! ## Inserting into a stack -/

section Insert

variable {i : ℕ} (h : Holds l (ms ++ (b, y) :: ns)) (hi : ms.length = i - 1)
  (hsize : i ≤ l.size) (hm : l.mem b = some m)

include h hi

theorem listElementBefore_eq :
    listElementBefore (l.alloc x) i = .ok (some b) := by
  have hseg : Seg (l.alloc x).mem l.head (ms ++ (b, y) :: ns) none := by
    refine h.seg.congr fun c hc => ?_
    have hcb : c ≠ l.brk := fun hcb => h.brk_not_mem (hcb ▸ hc)
    simp [alloc, hcb]
  unfold listElementBefore
  split
  · rw [← hi]
    exact listWalk_eq hseg
  have hnil : ms = [] := by
    rw [← List.length_eq_zero_iff]
    omega
  subst hnil
  exact congrArg _ hseg.1

include hsize hm

theorem listInsert_of_next_none (hnext : m.next = none) (htail : l.tail = some b) :
    listInsert l i x = .ok (true, ⟨l.size + 1, l.head, some l.brk,
      update (update l.mem l.brk (some ⟨x, none, some b⟩)) b
        (some { m with next := some l.brk }), l.brk + 1⟩) := by
  have hb : b ≠ l.brk := (h.lt_brk hm).ne
  have hload : (l.alloc x).load (some b) = .ok m :=
    load_of_mem (by simp [alloc, hb, hm])
  simp only [listInsert, hsize, ↓reduceIte, listElementBefore_eq h hi, ok_bind,
    listLinkBehind, hload, hnext]
  simp [alloc, htail, setPrev, setNext, store, hb, hm]

theorem listInsert_of_next_some {c : ℕ} {k : Node α} (hnext : m.next = some c)
    (hk : l.mem c = some k) (hcb : c ≠ b) (htail : l.tail ≠ some b) :
    listInsert l i x = .ok (true, ⟨l.size + 1, l.head, l.tail,
      update (update
        (update l.mem c (some { k with prev := some l.brk }))
        l.brk (some ⟨x, some c, some b⟩)) b (some { m with next := some l.brk }), l.brk + 1⟩) := by
  have hb : b ≠ l.brk := (h.lt_brk hm).ne
  have hc : c ≠ l.brk := (h.lt_brk hk).ne
  have hload : (l.alloc x).load (some b) = .ok m :=
    load_of_mem (by simp [alloc, hb, hm])
  simp only [listInsert, hsize, ↓reduceIte, listElementBefore_eq h hi, ok_bind,
    listLinkBehind, hload, hnext]
  simp [alloc, htail.symm, setPrev, setNext, store, hb, hm, hc, hk, hc.symm, hcb.symm]
  rw [update_comm hc.symm, update_idem]

theorem listInsert_spec (x : α) : ∃ l', listInsert l i x = .ok (true, l') ∧
    l'.size = l.size + 1 ∧ l'.head = l.head ∧ l'.brk = l.brk + 1 ∧
    l'.tail = (if ns = [] then some l.brk else l.tail) ∧
    l'.mem l.brk = some ⟨x, m.next, some b⟩ ∧
    l'.mem b = some { m with next := some l.brk } ∧
    (∀ c k, m.next = some c → l.mem c = some k → l'.mem c = some { k with prev := some l.brk }) ∧
    ∀ c, c ≠ l.brk → c ≠ b → m.next ≠ some c → l'.mem c = l.mem c := by
  have hb : b ≠ l.brk := (h.lt_brk hm).ne
  obtain ⟨r, -, rfl, m', hm', -, hrest⟩ := seg_append.mp h.seg
  cases hm.symm.trans hm'
  cases ns with
  | nil =>
    have hnext : m.next = none := hrest
    refine ⟨_, listInsert_of_next_none h hi hsize hm hnext (by simp [h.tail_eq]), rfl, rfl, rfl,
      rfl, ?_, ?_, ?_, ?_⟩
    · simp [hb.symm, hnext]
    · simp
    · simp [hnext]
    intro c hc hcb _
    simp [hc, hcb]
  | cons node ns =>
    obtain ⟨c, z⟩ := node
    obtain ⟨hnext, k, hk, -, -⟩ := hrest
    have hnodup := h.nodup
    have hc : c ≠ l.brk := (h.lt_brk hk).ne
    have hcb : c ≠ b := by
      rintro rfl
      simp [List.nodup_append] at hnodup
    have htail : l.tail ≠ some b := by
      rw [h.tail_eq, lastPtr_append, lastPtr_cons, lastPtr_of_ne_nil (q := none) (by simp)]
      intro hlast
      have hmem : b ∈ ((c, z) :: ns).map Prod.fst :=
        List.mem_of_getLast? (by simpa [lastPtr] using hlast)
      rw [List.map_append, List.nodup_append, List.map_cons, List.nodup_cons] at hnodup
      exact hnodup.2.1.1 hmem
    refine ⟨_, listInsert_of_next_some h hi hsize hm hnext hk hcb htail, rfl, rfl, rfl,
      by simp, ?_, ?_, ?_, ?_⟩
    · simp [hb.symm, hnext]
    · simp
    · intro c' k' hc' hk'
      cases hnext.symm.trans hc'
      cases hk.symm.trans hk'
      simp [hc, hcb]
    intro d hd hdb hdc
    have hdc : d ≠ c := fun hdc' => hdc (by rw [hnext, hdc'])
    simp [hd, hdb, hdc]

end Insert

/-- `list_insert` puts the item behind the one at the index before it, and behind the
first item for the index 0. -/
theorem IsStack.listInsert (ys zs : List α) (i : ℕ) (h : IsStack l (ys ++ y :: zs))
    (hi : ys.length = i - 1) (x : α) :
    ∃ l', listInsert l i x = .ok (true, l') ∧ IsStack l' (ys ++ y :: x :: zs) := by
  obtain ⟨ns, hholds, hlinks, hns⟩ := h
  obtain ⟨ms, tl, rfl, rfl, htl⟩ := List.map_eq_append_iff.mp hns
  obtain ⟨⟨b, y'⟩, ps, rfl, rfl, rfl⟩ := List.map_eq_cons_iff.mp htl
  rw [List.length_map] at hi
  have hsize : i ≤ l.size := by
    rw [hholds.size_eq, List.length_append, List.length_cons]
    omega
  have hnodup := hholds.nodup
  have hbrk := hholds.brk_not_mem
  obtain ⟨r, hleft, rfl, m, hm, hy, hrest⟩ := seg_append.mp hholds.seg
  obtain ⟨hlinksl, ⟨m', hm', hmprev⟩, hlinksr⟩ := links_append.mp hlinks
  cases hm.symm.trans hm'
  simp only [List.map_append, List.map_cons, List.nodup_append, List.nodup_cons] at hnodup
  obtain ⟨-, ⟨hb, hps⟩, hdisj⟩ := hnodup
  simp only [List.map_append, List.map_cons, List.mem_append, List.mem_cons, not_or] at hbrk
  have hold : ∀ c ∈ ms.map Prod.fst, c ≠ b ∧ c ≠ l.brk := fun c hc =>
    ⟨hdisj c hc b (by simp), fun hcb => hbrk.1 (hcb ▸ hc)⟩
  have hright : ∀ c ∈ ps.map Prod.fst, c ≠ b ∧ c ≠ l.brk := fun c hc =>
    ⟨fun hcb => hb (hcb ▸ hc), fun hcb => hbrk.2.2 (hcb ▸ hc)⟩
  obtain ⟨l', hl', hsz, hhead, hbrk', htail, hnew, hbnew, hcnew, hsame⟩ :=
    listInsert_spec hholds hi hsize hm x
  have hnextmem : ∀ c, m.next = some c → c ∈ ps.map Prod.fst := by
    intro c hc
    have hstart := hrest.start
    rw [hc, Option.or_none] at hstart
    exact List.mem_of_head? hstart.symm
  have hmsame : ∀ c ∈ ms.map Prod.fst, l'.mem c = l.mem c := fun c hc =>
    hsame c (hold c hc).2 (hold c hc).1 fun hnext =>
      hdisj c hc c (List.mem_cons_of_mem _ (hnextmem c hnext)) rfl
  have hbehind : Seg l'.mem m.next ps none ∧ Links ∅ l'.mem (some l.brk) ps := by
    cases ps with
    | nil => exact ⟨hrest, trivial⟩
    | cons node ps =>
      obtain ⟨c, z⟩ := node
      obtain ⟨hnext, k, hk, hz, hend⟩ := hrest
      have hsame' : ∀ d ∈ ps.map Prod.fst, l'.mem d = l.mem d := by
        intro d hd
        obtain ⟨hdb, hdbrk⟩ := hright d (by simp [hd])
        refine hsame d hdbrk hdb fun hcontra => ?_
        rw [hnext, Option.some.injEq] at hcontra
        exact (List.nodup_cons.mp hps).1 (hcontra ▸ hd)
      refine ⟨⟨hnext, _, hcnew c k hnext hk, hz, hend.congr hsame'⟩,
        ⟨_, hcnew c k hnext hk, .inl rfl⟩, ?_⟩
      exact hlinksr.2.congr subset_rfl fun d hd => by rw [hsame' d hd]
  refine ⟨l', hl', ms ++ (b, y') :: (l.brk, x) :: ps, ⟨?_, ?_, ?_, ?_⟩, ?_, by simp⟩
  · rw [hhead]
    refine seg_append.mpr ⟨some b, hleft.congr hmsame, rfl, _, hbnew, hy, rfl, _, hnew, rfl,
      hbehind.1⟩
  · rw [hsz, hholds.size_eq]
    simp only [List.length_append, List.length_cons]
    omega
  · rw [htail, hholds.tail_eq]
    simp only [lastPtr_append, lastPtr_cons]
    split
    next hps => rw [hps, lastPtr_nil]
    next hps => exact lastPtr_of_ne_nil hps
  · intro c hc
    have hcb : c ≠ b := by
      have := hholds.lt_brk hm
      omega
    rw [hsame c (by omega) hcb fun hnext => ?_]
    · exact hholds.fresh c (by omega)
    obtain ⟨k, hk⟩ := hrest.live (hnextmem c hnext)
    have := hholds.lt_brk hk
    omega
  refine links_append.mpr ⟨hlinksl.congr subset_rfl fun c hc => by rw [hmsame c hc], ?_⟩
  exact ⟨⟨_, hbnew, hmprev⟩, ⟨_, hnew, .inl rfl⟩, hbehind.2⟩

end Tinker.Collections
