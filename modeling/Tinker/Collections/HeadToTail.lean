import Tinker.Collections.BackLinks

/-!
# `list_head_to_tail`

The scheduler rotates a queue with `list_head_to_tail`, which makes the first and the last
element change places. With two elements each ends up linked to itself, so that a walk over the
list meets one of them twice and the other not at all. And it writes through the `prev` pointer
of the last element, which `list_remove` may have left pointing to a freed one.
-/

namespace Tinker.Collections

open Tinker.Lib Function Exec ListT

variable {α : Type} {l : ListT α} {ms : List (ℕ × α)} {a b : ℕ} {x : α} {xs : List α} {D : Set ℕ}

/-! ## Exchanging the ends of a queue -/

/-- The element before the last one has been freed: `list_head_to_tail` would write to it. -/
def ListT.TailStale (l : ListT α) : Prop :=
  1 < l.size ∧ ((l.tail.bind l.mem).bind Node.prev).bind l.mem = none

deriving instance Decidable for TailStale

section Swap

variable {c f : ℕ} {na nc nb nf : Node α}
  (hsize : 1 < l.size) (hhead : l.head = some a) (htail : l.tail = some c)
  (ha : l.mem a = some na) (hc : l.mem c = some nc) (hac : a ≠ c)

include hsize hhead htail ha hc hac

theorem listHeadToTail_eq :
    listHeadToTail l = (do
      let l ← setNext ⟨l.size, some c, some a, update (update l.mem c
        (some ⟨nc.item, na.next, none⟩)) a (some ⟨na.item, none, nc.prev⟩), l.brk⟩ nc.prev (some a)
      let l ← l.setPrev na.next l.head
      return (true, l)) := by
  simp [listHeadToTail, hsize.not_ge, hhead, htail, load, ha, hc, setPrev, setNext, store, hac]

theorem listHeadToTail_of_dead {d : ℕ} (hprev : nc.prev = some d) (hd : l.mem d = none) :
    listHeadToTail l = .error .badPointer := by
  have hda : d ≠ a := by
    rintro rfl
    simp [ha] at hd
  have hdc : d ≠ c := by
    rintro rfl
    simp [hc] at hd
  rw [listHeadToTail_eq hsize hhead htail ha hc hac, hprev]
  simp [setNext, store, hda, hdc, hd]

/-- With two elements `list_head_to_tail` leaves each of them linked to itself. -/
theorem listHeadToTail_pair (hnext : na.next = some c) (hprev : nc.prev = some a) :
    ∃ l', listHeadToTail l = .ok (true, l') ∧ l'.size = l.size ∧ l'.head = some c ∧
      l'.mem c = some ⟨nc.item, some c, some c⟩ := by
  rw [listHeadToTail_eq hsize hhead htail ha hc hac, hprev, hnext]
  simp [setNext, setPrev, store, hac.symm]

theorem listHeadToTail_spec (hnext : na.next = some f) (hprev : nc.prev = some b)
    (hf : l.mem f = some nf) (hb : l.mem b = some nb) (hfa : f ≠ a) (hfc : f ≠ c) (hba : b ≠ a)
    (hbc : b ≠ c) :
    ∃ l', listHeadToTail l = .ok (true, l') ∧ l'.size = l.size ∧ l'.head = some c ∧
      l'.tail = some a ∧ l'.brk = l.brk ∧ l'.mem c = some ⟨nc.item, some f, none⟩ ∧
      l'.mem a = some ⟨na.item, none, some b⟩ ∧
      ∀ d, d ≠ a → d ≠ c → l'.mem d = (l.mem d).map fun n =>
        ⟨n.item, if d = b then some a else n.next, if d = f then some c else n.prev⟩ := by
  rw [listHeadToTail_eq hsize hhead htail ha hc hac, hprev, hnext]
  by_cases hfb : f = b
  · subst hfb
    refine ⟨⟨l.size, some c, some a, update (update (update l.mem c
      (some ⟨nc.item, some f, none⟩)) a (some ⟨na.item, none, some f⟩)) f
      (some ⟨nf.item, some a, some c⟩), l.brk⟩, ?_, rfl, rfl, rfl, rfl, ?_, ?_, fun d hda hdc => ?_⟩
    · simp [setNext, setPrev, store, hfa, hfc, hf]
    · simp [hfc.symm, hac.symm]
    · simp [hfa.symm]
    by_cases hdf : d = f
    · simp [hdf, hf]
    · simp [hdf, hda, hdc]
  refine ⟨⟨l.size, some c, some a, update (update (update
    (update l.mem c (some ⟨nc.item, some f, none⟩)) a (some ⟨na.item, none, some b⟩)) b
    (some ⟨nb.item, some a, nb.prev⟩)) f (some ⟨nf.item, nf.next, some c⟩), l.brk⟩,
    ?_, rfl, rfl, rfl, rfl, ?_, ?_, fun d hda hdc => ?_⟩
  · simp [setNext, setPrev, store, hfa, hfc, hf, hba, hbc, hb, hfb]
  · simp [hfc.symm, hac.symm, hbc.symm]
  · simp [hfa.symm, hba.symm]
  by_cases hdf : d = f
  · simp [hdf, hf, hfb]
  by_cases hdb : d = b
  · simp [hdb, hb, Ne.symm hfb]
  · simp [hdf, hda, hdc, hdb]

end Swap

theorem Holds.ends {c : ℕ} {z : α} (h : Holds l ((a, x) :: (ms ++ [(c, z)]))) :
    1 < l.size ∧ l.head = some a ∧ l.tail = some c ∧ a ≠ c ∧ ∃ na nc, l.mem a = some na ∧
      na.item = x ∧ l.mem c = some nc ∧ nc.item = z ∧ Seg l.mem na.next ms (some c) := by
  have hnodup := h.nodup
  obtain ⟨hhead, na, hna, hx, hrest⟩ := h.seg
  obtain ⟨r, hmid, rfl, nc, hnc, hz, -⟩ := seg_append.mp hrest
  refine ⟨?_, hhead, ?_, ?_, na, nc, hna, hx, hnc, hz, hmid⟩
  · simp [h.size_eq]
  · rw [h.tail_eq, lastPtr_cons, lastPtr_concat]
  rintro rfl
  simp at hnodup

theorem links_last {c : ℕ} {z : α} {nc : Node α}
    (h : Links D l.mem none ((a, x) :: (ms ++ [(c, z)]))) (hc : l.mem c = some nc) :
    nc.prev = lastPtr (some a) ms ∨ ∃ d ∈ D, nc.prev = some d := by
  obtain ⟨-, -, ⟨nc', hc', hprev⟩, -⟩ := links_cons.mp h |>.imp_right links_append.mp
  cases hc.symm.trans hc'
  exact hprev

theorem listHeadToTail_of_size_le (h : l.size ≤ 1) : listHeadToTail l = .ok (true, l) := by
  simp [listHeadToTail, h]

theorem Holds.exists_ends {ns : List (ℕ × α)} (h : Holds l ns) (hsize : 1 < l.size) :
    ∃ a x ms c z, ns = (a, x) :: (ms ++ [(c, z)]) := by
  rw [h.size_eq] at hsize
  obtain ⟨⟨a, x⟩, ns, rfl⟩ := List.exists_cons_of_length_pos (by omega : 0 < ns.length)
  have hne : ns ≠ [] := by
    rintro rfl
    simp at hsize
  obtain ⟨ms, ⟨c, z⟩, rfl⟩ := (List.eq_nil_or_concat' ns).resolve_left hne
  exact ⟨a, x, ms, c, z, rfl⟩

theorem IsQueue.exists_ends (h : IsQueue l xs) (hsize : 1 < l.size) :
    ∃ a x ms c z, Holds l ((a, x) :: (ms ++ [(c, z)])) ∧
      Links l.dead l.mem none ((a, x) :: (ms ++ [(c, z)])) ∧
      xs = x :: (ms.map Prod.snd ++ [z]) := by
  obtain ⟨ns, hholds, hlinks, rfl⟩ := h
  obtain ⟨a, x, ms, c, z, rfl⟩ := hholds.exists_ends hsize
  exact ⟨a, x, ms, c, z, hholds, hlinks, by simp⟩

theorem Holds.tailStale_or {c : ℕ} {z : α} {nc : Node α}
    (h : Holds l ((a, x) :: (ms ++ [(c, z)])))
    (hlinks : Links l.dead l.mem none ((a, x) :: (ms ++ [(c, z)]))) (hnc : l.mem c = some nc) :
    (l.TailStale ∧ ∃ d, nc.prev = some d ∧ l.mem d = none) ∨
      (¬ l.TailStale ∧ nc.prev = lastPtr (some a) ms) := by
  obtain ⟨hsize, -, htail, -, na, nc', hna, -, -, -, hmid⟩ := h.ends
  have hiff : l.TailStale ↔ nc.prev.bind l.mem = none := by
    simp [TailStale, hsize, htail, hnc]
  rw [hiff]
  rcases links_last hlinks hnc with hprev | ⟨d, hd, hprev⟩
  · refine .inr ⟨?_, hprev⟩
    rcases lastPtr_some_cases a ms with ⟨hlast, -⟩ | ⟨ms', b, y, rfl, hlast⟩
    · simp [hprev, hlast, hna]
    obtain ⟨nb, hnb⟩ := hmid.live (a := b) (by simp)
    simp [hprev, hlast, hnb]
  · exact .inl ⟨by simp [hprev, hd.2], d, hprev, hd.2⟩

theorem IsQueue.listHeadToTail_of_stale (h : IsQueue l xs) (hstale : l.TailStale) :
    listHeadToTail l = .error .badPointer := by
  obtain ⟨a, x, ms, c, z, hholds, hlinks, -⟩ := h.exists_ends hstale.1
  obtain ⟨hsize, hhead, htail, hac, na, nc, hna, -, hnc, -, -⟩ := hholds.ends
  obtain ⟨-, d, hprev, hd⟩ := (hholds.tailStale_or hlinks hnc).resolve_right fun h => h.1 hstale
  exact listHeadToTail_of_dead hsize hhead htail hna hnc hac hprev hd

/-- With two elements, `list_head_to_tail` hides the one that was first. -/
theorem IsQueue.listHeadToTail_pair {z : α} (h : IsQueue l [x, z]) (hlive : ¬ l.TailStale) :
    ∃ l', listHeadToTail l = .ok (true, l') ∧ l'.items = [z, z] := by
  have hsize : l.size = 2 := h.size_eq
  obtain ⟨a, x', ms, c, z', hholds, hlinks, hxs⟩ := h.exists_ends (by omega)
  obtain rfl : ms = [] := by
    have hlen := congrArg List.length hxs
    simp only [List.length_cons, List.length_append, List.length_map, List.length_nil] at hlen
    exact List.length_eq_zero_iff.mp (by omega)
  obtain ⟨rfl, rfl⟩ : x = x' ∧ z = z' := by simpa using hxs
  obtain ⟨hlt, hhead, htail, hac, na, nc, hna, -, hnc, hz, hmid⟩ := hholds.ends
  obtain ⟨-, hprev⟩ := (hholds.tailStale_or hlinks hnc).resolve_left fun h => hlive h.1
  obtain ⟨l', hl', hsize', hhead', hc⟩ :=
    Collections.listHeadToTail_pair hlt hhead htail hna hnc hac hmid hprev
  refine ⟨l', hl', ?_⟩
  simp [items, itemsFrom, hsize', hsize, hhead', hc, hz]

/-- With three or more elements, `list_head_to_tail` makes the first and the last one change
places, if the last one leads back to the one before it. -/
theorem Holds.listHeadToTail_swap {c : ℕ} {z : α} {nc : Node α}
    (hholds : Holds l ((a, x) :: (ms ++ [(c, z)])))
    (hlinks : Links D l.mem none ((a, x) :: (ms ++ [(c, z)]))) (hms : ms ≠ [])
    (hnc : l.mem c = some nc) (hprev : nc.prev = lastPtr (some a) ms) :
    ∃ l', listHeadToTail l = .ok (true, l') ∧ Holds l' ((c, z) :: (ms ++ [(a, x)])) ∧
      Links D l'.mem none ((c, z) :: (ms ++ [(a, x)])) ∧ l.dead ⊆ l'.dead ∧ ¬ l'.TailStale := by
  obtain ⟨hlt, hhead, htail, hac, na, nc', hna, hx, hnc', hz, hmid⟩ := hholds.ends
  cases hnc.symm.trans hnc'
  have hnodup := hholds.nodup
  simp only [List.map_cons, List.map_append, List.map_nil, List.nodup_cons,
    List.nodup_append] at hnodup
  obtain ⟨hanot, hmsnodup, -, hcnot⟩ := hnodup
  have hmem : ∀ d ∈ ms.map Prod.fst, d ≠ a ∧ d ≠ c := fun d hd =>
    ⟨fun hda => hanot (by simp [← hda, hd]), hcnot d hd c (by simp)⟩
  -- the neighbours of the two ends, which are the same element if there are three
  obtain ⟨⟨f, u⟩, tl, hfirst⟩ := List.exists_cons_of_ne_nil hms
  obtain ⟨pre, ⟨b, v⟩, hlast⟩ := (List.eq_nil_or_concat' ms).resolve_left hms
  have hf : f ∈ ms.map Prod.fst := by simp [hfirst]
  have hb : b ∈ ms.map Prod.fst := by simp [hlast]
  obtain ⟨nf, hnf⟩ := hmid.live hf
  obtain ⟨nb, hnb⟩ := hmid.live hb
  have hnext : na.next = some f := by simpa [hfirst] using hmid.start
  have hprev : nc.prev = some b := by simpa [hlast] using hprev
  obtain ⟨l', hl', hsize', hhead', htail', hbrk', hc', ha', hsame⟩ :=
    listHeadToTail_spec hlt hhead htail hna hnc hac hnext hprev hnf hnb
      (hmem f hf).1 (hmem f hf).2 (hmem b hb).1 (hmem b hb).2
  have hinner : ∀ d ∈ ms.map Prod.fst, ∀ n, l.mem d = some n → l'.mem d =
      some ⟨n.item, if d = b then some a else n.next, if d = f then some c else n.prev⟩ := by
    intro d hd n hn
    rw [hsame d (hmem d hd).1 (hmem d hd).2, hn, Option.map_some]
  refine ⟨l', hl', ⟨?_, ?_, ?_, ?_⟩, ?_, ?_, ?_⟩
  · refine ⟨hhead', _, hc', hz, seg_append.mpr ⟨some a, ?_, rfl, _, ha', hx, rfl⟩⟩
    rw [hlast] at hmid hinner hmsnodup ⊢
    obtain ⟨r, hpre, rfl, nb', hnb', hv, -⟩ := seg_append.mp hmid
    cases hnb.symm.trans hnb'
    rw [← hnext]
    refine seg_append.mpr ⟨some b, hpre.congr_next fun d hd n hn => ?_, rfl, _,
      hinner b (by simp) nb hnb, hv, by simp⟩
    have hdb : d ≠ b := by
      rintro rfl
      simp only [List.map_append, List.nodup_append] at hmsnodup
      exact hmsnodup.2.2 d hd d (by simp) rfl
    exact ⟨_, hinner d (by simp [hd]) n hn, rfl, by simp [hdb]⟩
  · simp [hsize', hholds.size_eq]
  · rw [htail', lastPtr_cons, lastPtr_concat]
  · intro d hd
    rw [hbrk'] at hd
    have hda := hholds.lt_brk hna
    have hdc := hholds.lt_brk hnc
    rw [hsame d (by omega) (by omega), hholds.fresh d hd, Option.map_none]
  · obtain ⟨-, hlinksm⟩ := links_cons.mp hlinks
    have hlinksm := (links_append.mp hlinksm).1
    refine ⟨⟨_, hc', .inl rfl⟩, links_append.mpr ⟨?_, ⟨_, ha', .inl ?_⟩, trivial⟩⟩
    · rw [hfirst] at hlinksm hinner hmsnodup ⊢
      refine ⟨⟨_, hinner f (by simp) nf hnf, .inl (by simp)⟩,
        hlinksm.2.congr subset_rfl fun d hd => ?_⟩
      have hdf : d ≠ f := by
        rintro rfl
        exact (List.nodup_cons.mp hmsnodup).1 hd
      obtain ⟨n, hn⟩ := hmid.live (a := d) (by simp [hfirst, hd])
      rw [hinner d (by simp [hd]) n hn, hn]
      simp [hdf]
    · simp [hlast]
  · rintro d ⟨hdlt, hd⟩
    have hda : d ≠ a := fun hda => by simp [hda, hna] at hd
    have hdc : d ≠ c := fun hdc => by simp [hdc, hnc] at hd
    exact ⟨by omega, by rw [hsame d hda hdc, hd, Option.map_none]⟩
  · simp [TailStale, htail', ha', hinner b hb nb hnb]

theorem IsQueue.listHeadToTail_swap {ys : List α} {z : α} (h : IsQueue l (x :: (ys ++ [z])))
    (hys : ys ≠ []) (hlive : ¬ l.TailStale) :
    ∃ l', listHeadToTail l = .ok (true, l') ∧ IsQueue l' (z :: (ys ++ [x])) ∧ ¬ l'.TailStale := by
  have hsize : l.size = ys.length + 2 := by simpa using h.size_eq
  obtain ⟨a, x', ms, c, z', hholds, hlinks, hxs⟩ := h.exists_ends (by omega)
  obtain ⟨rfl, htl⟩ := List.cons_eq_cons.mp hxs
  obtain ⟨rfl, hend⟩ := List.append_inj' htl rfl
  obtain rfl : z = z' := by simpa using hend
  obtain ⟨-, -, -, -, -, nc, -, -, hnc, -, -⟩ := hholds.ends
  obtain ⟨-, hprev⟩ := (hholds.tailStale_or hlinks hnc).resolve_left fun h => hlive h.1
  obtain ⟨l', hl', hholds', hlinks', hsub, hlive'⟩ :=
    hholds.listHeadToTail_swap hlinks (by simpa using hys) hnc hprev
  exact ⟨l', hl', ⟨_, hholds', hlinks'.congr hsub fun _ _ => rfl, by simp⟩, hlive'⟩

/-! ## Any list -/

theorem ListT.front_of_itemAt (hsize : 1 < l.size) (hx : l.itemAt l.head = some x) :
    listGet l 0 = .ok (some x) ∧ ∃ xs, l.items = x :: xs := by
  obtain ⟨n, hn, rfl⟩ := Option.map_eq_some_iff.mp hx
  obtain ⟨a, hhead, hmem⟩ := Option.bind_eq_some_iff.mp hn
  obtain ⟨i, hi⟩ : ∃ i, l.size = i + 1 := ⟨l.size - 1, by omega⟩
  constructor
  · simp [listGet, hi, listWalk, hhead, load_of_mem hmem]
  · simp [items, hi, itemsFrom, hhead, hmem]

theorem ListT.store_itemAt {l' : ListT α} {p : Option ℕ} {f : Node α → Node α}
    (h : l.store p f = .ok l') (hf : ∀ n, (f n).item = n.item) :
    l'.size = l.size ∧ l'.head = l.head ∧ l'.tail = l.tail ∧ ∀ q, l'.itemAt q = l.itemAt q := by
  unfold store at h
  split at h
  · cases h
  next a =>
    split at h
    next n hn =>
      cases h
      refine ⟨rfl, rfl, rfl, fun q => ?_⟩
      cases q with
      | none => rfl
      | some b =>
        by_cases hba : b = a
        · simp [itemAt, hba, hn, hf]
        · simp [itemAt, hba]
    · cases h

theorem listHeadToTail_ends {l' : ListT α} {r : Bool} (h : listHeadToTail l = .ok (r, l'))
    (hsize : 1 < l.size) :
    l'.size = l.size ∧ l'.head = l.tail ∧ l'.tail = l.head ∧ ∀ q, l'.itemAt q = l.itemAt q := by
  simp only [listHeadToTail, hsize.not_ge, ↓reduceIte] at h
  obtain ⟨na, -, h⟩ := of_bind h
  obtain ⟨nc, -, h⟩ := of_bind h
  obtain ⟨l₁, h₁, h⟩ := of_bind h
  obtain ⟨l₂, h₂, h⟩ := of_bind h
  obtain ⟨l₃, h₃, h⟩ := of_bind h
  obtain ⟨l₄, h₄, h⟩ := of_bind h
  obtain ⟨l₅, h₅, h⟩ := of_bind h
  obtain ⟨l₆, h₆, h⟩ := of_bind h
  cases h
  obtain ⟨s₁, a₁, b₁, i₁⟩ := store_itemAt h₁ fun _ => rfl
  obtain ⟨s₂, a₂, b₂, i₂⟩ := store_itemAt h₂ fun _ => rfl
  obtain ⟨s₃, a₃, b₃, i₃⟩ := store_itemAt h₃ fun _ => rfl
  obtain ⟨s₄, a₄, b₄, i₄⟩ := store_itemAt h₄ fun _ => rfl
  obtain ⟨s₅, a₅, b₅, i₅⟩ := store_itemAt h₅ fun _ => rfl
  obtain ⟨s₆, a₆, b₆, i₆⟩ := store_itemAt h₆ fun _ => rfl
  refine ⟨by rw [s₆, s₅, s₄, s₃]; exact s₂.trans s₁, by rw [a₆, a₅, a₄, a₃]; exact a₂.trans a₁,
    by rw [b₆, b₅, b₄, b₃], fun q => ?_⟩
  rw [i₆, i₅, i₄, i₃]
  exact (i₂ q).trans (i₁ q)

theorem IsQueue.exists_listHeadToTail (h : IsQueue l xs) (hlive : ¬ l.TailStale) :
    ∃ l', listHeadToTail l = .ok (true, l') := by
  by_cases hsize : l.size ≤ 1
  · exact ⟨l, listHeadToTail_of_size_le hsize⟩
  obtain ⟨a, x, ms, c, z, -, -, rfl⟩ := h.exists_ends (by omega)
  by_cases hms : ms.map Prod.snd = []
  · rw [hms] at h
    obtain ⟨l', hl', -⟩ := IsQueue.listHeadToTail_pair h hlive
    exact ⟨l', hl'⟩
  obtain ⟨l', hl', -⟩ := h.listHeadToTail_swap hms hlive
  exact ⟨l', hl'⟩

theorem perm_ends (x z : α) (ys : List α) : (z :: (ys ++ [x])).Perm (x :: (ys ++ [z])) :=
  (List.perm_append_singleton x (z :: ys)).trans ((List.perm_append_singleton z ys).symm.cons x)

/-- If `list_head_to_tail` returns, a queue of two loses the item that was first, and any other
queue keeps its items. -/
theorem IsQueue.perm_or_pair {l' : ListT α} {r : Bool} (h : IsQueue l xs)
    (hl : listHeadToTail l = .ok (r, l')) :
    (xs.length ≠ 2 ∧ ∃ ys, IsQueue l' ys ∧ ys.Perm xs) ∨
      ∃ x z, xs = [x, z] ∧ l'.items = [z, z] := by
  have hlive : ¬ l.TailStale := fun hstale => by
    rw [h.listHeadToTail_of_stale hstale] at hl
    cases hl
  by_cases hsize : l.size ≤ 1
  · rw [listHeadToTail_of_size_le hsize] at hl
    cases hl
    rw [h.size_eq] at hsize
    exact .inl ⟨by omega, xs, h, .refl xs⟩
  obtain ⟨a, x, ms, c, z, -, -, rfl⟩ := h.exists_ends (by omega)
  by_cases hms : ms.map Prod.snd = []
  · rw [hms] at h ⊢
    obtain ⟨l₁, hl₁, hitems⟩ := IsQueue.listHeadToTail_pair h hlive
    cases hl₁.symm.trans hl
    exact .inr ⟨x, z, rfl, hitems⟩
  obtain ⟨l₁, hl₁, hqueue, -⟩ := h.listHeadToTail_swap hms hlive
  cases hl₁.symm.trans hl
  refine .inl ⟨?_, _, hqueue, ?_⟩
  · have hpos := List.length_pos_iff.mpr hms
    simp only [List.length_cons, List.length_append, List.length_nil]
    omega
  · exact perm_ends x z (ms.map Prod.snd)

end Tinker.Collections
