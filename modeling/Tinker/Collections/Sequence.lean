import Mathlib.Tactic
import Tinker.Collections.UnboundedList

/-!
# The list as a sequence

`Holds l ns` says that the forward chain of a list holds the nodes `ns`, and that its counter, its
tail pointer and the pool agree with them. Under it every operation that only walks forward returns,
and acts on the sequence of items as its name says. Nothing is asked of the `prev` pointers.
-/

namespace Tinker.Collections

open Tinker.Lib Function Exec ListT

variable {α : Type} {l : ListT α} {ns ms : List (ℕ × α)} {a b : ℕ} {n : Node α} {x : α}
  {p q : Option ℕ} {mem : Memory α}

/-- The forward chain of the list holds exactly the nodes `ns`. -/
structure Holds (l : ListT α) (ns : List (ℕ × α)) : Prop where
  seg : Seg l.mem l.head ns none
  size_eq : l.size = ns.length
  tail_eq : l.tail = lastPtr none ns
  fresh : ∀ a, l.brk ≤ a → l.mem a = none

/-! ## Reading and writing one element -/

namespace ListT

theorem load_of_mem (h : l.mem a = some n) : l.load (some a) = .ok n := by
  simp [load, h]

theorem store_of_mem (h : l.mem a = some n) (f : Node α → Node α) :
    l.store (some a) f = .ok { l with mem := update l.mem a (some (f n)) } := by
  simp [store, h]

theorem setNext_of_mem (h : l.mem a = some n) :
    l.setNext (some a) q =
      .ok { l with mem := update l.mem a (some { n with next := q }) } :=
  store_of_mem h _

theorem setPrev_of_mem (h : l.mem a = some n) :
    l.setPrev (some a) q =
      .ok { l with mem := update l.mem a (some { n with prev := q }) } :=
  store_of_mem h _

end ListT

namespace Holds

theorem nodup (h : Holds l ns) : (ns.map Prod.fst).Nodup := h.seg.nodup

theorem brk_not_mem (h : Holds l ns) : l.brk ∉ ns.map Prod.fst := by
  intro hmem
  obtain ⟨n, hn⟩ := h.seg.live hmem
  rw [h.fresh _ le_rfl] at hn
  cases hn

theorem lt_brk (h : Holds l ns) (ha : l.mem a = some n) : a < l.brk := by
  by_contra hge
  rw [h.fresh a (by omega)] at ha
  cases ha

end Holds

theorem holds_listCreate : Holds (listCreate : ListT α) [] :=
  ⟨rfl, rfl, rfl, fun _ _ => rfl⟩

/-! ## Appending -/

theorem listAdd_of_tail_none (h : l.tail = none) :
    listAdd l x = .ok ⟨l.size + 1, some l.brk, some l.brk,
      update l.mem l.brk (some ⟨x, none, none⟩), l.brk + 1⟩ := by
  simp [listAdd, alloc, h]

theorem listAdd_of_tail_some (h : l.tail = some a) (ha : l.mem a = some n) (hlt : a < l.brk) :
    listAdd l x = .ok ⟨l.size + 1, l.head, some l.brk,
      update (update l.mem a (some { n with next := some l.brk })) l.brk
        (some ⟨x, none, some a⟩), l.brk + 1⟩ := by
  have hne : a ≠ l.brk := hlt.ne
  have hmem : (l.alloc x).mem a = some n := by simp [alloc, hne, ha]
  have hnew : update (l.alloc x).mem a (some { n with next := some l.brk }) l.brk =
      some ⟨x, none, none⟩ := by simp [alloc, hne.symm]
  simp only [listAdd]
  rw [show (l.alloc x).tail = some a from h]
  simp only [setNext_of_mem hmem, ok_bind]
  rw [setPrev_of_mem (n := ⟨x, none, none⟩) hnew]
  simp only [ok_bind, pure_eq_ok, Except.ok.injEq]
  congr 1
  funext b
  by_cases hb : b = l.brk
  · simp [hb]
  · by_cases hba : b = a <;> simp [hb, hba, alloc, hne]

theorem Holds.listAdd (h : Holds l ns) (x : α) :
    ∃ l', listAdd l x = .ok l' ∧ Holds l' (ns ++ [(l.brk, x)]) := by
  have hfresh := h.brk_not_mem
  rcases List.eq_nil_or_concat' ns with rfl | ⟨ns, ⟨a, y⟩, rfl⟩
  · refine ⟨_, listAdd_of_tail_none h.tail_eq, ?_, ?_, rfl, ?_⟩
    · simp [Seg]
    · simp [h.size_eq]
    intro b hb
    have hb' : l.brk + 1 ≤ b := hb
    change update l.mem l.brk _ b = none
    rw [update_of_ne (by omega)]
    exact h.fresh b (by omega)
  obtain ⟨r, hleft, rfl, n, hn, hy, hend⟩ := seg_append.mp h.seg
  have hlt := h.lt_brk hn
  refine ⟨_, listAdd_of_tail_some (by simpa using h.tail_eq) hn hlt, ?_, ?_, ?_, ?_⟩
  · have hnodup := h.nodup
    simp only [List.map_append, List.map_cons, List.map_nil] at hnodup hfresh
    have ha : a ∉ ns.map Prod.fst := by
      intro hmem
      exact (List.nodup_append.mp hnodup).2.2 a hmem a (by simp) rfl
    simp only [List.append_assoc]
    refine seg_append.mpr ⟨some a, hleft.congr fun b hb => ?_, ?_⟩
    · have hba : b ≠ a := fun hba => ha (hba ▸ hb)
      have hbb : b ≠ l.brk := fun hbb => hfresh (by simp [← hbb, hb])
      simp [hba, hbb]
    have hne : a ≠ l.brk := hlt.ne
    exact ⟨rfl, { n with next := some l.brk }, by simp [hne], hy,
      rfl, ⟨x, none, some a⟩, by simp, rfl, rfl⟩
  · simp [h.size_eq]
  · simp [lastPtr]
  intro b hb
  have hb' : l.brk + 1 ≤ b := hb
  change update (update l.mem a _) l.brk _ b = none
  rw [update_of_ne (by omega), update_of_ne (by omega)]
  exact h.fresh b (by omega)

/-! ## Removing -/

theorem exists_start (h : Seg mem p (ms ++ (a, x) :: ns) none) : ∃ c, p = some c := by
  have hstart := h.start
  cases ms with
  | nil => exact ⟨a, by simpa using hstart⟩
  | cons node ms => exact ⟨node.1, by simpa using hstart⟩

theorem listSeek_eq (h : Seg l.mem p (ms ++ (a, x) :: ns) none) :
    listSeek l ms.length q p = .ok (lastPtr q ms, some a) := by
  induction ms generalizing p q with
  | nil =>
    obtain ⟨rfl, -⟩ := h
    simp [listSeek]
  | cons node ms ih =>
    obtain ⟨rfl, n, hn, -, hrest⟩ := h
    obtain ⟨c, hc⟩ := exists_start hrest
    simp only [List.length_cons, listSeek, load_of_mem hn, ok_bind, hc]
    rw [← hc, ih hrest, lastPtr_cons]

theorem listRemove_zero (h : Holds l ((a, x) :: ns)) (hn : l.mem a = some n) :
    listRemove l 0 = .ok (true,
      ⟨ns.length, n.next, lastPtr none ns, update l.mem a none, l.brk⟩) := by
  obtain ⟨hhead, n', hn', -, hrest⟩ := h.seg
  cases hn.symm.trans hn'
  have hsize := h.size_eq
  have htail := h.tail_eq
  cases ns with
  | nil =>
    have hnext : n.next = none := hrest
    simp [listRemove, listSeek, hsize, hhead, free, hn, hnext]
  | cons node ns =>
    obtain ⟨b, y⟩ := node
    rw [lastPtr_cons, lastPtr_of_ne_nil (q := none) (by simp)] at htail
    have hnot : some a ≠ l.tail := by
      intro hcontra
      have hnodup := h.nodup
      simp only [List.map_cons, List.nodup_cons] at hnodup
      refine hnodup.1 ?_
      have hlast : ((b :: ns.map Prod.fst).getLast?) = some a := by
        rw [htail] at hcontra
        simpa [lastPtr] using hcontra.symm
      exact List.mem_of_getLast? hlast
    simp only [List.length_cons] at hsize
    have hsize1 : l.size ≠ 1 := by omega
    have hsize0 : 0 < l.size := by omega
    simp only [listRemove, hsize0, ↓reduceIte, listSeek, ok_bind, hhead, ne_eq,
      not_true_eq_false, false_and, and_false, hsize1, reduceCtorEq, not_false_eq_true, hnot,
      load_of_mem hn, pure_eq_ok, List.length_cons]
    simp [free, hn, hsize, htail]

theorem listRemove_succ {m : Node α} {y : α} (h : Holds l (ms ++ (b, y) :: (a, x) :: ns))
    (hm : l.mem b = some m) (hn : l.mem a = some n) :
    listRemove l (ms.length + 1) = .ok (true,
      ⟨l.size - 1, l.head, if ns = [] then some b else l.tail,
        update (update l.mem b (some { m with next := n.next })) a none,
        l.brk⟩) := by
  have hnodup := h.nodup
  have hsize := h.size_eq
  have htail := h.tail_eq
  simp only [List.length_append, List.length_cons] at hsize
  have hlt : ms.length + 1 < l.size := by omega
  have hsize1 : l.size ≠ 1 := by omega
  have hsplit : ms ++ (b, y) :: (a, x) :: ns = (ms ++ [(b, y)]) ++ (a, x) :: ns := by simp
  have hseek : listSeek l (ms.length + 1) l.head l.head = .ok (some b, some a) := by
    have hseg := h.seg
    rw [hsplit] at hseg
    simpa using listSeek_eq (q := l.head) hseg
  have hba : b ≠ a := by
    rintro rfl
    simp [List.nodup_append] at hnodup
  have hhead : some a ≠ l.head := by
    intro hcontra
    have hstart := h.seg.start
    rw [← hcontra] at hstart
    cases ms with
    | nil => exact hba (by simpa using hstart.symm)
    | cons node ms =>
      have : node.1 = a := by simpa using hstart.symm
      simp [← this, List.nodup_append] at hnodup
  have htail' : some a = l.tail ↔ ns = [] := by
    rw [htail, hsplit]
    constructor
    · intro hlast
      by_contra hne
      obtain ⟨ns', ⟨c, z⟩, rfl⟩ := (List.eq_nil_or_concat' ns).resolve_left hne
      have hc : a = c := by
        have hassoc : ms ++ [(b, y)] ++ (a, x) :: (ns' ++ [(c, z)]) =
            (ms ++ [(b, y)] ++ (a, x) :: ns') ++ [(c, z)] := by simp
        rw [hassoc, lastPtr_concat] at hlast
        exact Option.some.inj hlast
      simp [hc, List.nodup_append] at hnodup
    rintro rfl
    exact lastPtr_concat.symm
  have hload : l.load (some a) = .ok n := load_of_mem hn
  have hupd : update l.mem b (some { m with next := n.next }) a = some n := by
    rw [update_of_ne hba.symm, hn]
  simp only [listRemove, hlt, ↓reduceIte, hseek, ok_bind, ne_eq, reduceCtorEq,
    not_false_eq_true, Option.some.injEq, hba, and_self, hload, setNext_of_mem hm, hsize1]
  rw [setPrev_of_mem (n := n) hupd]
  have hmem : update (update (update l.mem b
      (some { m with next := n.next })) a (some { n with prev := some b })) a none =
      update (update l.mem b (some { m with next := n.next })) a none := by
    simp
  by_cases hns : ns = []
  · have ht : l.tail = some a := (htail'.mpr hns).symm
    simp [ht, hns, hhead, hsize1, free, hmem]
  have hnt : some a ≠ l.tail := fun hcontra => hns (htail'.mp hcontra)
  simp [hnt, hns, hhead, hsize1, free, hmem]

theorem exists_split_succ {i : ℕ} (hi : i + 1 < ns.length) :
    ∃ (ms : List (ℕ × α)) (b : ℕ) (y : α) (a : ℕ) (x : α) (ns' : List (ℕ × α)),
      ns = ms ++ (b, y) :: (a, x) :: ns' ∧ ms.length = i := by
  refine ⟨ns.take i, ns[i].1, ns[i].2, ns[i + 1].1, ns[i + 1].2, ns.drop (i + 2), ?_, ?_⟩
  · have hdrop : ns.drop i = ns[i] :: ns[i + 1] :: ns.drop (i + 2) := by
      rw [List.drop_eq_getElem_cons (by omega), List.drop_eq_getElem_cons hi]
    rw [← hdrop, List.take_append_drop]
  simp
  omega

theorem eraseIdx_split {ms ns : List (ℕ × α)} {b : ℕ} {y : α} :
    (ms ++ (b, y) :: (a, x) :: ns).eraseIdx (ms.length + 1) = ms ++ (b, y) :: ns := by
  rw [List.eraseIdx_append_of_length_le (by omega)]
  simp

theorem Holds.listRemove (h : Holds l ns) {i : ℕ} (hi : i < ns.length) :
    ∃ l', listRemove l i = .ok (true, l') ∧ Holds l' (ns.eraseIdx i) := by
  have hnodup := h.nodup
  cases i with
  | zero =>
    obtain ⟨⟨a, x⟩, ns, rfl⟩ := List.exists_cons_of_length_pos hi
    obtain ⟨hhead, n, hn, hx, hrest⟩ := h.seg
    refine ⟨_, listRemove_zero h hn, hrest.congr fun b hb => ?_, rfl, rfl, fun b hb => ?_⟩
    · have hba : b ≠ a := by
        rintro rfl
        exact (List.nodup_cons.mp hnodup).1 hb
      exact update_of_ne hba _ _
    change update l.mem a none b = none
    rw [update_apply]
    split
    · rfl
    · exact h.fresh b hb
  | succ i =>
    obtain ⟨ms, b, y, a, x, ns', rfl, rfl⟩ := exists_split_succ hi
    obtain ⟨r, hleft, rfl, m, hm, hy, hnext, n, hn, hx, hrest⟩ := seg_append.mp h.seg
    rw [eraseIdx_split]
    simp only [List.map_append, List.map_cons, List.nodup_append, List.nodup_cons] at hnodup
    obtain ⟨-, ⟨hb, ha, -⟩, hdisj⟩ := hnodup
    have hba : b ≠ a := by
      rintro rfl
      simp at hb
    refine ⟨_, listRemove_succ h hm hn, ?_, ?_, ?_, fun c hc => ?_⟩
    · refine seg_append.mpr ⟨some b, hleft.congr fun c hc => ?_, rfl,
        { m with next := n.next }, ?_, hy, hrest.congr fun c hc => ?_⟩
      · have hca : c ≠ a := hdisj c hc a (by simp)
        have hcb : c ≠ b := hdisj c hc b (by simp)
        simp [hca, hcb]
      · simp [hba]
      have hca : c ≠ a := by
        rintro rfl
        exact ha hc
      have hcb : c ≠ b := by
        rintro rfl
        exact hb (by simp [hc])
      simp [hca, hcb]
    · have hsize := h.size_eq
      simp only [List.length_append, List.length_cons] at hsize ⊢
      omega
    · by_cases hns : ns' = []
      · simp [hns]
      simp only [hns, ↓reduceIte]
      rw [h.tail_eq]
      simp only [lastPtr_append, lastPtr_cons]
      exact lastPtr_of_ne_nil hns
    change update (update l.mem b _) a none c = none
    have hcb : c ≠ b := (Nat.lt_of_lt_of_le (h.lt_brk hm) hc).ne'
    rw [update_apply]
    split
    · rfl
    rw [update_of_ne hcb]
    exact h.fresh c hc

/-! ## Searching -/

theorem listFind_eq [DecidableEq α] (h : Seg l.mem p ns none) (k : ℕ) :
    listFind l x ns.length k p = .ok (((ns.map Prod.snd).idxOf? x).map (k + ·)) := by
  induction ns generalizing p k with
  | nil => rfl
  | cons node ns ih =>
    obtain ⟨a, y⟩ := node
    obtain ⟨rfl, n, hn, rfl, hrest⟩ := h
    simp only [List.length_cons, listFind, load_of_mem hn, ok_bind, List.map_cons,
      List.idxOf?_cons, beq_iff_eq]
    split
    · simp
    rw [ih hrest]
    cases (ns.map Prod.snd).idxOf? x with
    | none => rfl
    | some i =>
      simp only [Option.map_some]
      congr 2
      omega

theorem Holds.listContains [DecidableEq α] (h : Holds l ns) (x : α) :
    listContains l x = .ok (decide (x ∈ ns.map Prod.snd)) := by
  simp only [Collections.listContains, h.size_eq, listFind_eq h.seg, ok_bind,
    pure_eq_ok, Option.isSome_map]
  congr 1
  rw [Bool.eq_iff_iff, List.isSome_idxOf?, decide_eq_true_iff]

theorem Holds.listRemoveItem_eq [DecidableEq α] (h : Holds l ns) (x : α) :
    listRemoveItem l x = match (ns.map Prod.snd).idxOf? x with
      | some i => Collections.listRemove l i
      | none => .ok (false, l) := by
  simp only [listRemoveItem, h.size_eq, listFind_eq h.seg, ok_bind]
  cases (ns.map Prod.snd).idxOf? x with
  | none => rfl
  | some i => simp

theorem listWalk_eq (h : Seg l.mem p (ms ++ (a, x) :: ns) none) :
    listWalk l ms.length p = .ok (some a) := by
  induction ms generalizing p with
  | nil =>
    obtain ⟨rfl, -⟩ := h
    rfl
  | cons node ms ih =>
    obtain ⟨rfl, n, hn, -, hrest⟩ := h
    obtain ⟨c, hc⟩ := exists_start hrest
    simp only [List.length_cons, listWalk, load_of_mem hn, ok_bind, hc]
    rw [← hc, ih hrest]

theorem Holds.listGet (h : Holds l ns) (i : ℕ) : listGet l i = .ok (ns.map Prod.snd)[i]? := by
  unfold Collections.listGet
  by_cases hi : i < ns.length
  · obtain ⟨ms, ⟨a, x⟩, ns', rfl, rfl⟩ : ∃ ms node ns', ns = ms ++ node :: ns' ∧ i = ms.length :=
      ⟨ns.take i, ns[i], ns.drop (i + 1), by simp, by simp; omega⟩
    obtain ⟨r, -, -, n, hn, rfl, -⟩ := seg_append.mp h.seg
    rw [if_pos (by simp [h.size_eq]), listWalk_eq h.seg]
    simp [load_of_mem hn]
  rw [if_neg (by rw [h.size_eq]; exact hi), List.getElem?_eq_none (by simpa using hi)]
  rfl

theorem Holds.listGet_zero (h : Holds l ns) :
    Collections.listGet l 0 = .ok (ns.map Prod.snd).head? := by
  rw [h.listGet, List.head?_eq_getElem?]

theorem Holds.listGetTail (h : Holds l ns) :
    listGetTail l = .ok (ns.map Prod.snd).getLast? := by
  rcases List.eq_nil_or_concat' ns with rfl | ⟨ns, ⟨a, x⟩, rfl⟩
  · simp [Collections.listGetTail, h.tail_eq]
  obtain ⟨r, -, rfl, n, hn, rfl, -⟩ := seg_append.mp h.seg
  simp [Collections.listGetTail, h.tail_eq, load_of_mem hn]

/-! ## The items -/

namespace ListT

def itemAt (l : ListT α) (p : Option ℕ) : Option α := (p.bind l.mem).map Node.item

def itemsFrom (l : ListT α) : ℕ → Option ℕ → List α
  | 0, _ => []
  | k + 1, p =>
    match p.bind l.mem with
    | some n => n.item :: itemsFrom l k n.next
    | none => []

def items (l : ListT α) : List α := l.itemsFrom l.size l.head

end ListT

theorem itemsFrom_eq (h : Seg l.mem p ns none) : l.itemsFrom ns.length p = ns.map Prod.snd := by
  induction ns generalizing p with
  | nil => rfl
  | cons node ns ih =>
    obtain ⟨a, x⟩ := node
    obtain ⟨rfl, n, hn, rfl, hrest⟩ := h
    simp [itemsFrom, hn, ih hrest]

theorem head?_items_of_listGet {o : Option α} (h : listGet l 0 = .ok o) : l.items.head? = o := by
  unfold listGet at h
  split at h
  next hsize =>
    obtain ⟨k, hk⟩ : ∃ k, l.size = k + 1 := ⟨l.size - 1, by omega⟩
    simp only [items, hk, itemsFrom]
    cases hhead : l.head with
    | none =>
      simp only [listWalk, hhead, ok_bind, pure_eq_ok, Except.ok.injEq] at h
      simp [← h]
    | some a =>
      simp only [listWalk, hhead, ok_bind, load, Option.bind_some] at h ⊢
      cases hmem : l.mem a with
      | none => simp [hmem] at h
      | some n => simpa [hmem] using h
  next hsize =>
    have hzero : l.size = 0 := by omega
    simpa [items, hzero, itemsFrom] using h

theorem Holds.items_eq (h : Holds l ns) : l.items = ns.map Prod.snd := by
  rw [items, h.size_eq, itemsFrom_eq h.seg]

end Tinker.Collections
