import Mathlib.Data.List.Basic
import Mathlib.Data.List.Nodup
import Mathlib.Data.Set.Basic
import Mathlib.Logic.Function.Basic

/-!
# Linked chains in a partial memory

A memory maps the addresses of live nodes to their contents; a node carries an
item, a pointer to the next node and a pointer to the previous one. This file
describes the part of such a memory that a chain of `next` pointers spans.

A chain is listed as address/item pairs. `Seg mem p ns q` says that following
`next` from the pointer `p` meets exactly the nodes `ns`, holding the listed items,
and then the pointer `q`. `Links D mem p ns` says that the `prev` pointers of the same
nodes lead back, the first of them to `p`, except where they still point to a node
of `D`: this is what remains once nodes have been unlinked without mending the `prev`
pointer behind them.

## Main results

* `Seg.nodup` — a chain that ends does not meet a node twice
* `seg_append` — chains concatenate
* `Seg.congr` — a chain depends on its own nodes only
-/

namespace Tinker.Lib

/-- A node of a doubly linked chain. Addresses are natural numbers; `none` is the null
pointer. -/
structure Node (α : Type) where
  item : α
  next : Option ℕ
  prev : Option ℕ
  deriving DecidableEq, Repr

abbrev Memory (α : Type) := ℕ → Option (Node α)

variable {α : Type} {mem mem' : Memory α} {p q r : Option ℕ} {a b : ℕ} {x : α}
  {ns ms : List (ℕ × α)} {D D' : Set ℕ}

/-- Following `next` from `p` meets the nodes `ns` with their items and ends at `q`. -/
def Seg (mem : Memory α) : Option ℕ → List (ℕ × α) → Option ℕ → Prop
  | p, [], q => p = q
  | p, (a, x) :: ns, q => p = some a ∧ ∃ n, mem a = some n ∧ n.item = x ∧ Seg mem n.next ns q

/-- The `prev` pointers of the nodes `ns` lead back along the chain, the first to `p`,
unless they are left over from an unlinked node, one of `D`. -/
def Links (D : Set ℕ) (mem : Memory α) : Option ℕ → List (ℕ × α) → Prop
  | _, [] => True
  | p, (a, _) :: ns =>
      (∃ n, mem a = some n ∧ (n.prev = p ∨ ∃ d ∈ D, n.prev = some d)) ∧ Links D mem (some a) ns

/-! ## Chains -/

@[simp] theorem seg_nil : Seg mem p [] q ↔ p = q := Iff.rfl

@[simp] theorem seg_cons : Seg mem p ((a, x) :: ns) q ↔
    p = some a ∧ ∃ n, mem a = some n ∧ n.item = x ∧ Seg mem n.next ns q := Iff.rfl

theorem seg_append : Seg mem p (ns ++ ms) q ↔ ∃ r, Seg mem p ns r ∧ Seg mem r ms q := by
  induction ns generalizing p with
  | nil => simp
  | cons node ns ih =>
    obtain ⟨a, x⟩ := node
    simp only [List.cons_append, seg_cons, ih]
    constructor
    · rintro ⟨hp, n, hn, hx, r, hleft, hright⟩
      exact ⟨r, ⟨hp, n, hn, hx, hleft⟩, hright⟩
    rintro ⟨r, ⟨hp, n, hn, hx, hleft⟩, hright⟩
    exact ⟨hp, n, hn, hx, r, hleft, hright⟩

theorem Seg.congr_next (h : Seg mem p ns q)
    (same : ∀ a ∈ ns.map Prod.fst, ∀ n, mem a = some n →
      ∃ n', mem' a = some n' ∧ n'.item = n.item ∧ n'.next = n.next) :
    Seg mem' p ns q := by
  induction ns generalizing p with
  | nil => exact h
  | cons node ns ih =>
    obtain ⟨a, x⟩ := node
    obtain ⟨hp, n, hn, hx, hrest⟩ := h
    obtain ⟨n', hn', hitem, hnext⟩ := same a (by simp) n hn
    refine ⟨hp, n', hn', hitem.trans hx, ?_⟩
    rw [hnext]
    exact ih hrest fun b hb => same b (by simp [hb])

theorem Seg.congr (h : Seg mem p ns q) (same : ∀ a ∈ ns.map Prod.fst, mem' a = mem a) :
    Seg mem' p ns q :=
  h.congr_next fun a ha n hn => ⟨n, by rw [same a ha, hn], rfl, rfl⟩

theorem Seg.update (h : Seg mem p ns q) (ha : a ∉ ns.map Prod.fst) (n : Option (Node α)) :
    Seg (Function.update mem a n) p ns q :=
  h.congr fun _ hb => Function.update_of_ne (ne_of_mem_of_not_mem hb ha) _ _

theorem Seg.relink {n : Node α} (h : Seg mem p (ns ++ [(a, x)]) q) (ha : a ∉ ns.map Prod.fst)
    (hn : mem a = some n) (r : Option ℕ) :
    Seg (Function.update mem a (some { n with next := r })) p (ns ++ [(a, x)]) r := by
  obtain ⟨m, hleft, hright⟩ := seg_append.mp h
  obtain ⟨rfl, n', hn', hx, -⟩ := seg_cons.mp hright
  cases hn.symm.trans hn'
  refine seg_append.mpr ⟨some a, hleft.update ha _, ?_⟩
  exact ⟨rfl, _, Function.update_self .., hx, rfl⟩

theorem Seg.live (h : Seg mem p ns q) (ha : a ∈ ns.map Prod.fst) : ∃ n, mem a = some n := by
  induction ns generalizing p with
  | nil => simp at ha
  | cons node ns ih =>
    obtain ⟨-, n, hn, -, hrest⟩ := h
    rcases List.mem_cons.mp ha with rfl | ha
    · exact ⟨n, hn⟩
    · exact ih hrest ha

/-- A chain is determined by the pointer it starts from. -/
theorem Seg.unique (h : Seg mem p ns none) (h' : Seg mem p ms none) : ns = ms := by
  induction ns generalizing p ms with
  | nil =>
    obtain rfl : p = none := h
    cases ms with
    | nil => rfl
    | cons node ms => simp [Seg] at h'
  | cons node ns ih =>
    obtain ⟨a, x⟩ := node
    obtain ⟨rfl, n, hn, rfl, hrest⟩ := h
    cases ms with
    | nil => simp [Seg] at h'
    | cons node' ms =>
      obtain ⟨b, y⟩ := node'
      obtain ⟨hb, n', hn', rfl, hrest'⟩ := h'
      cases hb
      cases hn.symm.trans hn'
      rw [ih hrest hrest']

/-- A chain that ends does not meet a node twice: from the second meeting on it
would repeat itself for ever. -/
theorem Seg.nodup (h : Seg mem p ns none) : (ns.map Prod.fst).Nodup := by
  induction ns generalizing p with
  | nil => simp
  | cons node ns ih =>
    have hfull := h
    obtain ⟨rfl, n, hn, hx, hrest⟩ := h
    refine List.nodup_cons.mpr ⟨fun hmem => ?_, ih hrest⟩
    obtain ⟨⟨b, y⟩, hin, rfl⟩ := List.mem_map.mp hmem
    obtain ⟨pre, post, rfl⟩ := List.append_of_mem hin
    obtain ⟨r, -, hagain⟩ := seg_append.mp hrest
    obtain ⟨rfl, -⟩ := seg_cons.mp hagain
    have hlen := congrArg List.length (hfull.unique hagain)
    simp at hlen
    omega

theorem Seg.start (h : Seg mem p ns q) : p = ((ns.map Prod.fst).head?).or q := by
  cases ns with
  | nil => simpa using h
  | cons node ns => simpa using h.1

/-! ## Back pointers -/

@[simp] theorem links_nil : Links D mem p ([] : List (ℕ × α)) := trivial

@[simp] theorem links_cons : Links D mem p ((a, x) :: ns) ↔
    (∃ n, mem a = some n ∧ (n.prev = p ∨ ∃ d ∈ D, n.prev = some d)) ∧
      Links D mem (some a) ns := Iff.rfl

/-- The pointer the `prev` of a node after `ns` leads back to. -/
def lastPtr (p : Option ℕ) (ns : List (ℕ × α)) : Option ℕ :=
  ((ns.map Prod.fst).getLast?).or p

@[simp] theorem lastPtr_nil : lastPtr p ([] : List (ℕ × α)) = p := rfl

@[simp] theorem lastPtr_concat : lastPtr p (ns ++ [(a, x)]) = some a := by
  simp [lastPtr]

theorem lastPtr_cons : lastPtr p ((a, x) :: ns) = lastPtr (some a) ns := by
  cases ns with
  | nil => simp [lastPtr]
  | cons node ns =>
    simp only [lastPtr, List.map_cons, List.getLast?_cons_cons]
    cases h : (node.1 :: ns.map Prod.fst).getLast? with
    | none => simp at h
    | some b => simp

theorem lastPtr_append : lastPtr p (ns ++ ms) = lastPtr (lastPtr p ns) ms := by
  induction ns generalizing p with
  | nil => rfl
  | cons node ns ih =>
    rw [List.cons_append, lastPtr_cons, lastPtr_cons, ih]

theorem lastPtr_some_cases (a : ℕ) (ns : List (ℕ × α)) : lastPtr (some a) ns = some a ∧ ns = [] ∨
    ∃ ms b x, ns = ms ++ [(b, x)] ∧ lastPtr (some a) ns = some b := by
  rcases List.eq_nil_or_concat' ns with rfl | ⟨ms, ⟨b, x⟩, rfl⟩
  · exact .inl ⟨rfl, rfl⟩
  · exact .inr ⟨ms, b, x, rfl, lastPtr_concat⟩

theorem lastPtr_of_ne_nil (h : ns ≠ []) : lastPtr p ns = lastPtr q ns := by
  obtain ⟨ns', ⟨a, x⟩, rfl⟩ := (List.eq_nil_or_concat' ns).resolve_left h
  rw [lastPtr_concat, lastPtr_concat]

theorem links_append : Links D mem p (ns ++ ms) ↔
    Links D mem p ns ∧ Links D mem (lastPtr p ns) ms := by
  induction ns generalizing p with
  | nil => simp
  | cons node ns ih =>
    obtain ⟨a, x⟩ := node
    simp only [List.cons_append, links_cons, ih, lastPtr_cons, and_assoc]

theorem Links.congr (h : Links D mem p ns) (sub : D ⊆ D')
    (same : ∀ a ∈ ns.map Prod.fst, (mem' a).map Node.prev = (mem a).map Node.prev) :
    Links D' mem' p ns := by
  induction ns generalizing p with
  | nil => trivial
  | cons node ns ih =>
    obtain ⟨a, x⟩ := node
    obtain ⟨⟨n, hn, hp⟩, hrest⟩ := h
    have ha := same a (by simp)
    rw [hn, Option.map_some, Option.map_eq_some_iff] at ha
    obtain ⟨n', hn', hprev⟩ := ha
    refine ⟨⟨n', hn', ?_⟩, ih hrest fun b hb => same b (by simp [hb])⟩
    rw [hprev]
    exact hp.imp_right fun ⟨d, hd, hdp⟩ => ⟨d, sub hd, hdp⟩

/-- Once the node in front of a chain is unlinked, the first `prev` pointer is left over. -/
theorem Links.unlink (h : Links D mem (some a) ns) (ha : a ∈ D) : Links D mem q ns := by
  cases ns with
  | nil => trivial
  | cons node ns =>
    obtain ⟨⟨n, hn, hp⟩, hrest⟩ := h
    refine ⟨⟨n, hn, .inr ?_⟩, hrest⟩
    rcases hp with hp | hp
    · exact ⟨a, ha, hp⟩
    · exact hp

end Tinker.Lib
