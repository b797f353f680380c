import Tinker.Process.SectionChain

/-!
# The order of the sections

`process_add_mem_sec` at the level of the pointers: a section is linked in behind those that do not
begin behind it. A process whose sections have all been added in this way leads to them in the
order of their virtual addresses.
-/

namespace Tinker

open Tinker.Lib Function Exec

namespace SectionChain

variable {s : SectionChain} {nodes pre mid post added : List (ℕ × MemSection)} {fuel a : ℕ}
  {x : MemSection} {n : Node MemSection} {q cur : Option ℕ}

/-- The loop of `process_add_mem_sec` from `current` on, and what follows it. -/
def addMemSecFrom (s : SectionChain) (new : ℕ) : ℕ → Option ℕ → Option ℕ → Exec SectionChain
  | _, prev, none => s.memSecSetNext prev (some new)
  | 0, _, some _ => .error .diverges
  | fuel + 1, prev, some current => do
    let n ← s.load current
    if (← s.load new).item.virtAddress < n.item.virtAddress then
      let s ← s.memSecSetNext (some new) (some current)
      let s ← s.memSecSetNext prev (some new)
      return if s.firstSection = some current then { s with firstSection := some new } else s
    else addMemSecFrom s new fuel (some current) n.next

def processAddMemSec (s : SectionChain) (fuel new : ℕ) : Exec SectionChain :=
  if s.firstSection = none then return { s with firstSection := some new }
  else s.addMemSecFrom new fuel none s.firstSection

theorem addMemSecFrom_passed (found : s.mem a = some n) (seg : Seg s.mem cur mid q)
    (before : ∀ node ∈ mid, node.2.virtAddress ≤ n.item.virtAddress) (fuel : ℕ)
    (prev : Option ℕ) :
    s.addMemSecFrom a (fuel + mid.length) prev cur =
      s.addMemSecFrom a fuel (lastPtr prev mid) q := by
  induction mid generalizing cur prev with
  | nil =>
    obtain rfl : cur = q := seg
    rfl
  | cons node mid ih =>
    obtain ⟨b, x⟩ := node
    obtain ⟨rfl, m, hm, rfl, hrest⟩ := seg
    have hle : ¬ n.item.virtAddress < m.item.virtAddress :=
      BitVec.not_lt.mpr (before _ List.mem_cons_self)
    have hstep : s.addMemSecFrom a (fuel + mid.length + 1) prev (some b) =
        s.addMemSecFrom a (fuel + mid.length) (some b) m.next := by
      simp only [addMemSecFrom, load_eq hm, load_eq found, ok_bind, if_neg hle]
    rw [List.length_cons, ← Nat.add_assoc, hstep, lastPtr_cons]
    exact ih hrest (fun node h => before node (List.mem_cons_of_mem _ h)) (some b)

theorem memSecSetNext_linked (lists : s.Lists (pre ++ post)) (seg : Seg s.mem q post none)
    (found : s.mem a = some n) (hnext : n.next = q) (ha : a ∉ (pre ++ post).map Prod.fst) :
    ∃ mem, s.memSecSetNext (lastPtr none pre) (some a) = .ok { s with mem } ∧
      Seg mem (if lastPtr none pre = none then some a else s.firstSection)
        (pre ++ (a, n.item) :: post) none ∧
      ∀ c ∉ pre.map Prod.fst, mem c = s.mem c := by
  obtain ⟨hnodup, -, hapart⟩ := nodup_parts lists
  obtain ⟨r, hpre, -⟩ := seg_append.mp lists
  obtain ⟨mem, hset, hled, hsame⟩ := memSecSetNext_lastPtr hpre hnodup (some a)
  rw [List.map_append, List.mem_append, not_or] at ha
  refine ⟨mem, hset, ?_, hsame⟩
  refine seg_append.mpr ⟨some a, hled, rfl, n, (hsame a ha.1).trans found, rfl, ?_⟩
  rw [hnext]
  exact seg.congr fun c hc => hsame c fun h => hapart c h hc

theorem processAddMemSec_eq (lists : s.Lists (pre ++ post)) (found : s.mem a = some n)
    (hnext : n.next = none) (ha : a ∉ (pre ++ post).map Prod.fst)
    (before : ∀ node ∈ pre, node.2.virtAddress ≤ n.item.virtAddress)
    (behind : ∀ node ∈ post, n.item.virtAddress < node.2.virtAddress)
    (enough : (pre ++ post).length ≤ fuel) :
    ∃ s', s.processAddMemSec fuel a = .ok s' ∧ s'.Lists (pre ++ (a, n.item) :: post) ∧
      ∀ c, c ≠ a → c ∉ pre.map Prod.fst → s'.mem c = s.mem c := by
  obtain ⟨r, hpre, hpost⟩ := seg_append.mp lists
  have hloop : s.firstSection ≠ none → ∃ rounds, (post ≠ [] → rounds ≠ 0) ∧
      s.processAddMemSec fuel a = s.addMemSecFrom a rounds (lastPtr none pre) r := by
    intro hne
    obtain ⟨rounds, rfl⟩ := Nat.exists_eq_add_of_le' enough
    refine ⟨rounds + post.length, fun hpost hzero => hpost ?_, ?_⟩
    · exact List.length_eq_zero_iff.mp (by omega)
    rw [processAddMemSec, if_neg hne, List.length_append, Nat.add_comm pre.length,
      ← Nat.add_assoc, addMemSecFrom_passed found hpre before]
  cases post with
  | nil =>
    obtain rfl : r = none := hpost
    obtain ⟨mem, hset, hseg, hsame⟩ := memSecSetNext_linked lists rfl found hnext ha
    cases pre with
    | nil =>
      have hnone : s.firstSection = none := hpre
      refine ⟨{ s with firstSection := some a }, if_pos hnone, ?_, fun c _ _ => rfl⟩
      exact ⟨rfl, n, found, rfl, hnext⟩
    | cons node pre =>
      obtain ⟨rounds, -, heq⟩ := hloop (by rw [hpre.1]; exact Option.some_ne_none _)
      refine ⟨{ s with mem }, heq.trans ?_, hseg, fun c _ hc => hsame c hc⟩
      cases rounds <;> exact hset
  | cons node post =>
    obtain ⟨b, y⟩ := node
    obtain ⟨rfl, m, hm, rfl, hrest⟩ := seg_cons.mp hpost
    obtain ⟨rounds, hrounds, heq⟩ := hloop (by
      rw [hpre.start]
      cases pre <;> exact Option.some_ne_none _)
    obtain ⟨rounds, rfl⟩ := Nat.exists_eq_succ_of_ne_zero (hrounds (List.cons_ne_nil _ _))
    have hlists : Lists { s with mem := update s.mem a (some { n with next := some b }) }
        (pre ++ (b, m.item) :: post) := Seg.update lists ha _
    obtain ⟨c, -, hseg⟩ := seg_append.mp hlists
    obtain rfl : c = some b := hseg.1
    obtain ⟨mem, hset, hlinked, hsame⟩ :=
      memSecSetNext_linked hlists hseg (update_self ..) rfl ha
    have hfirst : s.firstSection = some b ↔ lastPtr none pre = none := by
      cases pre with
      | nil => exact iff_of_true hpre rfl
      | cons node pre =>
        refine iff_of_false (fun h => ?_) (lastPtr_ne_none (List.cons_ne_nil _ _))
        have hb : node.1 = b := Option.some.inj (hpre.1.symm.trans h)
        exact (nodup_parts lists).2.2 b (by simp [hb]) (by simp)
    refine ⟨{ s with
      firstSection := if lastPtr none pre = none then some a else s.firstSection, mem },
      heq.trans ?_, hlinked, fun c hca hc => (hsame c hc).trans (update_of_ne hca _ _)⟩
    simp only [addMemSecFrom, load_eq hm, load_eq found, ok_bind,
      if_pos (behind _ List.mem_cons_self), memSecSetNext_eq found, hset, hfirst]
    split <;> rfl

/-- The sections that have been added, in the order of their addresses, and of their insertion where
the addresses are the same. -/
structure InOrder (added nodes : List (ℕ × MemSection)) : Prop where
  perm : nodes.Perm added
  sorted : nodes.Pairwise fun x y => x.2.virtAddress ≤ y.2.virtAddress
  stable : ∀ v : BitVec 32, nodes.filter (fun node => node.2.virtAddress = v) =
    added.filter fun node => node.2.virtAddress = v
  listed : nodes.map Prod.snd =
    (added.map Prod.snd).foldl (fun sections new => Tinker.processAddMemSec new sections) []

theorem exists_split (sorted : nodes.Pairwise fun x y => x.2.virtAddress ≤ y.2.virtAddress)
    (x : MemSection) : ∃ pre post, nodes = pre ++ post ∧
      (∀ node ∈ pre, node.2.virtAddress ≤ x.virtAddress) ∧
      (∀ node ∈ post, x.virtAddress < node.2.virtAddress) ∧
      Tinker.processAddMemSec x (nodes.map Prod.snd) =
        pre.map Prod.snd ++ x :: post.map Prod.snd := by
  induction nodes with
  | nil => exact ⟨[], [], rfl, by simp, by simp, rfl⟩
  | cons node nodes ih =>
    obtain ⟨hfirst, hrest⟩ := List.pairwise_cons.mp sorted
    by_cases hlt : x.virtAddress < node.2.virtAddress
    · refine ⟨[], node :: nodes, rfl, by simp, fun y hy => ?_, if_pos hlt⟩
      rcases List.mem_cons.mp hy with rfl | hy
      · exact hlt
      · exact Nat.lt_of_lt_of_le hlt (hfirst y hy)
    obtain ⟨pre, post, rfl, hpre, hpost, hadd⟩ := ih hrest
    refine ⟨node :: pre, post, rfl, fun y hy => ?_, hpost, ?_⟩
    · rcases List.mem_cons.mp hy with rfl | hy
      · exact BitVec.not_lt.mp hlt
      · exact hpre y hy
    rw [List.map_cons, Tinker.processAddMemSec, if_neg hlt, hadd]
    rfl

theorem InOrder.insert (order : InOrder added (pre ++ post))
    (before : ∀ node ∈ pre, node.2.virtAddress ≤ x.virtAddress)
    (behind : ∀ node ∈ post, x.virtAddress < node.2.virtAddress)
    (hadd : Tinker.processAddMemSec x ((pre ++ post).map Prod.snd) =
      pre.map Prod.snd ++ x :: post.map Prod.snd) :
    InOrder (added ++ [(a, x)]) (pre ++ (a, x) :: post) where
  perm := List.perm_middle.trans ((order.perm.cons _).trans (List.perm_append_singleton _ _).symm)
  sorted := by
    obtain ⟨hpre, hpost, hcross⟩ := List.pairwise_append.mp order.sorted
    refine List.pairwise_append.mpr ⟨hpre, List.pairwise_cons.mpr
      ⟨fun y hy => BitVec.le_of_lt (behind y hy), hpost⟩, fun y hy z hz => ?_⟩
    rcases List.mem_cons.mp hz with rfl | hz
    · exact before y hy
    · exact hcross y hy z hz
  stable v := by
    rw [List.filter_append, List.filter_append, ← order.stable v, List.filter_append]
    by_cases hv : x.virtAddress = v
    · -- no section that follows begins at the same address
      have hnone : post.filter (fun node => node.2.virtAddress = v) = [] :=
        List.filter_eq_nil_iff.mpr fun y hy => by
          simpa using (Nat.ne_of_lt (hv ▸ behind y hy)).symm ∘ congrArg BitVec.toNat
      simp [hv, hnone]
    · simp [hv]
  listed := by
    have hstep := congrArg (Tinker.processAddMemSec x) order.listed
    rw [hadd] at hstep
    simpa using hstep

/-- Each section that is added keeps the sections in order. -/
theorem addAll_inOrder {old : List (ℕ × MemSection)} (lists : s.Lists nodes)
    (order : InOrder old nodes) (fresh : ((old ++ added).map Prod.fst).Nodup)
    (created : ∀ node ∈ added, ∃ prev, s.mem node.1 = some ⟨node.2, none, prev⟩)
    (enough : (old ++ added).length ≤ fuel) :
    ∃ s' nodes', added.foldlM (fun s node => s.processAddMemSec fuel node.1) s = .ok s' ∧
      s'.Lists nodes' ∧ InOrder (old ++ added) nodes' := by
  induction added generalizing s old nodes with
  | nil => exact ⟨s, nodes, rfl, lists, by rwa [List.append_nil]⟩
  | cons node added ih =>
    obtain ⟨a, x⟩ := node
    obtain ⟨prev, found⟩ := created (a, x) List.mem_cons_self
    obtain ⟨pre, post, rfl, before, behind, hadd⟩ := exists_split order.sorted x
    rw [List.append_cons] at fresh enough ⊢
    have haddress : ((pre ++ post).map Prod.fst).Perm (old.map Prod.fst) := order.perm.map _
    have hparts := fresh
    rw [List.map_append, List.map_append] at hparts
    obtain ⟨hold, -, hlater⟩ := List.nodup_append.mp hparts
    obtain ⟨-, -, hnew⟩ := List.nodup_append.mp hold
    have ha : a ∉ (pre ++ post).map Prod.fst := fun hin =>
      hnew a (haddress.mem_iff.mp hin) a (by simp) rfl
    have hshort : (pre ++ post).length ≤ fuel := by
      rw [order.perm.length_eq]
      simp only [List.length_append] at enough ⊢
      omega
    obtain ⟨s₁, hstep, hlists, hsame⟩ :=
      processAddMemSec_eq lists found rfl ha before behind hshort
    -- the sections that are still to be added are not touched
    have hcreated (node) (hin : node ∈ added) : s₁.mem node.1 = s.mem node.1 := by
      have hmem := List.mem_map_of_mem (f := Prod.fst) hin
      refine hsame _ (fun h => hlater a (by simp) _ hmem h.symm) fun h => ?_
      refine hlater _ (List.mem_append_left _ (haddress.mem_iff.mp ?_)) _ hmem rfl
      rw [List.map_append]
      exact List.mem_append_left _ h
    obtain ⟨s', nodes', hrun, hdone⟩ := ih hlists (order.insert before behind hadd) fresh
      (fun node hin => hcreated node hin ▸ created node (List.mem_cons_of_mem _ hin)) enough
    exact ⟨s', nodes', by rw [List.foldlM_cons, hstep]; exact hrun, hdone⟩

/-- Adding sections to a process that has none sorts them by their virtual addresses, and it is
stable. -/
theorem processAddMemSec_sorts (s : SectionChain) (added : List (ℕ × MemSection)) (fuel : ℕ)
    (empty : s.firstSection = none) (fresh : (added.map Prod.fst).Nodup)
    (created : ∀ node ∈ added, ∃ prev, s.mem node.1 = some ⟨node.2, none, prev⟩)
    (enough : added.length ≤ fuel) :
    ∃ s' nodes, added.foldlM (fun s node => s.processAddMemSec fuel node.1) s = .ok s' ∧
      s'.Lists nodes ∧ InOrder added nodes := by
  have start : s.Lists [] := empty
  have order : InOrder [] [] := ⟨.refl _, .nil, fun _ => rfl, rfl⟩
  exact addAll_inOrder start order fresh created enough

/-- Sections that are in no list yet. -/
def unlinked (added : List (ℕ × MemSection)) : SectionChain :=
  { twoSections with
    firstSection := none
    mem := fun a => (added.lookup a).map fun x => ⟨x, none, none⟩ }

def unsorted : List (ℕ × MemSection) :=
  [(0, pageAt 0xC0002000#32), (1, pageAt 0xC0001000#32), (2, pageAt 0xC0001000#32)]

theorem processAddMemSec_sorts_unsorted :
    ∃ s' nodes, unsorted.foldlM (fun s node => s.processAddMemSec 3 node.1) (unlinked unsorted) =
      .ok s' ∧ s'.Lists nodes ∧ InOrder unsorted nodes := by
  refine processAddMemSec_sorts _ _ 3 rfl (by decide) (fun node hin => ⟨none, ?_⟩) (by decide)
  simp only [unsorted, List.mem_cons, List.not_mem_nil, or_false] at hin
  rcases hin with rfl | rfl | rfl <;> rfl

end SectionChain

end Tinker
