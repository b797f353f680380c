import Tinker.Lib.Chain
import Tinker.Process.FreeVmem

/-!
# The linked list of sections

`process_allocate_vmem` and `process_free_vmem` at the level of the pointers. A new section is
linked in where the search ends; a section that is given back is found by its virtual address,
unlinked, unmapped and deleted.

Only the section in front of the one that is deleted is changed. The first section has none in
front of it, so that `first_section` still leads to it when it is deleted.
-/

namespace Tinker

open Tinker.Lib Function Exec

/-- The fields of `process_t` that are about its memory, with the sections that are live in the
private pool. A section has no pointer to the one in front of it. -/
structure SectionChain where
  kernelProcess : Bool
  firstSection : Option ℕ
  mem : Memory MemSection
  poolStart : BitVec 32
  pageTable : PgTbl

namespace SectionChain

variable {fuel : ℕ}

variable (s : SectionChain)

/-- Read a section. -/
def load (a : ℕ) : Exec (Node MemSection) :=
  match s.mem a with
  | some n => .ok n
  | none => .error .badPointer

/-- Set `next`; nothing happens to a null pointer. -/
def memSecSetNext (ms next : Option ℕ) : Exec SectionChain :=
  match ms with
  | some a => do
    let n ← s.load a
    return { s with mem := update s.mem a (some { n with next := next }) }
  | none => return s

/-- Fill in a block for a section. -/
def memSecCreate (a : ℕ) (new : MemSection) : SectionChain :=
  { s with mem := update s.mem a (some ⟨new, none, none⟩) }

/-- Free a section. -/
def memSecDelete (a : ℕ) : Exec SectionChain := do
  let _ ← s.load a
  return { s with mem := update s.mem a none }

/-- Map a section; a null pointer is refused. -/
def tgtMapMemory (new : Option MemSection) : Exec (ReturnT × SectionChain) :=
  match new with
  | some new => do
    let (_, pageTable) ← armMapMemory s.pageTable new
    return (.noError, { s with pageTable })
  | none => return (.parametersInvalid, s)

/-- The loop of `process_free_vmem` from `current` on; `fuel` bounds the number of sections it
looks at. -/
def freeVmemFrom (virtAddress : BitVec 32) : ℕ → Option ℕ → Option ℕ → Exec SectionChain
  | _, _, none => return s
  | 0, _, some _ => .error .diverges
  | fuel + 1, prev, some current => do
    let n ← s.load current
    if n.item.virtAddress = virtAddress then
      let s ← s.memSecSetNext prev n.next
      let pageTable ← armUnmapMemory s.pageTable n.item
      memSecDelete { s with pageTable } current
    else freeVmemFrom virtAddress fuel (some current) n.next

/-- Unmap and free the section that begins at an address. -/
def processFreeVmem (fuel : ℕ) (virtAddress : BitVec 32) : Exec SectionChain :=
  s.freeVmemFrom virtAddress fuel none s.firstSection

section Allocate

variable (realAddress size : BitVec 32) (type : MmuMemory) (priv : MmuPrivilege)
  (access : MmuAccess) (block : Option ℕ)

/-- The branch of `process_allocate_vmem` for a gap in front of `current`. -/
def insertVmem (new : MemSection) (prev : Option ℕ) (current : ℕ) :
    Exec (ReturnT × BitVec 32 × SectionChain) :=
  match block with
  | some a => do
    let s := s.memSecCreate a new
    let s ← s.memSecSetNext prev (some a)
    let s := if prev = none then { s with firstSection := some a } else s
    let s ← s.memSecSetNext (some a) (some current)
    let (result, s) ← s.tgtMapMemory (some new)
    return (result, new.virtAddress, s)
  | none => return (.noError, 0, s)

/-- The end of `process_allocate_vmem`, when there is no gap. A section that could not be created
is linked and mapped as well. -/
def appendVmem (new : MemSection) (prev : ℕ) : Exec (ReturnT × BitVec 32 × SectionChain) :=
  match block with
  | some a => do
    let s := s.memSecCreate a new
    let s ← s.memSecSetNext (some prev) (some a)
    let (result, s) ← s.tgtMapMemory (some new)
    return (result, new.virtAddress, s)
  | none => do
    let s ← s.memSecSetNext (some prev) none
    let (result, s) ← s.tgtMapMemory none
    return (result, new.virtAddress, s)

/-- The loop of `process_allocate_vmem` and what follows it. `block` is what `mem_alloc` returns
for a section. -/
def allocateVmemFrom : ℕ → BitVec 32 → Option ℕ → Option ℕ →
    Exec (ReturnT × BitVec 32 × SectionChain)
  | _, _, none, none => return (.noError, 0, s)
  | _, vmemStart, some prev, none =>
    s.appendVmem block ⟨realAddress, padVmem vmemStart, size, type, priv, access⟩ prev
  | 0, _, _, some _ => .error .diverges
  | fuel + 1, vmemStart, prev, some current => do
    let n ← s.load current
    let svt := n.item.virtAddress
    if virtualAddressSpace s.kernelProcess < svt ∧ vmemStart + size < svt then
      s.insertVmem block ⟨realAddress, vmemStart, size, type, priv, access⟩ prev current
    else allocateVmemFrom fuel (padVmem (svt + n.item.size)) (some current) n.next

/-- Find room for a section, link it and map it. -/
def processAllocateVmem (fuel : ℕ) : Exec (ReturnT × BitVec 32 × SectionChain) :=
  s.allocateVmemFrom realAddress size type priv access block fuel
    (virtualAddressSpace s.kernelProcess) none s.firstSection

end Allocate

/-! ## The sections a process leads to -/

/-- Following `next` from `first_section` meets these sections at these addresses. -/
def Lists (nodes : List (ℕ × MemSection)) : Prop := Seg s.mem s.firstSection nodes none

/-- The same memory with its sections as a list. -/
def memory (nodes : List (ℕ × MemSection)) : ProcessMemory :=
  ⟨s.kernelProcess, nodes.map Prod.snd, s.poolStart, s.pageTable⟩

/-- A pointer leads to the address, from `first_section` on. -/
inductive Reachable : ℕ → Prop
  | first {a : ℕ} (h : s.firstSection = some a) : Reachable a
  | next {a b : ℕ} {n : Node MemSection} (reached : Reachable a) (found : s.mem a = some n)
      (h : n.next = some b) : Reachable b

variable {s} {s' : SectionChain} {nodes pre mid post : List (ℕ × MemSection)} {a b : ℕ}
  {x y : MemSection} {v : BitVec 32} {p q prev cur : Option ℕ}

theorem Reachable.mem_of_lists (reached : s.Reachable a) (lists : s.Lists nodes) :
    a ∈ nodes.map Prod.fst := by
  induction reached with
  | first h =>
    rw [Lists, h] at lists
    cases nodes with
    | nil => cases lists
    | cons node rest => exact List.mem_cons.mpr (.inl (Option.some.inj lists.1))
  | @next a b n _ found h ih =>
    obtain ⟨⟨a', x⟩, hin, rfl⟩ := List.mem_map.mp ih
    obtain ⟨pre, post, rfl⟩ := List.append_of_mem hin
    obtain ⟨r, -, hright⟩ := seg_append.mp lists
    obtain ⟨-, n', found', -, hpost⟩ := seg_cons.mp hright
    cases found.symm.trans found'
    rw [h] at hpost
    cases post with
    | nil => cases hpost
    | cons node rest =>
      cases hpost.1
      simp

theorem Lists.live (lists : s.Lists nodes) (reached : s.Reachable a) : s.mem a ≠ none := by
  obtain ⟨n, found⟩ := Seg.live lists (reached.mem_of_lists lists)
  exact found ▸ Option.some_ne_none n

theorem load_eq {n : Node MemSection} (found : s.mem a = some n) : s.load a = .ok n := by
  simp only [load, found]

theorem memSecSetNext_eq {n : Node MemSection} (found : s.mem a = some n) (next : Option ℕ) :
    s.memSecSetNext (some a) next =
      .ok { s with mem := update s.mem a (some { n with next := next }) } := by
  simp only [memSecSetNext, load_eq found]
  rfl

theorem nodup_parts (lists : s.Lists (pre ++ post)) :
    (pre.map Prod.fst).Nodup ∧ (post.map Prod.fst).Nodup ∧
      ∀ c ∈ pre.map Prod.fst, c ∉ post.map Prod.fst := by
  have hnodup := Seg.nodup lists
  rw [List.map_append] at hnodup
  obtain ⟨hpre, hpost, hapart⟩ := List.nodup_append.mp hnodup
  exact ⟨hpre, hpost, fun c hc hc' => hapart c hc c hc' rfl⟩

theorem lastPtr_ne_none (h : pre ≠ []) : lastPtr none pre ≠ none := by
  obtain ⟨pre', ⟨b, y⟩, rfl⟩ := (List.eq_nil_or_concat' pre).resolve_left h
  rw [lastPtr_concat]
  exact Option.some_ne_none b

/-- Setting the pointer behind the first sections, which is `first_section` if there are none, makes
them lead elsewhere. -/
theorem memSecSetNext_lastPtr (seg : Seg s.mem s.firstSection pre q)
    (hnodup : (pre.map Prod.fst).Nodup) (r : Option ℕ) :
    ∃ mem, s.memSecSetNext (lastPtr none pre) r = .ok { s with mem } ∧
      Seg mem (if lastPtr none pre = none then r else s.firstSection) pre r ∧
      ∀ c ∉ pre.map Prod.fst, mem c = s.mem c := by
  rcases List.eq_nil_or_concat' pre with rfl | ⟨pre, ⟨b, y⟩, rfl⟩
  · exact ⟨s.mem, rfl, rfl, fun _ _ => rfl⟩
  obtain ⟨n, found⟩ := seg.live (show b ∈ (pre ++ [(b, y)]).map Prod.fst by simp)
  have hb : b ∉ pre.map Prod.fst := by
    rw [List.map_append] at hnodup
    exact fun h => (List.nodup_append.mp hnodup).2.2 b h b (by simp) rfl
  refine ⟨_, by rw [lastPtr_concat, memSecSetNext_eq found], ?_, fun c hc => ?_⟩
  · rw [lastPtr_concat, if_neg (Option.some_ne_none b)]
    exact seg.relink hb found r
  · exact update_of_ne (fun h => hc (by simp [h])) _ _

/-! ## Giving a section back -/

theorem freeVmemFrom_passed (seg : Seg s.mem cur mid q)
    (elsewhere : ∀ node ∈ mid, node.2.virtAddress ≠ v) (fuel : ℕ) (prev : Option ℕ) :
    s.freeVmemFrom v (fuel + mid.length) prev cur =
      s.freeVmemFrom v fuel (lastPtr prev mid) q := by
  induction mid generalizing cur prev with
  | nil =>
    obtain rfl : cur = q := seg
    rfl
  | cons node mid ih =>
    obtain ⟨a, x⟩ := node
    obtain ⟨rfl, n, found, rfl, hrest⟩ := seg
    have hne : n.item.virtAddress ≠ v := elsewhere _ List.mem_cons_self
    have hstep : s.freeVmemFrom v (fuel + mid.length + 1) prev (some a) =
        s.freeVmemFrom v (fuel + mid.length) (some a) n.next := by
      simp only [freeVmemFrom, load_eq found, ok_bind, if_neg hne]
    rw [List.length_cons, ← Nat.add_assoc, hstep, lastPtr_cons]
    exact ih hrest (fun node h => elsewhere node (List.mem_cons_of_mem _ h)) (some a)

theorem processFreeVmem_of_elsewhere (lists : s.Lists nodes)
    (elsewhere : ∀ node ∈ nodes, node.2.virtAddress ≠ v) (enough : nodes.length ≤ fuel) :
    s.processFreeVmem fuel v = .ok s := by
  obtain ⟨fuel, rfl⟩ := Nat.exists_eq_add_of_le' enough
  rw [processFreeVmem, freeVmemFrom_passed lists elsewhere]
  cases fuel <;> rfl

theorem processFreeVmem_of_found (lists : s.Lists (pre ++ (a, x) :: post))
    (elsewhere : ∀ node ∈ pre, node.2.virtAddress ≠ v) (hv : x.virtAddress = v)
    (enough : (pre ++ (a, x) :: post).length ≤ fuel) :
    ∃ n, s.mem a = some n ∧ n.item = x ∧ Seg s.mem n.next post none ∧
      s.processFreeVmem fuel v = (do
        let s ← s.memSecSetNext (lastPtr none pre) n.next
        let pageTable ← armUnmapMemory s.pageTable x
        memSecDelete { s with pageTable } a) := by
  obtain ⟨r, hpre, hright⟩ := seg_append.mp lists
  obtain ⟨rfl, n, found, rfl, hpost⟩ := seg_cons.mp hright
  refine ⟨n, found, rfl, hpost, ?_⟩
  obtain ⟨fuel, rfl⟩ : ∃ rest, fuel = rest + 1 + pre.length := by
    rw [List.length_append, List.length_cons] at enough
    exact ⟨fuel - 1 - pre.length, by omega⟩
  rw [processFreeVmem, freeVmemFrom_passed hpre elsewhere]
  simp only [freeVmemFrom, load_eq found, ok_bind, if_pos hv]

theorem processFreeVmem_of_first (lists : s.Lists ((a, x) :: post)) (hv : x.virtAddress = v)
    (enough : ((a, x) :: post).length ≤ fuel) : s.processFreeVmem fuel v = (do
      let pageTable ← armUnmapMemory s.pageTable x
      return { s with pageTable, mem := update s.mem a none }) := by
  have lists : s.Lists ([] ++ (a, x) :: post) := lists
  obtain ⟨n, found, rfl, -, heq⟩ := processFreeVmem_of_found lists (by simp) hv enough
  rw [heq, lastPtr_nil]
  simp only [memSecSetNext, pure_eq_ok, ok_bind]
  cases armUnmapMemory s.pageTable n.item with
  | error e => rfl
  | ok pageTable =>
    simp only [ok_bind, memSecDelete, load, found]
    rfl

theorem processFreeVmem_of_behind (lists : s.Lists (pre ++ (a, x) :: post)) (behind : pre ≠ [])
    (elsewhere : ∀ node ∈ pre, node.2.virtAddress ≠ v) (hv : x.virtAddress = v)
    (enough : (pre ++ (a, x) :: post).length ≤ fuel) :
    ∃ mem, (∀ pageTable, Lists { s with mem, pageTable } (pre ++ post)) ∧
      s.processFreeVmem fuel v = (do
        let pageTable ← armUnmapMemory s.pageTable x
        return { s with mem, pageTable }) := by
  obtain ⟨n, found, rfl, hpost, heq⟩ := processFreeVmem_of_found lists elsewhere hv enough
  obtain ⟨r, hpre, -⟩ := seg_append.mp lists
  obtain ⟨hnodup, hright, hapart⟩ := nodup_parts lists
  obtain ⟨hapost, -⟩ := List.nodup_cons.mp hright
  have hapre : a ∉ pre.map Prod.fst := fun h => hapart a h List.mem_cons_self
  obtain ⟨mem, hset, hled, hsame⟩ := memSecSetNext_lastPtr hpre hnodup n.next
  rw [if_neg (lastPtr_ne_none behind)] at hled
  have hrest : Seg mem n.next post none :=
    hpost.congr fun c hc => hsame c fun h => hapart c h (List.mem_cons_of_mem _ hc)
  refine ⟨update mem a none, fun pageTable => ?_, ?_⟩
  · refine Seg.update (seg_append.mpr ⟨n.next, hled, hrest⟩) ?_ none
    simpa [hapre] using hapost
  rw [heq, hset]
  simp only [ok_bind]
  cases armUnmapMemory s.pageTable n.item with
  | error e => rfl
  | ok pageTable =>
    simp only [ok_bind, memSecDelete, load, hsame a hapre, found]

/-- The three ways of the loop: no section begins at the address, the first one does, or the first
of those that do is behind another section. -/
theorem processFreeVmem_cases (lists : s.Lists nodes) (v : BitVec 32)
    (enough : nodes.length ≤ fuel) :
    ((∀ node ∈ nodes, node.2.virtAddress ≠ v) ∧ s.processFreeVmem fuel v = .ok s) ∨
      (∃ a x post, nodes = (a, x) :: post ∧ x.virtAddress = v ∧
        s.processFreeVmem fuel v = (do
          let pageTable ← armUnmapMemory s.pageTable x
          return { s with pageTable, mem := update s.mem a none })) ∨
      ∃ pre a x post mem, nodes = pre ++ (a, x) :: post ∧ pre ≠ [] ∧
        (∀ node ∈ pre, node.2.virtAddress ≠ v) ∧ x.virtAddress = v ∧
        (∀ pageTable, Lists { s with mem, pageTable } (pre ++ post)) ∧
        s.processFreeVmem fuel v = (do
          let pageTable ← armUnmapMemory s.pageTable x
          return { s with mem, pageTable }) := by
  by_cases elsewhere : ∀ node ∈ nodes, node.2.virtAddress ≠ v
  · exact .inl ⟨elsewhere, processFreeVmem_of_elsewhere lists elsewhere enough⟩
  obtain ⟨node, hin, hv⟩ : ∃ node ∈ nodes, node.2.virtAddress = v := by
    simpa only [not_forall, not_not, exists_prop] using elsewhere
  obtain ⟨⟨a, x⟩, pre, post, hpre, hx, rfl, -⟩ := List.exists_of_eraseP
    (p := fun node : ℕ × MemSection => decide (node.2.virtAddress = v)) hin (by simpa using hv)
  have hpre : ∀ node ∈ pre, node.2.virtAddress ≠ v := fun node h => by simpa using hpre node h
  have hx : x.virtAddress = v := by simpa using hx
  by_cases behind : pre = []
  · subst behind
    exact .inr (.inl ⟨a, x, post, rfl, hx, processFreeVmem_of_first lists hx enough⟩)
  obtain ⟨mem, hlists, heq⟩ := processFreeVmem_of_behind lists behind hpre hx enough
  exact .inr (.inr ⟨pre, a, x, post, mem, rfl, behind, hpre, hx, hlists, heq⟩)

/-! ## Allocating a section -/

section Allocate

variable {realAddress size start : BitVec 32} {type : MmuMemory} {priv : MmuPrivilege}
  {access : MmuAccess} {block : Option ℕ} {r : ReturnT × BitVec 32 × SectionChain}

theorem allocateVmemFrom_found {fuel : ℕ} (seg : Seg s.mem cur nodes none)
    (h : s.allocateVmemFrom realAddress size type priv access block fuel start prev cur = .ok r) :
    ∃ mid rest cand, nodes = mid ++ rest ∧
      findVmem (virtualAddressSpace s.kernelProcess) size start (nodes.map Prod.snd) =
        (cand, mid.map Prod.snd, rest.map Prod.snd) ∧
      ((rest = [] ∧ s.allocateVmemFrom realAddress size type priv access block 0 cand
          (lastPtr prev mid) none = .ok r) ∨
        ∃ b y post, rest = (b, y) :: post ∧
          s.insertVmem block ⟨realAddress, cand, size, type, priv, access⟩ (lastPtr prev mid) b =
            .ok r) := by
  induction nodes generalizing fuel start prev cur with
  | nil =>
    obtain rfl : cur = none := seg
    refine ⟨[], [], start, rfl, rfl, .inl ⟨rfl, ?_⟩⟩
    cases prev <;> cases fuel <;> exact h
  | cons node nodes ih =>
    obtain ⟨a, x⟩ := node
    obtain ⟨rfl, n, found, rfl, hrest⟩ := seg
    cases fuel with
    | zero => cases prev <;> cases h
    | succ fuel =>
      simp only [allocateVmemFrom, load_eq found, ok_bind] at h
      simp only [List.map_cons, findVmem]
      split at h
      next gap =>
        rw [if_pos gap]
        exact ⟨[], (a, n.item) :: nodes, start, rfl, rfl, .inr ⟨a, n.item, nodes, rfl, h⟩⟩
      next gap =>
        obtain ⟨mid, rest, cand, rfl, hfind, hend⟩ := ih hrest h
        rw [if_neg gap]
        refine ⟨(a, n.item) :: mid, rest, cand, rfl, ?_, ?_⟩
        · rw [padVmem] at hfind
          rw [hfind]
          rfl
        rw [lastPtr_cons]
        exact hend

theorem insertVmem_ok {new : MemSection} (lists : s.Lists (pre ++ (b, y) :: post))
    (fresh : ∀ a, block = some a → s.mem a = none)
    (h : s.insertVmem block new (lastPtr none pre) b = .ok r) :
    (block = none ∧ r = (.noError, 0, s)) ∨
      ∃ a mem first ret pageTable, block = some a ∧
        armMapMemory s.pageTable new = .ok (ret, pageTable) ∧
        Seg mem first (pre ++ (a, new) :: (b, y) :: post) none ∧
        r = (.noError, new.virtAddress,
          { s with mem := mem, firstSection := first, pageTable := pageTable }) := by
  cases block with
  | none => exact .inl ⟨rfl, (Except.ok.inj h).symm⟩
  | some a =>
    have habsent : a ∉ (pre ++ (b, y) :: post).map Prod.fst := fun hin => by
      obtain ⟨n, found⟩ := Seg.live lists hin
      exact Option.some_ne_none n (found.symm.trans (fresh a rfl))
    have hapre : a ∉ pre.map Prod.fst := fun hin => habsent (by simp [hin])
    have hcreated := Seg.update lists habsent (some ⟨new, none, none⟩)
    obtain ⟨c, hpre, hright⟩ := seg_append.mp hcreated
    obtain rfl : c = some b := hright.1
    obtain ⟨hnodup, -, hapart⟩ := nodup_parts lists
    obtain ⟨mem, hset, hled, hsame⟩ :=
      memSecSetNext_lastPtr (s := s.memSecCreate a new) hpre hnodup (some a)
    have hfound : mem a = some ⟨new, none, none⟩ :=
      (hsame a hapre).trans (update_self ..)
    simp only [insertVmem, hset, ok_bind] at h
    obtain ⟨s₂, hset₂, h⟩ := of_bind h
    obtain ⟨⟨result, s₃⟩, hmap, h⟩ := of_bind h
    cases h
    -- `first_section` is set exactly when there is no section in front
    have hfirst : (if lastPtr none pre = none then
        { s.memSecCreate a new with mem := mem, firstSection := some a }
        else { s.memSecCreate a new with mem := mem }) =
        { s with mem := mem, firstSection :=
          if lastPtr none pre = none then some a else s.firstSection } := by
      split <;> rfl
    rw [hfirst, memSecSetNext_eq hfound] at hset₂
    cases hset₂
    obtain ⟨⟨ret, pageTable⟩, hmapped, hmap⟩ := of_bind hmap
    cases hmap
    refine .inr ⟨a, _, _, ret, pageTable, rfl, hmapped, ?_, rfl⟩
    refine seg_append.mpr ⟨some a, hled.update hapre _, rfl, _, update_self .., rfl, ?_⟩
    refine hright.congr fun c hc => ?_
    have hca : c ≠ a := by
      rintro rfl
      exact habsent (by rw [List.map_append]; exact List.mem_append_right _ hc)
    exact (update_of_ne hca _ _).trans (hsame c fun h => hapart c h hc)

theorem appendVmem_ok {new : MemSection} (lists : s.Lists pre) (last : lastPtr none pre = some b)
    (fresh : ∀ a, block = some a → s.mem a = none) (h : s.appendVmem block new b = .ok r) :
    (∃ mem, block = none ∧ Seg mem s.firstSection pre none ∧
        r = (.parametersInvalid, new.virtAddress, { s with mem })) ∨
      ∃ a mem ret pageTable, block = some a ∧
        armMapMemory s.pageTable new = .ok (ret, pageTable) ∧
        Seg mem s.firstSection (pre ++ [(a, new)]) none ∧
        r = (.noError, new.virtAddress, { s with mem, pageTable }) := by
  have hnodup := Seg.nodup lists
  have hled : lastPtr none pre ≠ none := last ▸ Option.some_ne_none b
  cases block with
  | none =>
    obtain ⟨mem, hset, hseg, -⟩ := memSecSetNext_lastPtr lists hnodup none
    rw [if_neg hled] at hseg
    simp only [appendVmem, ← last, hset, ok_bind] at h
    exact .inl ⟨mem, rfl, hseg, (Except.ok.inj h).symm⟩
  | some a =>
    have hapre : a ∉ pre.map Prod.fst := fun hin => by
      obtain ⟨n, found⟩ := Seg.live lists hin
      exact Option.some_ne_none n (found.symm.trans (fresh a rfl))
    have hcreated := Seg.update lists hapre (some ⟨new, none, none⟩)
    obtain ⟨mem, hset, hseg, hsame⟩ :=
      memSecSetNext_lastPtr (s := s.memSecCreate a new) hcreated hnodup (some a)
    rw [if_neg hled] at hseg
    simp only [appendVmem, ← last, hset, ok_bind] at h
    obtain ⟨⟨result, s₃⟩, hmap, h⟩ := of_bind h
    cases h
    obtain ⟨⟨ret, pageTable⟩, hmapped, hmap⟩ := of_bind hmap
    cases hmap
    refine .inr ⟨a, mem, ret, pageTable, rfl, hmapped, ?_, rfl⟩
    exact seg_append.mpr ⟨some a, hseg, rfl, _, (hsame a hapre).trans (update_self ..), rfl, rfl⟩

/-- An allocation on the chain is one on the list; it leaves the chain or links one section in, that
begins at the address it returns. -/
theorem processAllocateVmem_refines {fuel : ℕ} {ret : ReturnT} (lists : s.Lists nodes)
    (fresh : ∀ a, block = some a → s.mem a = none)
    (h : s.processAllocateVmem realAddress size type priv access block fuel = .ok (ret, v, s')) :
    ∃ nodes', s'.Lists nodes' ∧
      Tinker.processAllocateVmem (s.memory nodes) realAddress size type priv access
        block.isSome = .ok (ret, v, s'.memory nodes') ∧
      (nodes' = nodes ∨ ∃ pre a x post, nodes = pre ++ post ∧ nodes' = pre ++ (a, x) :: post ∧
        x.virtAddress = v) := by
  obtain ⟨mid, rest, cand, rfl, hfind, hend⟩ := allocateVmemFrom_found lists h
  rcases hend with ⟨rfl, hend⟩ | ⟨b, y, post, rfl, hinsert⟩
  · rw [List.append_nil] at lists hfind ⊢
    cases hlast : lastPtr none mid with
    | none =>
      obtain rfl : mid = [] := by_contra fun hne => lastPtr_ne_none hne hlast
      cases hend
      refine ⟨[], lists, ?_, .inl rfl⟩
      rfl
    | some b =>
      rw [hlast] at hend
      have hend : s.appendVmem block ⟨realAddress, padVmem cand, size, type, priv, access⟩ b =
        .ok (ret, v, s') := hend
      obtain ⟨first, passed, hmid⟩ : ∃ first passed, mid.map Prod.snd = first :: passed := by
        cases mid with
        | nil => cases hlast
        | cons node mid => exact ⟨_, _, rfl⟩
      rw [hmid] at hfind
      rcases appendVmem_ok lists hlast fresh hend with
        ⟨mem, rfl, hseg, hr⟩ | ⟨a, mem, mapped, pageTable, rfl, hmap, hseg, hr⟩
      · obtain ⟨rfl, rfl, rfl⟩ : ret = _ ∧ v = _ ∧ s' = _ := by simpa using hr
        refine ⟨mid, hseg, ?_, .inl rfl⟩
        simp only [Tinker.processAllocateVmem, memory, hfind, hmid, List.map_nil]
        rfl
      obtain ⟨rfl, rfl, rfl⟩ : ret = _ ∧ v = _ ∧ s' = _ := by simpa using hr
      refine ⟨_, hseg, ?_, .inr ⟨mid, a, _, [], (List.append_nil _).symm, rfl, rfl⟩⟩
      simp only [Tinker.processAllocateVmem, memory, hfind, hmid, List.map_nil,
        Option.isSome_some, if_true, Tinker.tgtMapMemory]
      rw [show cand + cand % BitVec.ofNat 32 mmuPageSize = padVmem cand from rfl, hmap]
      simp [hmid]
  rcases insertVmem_ok lists fresh hinsert with
    ⟨rfl, hr⟩ | ⟨a, mem, firstSection, mapped, pageTable, rfl, hmap, hseg, hr⟩
  · obtain ⟨rfl, rfl, rfl⟩ : ret = _ ∧ v = _ ∧ s' = _ := by simpa using hr
    refine ⟨_, lists, ?_, .inl rfl⟩
    simp only [Tinker.processAllocateVmem, memory, hfind, List.map_cons]
    rfl
  obtain ⟨rfl, rfl, rfl⟩ : ret = _ ∧ v = _ ∧ s' = _ := by simpa using hr
  refine ⟨_, hseg, ?_, .inr ⟨mid, a, _, _, rfl, rfl, rfl⟩⟩
  simp only [Tinker.processAllocateVmem, memory, hfind, List.map_cons, Option.isSome_some,
    if_true, Tinker.tgtMapMemory, hmap]
  simp

end Allocate

/-! ## Giving back what was allocated -/

/-- Giving back takes out the section that begins at the address, if it is the only one; without
one it changes nothing; no deleted section is left in reach; and what an allocation has linked in
is taken out again. It returns if the section can be unmapped. -/
structure FreesVmem (s : SectionChain) (nodes : List (ℕ × MemSection)) (v : BitVec 32) : Prop where
  returns : ∀ fuel ≥ nodes.length,
    (∀ node ∈ nodes, node.2.virtAddress = v →
      ∃ pageTable, armUnmapMemory s.pageTable node.2 = .ok pageTable) →
    ∃ s', s.processFreeVmem fuel v = .ok s'
  erased : ∀ fuel ≥ nodes.length, ∀ s', s.processFreeVmem fuel v = .ok s' →
    ∀ pre a x post, nodes = pre ++ (a, x) :: post → x.virtAddress = v →
      (∀ node ∈ pre ++ post, node.2.virtAddress ≠ v) → s'.Lists (pre ++ post)
  unchanged : ∀ fuel ≥ nodes.length, ∀ s', s.processFreeVmem fuel v = .ok s' →
    (∀ node ∈ nodes, node.2.virtAddress ≠ v) → s' = s
  live : ∀ fuel ≥ nodes.length, ∀ s', s.processFreeVmem fuel v = .ok s' →
    ∀ a, s'.Reachable a → s'.mem a ≠ none
  undone : ∀ fuel ≥ nodes.length, ∀ s', s.processFreeVmem fuel v = .ok s' →
    ∀ (before : SectionChain) (old : List (ℕ × MemSection)) (realAddress size : BitVec 32)
      (type : MmuMemory) (priv : MmuPrivilege) (access : MmuAccess) (block : Option ℕ)
      (depth : ℕ) (ret : ReturnT),
      before.Lists old → (∀ a, block = some a → before.mem a = none) →
      before.processAllocateVmem realAddress size type priv access block depth = .ok (ret, v, s) →
      (∀ node ∈ old, node.2.virtAddress ≠ v) → s'.Lists old

/-- The first section begins at the address, and can be unmapped. -/
def FreesFirst (s : SectionChain) (nodes : List (ℕ × MemSection)) (v : BitVec 32) : Prop :=
  ∃ a x post pageTable, nodes = (a, x) :: post ∧ x.virtAddress = v ∧
    armUnmapMemory s.pageTable x = .ok pageTable

/-- A process that gives its first section back leads to memory that it has deleted. -/
theorem FreesFirst.not_live (first : s.FreesFirst nodes v) (lists : s.Lists nodes)
    (enough : nodes.length ≤ fuel) : ∃ s' a, s.processFreeVmem fuel v = .ok s' ∧
      s'.Reachable a ∧ s'.mem a = none := by
  obtain ⟨a, x, post, pageTable, rfl, hv, hunmap⟩ := first
  refine ⟨{ s with pageTable, mem := update s.mem a none }, a, ?_, .first lists.1, update_self ..⟩
  rw [processFreeVmem_of_first lists hv enough, hunmap]
  rfl

theorem eraseP_at (elsewhere : ∀ node ∈ pre, node.2.virtAddress ≠ v) (hv : x.virtAddress = v) :
    (pre ++ (a, x) :: post).eraseP (fun node => node.2.virtAddress = v) = pre ++ post := by
  rw [List.eraseP_append_right _ (by simpa using elsewhere),
    List.eraseP_cons_of_pos (by simpa using hv)]

/-- Giving back leaves the list without the section, unless the first one is given back. -/
theorem lists_of_free (lists : s.Lists nodes) (first : ¬ s.FreesFirst nodes v)
    (enough : nodes.length ≤ fuel) (h : s.processFreeVmem fuel v = .ok s') :
    s'.Lists (nodes.eraseP fun node => node.2.virtAddress = v) ∧
      ((∀ node ∈ nodes, node.2.virtAddress ≠ v) → s' = s) := by
  rcases processFreeVmem_cases lists v enough with
    ⟨elsewhere, heq⟩ | ⟨a, x, post, rfl, hv, heq⟩ |
      ⟨pre, a, x, post, mem, rfl, behind, elsewhere, hv, hlists, heq⟩
  · cases heq.symm.trans h
    rw [List.eraseP_of_forall_not (by simpa using elsewhere)]
    exact ⟨lists, fun _ => rfl⟩
  · obtain ⟨pageTable, hunmap, -⟩ := of_bind (heq.symm.trans h)
    exact absurd ⟨a, x, post, pageTable, rfl, hv, hunmap⟩ first
  obtain ⟨pageTable, -, h⟩ := of_bind (heq.symm.trans h)
  cases h
  rw [eraseP_at elsewhere hv]
  exact ⟨hlists pageTable, fun none => absurd hv (none (a, x) (by simp))⟩

theorem exists_processFreeVmem (lists : s.Lists nodes) (enough : nodes.length ≤ fuel)
    (unmaps : ∀ node ∈ nodes, node.2.virtAddress = v →
      ∃ pageTable, armUnmapMemory s.pageTable node.2 = .ok pageTable) :
    ∃ s', s.processFreeVmem fuel v = .ok s' := by
  rcases processFreeVmem_cases lists v enough with
    ⟨-, heq⟩ | ⟨a, x, post, rfl, hv, heq⟩ | ⟨pre, a, x, post, mem, rfl, -, -, hv, -, heq⟩
  · exact ⟨s, heq⟩
  · obtain ⟨pageTable, hunmap⟩ := unmaps (a, x) (by simp) hv
    rw [heq, hunmap]
    exact ⟨_, rfl⟩
  obtain ⟨pageTable, hunmap⟩ := unmaps (a, x) (by simp) hv
  rw [heq, hunmap]
  exact ⟨_, rfl⟩

/-- Giving back undoes allocating, exactly unless it deletes the first section. -/
theorem freesVmem_iff (lists : s.Lists nodes) : s.FreesVmem nodes v ↔ ¬ s.FreesFirst nodes v := by
  constructor
  · intro frees first
    obtain ⟨s', a, h, reached, dead⟩ := first.not_live lists le_rfl
    exact frees.live _ le_rfl s' h a reached dead
  intro first
  refine ⟨fun fuel enough => exists_processFreeVmem lists enough, ?_, ?_, ?_, ?_⟩
  · rintro fuel enough s' h pre a x post rfl hv elsewhere
    have hlists := (lists_of_free lists first enough h).1
    rwa [eraseP_at (fun node hin => elsewhere node (List.mem_append_left _ hin)) hv] at hlists
  · intro fuel enough s' h
    exact (lists_of_free lists first enough h).2
  · intro fuel enough s' h a
    exact (lists_of_free lists first enough h).1.live
  · intro fuel enough s' h before old _ _ _ _ _ _ _ _ hold fresh halloc elsewhere
    obtain ⟨nodes', hlists, -, hnodes⟩ := processAllocateVmem_refines hold fresh halloc
    obtain rfl : nodes' = nodes := Seg.unique hlists lists
    have hfreed := (lists_of_free lists first enough h).1
    rcases hnodes with rfl | ⟨pre, a, x, post, rfl, rfl, hv⟩
    · rwa [List.eraseP_of_forall_not (by simpa using elsewhere)] at hfreed
    · rwa [eraseP_at (fun node hin => elsewhere node (List.mem_append_left _ hin)) hv] at hfreed

/-- A page at an address. -/
def pageAt (virtAddress : BitVec 32) : MemSection :=
  ⟨0x100000#32, virtAddress, 0x1000#32, .randomAccessMemory, .allAccess, .readWrite⟩

/-- Two pages with a gap between them. -/
def twoSections : SectionChain where
  kernelProcess := false
  firstSection := some 0
  mem := fun a =>
    if a = 0 then some ⟨pageAt 0xC0000000#32, some 1, none⟩
    else if a = 1 then some ⟨pageAt 0xC0002000#32, none, none⟩
    else none
  poolStart := 0x200000#32
  pageTable := tgtInitialisePageTable [0x300000#32]

theorem lists_twoSections :
    twoSections.Lists [(0, pageAt 0xC0000000#32), (1, pageAt 0xC0002000#32)] :=
  ⟨rfl, _, rfl, rfl, rfl, _, rfl, rfl, rfl⟩

/-- The second section can be given back. -/
theorem freesVmem_iff_second : twoSections.FreesVmem
    [(0, pageAt 0xC0000000#32), (1, pageAt 0xC0002000#32)] 0xC0002000#32 := by
  refine (freesVmem_iff lists_twoSections).mpr ?_
  rintro ⟨a, x, post, pageTable, h, hv, -⟩
  obtain ⟨⟨-, rfl⟩, -⟩ : (_ ∧ pageAt 0xC0000000#32 = x) ∧ _ := by simpa using h
  exact absurd hv (by decide)

/-- The first section cannot: the process goes on leading to it when it is deleted. -/
theorem not_freesVmem_first : ¬ twoSections.FreesVmem
    [(0, pageAt 0xC0000000#32), (1, pageAt 0xC0002000#32)] 0xC0000000#32 := by
  intro frees
  have first : twoSections.FreesFirst
      [(0, pageAt 0xC0000000#32), (1, pageAt 0xC0002000#32)] 0xC0000000#32 :=
    ⟨0, _, _, _, rfl, rfl, rfl⟩
  obtain ⟨s', a, h, reached, dead⟩ := first.not_live lists_twoSections le_rfl
  exact frees.live _ le_rfl s' h a reached dead

end SectionChain

end Tinker
