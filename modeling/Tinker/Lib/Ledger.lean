import Mathlib.Data.List.Nodup
import Mathlib.Logic.Function.Basic
import Mathlib.Tactic.Common

/-!
# A ledger of memory blocks

Memory is handed out in blocks by several pools. The ledger says in which pool a block is live,
which blocks a client holds and for which use, and what has been given back. A pool answers a
request with a block that is not live, or refuses it; nothing else is assumed of it. A block may be
given back to the wrong pool: nothing changes then, and the ledger has a note of it.

## Main definitions

* `Ledger` — the live blocks, those that are held, and what has been given back
* `Ledger.alloc`, `Ledger.allocFor`, `Ledger.free`, `Ledger.release` — the operations
* `Ledger.Held` — every block that is held is live in the pool of its use, and held once
* `Ledger.Grows` — a ledger from which another one comes by allocating

## Main results

* `Ledger.grows_allocFor` — allocating keeps what is held
* `Ledger.Held.free` — so does giving back what is not held
* `Ledger.Held.frees_releaseAll` — blocks that are held can be given back to the pool of their use
-/

namespace Tinker.Lib

open Function

structure Free (P : Type) where
  pool : P
  block : ℕ
  live : Bool

structure Ledger (P U : Type) where
  live : ℕ → Option P
  /-- What the pools answer to the next requests, unless it is a block that is live. -/
  answers : List (Option ℕ)
  blocks : U → List ℕ
  frees : List (Free P)

namespace Ledger

variable {P U : Type} {l l' l'' : Ledger P U} {pool : U → P} {p : P} {u v : U} {b : ℕ}

/-! ## Allocating -/

def alloc (l : Ledger P U) (p : P) : Option ℕ × Ledger P U :=
  match l.answers with
  | some b :: answers =>
    if (l.live b).isNone then
      (some b, { l with live := update l.live b (some p), answers := answers })
    else (none, { l with answers := answers })
  | none :: answers => (none, { l with answers := answers })
  | [] => (none, l)

/-- Every block that is held is live in the pool of its use, and it is held once. -/
structure Held (pool : U → P) (l : Ledger P U) : Prop where
  nodup : ∀ u, (l.blocks u).Nodup
  disjoint : ∀ {u v b}, b ∈ l.blocks u → b ∈ l.blocks v → u = v
  live : ∀ {u b}, b ∈ l.blocks u → l.live b = some (pool u)

theorem alloc_cases (l : Ledger P U) (p : P) :
    (∃ b answers, l.live b = none ∧ l.alloc p =
        (some b, { l with live := update l.live b (some p), answers := answers })) ∨
      ∃ answers, l.alloc p = (none, { l with answers := answers }) := by
  unfold alloc
  split
  next b answers _ =>
    split
    next hfree => exact .inl ⟨b, answers, Option.isNone_iff_eq_none.mp hfree, rfl⟩
    · exact .inr ⟨answers, rfl⟩
  next answers _ => exact .inr ⟨answers, rfl⟩
  · exact .inr ⟨l.answers, rfl⟩

theorem blocks_alloc (l : Ledger P U) (p : P) : (l.alloc p).2.blocks = l.blocks := by
  rcases l.alloc_cases p with ⟨b, answers, -, hstep⟩ | ⟨answers, hstep⟩ <;> rw [hstep]

/-- The second ledger comes from the first one by allocating. -/
structure Grows (pool : U → P) (l l' : Ledger P U) : Prop where
  live : ∀ {b p}, l.live b = some p → l'.live b = some p
  blocks : ∀ u, l.blocks u ⊆ l'.blocks u
  new : ∀ {u b}, b ∈ l'.blocks u → b ∉ l.blocks u → l.live b = none
  held : l.Held pool → l'.Held pool
  frees : l'.frees = l.frees

theorem Grows.refl (pool : U → P) (l : Ledger P U) : Grows pool l l :=
  ⟨id, fun _ => List.Subset.refl _, fun hmem hnot => absurd hmem hnot, id, rfl⟩

theorem Grows.trans (first : Grows pool l l') (second : Grows pool l' l'') :
    Grows pool l l'' where
  live h := second.live (first.live h)
  blocks u := List.Subset.trans (first.blocks u) (second.blocks u)
  new {u b} hmem hnot := by
    by_cases hbetween : b ∈ l'.blocks u
    · exact first.new hbetween hnot
    have hfree := second.new hmem hbetween
    cases hlive : l.live b with
    | none => rfl
    | some p => rw [first.live hlive] at hfree; cases hfree
  held h := second.held (first.held h)
  frees := second.frees.trans first.frees

theorem Grows.blocks_ne_nil (grows : Grows pool l l') (hne : l.blocks u ≠ []) :
    l'.blocks u ≠ [] := by
  obtain ⟨b, hb⟩ := List.exists_mem_of_ne_nil _ hne
  exact List.ne_nil_of_mem (grows.blocks u hb)

theorem live_update_of_none {live : ℕ → Option P} (hfree : live b = none) {c : ℕ} {q : P}
    (hlive : live c = some q) (x : Option P) : update live b x c = some q := by
  have hne : c ≠ b := by
    rintro rfl
    rw [hfree] at hlive
    cases hlive
  rw [update_of_ne hne, hlive]

theorem grows_alloc (pool : U → P) (l : Ledger P U) (p : P) : Grows pool l (l.alloc p).2 := by
  rcases l.alloc_cases p with ⟨b, answers, hfree, hstep⟩ | ⟨answers, hstep⟩
  · rw [hstep]
    refine ⟨fun h => live_update_of_none hfree h _, fun _ => List.Subset.refl _,
      fun hmem hnot => absurd hmem hnot, fun held => ⟨held.nodup, held.disjoint, fun hmem => ?_⟩,
      rfl⟩
    exact live_update_of_none hfree (held.live hmem) _
  rw [hstep]
  exact ⟨id, fun _ => List.Subset.refl _, fun hmem hnot => absurd hmem hnot,
    fun held => ⟨held.nodup, held.disjoint, held.live⟩, rfl⟩

theorem Held.not_mem (held : l.Held pool) (hfree : l.live b = none) (u : U) :
    b ∉ l.blocks u := by
  intro hmem
  rw [held.live hmem] at hfree
  cases hfree

/-- The blocks that have become live are held for the given uses. -/
def Covers (us : List U) (l l' : Ledger P U) : Prop :=
  ∀ b, l.live b = none → (l'.live b).isSome → ∃ u ∈ us, b ∈ l'.blocks u

theorem covers_refl (us : List U) (l : Ledger P U) : Covers us l l := by
  intro b hfree hlive
  rw [hfree] at hlive
  cases hlive

theorem Covers.mono {us vs : List U} (covers : Covers us l l') (hsub : us ⊆ vs) :
    Covers vs l l' := by
  intro b hfree hlive
  obtain ⟨u, hu, hmem⟩ := covers b hfree hlive
  exact ⟨u, hsub hu, hmem⟩

theorem Covers.trans {us : List U} (first : Covers us l l') (second : Covers us l' l'')
    (grows : Grows pool l' l'') : Covers us l l'' := by
  intro b hfree hlive
  cases hbetween : l'.live b with
  | none => exact second b hbetween hlive
  | some p =>
    obtain ⟨u, hu, hmem⟩ := first b hfree (by rw [hbetween]; rfl)
    exact ⟨u, hu, grows.blocks u hmem⟩

section Uses

variable [DecidableEq U]

def allocFor (l : Ledger P U) (p : P) (u : U) : Option ℕ × Ledger P U :=
  match l.alloc p with
  | (some b, l) => (some b, { l with blocks := update l.blocks u (l.blocks u ++ [b]) })
  | (none, l) => (none, l)

theorem allocFor_cases (l : Ledger P U) (p : P) (u : U) :
    (∃ b answers, l.live b = none ∧ l.allocFor p u = (some b,
        { l with
          live := update l.live b (some p)
          answers := answers
          blocks := update l.blocks u (l.blocks u ++ [b]) })) ∨
      ∃ answers, l.allocFor p u = (none, { l with answers := answers }) := by
  rcases l.alloc_cases p with ⟨b, answers, hfree, hstep⟩ | ⟨answers, hstep⟩
  · exact .inl ⟨b, answers, hfree, by rw [allocFor, hstep]⟩
  · exact .inr ⟨answers, by rw [allocFor, hstep]⟩

theorem blocks_allocFor_of_ne (l : Ledger P U) (p : P) (hv : v ≠ u) :
    (l.allocFor p u).2.blocks v = l.blocks v := by
  rcases l.allocFor_cases p u with ⟨b, answers, -, hstep⟩ | ⟨answers, hstep⟩
  · rw [hstep]
    exact update_of_ne hv _ _
  · rw [hstep]

theorem mem_update_append {blocks : U → List ℕ} {c : ℕ} :
    c ∈ update blocks u (blocks u ++ [b]) v ↔ c ∈ blocks v ∨ (v = u ∧ c = b) := by
  by_cases hv : v = u
  · subst hv
    rw [update_self, List.mem_append, List.mem_singleton]
    simp
  rw [update_of_ne hv]
  simp [hv]

theorem Held.hold (held : l.Held pool) (hfree : l.live b = none) (answers : List (Option ℕ)) :
    Held pool { l with
      live := update l.live b (some (pool u))
      answers := answers
      blocks := update l.blocks u (l.blocks u ++ [b]) } where
  nodup v := by
    dsimp only
    by_cases hv : v = u
    · subst hv
      rw [update_self]
      exact List.nodup_append.mpr ⟨held.nodup v, List.nodup_singleton b, fun c hc d hd => by
        rw [List.mem_singleton.mp hd]
        rintro rfl
        exact held.not_mem hfree v hc⟩
    rw [update_of_ne hv]
    exact held.nodup v
  disjoint {v w c} hv hw := by
    rcases mem_update_append.mp hv with hold | ⟨rfl, rfl⟩
    · rcases mem_update_append.mp hw with hold' | ⟨rfl, rfl⟩
      · exact held.disjoint hold hold'
      · exact (held.not_mem hfree v hold).elim
    rcases mem_update_append.mp hw with hold' | ⟨rfl, -⟩
    · exact (held.not_mem hfree w hold').elim
    · rfl
  live {v c} hv := by
    rcases mem_update_append.mp hv with hv | ⟨rfl, rfl⟩
    · exact live_update_of_none hfree (held.live hv) _
    · exact update_self _ _ _

theorem grows_allocFor (pool : U → P) (l : Ledger P U) (u : U) :
    Grows pool l (l.allocFor (pool u) u).2 := by
  rcases l.allocFor_cases (pool u) u with ⟨b, answers, hfree, hstep⟩ | ⟨answers, hstep⟩
  · rw [hstep]
    refine ⟨fun h => live_update_of_none hfree h _, fun v c hc => mem_update_append.mpr (.inl hc),
      fun {v c} hmem hnot => ?_, fun held => held.hold hfree answers, rfl⟩
    rcases mem_update_append.mp hmem with hmem | ⟨-, rfl⟩
    · exact absurd hmem hnot
    · exact hfree
  rw [hstep]
  exact ⟨id, fun _ => List.Subset.refl _, fun hmem hnot => absurd hmem hnot,
    fun held => ⟨held.nodup, held.disjoint, held.live⟩, rfl⟩

theorem covers_allocFor {us : List U} (hu : u ∈ us) (l : Ledger P U) (p : P) :
    Covers us l (l.allocFor p u).2 := by
  intro b hfree hlive
  rcases l.allocFor_cases p u with ⟨c, answers, -, hstep⟩ | ⟨answers, hstep⟩
  · rw [hstep] at hlive ⊢
    by_cases hb : b = c
    · exact ⟨u, hu, mem_update_append.mpr (.inr ⟨rfl, hb⟩)⟩
    dsimp only at hlive
    rw [update_of_ne hb, hfree] at hlive
    cases hlive
  rw [hstep] at hlive
  rw [hfree] at hlive
  cases hlive

end Uses

/-! ## Giving back -/

variable [DecidableEq P]

def free (l : Ledger P U) (p : P) (b : ℕ) : Ledger P U :=
  { l with
    live := if l.live b = some p then update l.live b none else l.live
    frees := l.frees ++ [⟨p, b, l.live b = some p⟩] }

theorem live_free (l : Ledger P U) (p : P) (b c : ℕ) :
    (l.free p b).live c = if c = b ∧ l.live c = some p then none else l.live c := by
  change (if l.live b = some p then update l.live b none else l.live) c = _
  by_cases hlive : l.live b = some p
  · rw [if_pos hlive, update_apply]
    by_cases hc : c = b
    · rw [if_pos hc, if_pos ⟨hc, hc ▸ hlive⟩]
    · rw [if_neg hc, if_neg fun h => hc h.1]
  rw [if_neg hlive, if_neg]
  rintro ⟨rfl, h⟩
  exact hlive h

theorem Held.free (held : l.Held pool) (hnot : ∀ u, b ∉ l.blocks u) (p : P) :
    (l.free p b).Held pool where
  nodup := held.nodup
  disjoint := held.disjoint
  live {u c} hmem := by
    rw [live_free, if_neg]
    · exact held.live hmem
    rintro ⟨rfl, -⟩
    exact hnot u hmem

theorem live_foldl_free (bs : List ℕ) (l : Ledger P U) (p : P) (c : ℕ) :
    (bs.foldl (fun l b => l.free p b) l).live c =
      if c ∈ bs ∧ l.live c = some p then none else l.live c := by
  induction bs generalizing l with
  | nil => simp
  | cons b bs ih =>
    rw [List.foldl_cons, ih, live_free]
    by_cases hlive : l.live c = some p
    · by_cases hb : c = b <;> simp [hlive, hb]
    · simp [hlive]

theorem frees_foldl_free (l : Ledger P U) (p : P) {bs : List ℕ} (hnodup : bs.Nodup) :
    (bs.foldl (fun l b => l.free p b) l).frees =
      l.frees ++ bs.map fun b => ⟨p, b, l.live b = some p⟩ := by
  induction bs generalizing l with
  | nil => simp
  | cons b bs ih =>
    obtain ⟨hnot, hnodup⟩ := List.nodup_cons.mp hnodup
    -- the blocks that follow are other ones, and are as live as before
    have hsame : (bs.map fun c => (⟨p, c, (l.free p b).live c = some p⟩ : Free P)) =
        bs.map fun c => ⟨p, c, l.live c = some p⟩ := by
      refine List.map_congr_left fun c hc => ?_
      have hne : c ≠ b := by
        rintro rfl
        exact hnot hc
      rw [live_free, if_neg fun h => hne h.1]
    rw [List.foldl_cons, ih _ hnodup, hsame, List.map_cons]
    change (l.frees ++ [_]) ++ _ = _
    rw [List.append_assoc, List.singleton_append]

variable [DecidableEq U]

def release (l : Ledger P U) (p : P) (u : U) : Ledger P U :=
  { (l.blocks u).foldl (fun l b => l.free p b) l with blocks := update l.blocks u [] }

def releaseOne (l : Ledger P U) (p : P) (u : U) (b : ℕ) : Ledger P U :=
  { l.free p b with blocks := update l.blocks u ((l.blocks u).erase b) }

def releaseAll (l : Ledger P U) (p : P) (us : List U) : Ledger P U :=
  us.foldl (fun l u => l.release p u) l

theorem live_release (l : Ledger P U) (p : P) (u : U) (c : ℕ) :
    (l.release p u).live c = if c ∈ l.blocks u ∧ l.live c = some p then none else l.live c :=
  live_foldl_free (l.blocks u) l p c

theorem blocks_release (l : Ledger P U) (p : P) (u : U) :
    (l.release p u).blocks = update l.blocks u [] := rfl

theorem mem_blocks_release {c : ℕ} :
    c ∈ (l.release p u).blocks v ↔ v ≠ u ∧ c ∈ l.blocks v := by
  rw [blocks_release]
  by_cases hv : v = u
  · subst hv
    simp
  rw [update_of_ne hv]
  simp [hv]

theorem Held.frees_release (held : l.Held pool) (p : P) (u : U) :
    (l.release p u).frees =
      l.frees ++ (l.blocks u).map fun b => ⟨p, b, l.live b = some p⟩ :=
  frees_foldl_free l p (held.nodup u)

theorem Held.release (held : l.Held pool) (p : P) (u : U) : (l.release p u).Held pool where
  nodup v := by
    rw [blocks_release]
    by_cases hv : v = u
    · rw [hv, update_self]
      exact List.nodup_nil
    rw [update_of_ne hv]
    exact held.nodup v
  disjoint hv hw :=
    held.disjoint (mem_blocks_release.mp hv).2 (mem_blocks_release.mp hw).2
  live {v c} hmem := by
    obtain ⟨hv, hmem⟩ := mem_blocks_release.mp hmem
    rw [live_release, if_neg]
    · exact held.live hmem
    · exact fun h => hv (held.disjoint hmem h.1)

theorem Held.releaseOne (held : l.Held pool) (p : P) (hb : b ∈ l.blocks u) :
    (l.releaseOne p u b).Held pool := by
  have hmem {w : U} {c : ℕ} (hc : c ∈ (l.releaseOne p u b).blocks w) :
      c ∈ l.blocks w ∧ c ≠ b := by
    change c ∈ update l.blocks u ((l.blocks u).erase b) w at hc
    by_cases hw : w = u
    · subst hw
      rw [update_self, (held.nodup w).mem_erase_iff] at hc
      exact ⟨hc.2, hc.1⟩
    rw [update_of_ne hw] at hc
    refine ⟨hc, ?_⟩
    rintro rfl
    exact hw (held.disjoint hc hb)
  refine ⟨fun w => ?_, fun hv hw => held.disjoint (hmem hv).1 (hmem hw).1, fun {w c} hc => ?_⟩
  · change (update l.blocks u ((l.blocks u).erase b) w).Nodup
    by_cases hw : w = u
    · rw [hw, update_self]
      exact (held.nodup u).erase b
    rw [update_of_ne hw]
    exact held.nodup w
  obtain ⟨hc, hne⟩ := hmem hc
  change (l.free p b).live c = _
  rw [live_free, if_neg fun h => hne h.1]
  exact held.live hc

theorem Held.releaseAll (held : l.Held pool) (p : P) (us : List U) :
    (l.releaseAll p us).Held pool := by
  induction us generalizing l with
  | nil => exact held
  | cons u us ih => exact ih (held.release p u)

theorem blocks_releaseAll (l : Ledger P U) (p : P) (us : List U) (v : U) :
    (l.releaseAll p us).blocks v = if v ∈ us then [] else l.blocks v := by
  induction us generalizing l with
  | nil => rfl
  | cons u us ih =>
    refine (ih (l.release p u)).trans ?_
    rw [blocks_release]
    by_cases hv : v = u
    · subst hv
      simp
    · simp [hv]

theorem Held.frees_releaseAll (held : l.Held pool) {us : List U} (hus : ∀ u ∈ us, pool u = p)
    (hlive : ∀ f ∈ l.frees, f.live = true) :
    ∀ f ∈ (l.releaseAll p us).frees, f.live = true := by
  induction us generalizing l with
  | nil => exact hlive
  | cons u us ih =>
    refine ih (held.release p u) (fun v hv => hus v (List.mem_cons_of_mem _ hv)) fun f hf => ?_
    rw [held.frees_release, List.mem_append] at hf
    rcases hf with hf | hf
    · exact hlive f hf
    obtain ⟨b, hb, rfl⟩ := List.mem_map.mp hf
    refine decide_eq_true ?_
    rw [held.live hb, hus u List.mem_cons_self]

theorem live_releaseAll_of_not_mem {us : List U} {c : ℕ} (hnot : ∀ u ∈ us, c ∉ l.blocks u)
    (p : P) : (l.releaseAll p us).live c = l.live c := by
  induction us generalizing l with
  | nil => rfl
  | cons u us ih =>
    refine (ih fun w hw hmem => ?_).trans ?_
    · exact hnot w (List.mem_cons_of_mem _ hw) (mem_blocks_release.mp hmem).2
    · rw [live_release, if_neg fun h => hnot u List.mem_cons_self h.1]

theorem live_releaseAll_of_ne {q : P} {c : ℕ} (hlive : l.live c = some q) (hq : q ≠ p)
    (us : List U) : (l.releaseAll p us).live c = some q := by
  induction us generalizing l with
  | nil => exact hlive
  | cons u us ih =>
    refine ih ?_
    rw [live_release, if_neg]
    · exact hlive
    rintro ⟨-, h⟩
    exact hq (Option.some.inj (hlive.symm.trans h))

theorem releaseAll_append (l : Ledger P U) (p : P) (us vs : List U) :
    (l.releaseAll p us).releaseAll p vs = l.releaseAll p (us ++ vs) :=
  List.foldl_append.symm

theorem Held.live_releaseAll (held : l.Held pool) {us : List U} (hus : ∀ u ∈ us, pool u = p)
    {c : ℕ} (hu : u ∈ us) (hc : c ∈ l.blocks u) : (l.releaseAll p us).live c = none := by
  induction us generalizing l with
  | nil => cases hu
  | cons v us ih =>
    by_cases hv : c ∈ l.blocks v
    · -- it is given back here, and held for no other use
      have hnow : (l.release p v).live c = none := by
        rw [live_release, if_pos ⟨hv, by rw [held.live hv, hus v List.mem_cons_self]⟩]
      have hrest : ((l.release p v).releaseAll p us).live c = (l.release p v).live c :=
        live_releaseAll_of_not_mem (fun w _ => (held.release p v).not_mem hnow w) p
      exact hrest.trans hnow
    have huv : u ≠ v := by
      rintro rfl
      exact hv hc
    exact ih (held.release p v) (fun w hw => hus w (List.mem_cons_of_mem _ hw))
      (List.mem_of_ne_of_mem huv hu) (mem_blocks_release.mpr ⟨huv, hc⟩)

end Ledger

end Tinker.Lib
