import Tinker.Process.ExitSteps

/-!
# The clean-up loop of a process that exits

The loop stands at a place of the object table whose entry it deletes, and the iterator then reads
on in the bucket of that place, which is gone if the entry was the last one of it. The loop ends
well exactly if that does not happen before the last slot of the bucket, if no object frees a block
to the wrong pool, if no client comes behind its shared memory, and if timers and their threads
belong together.
-/

namespace Tinker

open Tinker.Lib Tinker.Collections Exec HashedMap

namespace ExitSys

variable {s s' s₀ : ExitSys} {p q x : Place} {entry entry' : MapEntry 2 ℕ} {k : ℕ}

def Before (s : ExitSys) (k : ℕ) (x : Place) : Prop := ∃ q, order q < k ∧ s.Removes q x

def Visited (s : ExitSys) (p : Place) : Prop := s.entryAt p ≠ none ∧ ¬ s.Before (order p) p

/-- After the place is done with, its bucket still has an entry, unless it is the last slot. -/
def KeepsBucket (s : ExitSys) (p : Place) : Prop :=
  p.2.val + 1 < mapBucketSize →
    ∃ x : Place, x.1 = p.1 ∧ s.entryAt x ≠ none ∧ ¬ s.Before (order p + 1) x

theorem order_injective : Function.Injective order := fun p q h => by
  obtain ⟨hb, he⟩ := position_inj.mp h
  exact Prod.ext hb he

theorem order_lt (p : Place) : order p < mapBucketCount * mapBucketSize := position_lt p.1 p.2

theorem before_succ : s.Before (order p + 1) x ↔ s.Before (order p) x ∨ s.Removes p x := by
  constructor
  · rintro ⟨q, hq, hremoves⟩
    rcases Nat.lt_succ_iff_lt_or_eq.mp hq with hlt | heq
    · exact .inl ⟨q, hlt, hremoves⟩
    · exact .inr (order_injective heq ▸ hremoves)
  rintro (⟨q, hq, hremoves⟩ | hremoves)
  · exact ⟨q, by omega, hremoves⟩
  · exact ⟨p, by omega, hremoves⟩

theorem Removes.cases (h : s.Removes q x) :
    x = q ∨ ∃ entry objno entry', s.entryAt q = some entry ∧ s.entryAt x = some entry' ∧
      s.objects entry.value = some (.timer objno true (some entry'.value)) := by
  obtain ⟨entry, hq, hcase⟩ := h
  split at hcase
  · exact hcase.elim
  · exact hcase.elim
  · rename_i objno t hobj
    rcases hcase with rfl | ⟨entry', hx, rfl⟩
    · exact .inl rfl
    · exact .inr ⟨entry, objno, entry', hq, hx, hobj⟩
  · exact .inl hcase

theorem Valid.not_removes_of_before (h : s.Valid) (hbefore : s.Before k q) (hk : k ≤ order q) :
    ¬ s.Removes q x := by
  obtain ⟨q', hlt, hremoves⟩ := hbefore
  rcases hremoves.cases with rfl | ⟨entry, objno, entry', hq', hq, hobj⟩
  · omega
  obtain ⟨y, entry'', objno', hy, hvalue, hthread⟩ := h.timers q' entry objno _ hq' hobj
  exact not_removes_of_thread hq hthread

theorem Valid.thread_not_before (h : s.Valid) {objno : ObjectNumber}
    (hp : s.entryAt p = some entry) (hx : s.entryAt x = some entry')
    (hobj : s.objects entry.value = some (.timer objno true (some entry'.value))) :
    ¬ s.Before (order p) x := by
  rintro ⟨q, hlt, hremoves⟩
  obtain ⟨y, entry₁, objno', hy, hvalue, hthread⟩ := h.timers p entry objno _ hp hobj
  rcases hremoves.cases with rfl | ⟨entry₂, objno₂, entry₃, hq, hx', htimer⟩
  · exact not_removes_of_thread hx hthread hremoves
  rw [hx] at hx'
  cases hx'
  have heq := h.ownThread p q entry entry₂ objno objno₂ _ hp hq hobj htimer
  rw [heq] at hlt
  exact lt_irrefl _ hlt

/-! ## From one place to the next -/

theorem Progress.skip (hvalid : s₀.Valid) (h : Progress s₀ s (s₀.Before k)) {k' : ℕ}
    (hk : k ≤ k') (hnone : ∀ q, k ≤ order q → order q < k' → s.entryAt q = none) :
    Progress s₀ s (s₀.Before k') := by
  refine h.congr fun x => ⟨?_, ?_⟩
  · rintro ⟨q, hq, hremoves⟩
    exact ⟨q, by omega, hremoves⟩
  rintro ⟨q, hq, hremoves⟩
  by_cases hlt : order q < k
  · exact ⟨q, hlt, hremoves⟩
  -- the entry has gone before, or there has never been one
  have hgone := hnone q (Nat.le_of_not_lt hlt) hq
  by_cases hbefore : s₀.Before k q
  · exact absurd hremoves (hvalid.not_removes_of_before hbefore (Nat.le_of_not_lt hlt))
  rw [h.here q hbefore] at hgone
  obtain ⟨entry, hentry, -⟩ := hremoves
  rw [hgone] at hentry
  cases hentry

theorem Progress.bucket_eq_none_iff (h : Progress s₀ s (s₀.Before k)) (b : Fin mapBucketCount) :
    s.table.theMap.buckets b = none ↔
      ¬ ∃ x : Place, x.1 = b ∧ s₀.entryAt x ≠ none ∧ ¬ s₀.Before k x := by
  constructor
  · rintro hnone ⟨x, rfl, hentry, hbefore⟩
    refine hentry ?_
    rw [← h.here x hbefore]
    simp [entryAt, slot, hnone]
  intro hnone
  cases hbucket : s.table.theMap.buckets b with
  | none => rfl
  | some bucket =>
    obtain ⟨e, he⟩ := h.wellFormed.occupied b bucket hbucket
    have hsome : s.entryAt (b, e) ≠ none := by
      simpa [entryAt, slot, hbucket, Option.isSome_iff_ne_none] using he
    have hbefore : ¬ s₀.Before k (b, e) := fun hgone => hsome (h.gone _ hgone)
    exact absurd ⟨(b, e), rfl, h.here _ hbefore ▸ hsome, hbefore⟩ hnone

theorem Progress.round (hvalid : s₀.Valid) (h : Progress s₀ s (s₀.Before (order p)))
    (hp : s₀.entryAt p = some entry) (hbefore : ¬ s₀.Before (order p) p)
    (hsafe : Deletable s₀ (s₀.Before (order p)) p) :
    ∃ s', s.processObject entry.value = .ok s' ∧
      Progress s₀ s' (s₀.Before (order p + 1)) := by
  obtain ⟨s', hok, hprogress⟩ := h.processObject hvalid hp hbefore hsafe (by
    rintro objno t x entry' hobj hx rfl
    exact hvalid.thread_not_before hp hx hobj)
  exact ⟨s', hok, hprogress.congr fun x => before_succ.symm⟩

/-- The loop, from a place at which it stops: it returns exactly if it gets past every place
that comes, and everything has then gone that goes with some place. -/
theorem cleanFrom_spec (hvalid : s₀.Valid) (fuel : ℕ) (s : ExitSys) (p : Place)
    (entry : MapEntry 2 ℕ) (map : HashedMap 2 ℕ)
    (hfuel : mapBucketCount * mapBucketSize ≤ order p + fuel)
    (h : Progress s₀ s (s₀.Before (order p))) (hp : s₀.entryAt p = some entry)
    (hbefore : ¬ s₀.Before (order p) p) :
    ((∀ q, order p ≤ order q → s₀.Visited q →
        Deletable s₀ (s₀.Before (order q)) q ∧ s₀.KeepsBucket q) →
      ∃ s', cleanFrom fuel s (itAt map p.1 p.2) entry.value = .ok s') ∧
    ∀ s', cleanFrom fuel s (itAt map p.1 p.2) entry.value = .ok s' →
      (∀ q, order p ≤ order q → s₀.Visited q →
        Deletable s₀ (s₀.Before (order q)) q ∧ s₀.KeepsBucket q) ∧
      Progress s₀ s' (s₀.Before (mapBucketCount * mapBucketSize)) := by
  -- the fuel bounds the number of places that are left
  induction fuel generalizing s p entry map with
  | zero => exact absurd (order_lt p) (by omega)
  | succ fuel ih =>
    have hhere : s₀.Visited p := ⟨by simp [hp], hbefore⟩
    by_cases hsafe : Deletable s₀ (s₀.Before (order p)) p
    case neg =>
      refine ⟨fun hall => absurd (hall p le_rfl hhere).1 hsafe, fun s' hok => ?_⟩
      obtain ⟨s₁, hprocess, -⟩ := of_bind hok
      exact absurd (h.deletable hvalid hp hbefore hprocess) hsafe
    obtain ⟨s₁, hprocess, h₁⟩ := h.round hvalid hp hbefore hsafe
    have hrun : cleanFrom (fuel + 1) s (itAt map p.1 p.2) entry.value =
        mapItNext s₁.table.theMap (itAt map p.1 p.2) >>= fun next =>
          next.1.elim (pure s₁) (cleanFrom fuel s₁ next.2) := by
      rw [cleanFrom, hprocess, ok_bind]
      refine congrArg _ (funext fun next => ?_)
      cases next with
      | mk o it => cases o <;> rfl
    have hbucket := h₁.bucket_eq_none_iff p.1
    rw [hrun]
    rcases mapItNext_spec s₁.table.theMap (itAt map p.1 p.2) rfl rfl rfl with
      ⟨hlast, hgone, hfault⟩ | ⟨hkept, hnext⟩
    · rw [hfault]
      refine ⟨fun hall => absurd ((hall p le_rfl hhere).2 hlast) (hbucket.mp hgone), ?_⟩
      intro s' hok
      cases hok
    have hkeeps : s₀.KeepsBucket p := fun hlast => by
      by_contra hgone
      exact hkept ⟨hlast, hbucket.mpr hgone⟩
    -- places at which the loop stops are never empty when it gets there
    have hstops : ∀ q, order p < order q → s₀.Visited q → s₁.entryAt q ≠ none := by
      intro q hlt hq
      have hnot : ¬ s₀.Before (order p + 1) q := fun ⟨q', hq', hremoves⟩ =>
        hq.2 ⟨q', by omega, hremoves⟩
      rw [h₁.here q hnot]
      exact hq.1
    rcases hnext with ⟨b, e, entry', hentry', hlt, hbetween, hnext⟩ | ⟨hnone, hnext⟩
    · rw [hnext]
      have h₂ : Progress s₀ s₁ (s₀.Before (order (b, e))) :=
        h₁.skip hvalid hlt fun q hq hq' => hbetween q.1 q.2 hq hq'
      have hnotBefore : ¬ s₀.Before (order (b, e)) (b, e) := fun hgone => by
        have hnone := h₂.gone _ hgone
        rw [entryAt, hentry'] at hnone
        cases hnone
      obtain ⟨hforward, hback⟩ := ih s₁ (b, e) entry' s₁.table.theMap
        (by have hlt' : order p < order (b, e) := hlt; omega) h₂
        (by rw [← h₂.here _ hnotBefore]; exact hentry') hnotBefore
      have hle : order p ≤ order (b, e) := le_of_lt hlt
      refine ⟨fun hall => hforward fun q hq => hall q (hle.trans hq), fun s' hok => ?_⟩
      obtain ⟨hrest, hprogress⟩ := hback s' hok
      refine ⟨fun q hq hvisited => ?_, hprogress⟩
      by_cases hfar : order (b, e) ≤ order q
      · exact hrest q hfar hvisited
      rcases Nat.lt_or_eq_of_le hq with hlt' | heq
      · exact absurd (hbetween q.1 q.2 hlt' (Nat.lt_of_not_le hfar)) (hstops q hlt' hvisited)
      · exact order_injective heq ▸ ⟨hsafe, hkeeps⟩
    rw [hnext]
    refine ⟨fun _ => ⟨s₁, rfl⟩, fun s' hok => ?_⟩
    cases hok
    refine ⟨fun q hq hvisited => ?_, h₁.skip hvalid (order_lt p) fun q hq _ => hnone q.1 q.2 hq⟩
    rcases Nat.lt_or_eq_of_le hq with hlt | heq
    · exact absurd (hnone q.1 q.2 hlt) (hstops q hlt hvisited)
    · exact order_injective heq ▸ ⟨hsafe, hkeeps⟩

/-! ## The whole clean-up -/

/-- The condition under which the clean-up goes well. -/
structure Orderly (s : ExitSys) : Prop where
  /-- No pipe has a ring, no shared memory has a list of clients, and every timer that has not
  fired has a thread. -/
  freeable : ∀ p entry obj, s.entryAt p = some entry → s.objects entry.value = some obj →
    obj.Freeable
  /-- The shared memory of a client is there, and not in the table before the client. -/
  clients : ∀ p entry objno o, s.entryAt p = some entry →
    s.objects entry.value = some (.shm objno none (some o)) →
    s.objects o ≠ none ∧ ∀ x entry', s.entryAt x = some entry' → entry'.value = o →
      order p ≤ order x
  /-- A thread of a timer has a timer that has not fired. -/
  threads : ∀ x entry objno, s.entryAt x = some entry →
    s.objects entry.value = some (.thread objno true) →
    ∃ p entry' objno', s.entryAt p = some entry' ∧
      s.objects entry'.value = some (.timer objno' true (some entry.value))
  /-- A bucket is not emptied before the loop is at its last slot. -/
  buckets : ∀ p, s.Visited p → s.KeepsBucket p

theorem removes_self {obj : TableObject} (hx : s.entryAt x = some entry)
    (hobj : s.objects entry.value = some obj) (hthread : ∀ objno, obj ≠ .thread objno true) :
    s.Removes x x := by
  by_cases htimer : ∃ objno t, obj = .timer objno true (some t)
  · obtain ⟨objno, t, rfl⟩ := htimer
    exact (removes_timer_iff hx hobj).mpr (.inl rfl)
  push Not at htimer
  exact (removes_iff hx hobj hthread htimer).mpr rfl

theorem Valid.before_iff (h : s.Valid) {obj : TableObject} (hx : s.entryAt x = some entry)
    (hobj : s.objects entry.value = some obj) (hthread : ∀ objno, obj ≠ .thread objno true) :
    s.Before k x ↔ order x < k := by
  refine ⟨?_, fun hlt => ⟨x, hlt, removes_self hx hobj hthread⟩⟩
  rintro ⟨q, hlt, hremoves⟩
  rcases hremoves.cases with rfl | ⟨entry', objno, entry'', hq, hx', htimer⟩
  · exact hlt
  rw [hx] at hx'
  cases hx'
  obtain ⟨-, -, objno', -, -, hobj'⟩ := h.timers q entry' objno _ hq htimer
  rw [hobj] at hobj'
  exact absurd (Option.some.inj hobj') (hthread objno')

/-- The objects can be deleted one after the other exactly if each can be freed and no client
comes behind its shared memory. -/
theorem Valid.deletable_iff (h : s.Valid) :
    (∀ p, s.Visited p → Deletable s (s.Before (order p)) p) ↔
      (∀ p entry obj, s.entryAt p = some entry → s.objects entry.value = some obj →
        obj.Freeable) ∧
      ∀ p entry objno o, s.entryAt p = some entry →
        s.objects entry.value = some (.shm objno none (some o)) →
        s.objects o ≠ none ∧ ∀ x entry', s.entryAt x = some entry' → entry'.value = o →
          order p ≤ order x := by
  have hvisited : ∀ p entry obj, s.entryAt p = some entry → s.objects entry.value = some obj →
      (∀ objno, obj ≠ .thread objno true) → s.Visited p := fun p entry obj hp hobj hthread =>
    ⟨by simp [hp], fun hbefore => lt_irrefl _ ((h.before_iff hp hobj hthread).mp hbefore)⟩
  -- where the shared memory of a client is in the table
  have hparent : ∀ p entry objno x entry', s.entryAt p = some entry →
      s.objects entry.value = some (.shm objno none (some entry'.value)) →
      s.entryAt x = some entry' → (¬ s.Before (order p) x ↔ order p ≤ order x) := by
    intro p entry objno x entry' hp hobj hx
    obtain ⟨obj, howner, -⟩ := h.named x entry' hx
    obtain ⟨objno', clients, parent, rfl⟩ := h.parents _ _ _ _ _ hobj howner
    rw [h.before_iff hx howner (by simp), not_lt]
  constructor
  · intro hall
    constructor
    · intro p entry obj hp hobj
      by_cases hthread : ∃ objno, obj = .thread objno true
      · obtain ⟨objno, rfl⟩ := hthread
        trivial
      push Not at hthread
      exact (hall p (hvisited p entry obj hp hobj hthread)).freeable entry obj hp hobj
    · intro p entry objno o hp hobj
      obtain ⟨hlive, hdone⟩ := (hall p (hvisited p entry _ hp hobj (by simp))).client entry objno o
        hp hobj
      refine ⟨hlive, ?_⟩
      rintro x entry' hx rfl
      rw [h.done_iff hx] at hdone
      exact (hparent p entry objno x entry' hp hobj hx).mp hdone
  rintro ⟨hfreeable, hclients⟩ p -
  refine ⟨hfreeable p, fun entry objno o hp hobj => ?_⟩
  obtain ⟨hlive, hbehind⟩ := hclients p entry objno o hp hobj
  refine ⟨hlive, ?_⟩
  rintro ⟨x, entry', hbefore, hx, rfl⟩
  exact (hparent p entry objno x entry' hp hobj hx).mpr (hbehind x entry' hx rfl) hbefore

theorem Valid.all_before_iff (h : s.Valid) :
    (∀ x, s.entryAt x ≠ none → s.Before (mapBucketCount * mapBucketSize) x) ↔
      ∀ x entry objno, s.entryAt x = some entry →
        s.objects entry.value = some (.thread objno true) →
        ∃ p entry' objno', s.entryAt p = some entry' ∧
          s.objects entry'.value = some (.timer objno' true (some entry.value)) := by
  constructor
  · intro hall x entry objno hx hobj
    obtain ⟨q, -, hremoves⟩ := hall x (by simp [hx])
    rcases hremoves.cases with rfl | ⟨entry', objno', entry'', hq, hx', htimer⟩
    · exact absurd hremoves (not_removes_of_thread hx hobj)
    rw [hx] at hx'
    cases hx'
    exact ⟨q, entry', objno', hq, htimer⟩
  intro hthreads x hx
  obtain ⟨entry, hentry⟩ := Option.ne_none_iff_exists'.mp hx
  obtain ⟨obj, hobj, -⟩ := h.named x entry hentry
  by_cases hthread : ∃ objno, obj = .thread objno true
  · obtain ⟨objno, rfl⟩ := hthread
    obtain ⟨p, entry', objno', hp, htimer⟩ := hthreads x entry objno hentry hobj
    exact ⟨p, order_lt p, (removes_timer_iff hp htimer).mpr (.inr ⟨entry, hentry, rfl⟩)⟩
  push Not at hthread
  exact (h.before_iff hentry hobj hthread).mpr (order_lt x)

theorem Valid.orderly_iff (h : s.Valid) : s.Orderly ↔
    (∀ p, s.Visited p → Deletable s (s.Before (order p)) p ∧ s.KeepsBucket p) ∧
      ∀ x, s.entryAt x ≠ none → s.Before (mapBucketCount * mapBucketSize) x := by
  rw [h.all_before_iff, forall₂_and, h.deletable_iff]
  constructor
  · rintro ⟨hfreeable, hclients, hthreads, hbuckets⟩
    exact ⟨⟨⟨hfreeable, hclients⟩, hbuckets⟩, hthreads⟩
  rintro ⟨⟨⟨hfreeable, hclients⟩, hbuckets⟩, hthreads⟩
  exact ⟨hfreeable, hclients, hthreads, hbuckets⟩

theorem assertions_iff (hwf : s.table.theMap.WellFormed) :
    (if (mapItGet (mapItReset s.table.theMap)).isNone then do
        mapDelete s.table.theMap
        return s
      else .error .halted : Exec ExitSys) = .ok s' ↔ s' = s ∧ ∀ x, s.entryAt x = none := by
  rcases mapItReset_spec s.table.theMap with ⟨b, e, entry, hentry, -, -, hget⟩ | ⟨hnone, hget⟩
  · rw [hget]
    refine ⟨fun hok => (by cases hok), fun ⟨_, hempty⟩ => ?_⟩
    have hslot := hempty (b, e)
    rw [entryAt, hentry] at hslot
    cases hslot
  have hdelete : mapDelete s.table.theMap = .ok () := by
    refine if_pos fun b => ?_
    cases hbucket : s.table.theMap.buckets b with
    | none => rfl
    | some bucket =>
      obtain ⟨e, he⟩ := hwf.occupied b bucket hbucket
      have hslot := hnone b e
      rw [slot, hbucket, Option.bind_some] at hslot
      rw [hslot] at he
      cases he
  rw [hget, Option.isNone_none, if_pos rfl, hdelete]
  exact ⟨fun hok => ⟨(Except.ok.inj hok).symm, fun x => hnone x.1 x.2⟩, fun ⟨hs, _⟩ => hs ▸ rfl⟩

/-- The clean-up returns exactly if the table is orderly, and the table is then empty. -/
theorem cleanUp_spec (h : s.Valid) :
    (s.Orderly → ∃ s', s.cleanUp = .ok s') ∧
      ∀ s', s.cleanUp = .ok s' → s.Orderly ∧ (∀ x, s'.entryAt x = none) ∧
        Progress s s' (s.Before (mapBucketCount * mapBucketSize)) := by
  rw [h.orderly_iff]
  unfold cleanUp
  rcases mapItReset_spec s.table.theMap with
    ⟨b, e, entry, hentry, hbefore, hreset, hget⟩ | ⟨hnone, hget⟩
  · have hfirst : ∀ x, ¬ s.Before (order (b, e)) x := by
      rintro x ⟨q, hlt, entry', hq, -⟩
      rw [entryAt, hbefore q.1 q.2 hlt] at hq
      cases hq
    have hstart : Progress s s (s.Before (order (b, e))) :=
      h.progress.congr fun x => ⟨False.elim, hfirst x⟩
    obtain ⟨hforward, hback⟩ := cleanFrom_spec h (mapBucketCount * mapBucketSize) s (b, e) entry
      s.table.theMap (by omega) hstart hentry (hfirst _)
    have hbehind : ∀ q, s.Visited q → order (b, e) ≤ order q := fun q hq =>
      Nat.le_of_not_lt fun hlt => hq.1 (hbefore q.1 q.2 hlt)
    dsimp only
    rw [hget, hreset]
    constructor
    · rintro ⟨hpasses, hall⟩
      obtain ⟨s', hloop⟩ := hforward fun q _ => hpasses q
      obtain ⟨-, hprogress⟩ := hback s' hloop
      refine ⟨s', bind_of ⟨s', hloop, ?_⟩⟩
      refine (assertions_iff hprogress.wellFormed).mpr ⟨rfl, fun x => ?_⟩
      by_cases hx : s.Before (mapBucketCount * mapBucketSize) x
      · exact hprogress.gone x hx
      rw [hprogress.here x hx]
      by_contra hsome
      exact hx (hall x hsome)
    intro s' hok
    obtain ⟨s₁, hloop, hassert⟩ := of_bind hok
    obtain ⟨hpasses, hprogress⟩ := hback s₁ hloop
    obtain ⟨rfl, hempty⟩ := (assertions_iff hprogress.wellFormed).mp hassert
    refine ⟨⟨fun q hq => hpasses q (hbehind q hq) hq, fun x hx => ?_⟩, hempty, hprogress⟩
    by_contra hnot
    exact hx (hprogress.here x hnot ▸ hempty x)
  have hempty : ∀ x, s.entryAt x = none := fun x => hnone x.1 x.2
  have hnever : ∀ k x, ¬ s.Before k x := by
    rintro k x ⟨q, -, entry, hq, -⟩
    rw [hempty q] at hq
    cases hq
  dsimp only
  rw [hget]
  have hdone := (assertions_iff h.wellFormed).mpr ⟨rfl, hempty⟩
  refine ⟨fun _ => ⟨s, bind_of ⟨s, rfl, hdone⟩⟩, ?_⟩
  intro s' hok
  obtain ⟨s₁, hloop, hassert⟩ := of_bind hok
  cases hloop
  obtain ⟨rfl, -⟩ := (assertions_iff h.wellFormed).mp hassert
  exact ⟨⟨fun q hq => absurd (hempty q) hq.1, fun x hx => absurd (hempty x) hx⟩, hempty,
    h.progress.congr fun x => ⟨False.elim, hnever _ x⟩⟩

/-- When a process exits, the loop over its objects never reads a bucket that has been freed,
deletes every object once and ends with an empty table exactly if the table is orderly. -/
theorem cleanUp_iff (h : s.Valid) :
    (∃ s', s.cleanUp = .ok s' ∧ (∀ x, s'.entryAt x = none) ∧
      ∀ p entry, s.entryAt p = some entry → s'.deleted.count entry.value = 1) ↔ s.Orderly := by
  obtain ⟨hforward, hback⟩ := cleanUp_spec h
  constructor
  · rintro ⟨s', hok, -⟩
    exact (hback s' hok).1
  · intro horderly
    obtain ⟨s', hok⟩ := hforward horderly
    obtain ⟨-, hempty, hprogress⟩ := hback s' hok
    refine ⟨s', hok, hempty, fun p entry hp => ?_⟩
    refine List.count_eq_one_of_mem hprogress.nodup ((hprogress.log _).mpr ?_)
    exact (h.done_iff hp).mpr ((h.orderly_iff.mp horderly).2 p (by simp [hp]))

/-- A process whose only object is a semaphore, in a slot of the bucket of its number. -/
def lone (e : Fin mapBucketSize) : ExitSys where
  table := ⟨putAt ⟨0, fun _ => none, hashBasicInteger⟩ e (numberKey 1) 0, 2⟩
  objects o := if o = 0 then some (.semaphore 1) else none
  deleted := []

theorem entryAt_lone {e : Fin mapBucketSize} (h : (lone e).entryAt x = some entry) :
    x.2 = e ∧ entry = ⟨numberKey 1, 0⟩ := by
  have hslot :
      (if x.1 = mapIndexOf ⟨0, fun _ => none, hashBasicInteger⟩ (numberKey 1) ∧ x.2 = e then
        some ⟨numberKey 1, 0⟩ else none) = some entry :=
    (slot_putAt x.1 x.2).symm.trans h
  split at hslot
  · exact ⟨And.right ‹_›, (Option.some.inj hslot).symm⟩
  · cases hslot

theorem objects_lone {e : Fin mapBucketSize} {o : ℕ} {obj : TableObject}
    (h : (lone e).objects o = some obj) : obj = .semaphore 1 := by
  have hif : (if o = 0 then some (TableObject.semaphore 1) else none) = some obj := h
  split at hif
  · exact (Option.some.inj hif).symm
  · cases hif

theorem valid_lone (e : Fin mapBucketSize) : (lone e).Valid where
  wellFormed := (wellFormed_empty _).putAt (.inr ⟨rfl, by simp [slot]⟩)
  named p entry hp := by
    obtain ⟨-, rfl⟩ := entryAt_lone hp
    exact ⟨.semaphore 1, rfl, rfl⟩
  parents o objno clients parent obj ho := by cases objects_lone ho
  timers p entry objno t _ hobj := by cases objects_lone hobj
  ownThread p q entry entry' objno objno' t _ _ hobj := by cases objects_lone hobj
  fresh := rfl

/-- In the last slot, nothing of the bucket is read once it has been freed. -/
theorem cleanUp_lone_last : (lone ⟨31, by decide⟩).Valid ∧
    ∃ s', (lone ⟨31, by decide⟩).cleanUp = .ok s' ∧ (∀ x, s'.entryAt x = none) ∧
      ∀ p entry, (lone ⟨31, by decide⟩).entryAt p = some entry →
        s'.deleted.count entry.value = 1 := by
  refine ⟨valid_lone _, (cleanUp_iff (valid_lone _)).mpr ?_⟩
  constructor
  · intro p entry obj _ hobj
    cases objects_lone hobj
    trivial
  · intro p entry objno o _ hobj
    cases objects_lone hobj
  · intro x entry objno _ hobj
    cases objects_lone hobj
  · intro p hp hlast
    obtain ⟨entry, hentry⟩ := Option.ne_none_iff_exists'.mp hp.1
    rw [(entryAt_lone hentry).1] at hlast
    exact absurd hlast (by decide)

/-- A process whose only object is a semaphore: with the semaphore its bucket is freed, and the
iterator reads on in it. -/
theorem cleanUp_semaphore_badPointer : ∃ table table' : HashedTable ℕ,
    HashedTable.objInitialseTable = .ok table ∧
      table.objAddObject (some 0) = (.noError, some 1, table') ∧
      let s : ExitSys := ⟨table', fun o => if o = 0 then some (.semaphore 1) else none, []⟩
      s.Valid ∧ s.cleanUp = .error .badPointer := by
  let table : HashedTable ℕ := ⟨⟨0, fun _ => none, hashBasicInteger⟩, 1⟩
  have hput : ∃ e, mapPut table.theMap (numberKey 1) 0 = (true, (lone e).table.theMap) := by
    rcases mapPut_cases table.theMap (numberKey 1) 0 with ⟨e, -, -, hput⟩ | ⟨hfull, -⟩
    · exact ⟨e, hput⟩
    · refine absurd hfull (not_or.mpr ⟨by decide, fun hfull => ?_⟩)
      obtain ⟨entry, hentry, -⟩ := hfull ⟨0, by decide⟩
      cases hentry
  obtain ⟨e, hput⟩ := hput
  have hadd : table.objAddObject (some 0) = (.noError, some 1, (lone e).table) := by
    have hid : table.freeId = some 1 := by decide +kernel
    simp only [HashedTable.objAddObject, hid, hput]
    rfl
  have hfault : Exec.fault? (⟨(table.objAddObject (some 0)).2.2,
      fun o => if o = 0 then some (.semaphore 1) else none, []⟩ : ExitSys).cleanUp =
        some .badPointer := by
    decide +kernel
  rw [hadd] at hfault
  exact ⟨table, (lone e).table, rfl, hadd, valid_lone e, Exec.eq_error_of_fault? hfault⟩

end ExitSys

end Tinker
