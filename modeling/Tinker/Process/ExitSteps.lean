import Tinker.Process.Exit

/-!
# Deleting the objects of a process, one by one

The state of the clean-up is compared with the one it started from: some places of the table are
done with and their objects are gone, the other entries are as they were, and so are all other
objects, except that clients may be missing from the list of a shared memory.
-/

namespace Tinker

open Tinker.Lib Tinker.Collections TableObject

/-- An object without the clients it may have. -/
def TableObject.shape : TableObject → TableObject
  | shm objno clients parent => shm objno (clients.map fun _ => []) parent
  | obj => obj

/-- Nothing of the object is freed to the wrong pool, and a timer that has not fired has a
thread. -/
def TableObject.Freeable : TableObject → Prop
  | .pipe _ memory => memory = none
  | .shm _ clients _ => clients = none
  | .timer _ callback threadObj => callback = true → threadObj ≠ none
  | _ => True

theorem TableObject.cases_of_shape {obj obj' : TableObject} (h : obj'.shape = obj.shape) :
    obj' = obj ∨ ∃ objno clients' clients parent,
      obj' = .shm objno (some clients') parent ∧ obj = .shm objno (some clients) parent := by
  cases obj with
  | shm objno clients parent =>
    cases obj' with
    | shm objno' clients' parent' =>
      cases clients <;> cases clients' <;> simp_all [shape]
    | _ => simp [shape] at h
  | _ => cases obj' <;> simp_all [shape]

theorem TableObject.exists_shm_of_shape {obj' : TableObject} {objno : ObjectNumber}
    {clients : Option (List ℕ)} {parent : Option ℕ}
    (h : obj'.shape = (shm objno clients parent).shape) :
    ∃ clients', obj' = .shm objno clients' parent := by
  rcases cases_of_shape h with rfl | ⟨_, clients', _, _, rfl, heq⟩
  · exact ⟨clients, rfl⟩
  cases heq
  exact ⟨some clients', rfl⟩

namespace ExitSys

/-- A place of the object table: a bucket, and a slot in it. -/
abbrev Place := Fin mapBucketCount × Fin mapBucketSize

def entryAt (s : ExitSys) (p : Place) : Option (MapEntry 2 ℕ) := s.table.theMap.slot p.1 p.2

/-- The order in which the iterator comes to the places. -/
def order (p : Place) : ℕ := position p.1 p.2

/-- A process whose table and objects fit together, before the clean-up: objects are in the table
under their numbers, clients belong to shared memories, and a timer that has not fired has a thread
of its own in the table. -/
structure Valid (s : ExitSys) : Prop where
  wellFormed : s.table.theMap.WellFormed
  named : ∀ p entry, s.entryAt p = some entry →
    ∃ obj, s.objects entry.value = some obj ∧ numberKey obj.objno = entry.key
  parents : ∀ o objno clients parent obj, s.objects o = some (.shm objno clients (some parent)) →
    s.objects parent = some obj → ∃ objno' clients' parent', obj = .shm objno' clients' parent'
  timers : ∀ p entry objno t, s.entryAt p = some entry →
    s.objects entry.value = some (.timer objno true (some t)) →
    ∃ q entry' objno', s.entryAt q = some entry' ∧ entry'.value = t ∧
      s.objects t = some (.thread objno' true)
  ownThread : ∀ p q entry entry' objno objno' t, s.entryAt p = some entry →
    s.entryAt q = some entry' → s.objects entry.value = some (.timer objno true (some t)) →
    s.objects entry'.value = some (.timer objno' true (some t)) → p = q
  fresh : s.deleted = []

variable {s s' s₀ : ExitSys} {p q x : Place} {entry entry' : MapEntry 2 ℕ} {o v : ℕ}
  {objno : ObjectNumber} {obj : TableObject}

theorem Valid.eq_of_value (h : s.Valid) (hp : s.entryAt p = some entry)
    (hq : s.entryAt q = some entry') (hvalue : entry.value = entry'.value) : p = q := by
  obtain ⟨obj, hobj, hkey⟩ := h.named p entry hp
  obtain ⟨obj', hobj', hkey'⟩ := h.named q entry' hq
  rw [hvalue, hobj'] at hobj
  cases hobj
  have hsame : entry.key = entry'.key := hkey.symm.trans hkey'
  have hbucket : p.1 = q.1 := by
    rw [← h.wellFormed.placed p.1 p.2 entry hp, ← h.wellFormed.placed q.1 q.2 entry' hq, hsame]
  refine Prod.ext hbucket (h.wellFormed.unique p.1 p.2 q.2 entry entry' hp ?_ hsame)
  rw [hbucket]
  exact hq

theorem removeObject_spec (hwf : s.table.theMap.WellFormed) (hp : s.entryAt p = some entry)
    (hkey : numberKey objno = entry.key) :
    (s.removeObject objno).table.theMap.WellFormed ∧
      ∀ x, (s.removeObject objno).entryAt x = if x = p then none else s.entryAt x := by
  obtain ⟨b, e⟩ := p
  have hindex : mapIndexOf s.table.theMap (numberKey objno) = b := by
    rw [hkey]
    exact hwf.placed b e entry hp
  have hfound : mapContainsKey s.table.theMap (numberKey objno) = true := by
    rw [mapContainsKey_eq, hkey, hwf.mapGet_eq_some_iff.mpr ⟨b, e, hp⟩]
    rfl
  rcases hwf.mapRemove_cases (numberKey objno) with ⟨i, value, hslot, hmap⟩ | ⟨habsent, -⟩
  · rw [hindex] at hslot hmap
    obtain rfl := hwf.unique b e i entry _ hp hslot hkey.symm
    have htable : (s.removeObject objno).table.theMap = s.table.theMap.removeAt b e := by
      simp [removeObject, HashedTable.objRemoveObject, hfound, hmap]
    refine ⟨htable ▸ hwf.removeAt b e, fun x => ?_⟩
    rw [entryAt, htable, HashedMap.slot_removeAt]
    simp only [entryAt, Prod.ext_iff]
  refine absurd ?_ (habsent e entry.value)
  rw [hindex, hkey]
  exact hp

/-! ## The objects in memory -/

theorem load_eq (h : s.objects v = some obj) : s.load v = .ok obj := by
  rw [load, h]

theorem load_error (h : s.objects v = none) : s.load v = .error .badPointer := by
  rw [load, h]

theorem objects_of_load (h : s.load v = .ok obj) : s.objects v = some obj := by
  unfold load at h
  split at h
  · cases h
    assumption
  · cases h

/-- The state `s'` comes from `s` by freeing the object `v`, and by changes of lists of clients. -/
structure Frees (s s' : ExitSys) (v : ℕ) : Prop where
  table : s'.table = s.table
  log : s'.deleted = s.deleted ++ [v]
  dead : s'.objects v = none
  shapes : ∀ w, w ≠ v → (s'.objects w).map shape = (s.objects w).map shape

theorem exists_free (h : s.objects v = some obj) : ∃ s', s.free v = .ok s' ∧ Frees s s' v := by
  rw [free, h]
  refine ⟨_, rfl, rfl, rfl, Function.update_self _ _ _, fun w hw => ?_⟩
  exact congrArg _ (Function.update_of_ne hw _ _)

theorem exists_modifyClients {clients : Option (List ℕ)} {parent : Option ℕ}
    (h : s.objects o = some (.shm objno clients parent)) (f : List ℕ → List ℕ) :
    ∃ s', s.modifyClients o f = .ok s' ∧ s'.table = s.table ∧ s'.deleted = s.deleted ∧
      ∀ w, (s'.objects w).map shape = (s.objects w).map shape := by
  rw [modifyClients, load_eq h]
  refine ⟨_, rfl, rfl, rfl, fun w => ?_⟩
  change (Function.update s.objects o _ w).map shape = _
  rcases eq_or_ne w o with rfl | hw
  · rw [Function.update_self, h]
    cases clients <;> rfl
  · rw [Function.update_of_ne hw]

/-- A client leaves the list of its shared memory, whatever has become of that, and is freed. -/
theorem exists_deleteClient (depth : ℕ) {objno' : ObjectNumber} {clients : Option (List ℕ)}
    {parent : Option ℕ} (hv : s.objects v = some (.shm objno none (some o)))
    (ho : s.objects o = some (.shm objno' clients parent)) :
    ∃ s', objDeleteShm (depth + 1) s v = .ok s' ∧ Frees s s' v := by
  obtain ⟨s₁, hmodify, htable, hlog, hshapes⟩ := exists_modifyClients ho (·.erase v)
  obtain ⟨obj, hobj, -⟩ := Option.map_eq_some_iff.mp ((hshapes v).trans (congrArg _ hv))
  obtain ⟨s', hfree, hfrees⟩ := exists_free hobj
  refine ⟨s', ?_, hfrees.table.trans htable, by rw [hfrees.log, hlog], hfrees.dead,
    fun w hw => (hfrees.shapes w hw).trans (hshapes w)⟩
  rw [objDeleteShm, load_eq hv]
  change (s.modifyClients o (·.erase v) >>= fun s => s.free v) = _
  rw [hmodify]
  exact hfree

theorem objDeleteShm_ne_ok (depth : ℕ) {clients : List ℕ} {parent : Option ℕ}
    (hv : s.objects v = some (.shm objno (some clients) parent)) :
    objDeleteShm (depth + 1) s v ≠ .ok s' := by
  intro h
  rw [objDeleteShm, load_eq hv, Exec.ok_bind] at h
  obtain ⟨_, -, h⟩ := Exec.of_bind h
  cases h

/-! ## The clean-up in progress -/

/-- The object belongs to a place in `R`. -/
def Done (s : ExitSys) (R : Place → Prop) (w : ℕ) : Prop :=
  ∃ x entry, R x ∧ s.entryAt x = some entry ∧ entry.value = w

/-- The clean-up that began in `s₀`, in the state `s`, when the places in `R` are done with. -/
structure Progress (s₀ s : ExitSys) (R : Place → Prop) : Prop where
  wellFormed : s.table.theMap.WellFormed
  gone : ∀ x, R x → s.entryAt x = none
  here : ∀ x, ¬ R x → s.entryAt x = s₀.entryAt x
  freed : ∀ w, s₀.Done R w → s.objects w = none
  shapes : ∀ w, ¬ s₀.Done R w → (s.objects w).map shape = (s₀.objects w).map shape
  log : ∀ w, w ∈ s.deleted ↔ s₀.Done R w
  nodup : s.deleted.Nodup

variable {R R' : Place → Prop}

theorem Progress.congr (h : Progress s₀ s R) (hR : ∀ x, R x ↔ R' x) : Progress s₀ s R' :=
  (funext fun x => propext (hR x) : R = R') ▸ h

theorem Valid.progress (h : s.Valid) : Progress s s (fun _ => False) where
  wellFormed := h.wellFormed
  gone _ hx := hx.elim
  here _ _ := rfl
  freed := fun _ ⟨_, _, hx, _⟩ => hx.elim
  shapes _ _ := rfl
  log w := by
    rw [h.fresh]
    exact ⟨fun hw => absurd hw List.not_mem_nil, fun ⟨_, _, hx, _⟩ => hx.elim⟩
  nodup := h.fresh ▸ List.nodup_nil

theorem Valid.done_iff (h : s.Valid) (hx : s.entryAt x = some entry) :
    s.Done R entry.value ↔ R x := by
  constructor
  · rintro ⟨y, entry', hy, hentry', hvalue⟩
    rwa [← h.eq_of_value hentry' hx hvalue]
  · exact fun hR => ⟨x, entry, hR, hx, rfl⟩

theorem done_or (hx : s.entryAt x = some entry) (w : ℕ) :
    s.Done (fun y => R y ∨ y = x) w ↔ s.Done R w ∨ w = entry.value := by
  constructor
  · rintro ⟨y, entry', hy | rfl, hentry', rfl⟩
    · exact .inl ⟨y, entry', hy, hentry', rfl⟩
    · rw [hx] at hentry'
      cases hentry'
      exact .inr rfl
  · rintro (⟨y, entry', hy, hentry', rfl⟩ | rfl)
    · exact ⟨y, entry', .inl hy, hentry', rfl⟩
    · exact ⟨x, entry, .inr rfl, hx, rfl⟩

/-- An object that is not done with is there as it was, up to its clients. -/
theorem Progress.object (h : Progress s₀ s R) {w : ℕ} (hw : ¬ s₀.Done R w)
    (hobj : s₀.objects w = some obj) :
    ∃ obj', s.objects w = some obj' ∧ obj'.shape = obj.shape := by
  have hshape := h.shapes w hw
  rw [hobj] at hshape
  exact Option.map_eq_some_iff.mp hshape

section

variable (hvalid : s₀.Valid) (h : Progress s₀ s R) (hx : s₀.entryAt x = some entry) (hR : ¬ R x)
  (hkey : numberKey objno = entry.key)
include hvalid h hx hR hkey

/-- One more entry goes: its object is freed, and its number is taken out of the table. -/
theorem Progress.drop (hfrees : Frees s s' entry.value) :
    Progress s₀ (s'.removeObject objno) (fun y => R y ∨ y = x) := by
  have hentry : ∀ y, s'.entryAt y = s.entryAt y := fun y => by
    rw [entryAt, entryAt, hfrees.table]
  have hhere : s'.entryAt x = some entry := by rw [hentry, h.here x hR, hx]
  obtain ⟨hwf, hremove⟩ := removeObject_spec (hfrees.table ▸ h.wellFormed) hhere hkey
  have hnew : ¬ s₀.Done R entry.value := fun hdone => hR ((hvalid.done_iff hx).mp hdone)
  constructor
  case wellFormed => exact hwf
  case gone =>
    intro y hy
    rw [hremove]
    split
    · rfl
    rw [hentry]
    exact h.gone y (hy.resolve_right ‹_›)
  case here =>
    intro y hy
    obtain ⟨hyR, hyx⟩ := not_or.mp hy
    rw [hremove, if_neg hyx, hentry, h.here y hyR]
  case freed =>
    intro w hw
    change s'.objects w = none
    rcases (done_or hx w).mp hw with hw | rfl
    · have hne : w ≠ entry.value := fun heq => hnew (heq ▸ hw)
      have hshape := hfrees.shapes w hne
      rw [h.freed w hw] at hshape
      exact Option.map_eq_none_iff.mp hshape
    · exact hfrees.dead
  case shapes =>
    intro w hw
    rw [done_or hx, not_or] at hw
    exact (hfrees.shapes w hw.2).trans (h.shapes w hw.1)
  case log =>
    intro w
    change w ∈ s'.deleted ↔ _
    rw [hfrees.log, List.mem_append, h.log, List.mem_singleton, done_or hx]
  case nodup =>
    change s'.deleted.Nodup
    rw [hfrees.log]
    refine List.nodup_append_comm.mp (List.nodup_cons.mpr ⟨fun hin => ?_, h.nodup⟩)
    exact hnew ((h.log _).mp hin)

theorem Progress.free (hobj : s.objects entry.value = some obj) :
    ∃ s', s.free entry.value = .ok s' ∧
      Progress s₀ (s'.removeObject objno) (fun y => R y ∨ y = x) := by
  obtain ⟨s', hfree, hfrees⟩ := exists_free hobj
  exact ⟨s', hfree, h.drop hvalid hx hR hkey hfrees⟩

end

/-! ## The body of the loop -/

/-- Which entries go with the object at `p`: none if it is the thread of a timer, the one of the
thread too if it is a timer that has not fired, and its own otherwise. -/
def Removes (s : ExitSys) (p x : Place) : Prop :=
  ∃ entry, s.entryAt p = some entry ∧
    match s.objects entry.value with
    | none => False
    | some (.thread _ true) => False
    | some (.timer _ true (some t)) =>
      x = p ∨ ∃ entry', s.entryAt x = some entry' ∧ entry'.value = t
    | some _ => x = p

/-- The object at `p` can be deleted when the places in `R` are done with: a client needs its
shared memory, too. -/
structure Deletable (s : ExitSys) (R : Place → Prop) (p : Place) : Prop where
  freeable : ∀ entry obj, s.entryAt p = some entry → s.objects entry.value = some obj →
    obj.Freeable
  client : ∀ entry objno o, s.entryAt p = some entry →
    s.objects entry.value = some (.shm objno none (some o)) → s.objects o ≠ none ∧ ¬ s.Done R o

theorem removes_iff (hp : s.entryAt p = some entry) (hobj : s.objects entry.value = some obj)
    (hthread : ∀ objno, obj ≠ .thread objno true)
    (htimer : ∀ objno t, obj ≠ .timer objno true (some t)) : s.Removes p x ↔ x = p := by
  unfold Removes
  simp only [hp, Option.some.injEq, exists_eq_left', hobj]

theorem removes_timer_iff {t : ℕ} (hp : s.entryAt p = some entry)
    (hobj : s.objects entry.value = some (.timer objno true (some t))) :
    s.Removes p x ↔ x = p ∨ ∃ entry', s.entryAt x = some entry' ∧ entry'.value = t := by
  unfold Removes
  simp [hp, hobj]

theorem not_removes_of_thread (hp : s.entryAt p = some entry)
    (hobj : s.objects entry.value = some (.thread objno true)) : ¬ s.Removes p x := by
  unfold Removes
  simp [hp, hobj]

section

variable (hvalid : s₀.Valid) (h : Progress s₀ s R) (hp : s₀.entryAt p = some entry) (hR : ¬ R p)
include hvalid h hp hR

/-- An object that can be freed is as it was. -/
theorem Progress.objects_eq (hobj : s₀.objects entry.value = some obj) (hfree : obj.Freeable) :
    s.objects entry.value = some obj := by
  have hdone : ¬ s₀.Done R entry.value := fun hdone => hR ((hvalid.done_iff hp).mp hdone)
  obtain ⟨obj', hobj', hshape⟩ := h.object hdone hobj
  rcases cases_of_shape hshape with rfl | ⟨_, _, _, _, -, rfl⟩
  · exact hobj'
  · cases hfree

theorem Progress.processShm {parent : Option ℕ} (hsafe : Deletable s₀ R p)
    (hobj : s₀.objects entry.value = some (.shm objno none parent))
    (hnow : s.objects entry.value = some (.shm objno none parent))
    (hkey : numberKey objno = entry.key) :
    ∃ s', s.processObject entry.value = .ok s' ∧ Progress s₀ s' (fun x => R x ∨ x = p) := by
  have hdelete : ∃ s', objDeleteShm 2 s entry.value = .ok s' ∧ Frees s s' entry.value := by
    cases parent with
    | none =>
      obtain ⟨s', hfree, hfrees⟩ := exists_free hnow
      refine ⟨s', ?_, hfrees⟩
      rw [objDeleteShm, load_eq hnow]
      exact hfree
    | some o =>
      -- the shared memory is still there, since its place is not done with
      obtain ⟨hlive, hdone⟩ := hsafe.client entry objno o hp hobj
      obtain ⟨owner, howner⟩ := Option.ne_none_iff_exists'.mp hlive
      obtain ⟨objno', list, parent', rfl⟩ := hvalid.parents _ _ _ _ _ hobj howner
      obtain ⟨owner', howner', hshape⟩ := h.object hdone howner
      obtain ⟨list', rfl⟩ := exists_shm_of_shape hshape
      exact exists_deleteClient 1 hnow howner'
  obtain ⟨s', hok, hfrees⟩ := hdelete
  refine ⟨s'.removeObject objno, ?_, h.drop hvalid hp hR hkey hfrees⟩
  rw [processObject, load_eq hnow]
  rw [hok]
  rfl

theorem Progress.processTimer {t : ℕ}
    (hobj : s₀.objects entry.value = some (.timer objno true (some t)))
    (hnow : s.objects entry.value = some (.timer objno true (some t)))
    (hkey : numberKey objno = entry.key)
    (hthread : ∀ x entry', s₀.entryAt x = some entry' → entry'.value = t → ¬ R x) :
    ∃ s', s.processObject entry.value = .ok s' ∧
      Progress s₀ s' (fun x => R x ∨ s₀.Removes p x) := by
  obtain ⟨q, entry', objno', hq, rfl, ht⟩ := hvalid.timers p entry objno t hp hobj
  have hqR := hthread q entry' hq rfl
  have hobj' := h.objects_eq hvalid hq hqR ht trivial
  have hplace : p ≠ q := by
    rintro rfl
    rw [hp] at hq
    cases hq
    rw [ht] at hobj
    cases hobj
  have hqkey : numberKey objno' = entry'.key := by
    obtain ⟨obj, hthreadObj, hkey'⟩ := hvalid.named q entry' hq
    rw [ht] at hthreadObj
    cases hthreadObj
    exact hkey'
  obtain ⟨s₁, hfree₁, h₁⟩ := h.free hvalid hq hqR hqkey hobj'
  have hpR : ¬ (R p ∨ p = q) := not_or.mpr ⟨hR, hplace⟩
  have hkept := h₁.objects_eq hvalid hp hpR hobj fun _ => Option.some_ne_none _
  obtain ⟨s₂, hfree₂, h₂⟩ := h₁.free hvalid hp hpR hkey hkept
  refine ⟨_, ?_, h₂.congr fun x => ?_⟩
  · rw [processObject, load_eq hnow]
    change (s.load entry'.value >>= fun obj => s.free entry'.value >>= fun s =>
      pure (s.removeObject obj.objno)) >>= (fun s => s.free entry.value >>= fun s =>
        pure (s.removeObject objno)) = _
    rw [load_eq hobj']
    rw [hfree₁]
    change ((s₁.removeObject objno').free entry.value >>= _) = _
    rw [hfree₂]
    rfl
  rw [removes_timer_iff hp hobj]
  constructor
  · rintro ((hx | rfl) | rfl)
    · exact .inl hx
    · exact .inr (.inr ⟨entry', hq, rfl⟩)
    · exact .inr (.inl rfl)
  rintro (hx | rfl | ⟨entry₁, hx, hvalue⟩)
  · exact .inl (.inl hx)
  · exact .inr rfl
  · exact .inl (.inr (hvalid.eq_of_value hx hq hvalue))

theorem Progress.processObject (hsafe : Deletable s₀ R p)
    (hthread : ∀ objno t x entry', s₀.objects entry.value = some (.timer objno true (some t)) →
      s₀.entryAt x = some entry' → entry'.value = t → ¬ R x) :
    ∃ s', s.processObject entry.value = .ok s' ∧
      Progress s₀ s' (fun x => R x ∨ s₀.Removes p x) := by
  obtain ⟨obj, hobj, hkey⟩ := hvalid.named p entry hp
  have hfreeable := hsafe.freeable entry obj hp hobj
  have hnow := h.objects_eq hvalid hp hR hobj hfreeable
  -- objects that go alone
  obtain ⟨s₁, hfree, halone⟩ := h.free hvalid hp hR hkey hnow
  have hone : (∀ objno, obj ≠ .thread objno true) → (∀ objno t, obj ≠ .timer objno true (some t)) →
      Progress s₀ (s₁.removeObject obj.objno) (fun x => R x ∨ s₀.Removes p x) :=
    fun hthread htimer => halone.congr fun x => by rw [removes_iff hp hobj hthread htimer]
  cases obj with
  | thread objno timer =>
    cases timer with
    | false =>
      refine ⟨_, ?_, hone (by simp) (by simp)⟩
      rw [ExitSys.processObject, load_eq hnow]
      simp [hfree, bind, Except.bind, pure, Except.pure, TableObject.objno]
    | true =>
      refine ⟨s, ?_, h.congr fun x => by simp [not_removes_of_thread hp hobj]⟩
      rw [ExitSys.processObject, load_eq hnow]
      rfl
  | timer objno callback threadObj =>
    cases callback with
    | false =>
      refine ⟨_, ?_, hone (by simp) (by simp)⟩
      rw [ExitSys.processObject, load_eq hnow]
      simp [hfree, bind, Except.bind, pure, Except.pure, TableObject.objno]
    | true =>
      cases threadObj with
      | none => exact absurd rfl (hfreeable rfl)
      | some t =>
        exact h.processTimer hvalid hp hR hobj hnow hkey
          fun x entry' => hthread objno t x entry' hobj
  | shm objno clients parent =>
    cases hfreeable
    obtain ⟨s', hok, hprogress⟩ := h.processShm hvalid hp hR hsafe hobj hnow hkey
    exact ⟨s', hok, hprogress.congr fun x => by rw [removes_iff hp hobj (by simp) (by simp)]⟩
  | pipe objno memory =>
    cases hfreeable
    refine ⟨_, ?_, hone (by simp) (by simp)⟩
    rw [ExitSys.processObject, load_eq hnow]
    simp [hfree, memFreeForeign, bind, Except.bind, pure, Except.pure, TableObject.objno]
  | semaphore objno | process objno =>
    refine ⟨_, ?_, hone (by simp) (by simp)⟩
    rw [ExitSys.processObject, load_eq hnow]
    simp [hfree, bind, Except.bind, pure, Except.pure, TableObject.objno]

/-- Where the body of the loop returns, the object could be deleted. -/
theorem Progress.deletable (hok : s.processObject entry.value = .ok s') : Deletable s₀ R p := by
  obtain ⟨obj', hload, hrest⟩ := Exec.of_bind hok
  have hnow := objects_of_load hload
  have hfree : obj'.Freeable := by
    cases obj' with
    | pipe objno memory =>
      cases memory with
      | none => rfl
      | some base => cases hrest
    | shm objno clients parent =>
      cases clients with
      | none => rfl
      | some list =>
        obtain ⟨_, hdelete, -⟩ := Exec.of_bind hrest
        exact absurd hdelete (objDeleteShm_ne_ok 1 hnow)
    | timer objno callback threadObj =>
      rintro rfl rfl
      cases hrest
    | thread | semaphore | process => trivial
  have hsame : ∀ obj, s₀.objects entry.value = some obj → obj' = obj := by
    intro obj hobj
    obtain ⟨obj₁, hobj₁, hshape⟩ :=
      h.object (fun hdone => hR ((hvalid.done_iff hp).mp hdone)) hobj
    cases hnow.symm.trans hobj₁
    rcases cases_of_shape hshape with heq | ⟨_, _, _, _, rfl, -⟩
    · exact heq
    · cases hfree
  constructor
  · intro entry₁ obj hentry₁ hobj
    rw [hp] at hentry₁
    cases hentry₁
    rwa [← hsame obj hobj]
  · intro entry₁ objno o hentry₁ hview
    rw [hp] at hentry₁
    cases hentry₁
    obtain rfl := hsame _ hview
    obtain ⟨s₁, hdelete, -⟩ := Exec.of_bind hrest
    -- the client looks for the list of its shared memory
    have hlive : s.objects o ≠ none := by
      intro hdead
      rw [objDeleteShm, load_eq hnow] at hdelete
      change (s.modifyClients o (·.erase entry.value) >>= _) = _ at hdelete
      rw [modifyClients, load_error hdead] at hdelete
      cases hdelete
    have hdone : ¬ s₀.Done R o := fun hdone => hlive (h.freed o hdone)
    refine ⟨fun hnone => hlive ?_, hdone⟩
    have hshape := h.shapes o hdone
    rw [hnone] at hshape
    exact Option.map_eq_none_iff.mp hshape

end

end ExitSys

end Tinker
