import Tinker.Objects.SharedSteps

/-!
# Where a name leads

A creation that returned `NO_ERROR` should have left its object where its name leads: the
registry has its process and number, the table of the process has the object, and whoever opens
the name gets attached to this object.

A pipe reports that its name could not be registered. A semaphore and shared memory do not: if
the name was taken, it goes on leading to the other object.
-/

namespace Tinker

open Tinker.Lib Function ObjSys Pipe

/-- The objects that an object of its kind is attached to: the other ends of a pipe, the
semaphore of a link, the memory of a view. -/
def ObjBody.attachedTo : ObjBody → List ℕ
  | pipe p => p.readers ++ p.senders
  | sema (.owner _) => []
  | sema (.link target) => [target]
  | shm x => x.parentShm.toList
  | other => []

def ObjEvent.opens : ObjEvent → Option Name
  | openPipe _ _ name _ _ _ _ => some name
  | openSemaphore _ name _ => some name
  | openShm _ name _ _ => some name
  | _ => none

/-! ## Opening -/

namespace ObjSys

variable {s : ObjSys} {other id : ℕ} {name : Name}

theorem attachedTo_linkPipes {direction : PipeDirection} {pipe : Pipe} {no : ℕ}
    {messageSize messages : ℕ} {memory : Option ℕ}
    (hsetup : pipeOpenSetup name direction messageSize messages memory = some pipe)
    (hnew : s.objects no = some ⟨id, .pipe pipe⟩) (hother : other ≠ no) :
    ∃ obj, (s.linkPipes direction no other).objects no = some obj ∧
      ∀ x, x ∈ obj.body.attachedTo ↔ x = other := by
  have hkept : ∀ (t : ObjSys) f, (t.modifyPipe other f).objects no = t.objects no :=
    fun t f => modifyPipe_of_ne (Ne.symm hother)
  cases direction with
  | unknown => cases hsetup
  | send =>
    cases hsetup
    refine ⟨_, modifyPipe_self ((hkept _ _).trans hnew), fun x => ?_⟩
    simp [ObjBody.attachedTo, addReader, readers, senders, pipeNew]
  | receive =>
    cases memory with
    | none => cases hsetup
    | some base =>
      cases hsetup
      refine ⟨_, modifyPipe_self ((hkept _ _).trans hnew), fun x => ?_⟩
      simp [ObjBody.attachedTo, addSender, readers, senders, pipeNew]
  | sendReceive =>
    cases memory with
    | none => cases hsetup
    | some base =>
      cases hsetup
      refine ⟨_, modifyPipe_self (modifyPipe_self
        ((hkept _ _).trans ((hkept _ _).trans hnew))), fun x => ?_⟩
      simp [ObjBody.attachedTo, addSender, addReader, readers, senders, pipeNew]

theorem addClient_of_ne {o client a : ℕ} (h : a ≠ o) :
    (s.addClient o client).objects a = s.objects a := by
  unfold addClient
  split
  · exact update_of_ne h _ _
  · rfl

end ObjSys

theorem Opening.attached {s s' : ObjSys} {process other : ℕ} {name : Name} {entry : RegistryEntry}
    {type : ObjType} (hentry : registryGet s.reg name = .ok entry)
    (hobj : objGetObject (s.tables entry.process) entry.objno = some other) (hne : other ≠ s.brk)
    (h : Opening s process name type .noError s') :
    ∃ obj, s'.objects s.brk = some obj ∧ ∀ x, x ∈ obj.body.attachedTo ↔ x = other := by
  have hother : ∀ {a obj}, s.Finds name a obj → a = other := by
    rintro a obj ⟨e, he, ha, -⟩
    cases (registryGet_eq_ok.mp hentry).symm.trans he
    exact Option.some.inj (ha.symm.trans hobj)
  cases h with
  | refused hr | mapped hr => exact absurd rfl hr
  | pipe hfinds hsetup =>
    cases hother hfinds
    exact attachedTo_linkPipes hsetup (update_self _ _ _) hne
  | link hfinds =>
    cases hother hfinds
    exact ⟨_, update_self _ _ _, fun x => by simp [ObjBody.attachedTo]⟩
  | @view listed id _ _ view _ _ hfinds _ _ _ hparent =>
    cases hother hfinds
    refine ⟨⟨id, .shm view⟩, ?_, fun x => by simp [ObjBody.attachedTo, hparent, eq_comm]⟩
    cases listed with
    | false => exact update_self _ _ _
    | true => exact (addClient_of_ne hne.symm).trans (update_self _ _ _)

theorem ObjEvent.attached_of_opens {s s' : ObjSys} {event : ObjEvent} {name : Name}
    {entry : RegistryEntry} {other id : ℕ} (hopens : event.opens = some name)
    (hentry : registryGet s.reg name = .ok entry)
    (hobj : objGetObject (s.tables entry.process) entry.objno = some other) (hne : other ≠ s.brk)
    (h : event.run s = .ok (.noError, some id, s')) :
    ∃ obj, s'.objects s.brk = some obj ∧ ∀ x, x ∈ obj.body.attachedTo ↔ x = other := by
  cases event with
  | openPipe =>
    cases hopens
    exact (objOpenPipe_opening h).attached hentry hobj hne
  | openSemaphore =>
    cases hopens
    exact (objOpenSemaphore_opening h).attached hentry hobj hne
  | openShm =>
    cases hopens
    exact (objOpenShm_opening h).attached hentry hobj hne
  | _ => cases hopens

/-! ## Reaching a created object -/

/-- A creation that started in `s` and gave its object the number `o` has left the object where
its name leads. -/
structure Creation.Reachable (s : ObjSys) (c : Creation) (o : ℕ) (s' : ObjSys) : Prop where
  /-- `registry_get` returns the process and the number of the object. -/
  registered : registryGet s'.reg c.name = .ok ⟨c.process, o⟩
  /-- `obj_get_object` returns the pointer that the object was allocated at. -/
  listed : objGetObject (s'.tables c.process) o = some s.brk
  initialised : ∃ obj, s'.objects s.brk = some obj ∧ obj.objectNumber = o ∧ obj.body.type = c.type
  /-- Opening the name attaches to this object, and to no other. -/
  attaches : ∀ (event : ObjEvent) (no : ℕ) (t : ObjSys), event.opens = some c.name →
    event.run s' = .ok (.noError, some no, t) →
    ∃ obj, t.objects s'.brk = some obj ∧ ∀ x, x ∈ obj.body.attachedTo ↔ x = s.brk

/-- What a creation that made an object has left: its registration is all that may be missing. -/
theorem Creation.Reachable.of_registered {s s' : ObjSys} {c : Creation} {o : ℕ} {body : ObjBody}
    {memory : ℕ → ProcessMemory} {result : ReturnT} {room : Bool} (htype : body.type = c.type)
    (hreg : (s.grow c.process o ⟨o, body⟩ memory).register c.process c.name o room =
      .ok (result, s'))
    (hentry : s'.reg.registry (registryKey c.name) = some ⟨c.process, o⟩) :
    c.Reachable s o s' := by
  have hlisted : objGetObject (s'.tables c.process) o = some s.brk := by
    rw [register_tables hreg]
    simp [objGetObject, ObjSys.grow, ObjSys.addObject]
  have hget := registryGet_eq_ok.mpr hentry
  have hbrk : s'.brk = s.brk + 1 := register_brk hreg
  refine ⟨hget, hlisted, ⟨⟨o, body⟩, ?_, rfl, htype⟩, fun event no t hopens h => ?_⟩
  · rw [register_objects hreg]
    exact update_self _ _ _
  · exact event.attached_of_opens hopens hget hlisted (by omega) h

/-- A creation that succeeds can be reached by its name exactly if it is that of a pipe, or the
name was free and there was room for it in the registry. (In a state in which the name leads to
the number that comes next, it does so afterwards, too.) -/
theorem reachable_iff (event : ObjEvent) {s s' : ObjSys} {c : Creation} {o : ℕ}
    (hcreates : event.creates = some c) (h : event.run s = .ok (.noError, some o, s')) :
    c.Reachable s o s' ↔
      c.type = .pipe ∨
      (s.reg.registry (registryKey c.name) = none ∧ c.answers.registry = true) ∨
      ∃ id, (s.tables c.process).freeId = some id ∧
        s.reg.registry (registryKey c.name) = some ⟨c.process, id⟩ := by
  cases event.effect_of_creates hcreates h with
  | made body memory _ hfree htype hname hreg hresult =>
    rcases register_cases hreg with ⟨hrefused, hr, hs⟩ | ⟨hfound, hr, k, waiting, hs⟩
    · -- the name was not registered, and only a pipe would have said so
      have hpipe : c.type ≠ .pipe := by
        intro htype
        rw [if_pos htype] at hresult
        exact hr hresult.symm
      have hsame : s'.reg.registry = s.reg.registry := by rw [hs]; rfl
      constructor
      · intro hreach
        have hentry := registryGet_eq_ok.mp hreach.registered
        exact .inr (.inr ⟨o, hfree, by rw [← hsame, hentry]⟩)
      · rintro (htype | hfound | ⟨id, hid, hentry⟩)
        · exact absurd htype hpipe
        · exact absurd hfound hrefused
        · obtain rfl : o = id := Option.some.inj (hfree.symm.trans hid)
          exact .of_registered htype hreg (by rw [hsame, hentry])
    · constructor
      · exact fun _ => .inr (.inl hfound)
      · intro _
        refine .of_registered htype hreg ?_
        rw [hs]
        exact update_self _ _ _

/-- A name that is free. -/
theorem reachable_iff_first_semaphore :
    ∃ k memory s', (ObjEvent.createSemaphore 0 [97] 1 .plenty).run (ObjSys.boot k memory) =
        .ok (.noError, some 1, s') ∧
      Creation.Reachable (ObjSys.boot k memory) ⟨0, [97], .semaphore, .plenty⟩ 1 s' := by
  obtain ⟨k, -⟩ : ∃ k, ThreadSys.boot (fun _ => 1) [] = .ok k := ⟨_, rfl⟩
  refine ⟨k, fun _ => ⟨false, [], 0, tgtInitialisePageTable []⟩, _, rfl, ?_⟩
  exact (reachable_iff (.createSemaphore 0 [97] 1 .plenty) rfl rfl).mpr (.inr (.inl ⟨rfl, rfl⟩))

/-- The second semaphore of one name is created, but the name leads to the first one. -/
theorem not_reachable_second_semaphore :
    ∃ k memory s s',
      (ObjEvent.createSemaphore 0 [97] 1 .plenty).run (ObjSys.boot k memory) =
        .ok (.noError, some 1, s) ∧
      (ObjEvent.createSemaphore 0 [97] 1 .plenty).run s = .ok (.noError, some 2, s') ∧
      ¬ Creation.Reachable s ⟨0, [97], .semaphore, .plenty⟩ 2 s' := by
  obtain ⟨k, -⟩ : ∃ k, ThreadSys.boot (fun _ => 1) [] = .ok k := ⟨_, rfl⟩
  refine ⟨k, fun _ => ⟨false, [], 0, tgtInitialisePageTable []⟩, _, _, rfl, rfl, fun h => ?_⟩
  have hentry : some (⟨0, 1⟩ : RegistryEntry) = some ⟨0, 2⟩ :=
    registryGet_eq_ok.mp h.registered
  exact absurd hentry (by decide)

end Tinker
