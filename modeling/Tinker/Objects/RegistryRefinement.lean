import Tinker.Objects.HashedRegistry
import Mathlib.Data.List.TakeWhile

/-!
# The registry as a function on names

The registry on its hash maps behaves as the one that the models of pipes, semaphores and shared
memory use: two functions on names, and an argument that says whether a map has room. Names are C
strings, so no byte of a name is zero; two of them have the same key exactly if they agree on their
first 64 bytes.
-/

namespace Tinker

open Tinker.Lib Tinker.Collections Function Exec

/-- A string of at most 64 bytes, none of which is zero. -/
def IsKey (key : Name) : Prop := key.length ≤ maxSharedObjectNameLength ∧ 0 ∉ key

deriving instance Decidable for IsKey

variable {name name' key key' : Name}

theorem isKey_registryKey (hname : 0 ∉ name) : IsKey (registryKey name) :=
  ⟨List.length_take_le _ _, fun hmem => hname (List.mem_of_mem_take hmem)⟩

theorem registryBytes_apply (hname : 0 ∉ name) (i : Fin maxSharedObjectNameLength) :
    registryBytes name i = (registryKey name).getD i 0 := by
  have hall : name.takeWhile (· != 0) = name :=
    List.takeWhile_eq_self_iff.mpr fun b hb => bne_iff_ne.mpr fun heq => hname (heq ▸ hb)
  rw [registryBytes, hall]
  rfl

theorem registryBytes_registryKey (hname : 0 ∉ name) :
    registryBytes (registryKey name) = registryBytes name := by
  funext i
  rw [registryBytes_apply (isKey_registryKey hname).2, registryBytes_apply hname]
  simp [registryKey, List.take_take]

/-- A byte that both keys have is the same in both: behind its end a string reads as zeros. -/
theorem IsKey.getElem?_of_lt (h : IsKey key) (h' : IsKey key')
    (hbytes : registryBytes key = registryBytes key') {i : ℕ} (hi : i < key.length) :
    key'[i]? = key[i]? := by
  have hlt : i < maxSharedObjectNameLength := Nat.lt_of_lt_of_le hi h.1
  have hbyte := congrFun hbytes ⟨i, hlt⟩
  rw [registryBytes_apply h.2, registryBytes_apply h'.2, registryKey, registryKey,
    List.take_of_length_le h.1, List.take_of_length_le h'.1] at hbyte
  simp only [List.getD_eq_getElem?_getD, List.getElem?_eq_getElem hi, Option.getD_some] at hbyte
  rw [List.getElem?_eq_getElem hi]
  cases hbyte' : key'[i]? with
  | none =>
    rw [hbyte', Option.getD_none] at hbyte
    exact absurd (hbyte ▸ List.getElem_mem hi) h.2
  | some b => rw [hbyte, hbyte', Option.getD_some]

theorem IsKey.eq_of_registryBytes (h : IsKey key) (h' : IsKey key')
    (hbytes : registryBytes key = registryBytes key') : key = key' := by
  apply List.ext_getElem?
  intro i
  by_cases hi : i < key.length
  · exact (h.getElem?_of_lt h' hbytes hi).symm
  · by_cases hi' : i < key'.length
    · exact h'.getElem?_of_lt h hbytes.symm hi'
    · rw [List.getElem?_eq_none (Nat.le_of_not_lt hi), List.getElem?_eq_none (Nat.le_of_not_lt hi')]

namespace HashedRegistry

/-- What is stored under the key of each string. -/
def onNames {β : Type} (get : RegistryKeyT → Option β) (key : Name) :
    Option β :=
  if IsKey key then get (registryBytes key) else none

/-- The registry as a function on names. -/
def shared (reg : HashedRegistry) : Registry RegistryEntry :=
  ⟨onNames (mapGet reg.registry), onNames reg.queueOf⟩

variable {β : Type} {get : RegistryKeyT → Option β}

theorem onNames_registryKey (hname : 0 ∉ name) :
    onNames get (registryKey name) = get (registryBytes name) := by
  rw [onNames, if_pos (isKey_registryKey hname), registryBytes_registryKey hname]

theorem onNames_update (hname : 0 ∉ name) (value : Option β) :
    onNames (update get (registryBytes name) value) =
      update (onNames get) (registryKey name) value := by
  funext key
  by_cases heq : key = registryKey name
  · rw [heq, onNames_registryKey hname, update_self, update_self]
  · rw [update_of_ne heq]
    unfold onNames
    split
    · next hkey =>
      rw [update_of_ne]
      intro hbytes
      rw [← registryBytes_registryKey hname] at hbytes
      exact heq (hkey.eq_of_registryBytes (isKey_registryKey hname) hbytes)
    · rfl

variable {k : ThreadSys} {reg : HashedRegistry} {entry : RegistryEntry}

theorem registryGet_shared (hname : 0 ∉ name) :
    Tinker.registryGet reg.shared name = registryGet reg name := by
  simp only [Tinker.registryGet, shared, onNames_registryKey hname, registryGet,
    mapContainsKey_eq]
  cases mapGet reg.registry (registryBytes name) with
  | none => rfl
  | some entry => rfl

theorem regsiteryAdd_shared (h : reg.Good) (hname : 0 ∉ name) (k : ThreadSys)
    (entry : RegistryEntry) :
    Tinker.regsiteryAdd k reg.shared name entry
        (mapPut reg.registry (registryBytes name) entry).1 = (do
      let (r, k, reg) ← regsiteryAdd k reg name entry
      return (r, k, reg.shared)) := by
  have hentry : onNames (mapGet reg.registry) (registryKey name) =
      mapGet reg.registry (registryBytes name) := onNames_registryKey hname
  have hqueue : onNames reg.queueOf (registryKey name) = reg.queueOf (registryBytes name) :=
    onNames_registryKey hname
  rcases h.regsiteryAdd_cases k name entry with ⟨hsome, hcall⟩ | ⟨hnone, hput, hcall⟩ |
    ⟨hnone, hput, hcall⟩
  · obtain ⟨old, hold⟩ := Option.isSome_iff_exists.mp hsome
    simp [Tinker.regsiteryAdd, shared, hentry, hold, hcall]
  · simp [Tinker.regsiteryAdd, shared, hentry, hnone, hput, hcall]
  · have hget := h.registry.mapGet_mapPut (registryBytes name) entry
    rw [hput, if_pos rfl] at hget
    have hshared : (reg.registered (registryBytes name) entry).shared =
        ⟨update reg.shared.registry (registryKey name) (some entry),
          update reg.shared.waiting (registryKey name) none⟩ := by
      change Registry.mk (onNames (mapGet (mapPut _ _ _).2)) (onNames (queueOf _)) = _
      rw [hget, h.queueOf_registered, onNames_update hname, onNames_update hname]
      rfl
    have hfree : reg.shared.registry (registryKey name) = none := hentry.trans hnone
    have hwaiting : reg.shared.waiting (registryKey name) = reg.queueOf (registryBytes name) :=
      hqueue
    simp only [Tinker.regsiteryAdd, Tinker.registryNotify, hfree, hput, hwaiting, hcall, if_true]
    cases hq : reg.queueOf (registryBytes name) with
    | none =>
      -- nobody waits, and there is no queue to take away
      have hsame : update reg.shared.waiting (registryKey name) none = reg.shared.waiting := by
        rw [← hq, ← hwaiting, update_eq_self]
      simp [wakeQueue, hshared, hsame]
    | some queue =>
      simp only [Option.getD_some]
      cases wakeQueue k queue with
      | error fault => rfl
      | ok k => simp [hshared]

theorem Good.queueOf_setQueue (h : reg.Good) {key : RegistryKeyT} {q : ℕ}
    (hq : mapGet reg.waiting key = some q) (queue : ListT ℕ) :
    queueOf { reg with queues := update reg.queues q (some queue) } =
      update reg.queueOf key (some queue.items) := by
  funext key'
  by_cases hkey : key' = key
  · rw [hkey, update_self]
    simp [queueOf, hq]
  · rw [update_of_ne hkey]
    cases hq' : mapGet reg.waiting key' with
    | none => simp [queueOf, hq']
    | some q' =>
      have hne : q' ≠ q := fun heq => hkey (h.own _ _ q' hq' (heq ▸ hq))
      simp [queueOf, hq', update_of_ne hne]

theorem Good.queueOf_newQueue (h : reg.Good) (key : RegistryKeyT)
    (queue : ListT ℕ) :
    queueOf ⟨reg.registry, (mapPut reg.waiting key reg.queueBrk).2,
        update reg.queues reg.queueBrk (some queue), reg.queueBrk + 1⟩ =
      if (mapPut reg.waiting key reg.queueBrk).1 then
        update reg.queueOf key (some queue.items)
      else reg.queueOf := by
  have hget := h.waiting.mapGet_mapPut key reg.queueBrk
  -- the queues there are have other addresses
  have hold : ∀ key', (mapGet reg.waiting key').bind (fun q =>
      (update reg.queues reg.queueBrk (some queue) q).map ListT.items) =
        reg.queueOf key' := by
    intro key'
    cases hq : mapGet reg.waiting key' with
    | none => simp [queueOf, hq]
    | some q =>
      have hne : q ≠ reg.queueBrk := Nat.ne_of_lt (h.live key' q hq).1
      simp [queueOf, hq, update_of_ne hne]
  funext key'
  simp only [queueOf, hget]
  split
  · by_cases hkey : key' = key
    · rw [hkey, update_self, update_self]
      simp
    · rw [update_of_ne hkey, update_of_ne hkey]
      exact hold key'
  · exact hold key'

theorem registryWaitFor_shared (h : reg.Good) (hname : 0 ∉ name) (k : ThreadSys)
    (thread : ℕ) :
    Tinker.registryWaitFor k reg.shared thread name
        (mapPut reg.waiting (registryBytes name) reg.queueBrk).1 = (do
      let (k, reg) ← registryWaitFor k reg thread name
      return (k, reg.shared)) := by
  have hwaiting : reg.shared.waiting (registryKey name) = reg.queueOf (registryBytes name) :=
    onNames_registryKey hname
  unfold Tinker.registryWaitFor registryQueueUp HashedRegistry.registryWaitFor
  cases objSetThreadWaiting k (some thread) none with
  | error fault => rfl
  | ok waited =>
    simp only [ok_bind, hwaiting]
    cases hq : mapGet reg.waiting (registryBytes name) with
    | some q =>
      obtain ⟨-, queue, ns, hqueue, hholds⟩ := h.live _ q hq
      obtain ⟨queue', hpush, hholds'⟩ := hholds.listAdd thread
      have hitems : queue'.items = queue.items ++ [thread] := by
        rw [hholds'.items_eq, hholds.items_eq, List.map_append]
        rfl
      have hshared := h.queueOf_setQueue hq queue'
      have hold : reg.queueOf (registryBytes name) = some queue.items := by
        simp [queueOf, hq, hqueue]
      simp only [HashedRegistry.waitQueue, mapContainsKey_eq, hq, Option.isSome_some, if_true,
        hqueue, queuePush, hpush, ok_bind, pure_eq_ok, hold, shared]
      rw [hshared, onNames_update hname, hitems]
    | none =>
      obtain ⟨queue', hpush, hholds'⟩ := (holds_listCreate (α := ℕ)).listAdd thread
      have hitems : queue'.items = [thread] := hholds'.items_eq
      have hshared := h.queueOf_newQueue (registryBytes name) queue'
      have hold : reg.queueOf (registryBytes name) = none := by simp [queueOf, hq]
      simp only [HashedRegistry.waitQueue, mapContainsKey_eq, hq, Option.isSome_none,
        Bool.false_eq_true, if_false, update_self, queuePush, hpush, ok_bind,
        pure_eq_ok, hold, update_idem, shared]
      rw [hshared]
      split
      · rw [onNames_update hname, hitems]
      · rfl

theorem registryRemove_shared (h : reg.Good) (hname : 0 ∉ name) :
    Tinker.registryRemove reg.shared name =
      ((registryRemove reg name).1, (registryRemove reg name).2.shared) := by
  obtain ⟨hremoved, hget⟩ := h.registry.mapGet_mapRemove (registryBytes name)
  simp only [Tinker.registryRemove, HashedRegistry.registryRemove, shared,
    onNames_registryKey hname, mapContainsKey_eq]
  cases hentry : mapGet reg.registry (registryBytes name) with
  | none => rfl
  | some entry =>
    rw [hentry] at hremoved
    simp only [hremoved, Option.isSome_some, if_true, hget, onNames_update hname]
    rfl

end HashedRegistry

end Tinker
