import Tinker.Collections.BackLinks
import Tinker.Errors
import Tinker.Lib.Run

/-!
# The list of processes and their ids

`process_list.c`: the id of a new process is searched among the positions of the process list, from
the id given last on. It is the larger one of the last id and the length of the list, whatever ids
the processes in the list have.

Of creating a process, the model has what concerns the list; the rest is an argument.
-/

namespace Tinker

open Tinker.Lib Tinker.Collections Function Exec

def maxProcesses : ℕ := 1024

def invalidProcId : ℕ := 0

structure ProcList where
  processList : ListT ℕ
  lastPid : ℕ
  pid : ℕ → ℕ

def procCreate : ProcList := ⟨listCreate, 1, fun _ => 0⟩

/-- The loop of `get_proc_id`, with the number of rounds left. -/
def probeFrom (l : ListT ℕ) : ℕ → ℕ → Exec (Option ℕ)
  | 0, _ => .ok none
  | rounds + 1, i => do
    match ← listGet l i with
    | some _ => probeFrom l rounds (i + 1)
    | none => return some i

def getProcId (list : ProcList) : Exec (ℕ × ProcList) := do
  match ← probeFrom list.processList (maxProcesses - list.lastPid) list.lastPid with
  | some i => return (i, { list with lastPid := i })
  | none => return (invalidProcId, list)

structure NewListed where
  proc : ℕ
  /-- What comes of the pool, the process, its object and its thread. -/
  built : ReturnT
  /-- There is memory for the element of the list. -/
  listed : Bool
  /-- Only the search for an id runs out of ids. -/
  built_ne : built ≠ .outOfProcessIds

def ProcList.procCreateProcess (list : ProcList) (new : NewListed) : Exec (ReturnT × ProcList) := do
  let (procId, list) ← getProcId list
  if procId = invalidProcId then return (.outOfProcessIds, list)
  else if new.built = .noError then
    if new.listed then do
      let l ← listAdd list.processList new.proc
      return (.noError,
        { list with processList := l, pid := update list.pid new.proc procId })
    else return (.outOfMemory, list)
  else return (new.built, list)

def procDeleteProc (list : ProcList) (proc : ℕ) : Exec ProcList := do
  let (_, l) ← listRemoveItem list.processList proc
  return { list with processList := l }

namespace ProcList

def pids (s : ProcList) : List ℕ := s.processList.items.map s.pid

/-- The id that the next process gets is not in use: the list is longer than the last id, or the
process that was given the last id has gone. -/
def IdIsFree (s : ProcList) : Prop := s.lastPid < s.processList.size ∨ s.lastPid ∉ s.pids

deriving instance Decidable for IdIsFree

end ProcList

inductive ProcCall
  | create (new : NewListed)
  | delete (proc : ℕ)

namespace ProcCall

def step (s : ProcList) : ProcCall → Exec ProcList
  | create new => do
    let (_, s) ← s.procCreateProcess new
    return s
  | delete proc => procDeleteProc s proc

/-- The call succeeds; a process in the list keeps its memory, so that a new one gets other
memory. -/
def Successful (s : ProcList) : ProcCall → Prop
  | create new => new.proc ∉ s.processList.items ∧
    (s.procCreateProcess new).toOption.map Prod.fst = some .noError
  | delete _ => True

/-- If the call creates a process, then the id is free. -/
def GetsFreeId (s : ProcList) : ProcCall → Prop
  | create _ => s.IdIsFree
  | delete _ => True

instance decidableSuccessful (s : ProcList) (c : ProcCall) : Decidable (c.Successful s) := by
  unfold Successful
  split <;> infer_instance

instance decidableGetsFreeId (s : ProcList) (c : ProcCall) : Decidable (c.GetsFreeId s) := by
  unfold GetsFreeId
  split <;> infer_instance

end ProcCall

/-! ## The id that is found -/

variable {s s' : ProcList} {xs : List ℕ} {new : NewListed} {l : ListT ℕ} {r : ReturnT}

theorem probeFrom_eq (h : IsQueue l xs) (rounds i : ℕ) :
    probeFrom l rounds i =
      .ok (if max i xs.length < i + rounds then some (max i xs.length) else none) := by
  obtain ⟨ns, hholds, -, rfl⟩ := h
  induction rounds generalizing i with
  | zero => rw [if_neg (by omega)]; rfl
  | succ rounds ih =>
    rw [probeFrom, hholds.listGet]
    by_cases hi : i < (ns.map Prod.snd).length
    · rw [List.getElem?_eq_getElem hi, ok_bind]
      have hmax : max (i + 1) (ns.map Prod.snd).length = max i (ns.map Prod.snd).length := by omega
      have hrounds : i + 1 + rounds = i + (rounds + 1) := by omega
      rw [ih, hmax, hrounds]
    rw [List.getElem?_eq_none (Nat.le_of_not_lt hi), ok_bind, if_pos (by omega),
      max_eq_left (Nat.le_of_not_lt hi)]
    rfl

theorem getProcId_eq (h : IsQueue s.processList xs) (hlast : s.lastPid < maxProcesses) :
    getProcId s = .ok (if max s.lastPid xs.length < maxProcesses then
        (max s.lastPid xs.length, { s with lastPid := max s.lastPid xs.length })
      else (invalidProcId, s)) := by
  rw [getProcId, probeFrom_eq h, ok_bind, Nat.add_sub_cancel' (le_of_lt hlast)]
  by_cases hroom : max s.lastPid xs.length < maxProcesses
  · rw [if_pos hroom, if_pos hroom]
    rfl
  rw [if_neg hroom, if_neg hroom]
  rfl

/-- What is kept by successful calls: the list is in order, and its ids are between 1 and the
last one. -/
structure ProcList.Bounded (s : ProcList) (xs : List ℕ) : Prop where
  queue : IsQueue s.processList xs
  nodup : xs.Nodup
  first : 1 ≤ s.lastPid
  last : s.lastPid < maxProcesses
  pids : ∀ p ∈ xs, 1 ≤ s.pid p ∧ s.pid p ≤ s.lastPid

theorem ProcList.Bounded.pids_eq (h : s.Bounded xs) : s.pids = xs.map s.pid := by
  rw [ProcList.pids, h.queue.items_eq]

theorem ProcList.Bounded.idIsFree_iff (h : s.Bounded xs) :
    s.IdIsFree ↔ s.lastPid < xs.length ∨ s.lastPid ∉ xs.map s.pid := by
  rw [ProcList.IdIsFree, h.queue.size_eq, h.pids_eq]

theorem ProcList.Bounded.procCreateProcess_cases (hs : s.Bounded xs)
    (h : s.procCreateProcess new = .ok (r, s')) :
    (maxProcesses ≤ xs.length ∧ r = .outOfProcessIds ∧ s' = s) ∨
      (xs.length < maxProcesses ∧ new.built ≠ .noError ∧ r = new.built) ∨
      (xs.length < maxProcesses ∧ new.listed = false ∧ r = .outOfMemory) ∨
      ∃ l, xs.length < maxProcesses ∧ r = .noError ∧ IsQueue l (xs ++ [new.proc]) ∧
        s' = ⟨l, max s.lastPid xs.length,
          update s.pid new.proc (max s.lastPid xs.length)⟩ := by
  have hfirst := hs.first
  have hlast := hs.last
  rw [ProcList.procCreateProcess, getProcId_eq hs.queue hlast, ok_bind] at h
  by_cases hroom : max s.lastPid xs.length < maxProcesses
  · have hlt : xs.length < maxProcesses := by omega
    rw [if_pos hroom] at h
    dsimp only at h
    rw [if_neg (show max s.lastPid xs.length ≠ invalidProcId by rw [invalidProcId]; omega)] at h
    split at h
    · split at h
      · obtain ⟨l, hadd, hqueue⟩ := hs.queue.listAdd new.proc
        rw [hadd] at h
        cases h
        exact .inr (.inr (.inr ⟨l, hlt, rfl, hqueue, rfl⟩))
      next hlisted =>
        cases h
        exact .inr (.inr (.inl ⟨hlt, Bool.eq_false_iff.mpr hlisted, rfl⟩))
    next hbuilt =>
      cases h
      exact .inr (.inl ⟨hlt, hbuilt, rfl⟩)
  rw [if_neg hroom] at h
  cases h
  exact .inl ⟨by omega, rfl, rfl⟩

/-- A process that is created is the last one of the list, with the larger one of the last id
and the length of the list for its id. -/
theorem ProcList.Bounded.procCreateProcess_noError (hs : s.Bounded xs)
    (h : s.procCreateProcess new = .ok (.noError, s')) :
    xs.length < maxProcesses ∧ ∃ l, IsQueue l (xs ++ [new.proc]) ∧
      s' = ⟨l, max s.lastPid xs.length,
        update s.pid new.proc (max s.lastPid xs.length)⟩ := by
  rcases hs.procCreateProcess_cases h with ⟨-, hr, -⟩ | ⟨-, hbuilt, hr⟩ | ⟨-, -, hr⟩ |
      ⟨l, hlt, -, hqueue, hs'⟩
  · cases hr
  · exact absurd hr.symm hbuilt
  · cases hr
  · exact ⟨hlt, l, hqueue, hs'⟩

theorem ProcList.Bounded.create (hs : s.Bounded xs) (hproc : new.proc ∉ xs)
    (h : s.procCreateProcess new = .ok (.noError, s')) :
    s'.Bounded (xs ++ [new.proc]) ∧ s'.pids = s.pids ++ [max s.lastPid xs.length] := by
  obtain ⟨hlt, l, hqueue, rfl⟩ := hs.procCreateProcess_noError h
  have hfirst := hs.first
  have hlast := hs.last
  have hold : ∀ p ∈ xs, update s.pid new.proc (max s.lastPid xs.length) p = s.pid p :=
    fun p hp => update_of_ne (fun heq : p = new.proc => hproc (heq ▸ hp)) _ _
  have hbounded : ProcList.Bounded ⟨l, max s.lastPid xs.length,
      update s.pid new.proc (max s.lastPid xs.length)⟩ (xs ++ [new.proc]) := by
    refine ⟨hqueue, List.nodup_append_comm.mp (List.nodup_cons.mpr ⟨hproc, hs.nodup⟩), ?_, ?_, ?_⟩
    · change 1 ≤ max s.lastPid xs.length
      omega
    · change max s.lastPid xs.length < maxProcesses
      omega
    intro p hp
    change 1 ≤ update s.pid new.proc (max s.lastPid xs.length) p ∧
      update s.pid new.proc (max s.lastPid xs.length) p ≤ max s.lastPid xs.length
    rcases List.mem_append.mp hp with hin | hnew
    · rw [hold p hin]
      have hpid := hs.pids p hin
      omega
    rw [List.mem_singleton.mp hnew, update_self]
    omega
  refine ⟨hbounded, ?_⟩
  rw [hbounded.pids_eq, hs.pids_eq, List.map_append]
  simp only [List.map_cons, List.map_nil, update_self]
  rw [List.map_congr_left hold]

theorem ProcList.Bounded.delete (hs : s.Bounded xs) {proc : ℕ}
    (h : procDeleteProc s proc = .ok s') :
    s'.Bounded (xs.erase proc) ∧ s'.pids.Sublist s.pids := by
  obtain ⟨l, hremove, hqueue⟩ := hs.queue.listRemoveItem proc
  rw [procDeleteProc, hremove] at h
  cases h
  have hbounded : ProcList.Bounded ⟨l, s.lastPid, s.pid⟩ (xs.erase proc) :=
    ⟨hqueue, hs.nodup.erase proc, hs.first, hs.last,
      fun p hp => hs.pids p (List.mem_of_mem_erase hp)⟩
  refine ⟨hbounded, ?_⟩
  rw [hbounded.pids_eq, hs.pids_eq]
  exact List.erase_sublist.map s.pid

/-! ## Unique ids -/

theorem ProcList.Bounded.nodup_create_iff (hs : s.Bounded xs) (hunique : s.pids.Nodup)
    (hproc : new.proc ∉ xs) (h : s.procCreateProcess new = .ok (.noError, s')) :
    s'.pids.Nodup ↔ s.IdIsFree := by
  rw [(hs.create hproc h).2, hs.idIsFree_iff, List.nodup_append_comm, List.singleton_append,
    List.nodup_cons, and_iff_left hunique, hs.pids_eq]
  -- no process has an id above the last one
  have hbound : ∀ i, s.lastPid < i → i ∉ xs.map s.pid := by
    intro i hi hmem
    obtain ⟨p, hp, rfl⟩ := List.mem_map.mp hmem
    have hpid := hs.pids p hp
    omega
  by_cases hlong : s.lastPid < xs.length
  · rw [max_eq_right (le_of_lt hlong)]
    exact iff_of_true (hbound _ hlong) (.inl hlong)
  rw [max_eq_left (Nat.le_of_not_lt hlong)]
  exact ⟨.inr, fun hfree => hfree.resolve_left hlong⟩

/-- Unique ids leave no room for as many processes as there are positions that are looked at. -/
theorem ProcList.Bounded.length_lt (hs : s.Bounded xs) (hunique : s.pids.Nodup) :
    xs.length < maxProcesses := by
  have hsub : s.pids.toFinset ⊆ Finset.Icc 1 s.lastPid := by
    intro i hi
    rw [hs.pids_eq, List.mem_toFinset] at hi
    obtain ⟨p, hp, rfl⟩ := List.mem_map.mp hi
    exact Finset.mem_Icc.mpr (hs.pids p hp)
  have hcard := Finset.card_le_card hsub
  rw [List.toFinset_card_of_nodup hunique, Nat.card_Icc, hs.pids_eq, List.length_map] at hcard
  have hlast := hs.last
  omega

/-- The invariant: the list is in order, and the ids are unique. -/
def ProcList.InOrder (s : ProcList) : Prop := ∃ xs, s.Bounded xs ∧ s.pids.Nodup

theorem inOrder_procCreate : procCreate.InOrder :=
  ⟨[], ⟨isQueue_listCreate, List.nodup_nil, by decide, by decide,
    fun _ hp => absurd hp List.not_mem_nil⟩, by decide⟩

theorem inOrder_of_calls {calls : List ProcCall}
    (run : Run ProcCall.step (fun s c => c.Successful s ∧ c.GetsFreeId s) procCreate calls s) :
    s.InOrder := by
  refine run.invariant inOrder_procCreate ?_
  rintro s call u ⟨xs, hs, hunique⟩ ⟨hok, hfree⟩ hstep
  cases call with
  | create new =>
    obtain ⟨⟨r, s₁⟩, hcreate, hdone⟩ := of_bind hstep
    cases hdone
    obtain ⟨hproc, hresult⟩ := hok
    rw [hcreate] at hresult
    obtain rfl : r = .noError := Option.some.inj hresult
    rw [hs.queue.items_eq] at hproc
    exact ⟨_, (hs.create hproc hcreate).1, (hs.nodup_create_iff hunique hproc hcreate).mpr hfree⟩
  | delete proc =>
    obtain ⟨hbounded, hsub⟩ := hs.delete hstep
    exact ⟨_, hbounded, hsub.nodup hunique⟩

/-- After any successful calls of which each gives a free id, ids are unique, and one is refused
only if all are in use. A next process keeps the ids unique exactly if it gets a free one. -/
theorem pids_of_calls {calls : List ProcCall}
    (run : Run ProcCall.step (fun s c => c.Successful s ∧ c.GetsFreeId s) procCreate calls s) :
    s.pids.Nodup ∧
      (∀ new s', s.procCreateProcess new = .ok (.outOfProcessIds, s') →
        s.pids.toFinset.card = maxProcesses - 1) ∧
      ∀ new s', (ProcCall.create new).Successful s →
        s.procCreateProcess new = .ok (.noError, s') → (s'.pids.Nodup ↔ s.IdIsFree) := by
  obtain ⟨xs, hs, hunique⟩ := inOrder_of_calls run
  refine ⟨hunique, fun new s' hcreate => ?_, fun new s' hok hcreate => ?_⟩
  · have hlt := hs.length_lt hunique
    rcases hs.procCreateProcess_cases hcreate with
      ⟨hfull, -⟩ | ⟨-, -, hr⟩ | ⟨-, -, hr⟩ | ⟨_, -, hr, -⟩
    · omega
    · exact absurd hr.symm new.built_ne
    · cases hr
    · cases hr
  · refine hs.nodup_create_iff hunique ?_ hcreate
    rw [← hs.queue.items_eq]
    exact hok.1

/-- A process is created and deleted again, and the next one gets its id. -/
theorem pids_of_calls_again : ∃ s,
    Run ProcCall.step (fun s c => c.Successful s ∧ c.GetsFreeId s) procCreate
      [.create ⟨7, .noError, true, by decide⟩, .delete 7,
        .create ⟨8, .noError, true, by decide⟩] s ∧
      s.pids = [1] ∧ s.pids.Nodup := by
  refine exists_run_and (fun s => s.pids = [1]) (by decide +kernel) fun s run hpids => ?_
  exact ⟨hpids, (pids_of_calls run).1⟩

/-- The first two processes have the same id. -/
theorem pids_of_two : ∃ s,
    Run ProcCall.step (fun s c => c.Successful s) procCreate
      [.create ⟨7, .noError, true, by decide⟩, .create ⟨8, .noError, true, by decide⟩] s ∧
      s.pids = [1, 1] ∧ ¬ s.pids.Nodup := by
  exact exists_run_and _ (by decide +kernel) fun _ _ => id

end Tinker
