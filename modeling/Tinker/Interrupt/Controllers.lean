import Tinker.Interrupt.Tick
import Tinker.Lib.Logged

/-!
# The slots of an interrupt controller

`intc.c` with its controllers in memory: an array of `MAX_ISRS` pointers with the pointer to the
hardware's functions behind it. The computations here record each slot they read or write.

All functions compare the cause with `MAX_ISRS` by `>`, so the cause `MAX_ISRS` passes and the word
behind the array is used as a slot. The table is left only for that one.
-/

namespace Tinker

open Tinker.Lib Function Logged

inductive IntcInternal
  | child (child : Option ℕ)
  | device (device : ℕ)
  | pipe (pipe : ℕ)
  | timer (timer : Option ℕ)
  deriving DecidableEq

/-- The controllers by their addresses, each with the slots of its array `isrs`. -/
abbrev Controllers := ℕ → Option (ℕ → Option IntcInternal)

structure SlotAccess where
  intc : ℕ
  slot : ℕ
  deriving DecidableEq

namespace Controllers

variable (cs : Controllers)

/-! ## The functions -/

/-- Use the slot of a controller. What lies behind the array is not known, so that nothing is
said of a run that has used it. -/
def useSlot (i slot : ℕ) : Logged SlotAccess (ℕ → Option IntcInternal) :=
  match cs i with
  | some isrs => do
    emit ⟨i, slot⟩
    lift (if slot < maxIsrs then .ok isrs else .error .badPointer)
  | none => lift (.error .badPointer)

/-- The body the four functions that add to a slot share. `room` says that there is memory
for an `intc_internal_t`. -/
def intcAdd (intc : Option ℕ) (cause : ℕ) (internal : IntcInternal) (room : Bool) :
    Logged SlotAccess Controllers := do
  lift (kernelAssert (¬ cause > maxIsrs))
  match intc with
  | some i =>
    if room then do
      let isrs ← useSlot cs i cause
      if isrs cause = none then do
        let isrs ← useSlot cs i cause
        return update cs i (some (update isrs cause (some internal)))
      else
        -- the assertion on `put_ok`
        lift kernelPanic
    else return cs
  | none => return cs

def intcAddChild (intc : Option ℕ) (cause : ℕ) (child : Option ℕ) (room : Bool) :
    Logged SlotAccess Controllers :=
  cs.intcAdd intc cause (.child child) room

def intcAddDevice (intc : Option ℕ) (cause device : ℕ) (room : Bool) :
    Logged SlotAccess Controllers :=
  cs.intcAdd intc cause (.device device) room

def intcAddPipe (intc : Option ℕ) (cause pipe : ℕ) (room : Bool) :
    Logged SlotAccess Controllers :=
  cs.intcAdd intc cause (.pipe pipe) room

def intcAddTimer (intc : Option ℕ) (cause : ℕ) (timer : Option ℕ) (room : Bool) :
    Logged SlotAccess Controllers :=
  cs.intcAdd intc cause (.timer timer) room

variable (drivers : Drivers)

/-- The branches of `intc_handle` for what is in the slot; `handle` is the call for a
controller below. -/
def internalHandle (handle : Option ℕ → Logged SlotAccess (ReturnT × Machine)) (m : Machine)
    (cause : ℕ) : Option IntcInternal → Logged SlotAccess (ReturnT × Machine)
  | some (.device d) => lift (drivers.deviceIsr d cause m)
  | some (.child child) => handle child
  | some (.pipe p) => lift (drivers.pipeSend p cause m)
  | some (.timer (some t)) => lift (bcm2835TimerIsr drivers m t)
  | some (.timer none) => return (.unknownInterruptCause, m)
  | none => return (.unknownInterruptCause, m)

/-- The part of `intc_handle` between the hardware's report of the cause and its
acknowledgement. -/
def causeHandle (handle : Option ℕ → Logged SlotAccess (ReturnT × Machine)) (m : Machine)
    (i cause : ℕ) : Logged SlotAccess (ReturnT × Machine) :=
  if cause > maxIsrs then
    return (.unknownInterruptCause, m)
  else do
    let isrs ← useSlot cs i cause
    internalHandle drivers handle m cause (isrs cause)

/-- Nothing keeps a controller from being its own child, so the recursion may not end; `fuel` bounds
its depth. -/
def intcHandle (m : Machine) : ℕ → Option ℕ → Logged SlotAccess (ReturnT × Machine)
  | _, none => return (.noRootInterruptHandler, m)
  | 0, some _ => lift (.error .diverges)
  | fuel + 1, some i =>
    if (cs i).isNone then
      lift (.error .badPointer)
    else
      match m.pending i with
      | some cause => do
        let (ret, m) ← causeHandle cs drivers (intcHandle m fuel) m i cause
        return (ret, { m with pending := drivers.ackCause i cause m.pending })
      | none => return (.unknownInterruptCause, m)

/-- The controllers an interrupt leads through, from one to its child. -/
inductive Reaches (m : Machine) : ℕ → ℕ → Prop
  | refl {i : ℕ} : Reaches m i i
  | child {i j k cause : ℕ} {isrs : ℕ → Option IntcInternal} (found : cs i = some isrs)
      (reported : m.pending i = some cause) (inside : cause < maxIsrs)
      (slot : isrs cause = some (.child (some j))) (rest : Reaches m j k) : Reaches m i k

/-! ## One slot -/

section Slot

variable {cs} {i slot : ℕ} {isrs : ℕ → Option IntcInternal}

theorem useSlot_of_lt (found : cs i = some isrs) (inside : slot < maxIsrs) :
    cs.useSlot i slot = ⟨[⟨i, slot⟩], .ok isrs⟩ := by
  simp only [useSlot, found, if_pos inside]
  rfl

theorem useSlot_of_not_lt (found : cs i = some isrs) (outside : ¬ slot < maxIsrs) :
    cs.useSlot i slot = ⟨[⟨i, slot⟩], .error .badPointer⟩ := by
  simp only [useSlot, found, if_neg outside]
  rfl

theorem useSlot_of_none (absent : cs i = none) :
    cs.useSlot i slot = ⟨[], .error .badPointer⟩ := by
  simp only [useSlot, absent]
  rfl

end Slot

/-! ## Adding to a controller -/

/-- The property of a call that adds to a slot: it uses only slots of the table, and adds
nothing for a cause that has no slot. -/
def AddStaysInTable (cause : ℕ) (x : Logged SlotAccess Controllers) : Prop :=
  (∀ access ∈ x.events, access.slot < maxIsrs) ∧
    (maxIsrs ≤ cause → ∀ after, x.result = .ok after → after = cs)

def GetsToSlot (intc : Option ℕ) (room : Bool) : Prop :=
  room = true ∧ ∃ i isrs, intc = some i ∧ cs i = some isrs

theorem intcAdd_of_gt {cause : ℕ} (above : cause > maxIsrs) (intc : Option ℕ)
    (internal : IntcInternal) (room : Bool) :
    cs.intcAdd intc cause internal room = ⟨[], .error .halted⟩ := by
  simp only [intcAdd, kernelAssert, above, not_true_eq_false, decide_false]
  rfl

theorem intcAdd_of_le {cause : ℕ} (passes : cause ≤ maxIsrs) {i : ℕ}
    (internal : IntcInternal) :
    cs.intcAdd (some i) cause internal true =
      (cs.useSlot i cause >>= fun isrs =>
        if isrs cause = none then
          cs.useSlot i cause >>= fun isrs =>
            pure (update cs i (some (update isrs cause (some internal))))
        else lift kernelPanic) := by
  have : (¬ cause > maxIsrs) := Nat.not_lt.mpr passes
  simp only [intcAdd, kernelAssert, this, not_false_eq_true, decide_true, if_true]
  rfl

theorem intcAdd_of_not_getsToSlot {intc : Option ℕ} {room : Bool}
    (stops : ¬ cs.GetsToSlot intc room) (cause : ℕ) (internal : IntcInternal) :
    (cs.intcAdd intc cause internal room).events = [] ∧
      ∀ after, (cs.intcAdd intc cause internal room).result = .ok after → after = cs := by
  by_cases above : cause > maxIsrs
  · rw [intcAdd_of_gt cs above]
    exact ⟨rfl, fun after h => by cases h⟩
  have passes : cause ≤ maxIsrs := Nat.not_lt.mp above
  have checked : kernelAssert (¬ cause > maxIsrs) = .ok () := by
    simp [kernelAssert, above]
  cases intc with
  | none =>
    simp only [intcAdd, checked]
    exact ⟨rfl, fun after h => (Except.ok.inj h).symm⟩
  | some i =>
    cases room with
    | false =>
      simp only [intcAdd, checked]
      exact ⟨rfl, fun after h => (Except.ok.inj h).symm⟩
    | true =>
      have absent : cs i = none := by
        cases found : cs i with
        | none => rfl
        | some isrs => exact absurd ⟨rfl, i, isrs, rfl, found⟩ stops
      rw [intcAdd_of_le cs passes, useSlot_of_none absent]
      exact ⟨rfl, fun after h => by cases h⟩

theorem mem_events_intcAdd {i cause : ℕ} {isrs : ℕ → Option IntcInternal}
    (found : cs i = some isrs) (passes : cause ≤ maxIsrs) (internal : IntcInternal) :
    ⟨i, cause⟩ ∈ (cs.intcAdd (some i) cause internal true).events := by
  rw [intcAdd_of_le cs passes]
  by_cases inside : cause < maxIsrs
  · rw [useSlot_of_lt found inside, events_bind_of_ok rfl]
    exact List.mem_append_left _ (List.mem_singleton.mpr rfl)
  rw [useSlot_of_not_lt found inside, events_bind_of_error rfl]
  exact List.mem_singleton.mpr rfl

theorem forall_events_intcAdd {i cause : ℕ} {isrs : ℕ → Option IntcInternal}
    (found : cs i = some isrs) (inside : cause < maxIsrs) (internal : IntcInternal) :
    ∀ access ∈ (cs.intcAdd (some i) cause internal true).events, access.slot < maxIsrs := by
  rw [intcAdd_of_le cs inside.le, useSlot_of_lt found inside, forall_events_bind]
  refine ⟨by simpa using inside, fun isrs' returned => ?_⟩
  cases returned
  split
  · simpa using inside
  · simp

theorem addStaysInTable_intcAdd_iff (intc : Option ℕ) (cause : ℕ) (internal : IntcInternal)
    (room : Bool) :
    cs.AddStaysInTable cause (cs.intcAdd intc cause internal room) ↔
      ¬ (cause = maxIsrs ∧ cs.GetsToSlot intc room) := by
  by_cases gets : cs.GetsToSlot intc room
  · obtain ⟨rfl, i, isrs, rfl, found⟩ := id gets
    rcases Nat.lt_trichotomy cause maxIsrs with inside | rfl | above
    · refine iff_of_true ⟨forall_events_intcAdd cs found inside internal, ?_⟩ ?_
      · exact fun outside => absurd inside (Nat.not_lt.mpr outside)
      · exact fun h => absurd h.1 inside.ne
    · refine iff_of_false (fun stays => ?_) (fun h => h ⟨rfl, gets⟩)
      exact lt_irrefl _ (stays.1 _ (mem_events_intcAdd cs found le_rfl internal))
    rw [intcAdd_of_gt cs above]
    refine iff_of_true ⟨by simp, fun _ after h => by cases h⟩ ?_
    exact fun h => absurd h.1 above.ne'
  obtain ⟨events, unchanged⟩ := intcAdd_of_not_getsToSlot cs gets cause internal
  refine iff_of_true ⟨by simp [events], fun _ => unchanged⟩ ?_
  exact fun h => gets h.2

/-! ## Handling an interrupt -/

section Handle

variable {cs} {m : Machine} {i cause : ℕ} {isrs : ℕ → Option IntcInternal}

theorem intcHandle_of_none (absent : cs i = none) (fuel : ℕ) :
    (cs.intcHandle drivers m fuel (some i)).events = [] := by
  cases fuel with
  | zero => rfl
  | succ fuel => simp [intcHandle, absent]

theorem intcHandle_of_idle (idle : m.pending i = none) (fuel : ℕ) :
    (cs.intcHandle drivers m fuel (some i)).events = [] := by
  cases fuel with
  | zero => rfl
  | succ fuel =>
    simp only [intcHandle, idle]
    split <;> rfl

theorem intcHandle_of_gt (found : cs i = some isrs) (reported : m.pending i = some cause)
    (above : cause > maxIsrs) (fuel : ℕ) :
    cs.intcHandle drivers m (fuel + 1) (some i) =
      ⟨[], .ok (.unknownInterruptCause,
        { m with pending := drivers.ackCause i cause m.pending })⟩ := by
  simp only [intcHandle, causeHandle, found, reported, if_pos above]
  rfl

theorem events_intcHandle (found : cs i = some isrs) (reported : m.pending i = some cause)
    (passes : cause ≤ maxIsrs) (fuel : ℕ) :
    (cs.intcHandle drivers m (fuel + 1) (some i)).events =
      (cs.useSlot i cause >>= fun isrs =>
        internalHandle drivers (cs.intcHandle drivers m fuel) m cause (isrs cause)).events := by
  have below : ¬ cause > maxIsrs := Nat.not_lt.mpr passes
  simp only [intcHandle, causeHandle, found, reported, if_neg below]
  exact events_bind_pure _ _

theorem forall_events_internalHandle {p : SlotAccess → Prop}
    {handle : Option ℕ → Logged SlotAccess (ReturnT × Machine)} {internal : Option IntcInternal}
    (below : ∀ child, internal = some (.child child) → ∀ access ∈ (handle child).events, p access) :
    ∀ access ∈ (internalHandle drivers handle m cause internal).events, p access := by
  rcases internal with _ | child | d | q | _ | t
  · simp [internalHandle]
  · exact below child rfl
  all_goals simp [internalHandle]

/-- No controller that an interrupt leads through reports `MAX_ISRS`. -/
def NeverMax (cs : Controllers) (m : Machine) (i : ℕ) : Prop :=
  ∀ j, cs.Reaches m i j → ∀ isrs, cs j = some isrs → m.pending j ≠ some maxIsrs

theorem NeverMax.child {j : ℕ} (safe : NeverMax cs m i) (found : cs i = some isrs)
    (reported : m.pending i = some cause) (inside : cause < maxIsrs)
    (slot : isrs cause = some (.child (some j))) : NeverMax cs m j :=
  fun k reached => safe k (.child found reported inside slot reached)

theorem NeverMax.forall_events (safe : NeverMax cs m i) (fuel : ℕ) :
    ∀ access ∈ (cs.intcHandle drivers m fuel (some i)).events, access.slot < maxIsrs := by
  -- the depth of the recursion; each level uses one slot and goes to one child
  induction fuel generalizing i with
  | zero => simp [intcHandle]
  | succ fuel ih =>
    cases found : cs i with
    | none => simp [intcHandle_of_none drivers found]
    | some isrs =>
      cases reported : m.pending i with
      | none => simp [intcHandle_of_idle drivers reported]
      | some cause =>
        rcases Nat.lt_trichotomy cause maxIsrs with inside | rfl | above
        · rw [events_intcHandle drivers found reported inside.le,
            useSlot_of_lt found inside, forall_events_bind]
          refine ⟨by simpa using inside, fun isrs' returned => ?_⟩
          cases returned
          refine forall_events_internalHandle drivers fun child slot => ?_
          cases child with
          | none => simp [intcHandle]
          | some j => exact ih (safe.child found reported inside slot)
        · exact absurd reported (safe i .refl isrs found)
        · simp [intcHandle_of_gt drivers found reported above]

theorem Reaches.mem_events {j : ℕ} (reached : cs.Reaches m i j) (found : cs j = some isrs)
    (reported : m.pending j = some cause) (passes : cause ≤ maxIsrs) :
    ∃ fuel, ⟨j, cause⟩ ∈ (cs.intcHandle drivers m fuel (some i)).events := by
  induction reached with
  | refl =>
    refine ⟨1, ?_⟩
    rw [events_intcHandle drivers found reported passes]
    by_cases inside : cause < maxIsrs
    · rw [useSlot_of_lt found inside, events_bind_of_ok rfl]
      exact List.mem_append_left _ (List.mem_singleton.mpr rfl)
    rw [useSlot_of_not_lt found inside, events_bind_of_error rfl]
    exact List.mem_singleton.mpr rfl
  | child found' reported' inside slot _ ih =>
    obtain ⟨fuel, used⟩ := ih found reported
    refine ⟨fuel + 1, ?_⟩
    rw [events_intcHandle drivers found' reported' inside.le, useSlot_of_lt found' inside,
      events_bind_of_ok rfl]
    refine List.mem_append_right _ ?_
    rw [slot]
    exact used

theorem result_intcHandle (found : cs i = some isrs) (reported : m.pending i = some cause)
    (inside : cause < maxIsrs) (fuel : ℕ) :
    (cs.intcHandle drivers m (fuel + 1) (some i)).result =
      ((internalHandle drivers (cs.intcHandle drivers m fuel) m cause (isrs cause)).result >>=
        fun answer => .ok (answer.1,
          { answer.2 with pending := drivers.ackCause i cause answer.2.pending })) := by
  have below : ¬ cause > maxIsrs := Nat.not_lt.mpr inside.le
  simp only [intcHandle, causeHandle, found, reported, if_neg below, useSlot_of_lt found inside,
    Option.isNone_some, Bool.false_eq_true, if_false, result_bind, Exec.ok_bind,
    result_pure]

theorem exists_depth_of_succ {p : ℕ → Prop} (h : ∃ depth, ∀ fuel ≥ depth, p (fuel + 1)) :
    ∃ depth, ∀ fuel ≥ depth, p fuel := by
  obtain ⟨depth, enough⟩ := h
  refine ⟨depth + 1, fun fuel large => ?_⟩
  obtain ⟨fuel, rfl⟩ := Nat.exists_eq_add_of_le' (Nat.le_of_add_left_le large)
  exact enough fuel (Nat.le_of_add_le_add_right large)

/-- A cause above the bound of the check, at whichever controller, is the answer of the
whole call. -/
theorem Reaches.answers_unknown {j : ℕ} (reached : cs.Reaches m i j) (found : cs j = some isrs)
    (reported : m.pending j = some cause) (above : cause > maxIsrs) :
    ∃ depth, ∀ fuel ≥ depth, ∃ after,
      (cs.intcHandle drivers m fuel (some i)).result = .ok (.unknownInterruptCause, after) := by
  induction reached with
  | refl =>
    refine exists_depth_of_succ ⟨0, fun fuel _ => ?_⟩
    exact ⟨_, by rw [intcHandle_of_gt drivers found reported above]⟩
  | child found' reported' inside slot _ ih =>
    obtain ⟨depth, answers⟩ := ih found reported
    refine exists_depth_of_succ ⟨depth, fun fuel enough => ?_⟩
    obtain ⟨after, answer⟩ := answers fuel enough
    rw [result_intcHandle drivers found' reported' inside, slot]
    simp only [internalHandle, answer, Exec.ok_bind]
    exact ⟨_, rfl⟩

end Handle

/-- The property of `intc_handle`: however deep it goes, it uses only slots of the table, and
a cause without a slot is answered with `UNKNOWN_INTERRUPT_CAUSE`, also if it is a child that
reports it. -/
def HandleStaysInTable (m : Machine) (intc : Option ℕ) : Prop :=
  (∀ fuel, ∀ access ∈ (cs.intcHandle drivers m fuel intc).events, access.slot < maxIsrs) ∧
    ∀ i j isrs cause, intc = some i → cs.Reaches m i j → cs j = some isrs →
      m.pending j = some cause → maxIsrs ≤ cause →
      ∃ depth, ∀ fuel ≥ depth, ∃ after,
        (cs.intcHandle drivers m fuel intc).result = .ok (.unknownInterruptCause, after)

theorem handleStaysInTable_iff (m : Machine) (intc : Option ℕ) :
    cs.HandleStaysInTable drivers m intc ↔ ∀ i, intc = some i → cs.NeverMax m i := by
  constructor
  · rintro ⟨inside, -⟩ i rfl j reached isrs found reported
    obtain ⟨fuel, used⟩ := reached.mem_events drivers found reported le_rfl
    exact lt_irrefl _ (inside fuel _ used)
  intro safe
  cases intc with
  | none => exact ⟨fun fuel => by simp [intcHandle], fun i j isrs cause h => by cases h⟩
  | some i =>
    have safe : cs.NeverMax m i := safe i rfl
    refine ⟨fun fuel => safe.forall_events drivers fuel, ?_⟩
    rintro i' j isrs cause hi reached found reported outside
    cases hi
    have above : cause > maxIsrs :=
      lt_of_le_of_ne outside fun h => safe j reached isrs found (h ▸ reported)
    exact reached.answers_unknown drivers found reported above

/-! ## The tree of controllers -/

def isrOf (below : ℕ → Intc) : Option IntcInternal → Isr
  | some (.child (some j)) => .child (below j)
  | some (.device d) => .device d
  | some (.pipe p) => .pipe p
  | some (.timer t) => .timer t
  | some (.child none) | none => .empty

/-- The controllers below an address, down to a depth. -/
def tree : ℕ → ℕ → Intc
  | 0, i => .mk i fun _ => .empty
  | depth + 1, i => .mk i fun cause => isrOf (tree depth) ((cs i).bind (· cause))

/-- A child is a controller of its own, of a lower rank. -/
def Linked (rank : ℕ → ℕ) : Prop :=
  ∀ i isrs cause child, cs i = some isrs → isrs cause = some (.child child) →
    ∃ j, child = some j ∧ (cs j).isSome ∧ rank j < rank i

/-- Handling an interrupt at a controller in memory is handling it in the tree below. -/
theorem intcHandle_tree {rank : ℕ → ℕ} (linked : cs.Linked rank) (m : Machine) {i fuel : ℕ}
    (present : (cs i).isSome) (enough : rank i < fuel) :
    (cs.intcHandle drivers m fuel (some i)).result =
      Tinker.intcHandle drivers m (cs.tree fuel i) := by
  induction fuel generalizing i with
  | zero => cases enough
  | succ fuel ih =>
    obtain ⟨isrs, found⟩ := Option.isSome_iff_exists.mp present
    rw [tree, Tinker.intcHandle]
    cases reported : m.pending i with
    | none => simp [intcHandle, found, reported]
    | some cause =>
      rcases Nat.lt_trichotomy cause maxIsrs with inside | rfl | above
      · have hslot : (internalHandle drivers (cs.intcHandle drivers m fuel) m cause
            (isrs cause)).result =
            isrHandle drivers m cause (isrOf (cs.tree fuel) (isrs cause)) := by
          rcases slot : isrs cause with _ | child | d | p | _ | t
          case some.child =>
            obtain ⟨j, rfl, hj, hrank⟩ := linked i isrs cause child found slot
            exact ih hj (by omega)
          all_goals rfl
        rw [result_intcHandle drivers found reported inside, hslot]
        simp [inside.not_gt, inside.ne, found]
      · simp [intcHandle, causeHandle, found, reported, useSlot_of_not_lt found (lt_irrefl _)]
      · simp [intcHandle_of_gt drivers found reported above, above]

/-- A timer behind two controllers. -/
theorem intcHandle_tree_two :
    let cs : Controllers := fun i => some fun _ =>
      some (if i = 0 then .child (some 1) else .timer (some 0))
    (cs.intcHandle idleDrivers (timerMachine bootedCore) 2 (some 0)).result =
      Tinker.intcHandle idleDrivers (timerMachine bootedCore) (cs.tree 2 0) := by
  intro cs
  have linked : cs.Linked fun i => 1 - i := by
    intro i isrs cause child found slot
    cases found
    obtain rfl | hi := eq_or_ne i 0
    · cases slot
      exact ⟨1, rfl, rfl, by decide⟩
    · simp [hi] at slot
  exact intcHandle_tree cs _ linked _ rfl Nat.one_lt_two

end Controllers

/-! ## The calls -/

inductive IntcCall
  | addChild (intc : Option ℕ) (cause : ℕ) (child : Option ℕ) (room : Bool)
  | addDevice (intc : Option ℕ) (cause device : ℕ) (room : Bool)
  | addPipe (intc : Option ℕ) (cause pipe : ℕ) (room : Bool)
  | addTimer (intc : Option ℕ) (cause : ℕ) (timer : Option ℕ) (room : Bool)
  /-- `intc_handle`, with what the hardware of the controllers reports. -/
  | handle (m : Machine) (intc : Option ℕ)

namespace IntcCall

variable (drivers : Drivers) (cs : Controllers)

/-- No slot outside the table is read or written, and a cause that has no slot is refused. -/
def StaysInTable : IntcCall → Prop
  | addChild intc cause child room =>
    cs.AddStaysInTable cause (cs.intcAddChild intc cause child room)
  | addDevice intc cause device room =>
    cs.AddStaysInTable cause (cs.intcAddDevice intc cause device room)
  | addPipe intc cause pipe room =>
    cs.AddStaysInTable cause (cs.intcAddPipe intc cause pipe room)
  | addTimer intc cause timer room =>
    cs.AddStaysInTable cause (cs.intcAddTimer intc cause timer room)
  | handle m intc => cs.HandleStaysInTable drivers m intc

/-- The cause `MAX_ISRS` is not added to a controller, where there is memory for that, and
not reported by one that the interrupt leads through. -/
def AvoidsMax : IntcCall → Prop
  | addChild intc cause _ room => ¬ (cause = maxIsrs ∧ cs.GetsToSlot intc room)
  | addDevice intc cause _ room => ¬ (cause = maxIsrs ∧ cs.GetsToSlot intc room)
  | addPipe intc cause _ room => ¬ (cause = maxIsrs ∧ cs.GetsToSlot intc room)
  | addTimer intc cause _ room => ¬ (cause = maxIsrs ∧ cs.GetsToSlot intc room)
  | handle m intc => ∀ i, intc = some i → cs.NeverMax m i

/-- A call stays in the table exactly if it does not come to the cause `MAX_ISRS`. -/
theorem stays_in_table_iff (call : IntcCall) :
    call.StaysInTable drivers cs ↔ call.AvoidsMax cs := by
  cases call with
  | addChild intc cause child room => exact cs.addStaysInTable_intcAdd_iff intc cause _ room
  | addDevice intc cause device room => exact cs.addStaysInTable_intcAdd_iff intc cause _ room
  | addPipe intc cause pipe room => exact cs.addStaysInTable_intcAdd_iff intc cause _ room
  | addTimer intc cause timer room => exact cs.addStaysInTable_intcAdd_iff intc cause _ room
  | handle m intc => exact cs.handleStaysInTable_iff drivers m intc

def emptyIntc : Controllers := fun i => if i = 0 then some fun _ => none else none

/-- Adding a device for the cause 256 reads behind the array, and so does an interrupt with
the cause 256. -/
theorem not_stays_in_table_256 :
    ¬ (addDevice (some 0) 256 0 true).StaysInTable idleDrivers emptyIntc ∧
      ¬ (handle { timerMachine bootedCore with pending := fun _ => some 256 }
        (some 0)).StaysInTable idleDrivers emptyIntc := by
  constructor
  · intro stays
    exact (emptyIntc.addStaysInTable_intcAdd_iff _ _ _ _).mp stays ⟨rfl, rfl, 0, _, rfl, rfl⟩
  · intro stays
    exact (emptyIntc.handleStaysInTable_iff _ _ _).mp stays 0 rfl 0 .refl _ rfl rfl

end IntcCall

end Tinker
