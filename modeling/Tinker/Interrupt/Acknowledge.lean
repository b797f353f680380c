import Tinker.Interrupt.Controllers

/-!
# Which controllers are acknowledged

`intc_handle` in a tree of controllers, with the calls it makes of the hardware and of handlers.
On the way down each controller is asked for its cause; the last one reports none, or one with a
handler, or one without. On the way back each controller that has reported a cause is acknowledged.
-/

namespace Tinker

open Tinker.Lib Logged

inductive DispatchEvent
  | getCause (intc : ℕ)
  /-- The handler of a device, a pipe or a timer is called. -/
  | leaf (isr : Isr) (cause : ℕ)
  | ackCause (intc cause : ℕ)

variable (drivers : Drivers)

mutual

def intcDispatch (m : Machine) : Intc → Logged DispatchEvent (ReturnT × Machine)
  | .mk id isrs => do
    emit (.getCause id)
    match m.pending id with
    | some cause => do
      let (ret, m) ←
        if cause > maxIsrs then
          pure (.unknownInterruptCause, m)
        else if cause = maxIsrs then
          lift (.error .badPointer)
        else
          isrDispatch m cause (isrs cause)
      emit (.ackCause id cause)
      return (ret, { m with pending := drivers.ackCause id cause m.pending })
    | none => return (.unknownInterruptCause, m)

def isrDispatch (m : Machine) (cause : ℕ) : Isr → Logged DispatchEvent (ReturnT × Machine)
  | .child intc => intcDispatch m intc
  | .empty => return (.unknownInterruptCause, m)
  | .timer none => return (.unknownInterruptCause, m)
  | isr => do
    emit (.leaf isr cause)
    lift (isrHandle drivers m cause isr)

end

mutual

theorem result_intcDispatch (m : Machine) : ∀ intc,
    (intcDispatch drivers m intc).result = intcHandle drivers m intc
  | .mk id isrs => by
    rw [intcDispatch, intcHandle]
    cases m.pending id with
    | none => rfl
    | some cause =>
      have hisr := result_isrDispatch m cause (isrs cause)
      simp only [result_bind, result_emit, Exec.ok_bind]
      split_ifs
      · rfl
      · rfl
      rw [result_bind, hisr]
      rfl

theorem result_isrDispatch (m : Machine) (cause : ℕ) : ∀ isr,
    (isrDispatch drivers m cause isr).result = isrHandle drivers m cause isr
  | .child intc => by
    rw [isrDispatch, isrHandle, result_intcDispatch m intc]
  | .empty => by simp [isrDispatch, isrHandle]
  | .timer none => by simp [isrDispatch, isrHandle]
  | .timer (some t) => by simp [isrDispatch]
  | .device d => by simp [isrDispatch]
  | .pipe p => by simp [isrDispatch]

end

inductive Last
  | silent (intc : ℕ)
  | unknown
  | leaf (isr : Isr) (cause : ℕ)

def Isr.IsLeaf : Isr → Prop
  | .device _ | .pipe _ | .timer (some _) => True
  | .empty | .child _ | .timer none => False

def Isr.IsUnknown : Isr → Prop
  | .empty | .timer none => True
  | .device _ | .pipe _ | .timer (some _) | .child _ => False

/-- The controllers that report a cause on the way down, each with the cause, and how it ends. -/
inductive Descends (pending : ℕ → Option ℕ) : Intc → List (ℕ × ℕ) → Last → Prop
  | silent {id : ℕ} {isrs : ℕ → Isr} (quiet : pending id = none) :
      Descends pending (.mk id isrs) [] (.silent id)
  | unknown {id cause : ℕ} {isrs : ℕ → Isr} (reports : pending id = some cause)
      (unhandled : (isrs cause).IsUnknown) : Descends pending (.mk id isrs) [(id, cause)] .unknown
  | leaf {id cause : ℕ} {isrs : ℕ → Isr} (reports : pending id = some cause)
      (one : (isrs cause).IsLeaf) :
      Descends pending (.mk id isrs) [(id, cause)] (.leaf (isrs cause) cause)
  | child {id cause : ℕ} {isrs : ℕ → Isr} {intc : Intc} {path : List (ℕ × ℕ)} {last : Last}
      (reports : pending id = some cause) (below : isrs cause = .child intc)
      (rest : Descends pending intc path last) :
      Descends pending (.mk id isrs) ((id, cause) :: path) last

def Last.events : Last → List DispatchEvent
  | silent id => [.getCause id]
  | unknown => []
  | leaf isr cause => [.leaf isr cause]

def Last.handle (m : Machine) : Last → Exec (ReturnT × Machine)
  | silent _ | unknown => .ok (.unknownInterruptCause, m)
  | leaf isr cause => isrHandle drivers m cause isr

/-- The last controller on the path is acknowledged first. -/
def ackAll (path : List (ℕ × ℕ)) (m : Machine) : Machine :=
  path.foldr (fun step m => { m with pending := drivers.ackCause step.1 step.2 m.pending }) m

def getCauses (path : List (ℕ × ℕ)) : List DispatchEvent :=
  path.map fun step => .getCause step.1

def ackCauses (path : List (ℕ × ℕ)) : List DispatchEvent :=
  path.reverse.map fun step => .ackCause step.1 step.2

mutual

theorem exists_descends (pending : ℕ → Option ℕ) : ∀ intc,
    ∃ path last, Descends pending intc path last
  | .mk id isrs => by
    cases reports : pending id with
    | none => exact ⟨_, _, .silent reports⟩
    | some cause =>
      obtain unhandled | one | ⟨intc, below, path, last, rest⟩ :=
        exists_descends_isr pending (isrs cause)
      · exact ⟨_, _, .unknown reports unhandled⟩
      · exact ⟨_, _, .leaf reports one⟩
      · exact ⟨_, _, .child reports below rest⟩

theorem exists_descends_isr (pending : ℕ → Option ℕ) : ∀ isr : Isr,
    isr.IsUnknown ∨ isr.IsLeaf ∨
      ∃ intc, isr = .child intc ∧ ∃ path last, Descends pending intc path last
  | .child intc => .inr (.inr ⟨intc, rfl, exists_descends pending intc⟩)
  | .empty => .inl trivial
  | .timer none => .inl trivial
  | .timer (some _) => .inr (.inl trivial)
  | .device _ => .inr (.inl trivial)
  | .pipe _ => .inr (.inl trivial)

end

variable {drivers}

theorem isrDispatch_unknown {isr : Isr} (unknown : isr.IsUnknown) (m : Machine) (cause : ℕ) :
    isrDispatch drivers m cause isr = pure (.unknownInterruptCause, m) := by
  match isr, unknown with
  | .empty, _ => rw [isrDispatch]
  | .timer none, _ => rw [isrDispatch]

theorem isrDispatch_leaf {isr : Isr} (one : isr.IsLeaf) (m : Machine) (cause : ℕ) :
    isrDispatch drivers m cause isr =
      ⟨[.leaf isr cause], isrHandle drivers m cause isr⟩ := by
  match isr, one with
  | .device d, _ | .pipe p, _ | .timer (some t), _ =>
    rfl

theorem intcDispatch_some {m : Machine} {id cause : ℕ} (isrs : ℕ → Isr)
    (reports : m.pending id = some cause) (small : cause < maxIsrs) :
    intcDispatch drivers m (.mk id isrs) = (do
      emit (.getCause id)
      let done ← isrDispatch drivers m cause (isrs cause)
      emit (.ackCause id cause)
      return (done.1, ackAll drivers [(id, cause)] done.2)) := by
  rw [intcDispatch, reports]
  dsimp only
  rw [if_neg (by omega), if_neg (by omega)]
  rfl

theorem intcDispatch_of_isrDispatch {m : Machine} {id cause : ℕ} {isrs : ℕ → Isr}
    (reports : m.pending id = some cause) (small : cause < maxIsrs)
    {events : List DispatchEvent} {result : Exec (ReturnT × Machine)}
    (done : isrDispatch drivers m cause (isrs cause) = ⟨events, result⟩) :
    (∀ ret m', result = .ok (ret, m') →
      intcDispatch drivers m (.mk id isrs) =
        ⟨.getCause id :: events ++ [.ackCause id cause],
          .ok (ret, ackAll drivers [(id, cause)] m')⟩) ∧
    ∀ e, result = .error e →
      intcDispatch drivers m (.mk id isrs) = ⟨.getCause id :: events, .error e⟩ := by
  rw [intcDispatch_some isrs reports small, done]
  constructor
  · rintro ret m' rfl
    rfl
  rintro e rfl
  rfl

variable (drivers) in
theorem intcDispatch_of_descends {m : Machine} {intc : Intc} {path : List (ℕ × ℕ)} {last : Last}
    (small : ∀ id cause, m.pending id = some cause → cause < maxIsrs)
    (way : Descends m.pending intc path last) :
    (∀ ret m', last.handle drivers m = .ok (ret, m') →
      intcDispatch drivers m intc =
        ⟨getCauses path ++ last.events ++ ackCauses path, .ok (ret, ackAll drivers path m')⟩) ∧
    ∀ e, last.handle drivers m = .error e →
      intcDispatch drivers m intc = ⟨getCauses path ++ last.events, .error e⟩ := by
  induction way with
  | silent quiet =>
    rw [intcDispatch, quiet]
    constructor
    · intro ret m' handled
      obtain ⟨rfl, rfl⟩ := Prod.mk.inj (Except.ok.inj handled)
      rfl
    intro e handled
    cases handled
  | unknown reports unhandled =>
    exact intcDispatch_of_isrDispatch reports (small _ _ reports)
      (isrDispatch_unknown unhandled m _)
  | leaf reports one =>
    exact intcDispatch_of_isrDispatch reports (small _ _ reports) (isrDispatch_leaf one m _)
  | @child id cause isrs intc path last reports below rest ih =>
    have hchild : isrDispatch drivers m cause (isrs cause) = intcDispatch drivers m intc := by
      rw [below, isrDispatch]
    refine ⟨fun ret m' handled => ?_, fun e handled => ?_⟩
    · rw [(intcDispatch_of_isrDispatch reports (small _ _ reports)
        (hchild.trans (ih.1 ret m' handled))).1 _ _ rfl]
      simp [getCauses, ackCauses, ackAll]
    rw [(intcDispatch_of_isrDispatch reports (small _ _ reports)
      (hchild.trans (ih.2 e handled))).2 _ rfl]
    rfl

/-- In any tree of controllers `intc_handle` goes one way down. It asks each controller on it
once, calls at most one handler, and then acknowledges, from the last controller to the first,
each that reported a cause, with that cause. When the handler does not return, no controller is
acknowledged. -/
theorem intcHandle_acknowledges (drivers : Drivers) (m : Machine) (intc : Intc)
    (small : ∀ id cause, m.pending id = some cause → cause < maxIsrs) :
    (intcDispatch drivers m intc).result = intcHandle drivers m intc ∧
    ∃ path last, Descends m.pending intc path last ∧
      (∀ ret m', last.handle drivers m = .ok (ret, m') →
        (intcDispatch drivers m intc).events =
          getCauses path ++ last.events ++ ackCauses path ∧
        intcHandle drivers m intc = .ok (ret, ackAll drivers path m')) ∧
      ∀ e, last.handle drivers m = .error e →
        (intcDispatch drivers m intc).events = getCauses path ++ last.events ∧
        intcHandle drivers m intc = .error e := by
  obtain ⟨path, last, way⟩ := exists_descends m.pending intc
  obtain ⟨returns, fails⟩ := intcDispatch_of_descends drivers small way
  have hresult := result_intcDispatch drivers m intc
  refine ⟨hresult, path, last, way, fun ret m' handled => ?_, fun e handled => ?_⟩
  · rw [← hresult, returns ret m' handled]
    exact ⟨rfl, rfl⟩
  · rw [← hresult, fails e handled]
    exact ⟨rfl, rfl⟩

/-- The only way down to the timer leads through both controllers. -/
theorem eq_of_descends_timer {m : Machine} {path : List (ℕ × ℕ)} {last : Last}
    (reports : ∀ id, m.pending id = some 1)
    (way : Descends m.pending (.mk 1 fun _ => .child timerIntc) path last) :
    path = [(1, 1), (0, 1)] ∧ last = .leaf (.timer (some 0)) 1 := by
  cases way with
  | silent quiet => cases quiet.symm.trans (reports 1)
  | unknown _ unhandled => exact unhandled.elim
  | leaf _ one => exact one.elim
  | child first below rest =>
    cases below
    cases (reports 1).symm.trans first
    cases rest with
    | silent quiet => cases quiet.symm.trans (reports 0)
    | unknown _ unhandled => exact unhandled.elim
    | leaf second _ =>
      cases (reports 0).symm.trans second
      exact ⟨rfl, rfl⟩
    | child _ below => cases below

/-- The schedule timer hangs off a controller that hangs off another one. -/
theorem intcHandle_acknowledges_timer : ∃ m',
    (∀ id cause, (timerMachine bootedCore).pending id = some cause → cause < maxIsrs) ∧
    intcHandle idleDrivers (timerMachine bootedCore) (.mk 1 fun _ => .child timerIntc) =
      .ok (.noError, m') ∧
    (intcDispatch idleDrivers (timerMachine bootedCore) (.mk 1 fun _ => .child timerIntc)).events =
      [.getCause 1, .getCause 0, .leaf (.timer (some 0)) 1, .ackCause 0 1, .ackCause 1 1] := by
  have small : ∀ id cause, (timerMachine bootedCore).pending id = some cause →
      cause < maxIsrs := by
    intro id cause reports
    obtain rfl : 1 = cause := Option.some.inj reports
    decide
  obtain ⟨m', handled⟩ : ∃ m', Last.handle idleDrivers (timerMachine bootedCore)
      (.leaf (.timer (some 0)) 1) = .ok (.noError, m') := ⟨_, rfl⟩
  obtain ⟨-, path, last, way, returns, -⟩ := intcHandle_acknowledges idleDrivers
    (timerMachine bootedCore) (.mk 1 fun _ => .child timerIntc) small
  obtain ⟨rfl, rfl⟩ := eq_of_descends_timer (fun _ => rfl) way
  obtain ⟨hevents, hhandle⟩ := returns _ m' handled
  exact ⟨_, small, hhandle, hevents⟩

end Tinker
