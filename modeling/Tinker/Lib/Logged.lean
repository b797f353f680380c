import Tinker.Lib.Exec

/-!
# Computations that record what they do

A computation that may fail to return still acts before it fails. `Logged` keeps the list
of the events a computation has caused beside its outcome, so that a safety property can
speak of every event and not only of those of computations that return.

## Main definitions

* `Logged` — the events of a computation and its outcome
* `Logged.emit` — cause one event
* `Logged.lift` — a computation that causes none

## Main results

* `Logged.result_bind` — forgetting the events, a sequence is the sequence of outcomes
* `Logged.forall_events_bind` — the events of a sequence, part by part
-/

namespace Tinker.Lib

/-- The events of a computation, in their order, and its outcome. -/
structure Logged (ε α : Type) where
  events : List ε
  result : Exec α

namespace Logged

variable {ε α β : Type}

/-- The second part runs if the first returns; its events come after those of the first. -/
def bind (x : Logged ε α) (f : α → Logged ε β) : Logged ε β :=
  match x.result with
  | .ok a => ⟨x.events ++ (f a).events, (f a).result⟩
  | .error e => ⟨x.events, .error e⟩

instance instMonad : Monad (Logged ε) where
  pure a := ⟨[], .ok a⟩
  bind := bind

def emit (e : ε) : Logged ε Unit := ⟨[e], .ok ()⟩

def lift (x : Exec α) : Logged ε α := ⟨[], x⟩

@[simp] theorem events_pure (a : α) : (pure a : Logged ε α).events = [] := rfl

@[simp] theorem result_pure (a : α) : (pure a : Logged ε α).result = .ok a := rfl

@[simp] theorem events_emit (e : ε) : (emit e).events = [e] := rfl

@[simp] theorem result_emit (e : ε) : (emit e).result = .ok () := rfl

@[simp] theorem events_lift (x : Exec α) : (lift x : Logged ε α).events = [] := rfl

@[simp] theorem result_lift (x : Exec α) : (lift x : Logged ε α).result = x := rfl

@[simp] theorem result_bind (x : Logged ε α) (f : α → Logged ε β) :
    (x >>= f).result = x.result >>= fun a => (f a).result := by
  obtain ⟨events, a | a⟩ := x <;> rfl

theorem events_bind_of_ok {x : Logged ε α} {a : α} (h : x.result = .ok a)
    (f : α → Logged ε β) : (x >>= f).events = x.events ++ (f a).events := by
  obtain ⟨events, result⟩ := x
  obtain rfl : result = .ok a := h
  rfl

theorem events_bind_of_error {x : Logged ε α} {e : Fault} (h : x.result = .error e)
    (f : α → Logged ε β) : (x >>= f).events = x.events := by
  obtain ⟨events, result⟩ := x
  obtain rfl : result = .error e := h
  rfl

@[simp] theorem events_bind_pure (x : Logged ε α) (g : α → β) :
    (x >>= fun a => pure (g a)).events = x.events := by
  cases h : x.result with
  | error e => rw [events_bind_of_error h]
  | ok a => rw [events_bind_of_ok h, events_pure, List.append_nil]

/-- All events of a sequence have a property when those of the first part have it, and those
of the second on every value the first can return. -/
theorem forall_events_bind {x : Logged ε α} {f : α → Logged ε β} {p : ε → Prop} :
    (∀ e ∈ (x >>= f).events, p e) ↔
      (∀ e ∈ x.events, p e) ∧ ∀ a, x.result = .ok a → ∀ e ∈ (f a).events, p e := by
  cases h : x.result with
  | error e =>
    rw [events_bind_of_error h]
    simp
  | ok a =>
    rw [events_bind_of_ok h]
    simp [or_imp, forall_and]

end Logged

end Tinker.Lib
