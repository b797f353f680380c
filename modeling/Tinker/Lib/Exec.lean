import Mathlib.Data.List.Basic

/-!
# Computations that may fail to return

A function of a low-level program either returns a value or never gives control
back to its caller: it follows a pointer that names no live object, it stops the
machine on purpose, or it loops. `Exec` records which of these happened, so that
a statement about a returned value and a statement that a value is returned stay
separate.

## Main results

* `Exec.of_bind` — both parts of a sequence that returns have returned
* `Exec.ok_bind` — a part that returns disappears from a sequence
-/

namespace Tinker.Lib

inductive Fault
  /-- It follows a null pointer or a pointer to memory that has been freed. -/
  | badPointer
  | halted
  | diverges
  deriving DecidableEq, Repr

abbrev Exec (α : Type) := Except Fault α

namespace Exec

variable {α β γ : Type}

@[simp] theorem ok_bind (a : α) (f : α → Exec β) :
    ((Except.ok a : Exec α) >>= f) = f a := rfl

@[simp] theorem error_bind (e : Fault) (f : α → Exec β) :
    ((Except.error e : Exec α) >>= f) = Except.error e := rfl

@[simp] theorem pure_eq_ok (a : α) : (pure a : Exec α) = Except.ok a := rfl

/-- Where a sequence returns, its first part returns and the second part returns on that
value. -/
theorem of_bind {x : Exec α} {f : α → Exec β} {b : β} (h : (x >>= f) = Except.ok b) :
    ∃ a, x = Except.ok a ∧ f a = Except.ok b := by
  cases x with
  | error e => cases h
  | ok a => exact ⟨a, rfl, h⟩

theorem bind_of {x : Exec α} {f : α → Exec β} {b : β}
    (h : ∃ a, x = Except.ok a ∧ f a = Except.ok b) : (x >>= f) = Except.ok b := by
  obtain ⟨a, rfl, hf⟩ := h
  exact hf

theorem pair_inj {a a' : α} {b b' : β} (h : (pure (a, b) : Exec (α × β)) = .ok (a', b')) :
    a = a' ∧ b = b' :=
  Prod.mk.inj (Except.ok.inj h)

theorem triple_inj {a a' : α} {b b' : β} {c c' : γ}
    (h : (pure (a, b, c) : Exec (α × β × γ)) = .ok (a', b', c')) : a = a' ∧ b = b' ∧ c = c' :=
  ⟨(pair_inj h).1, Prod.mk.inj (pair_inj h).2⟩

theorem exists_of_any {x : Exec α} {p : α → Bool} (h : x.toOption.any p = true) :
    ∃ a, x = .ok a ∧ p a = true := by
  cases x with
  | error e => simp [Except.toOption] at h
  | ok a => exact ⟨a, rfl, by simpa [Except.toOption] using h⟩

def fault? : Exec α → Option Fault
  | .ok _ => none
  | .error e => some e

theorem eq_error_of_fault? {x : Exec α} {e : Fault} (h : fault? x = some e) : x = .error e := by
  cases x with
  | error e' => exact congrArg _ (Option.some.inj h)
  | ok a => cases h

end Exec

end Tinker.Lib
