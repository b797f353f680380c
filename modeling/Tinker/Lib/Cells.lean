import Mathlib.Data.Nat.Digits.Defs
import Tinker.Lib.Exec

/-!
# Arrays and texts

An array is the list of its cells. An access outside of them does not return. The digits of a
number are stored with the lowest one first, a part of an array is copied in reverse, and a text
ends with a zero.

## Main results

* `storeDigits_start` — the digits of a number, as long as there are cells for them
* `copyBack_start` — the first cells in reverse
* `strlen_text`, `strlen_full` — where a text ends; in front of its bound, the cell is read first
-/

namespace Tinker.Lib

open Exec

variable {α β : Type} {cells done rest text : List α} {i base n fuel max : ℕ} {a b : α}

def load (cells : List α) (i : ℕ) : Exec α :=
  match cells[i]? with
  | some a => .ok a
  | none => .error .badPointer

def store (cells : List α) (i : ℕ) (a : α) : Exec (List α) :=
  if i < cells.length then .ok (cells.set i a) else .error .badPointer

theorem load_eq (h : cells[i]? = some a) : load cells i = .ok a := by rw [load, h]

theorem store_append (a b : α) (done rest : List α) :
    store (done ++ b :: rest) done.length a = .ok (done ++ a :: rest) := by
  rw [store, if_pos (by simp), List.set_append_right _ _ le_rfl, Nat.sub_self, List.set_cons_zero]

theorem store_full (a : α) (cells : List α) : store cells cells.length a = .error .badPointer :=
  if_neg (lt_irrefl _)

/-- Store the digits of `n` from the cell `p` on, the lowest one first. -/
def storeDigits (base : ℕ) (digit : ℕ → α) : (fuel n p : ℕ) → List α → Exec (ℕ × List α)
  | 0, _, _, _ => .error .diverges
  | fuel + 1, n, p, cells =>
    if n > 0 then do
      let cells ← store cells p (digit (n % base))
      storeDigits base digit fuel (n / base) (p + 1) cells
    else
      .ok (p, cells)

theorem storeDigits_eq (hbase : 1 < base) (digit : ℕ → α) (hfuel : n < fuel) :
    storeDigits base digit fuel n done.length (done ++ rest) =
      if (base.digits n).length ≤ rest.length then
        .ok (done.length + (base.digits n).length,
          done ++ (base.digits n).map digit ++ rest.drop (base.digits n).length)
      else .error .badPointer := by
  induction fuel generalizing n done rest with
  | zero => exact absurd hfuel (Nat.not_lt_zero n)
  | succ fuel ih =>
    rw [storeDigits]
    by_cases hn : n > 0
    · rw [if_pos hn, Nat.digits_def' hbase hn]
      have hless : n / base < fuel := (Nat.div_lt_self hn hbase).trans_le (Nat.lt_succ_iff.mp hfuel)
      cases rest with
      | nil => rw [List.append_nil, store_full]; rfl
      | cons b rest =>
        have hlength : done.length + 1 = (done ++ [digit (n % base)]).length := by simp
        rw [store_append, ok_bind, List.append_cons, hlength, ih hless]
        simp [Nat.add_assoc, Nat.add_comm 1]
    obtain rfl : n = 0 := by omega
    simp

theorem storeDigits_start (hbase : 1 < base) (digit : ℕ → α) (n : ℕ) (cells : List α) :
    storeDigits base digit (n + 1) n 0 cells =
      if (base.digits n).length ≤ cells.length then
        .ok ((base.digits n).length, (base.digits n).map digit ++ cells.drop (base.digits n).length)
      else .error .badPointer := by
  have hstore : storeDigits base digit (n + 1) n ([] : List α).length ([] ++ cells) = _ :=
    storeDigits_eq hbase digit (Nat.lt_succ_self n)
  rwa [List.length_nil, List.nil_append, Nat.zero_add, List.nil_append] at hstore

/-- Copy the first `r` cells in reverse, to the cells from `p` on. -/
def copyBack (f : β → α) (src : List β) : (r p : ℕ) → List α → Exec (List α)
  | 0, _, dst => .ok dst
  | r + 1, p, dst => do
    let b ← load src r
    let dst ← store dst p (f b)
    copyBack f src r (p + 1) dst

theorem copyBack_eq {f : β → α} {src : List β} {r : ℕ} (hsrc : r ≤ src.length)
    (hroom : r ≤ rest.length) : copyBack f src r done.length (done ++ rest) =
      .ok (done ++ ((src.take r).map f).reverse ++ rest.drop r) := by
  induction r generalizing done rest with
  | zero => simp [copyBack]
  | succ r ih =>
    cases rest with
    | nil => exact absurd hroom (by simp)
    | cons b rest =>
      have hlength : done.length + 1 = (done ++ [f src[r]]).length := by simp
      rw [copyBack, load_eq (List.getElem?_eq_getElem hsrc), ok_bind, store_append, ok_bind,
        List.append_cons, hlength, ih (by omega) (Nat.le_of_succ_le_succ hroom),
        List.take_succ_eq_append_getElem hsrc, List.map_append, List.reverse_append]
      simp only [List.append_assoc, List.map_cons, List.map_nil, List.reverse_singleton,
        List.drop_succ_cons]

theorem copyBack_start {f : β → α} {src rest : List β} {dst : List α}
    (hroom : src.length ≤ dst.length) :
    copyBack f (src ++ rest) src.length 0 dst =
      .ok ((src.map f).reverse ++ dst.drop src.length) := by
  have hcopy : copyBack f (src ++ rest) src.length ([] : List α).length ([] ++ dst) = _ :=
    copyBack_eq (by simp) hroom
  rwa [List.take_left, List.nil_append, List.nil_append] at hcopy

section Text

variable [DecidableEq α]

/-- The length of a text that ends with `nul`. The bound is looked at behind the cell. -/
def strlen (nul : α) (max : ℕ) : (cells : List α) → (c : ℕ) → Exec ℕ
  | [], _ => .error .badPointer
  | a :: cells, c => if a ≠ nul ∧ c < max then strlen nul max cells (c + 1) else .ok c

def textOf (nul : α) : List α → Exec (List α)
  | [] => .error .badPointer
  | a :: cells => if a = nul then .ok [] else do
      let text ← textOf nul cells
      .ok (a :: text)

variable {nul : α} {c : ℕ}

theorem strlen_text (hnul : nul ∉ text) (hmax : c + text.length ≤ max) :
    strlen nul max (text ++ nul :: rest) c = .ok (c + text.length) := by
  induction text generalizing c with
  | nil => simp [strlen]
  | cons a text ih =>
    obtain ⟨hne, hnul⟩ := List.ne_and_not_mem_of_not_mem_cons hnul
    rw [List.length_cons] at hmax
    rw [List.cons_append, strlen, if_pos ⟨Ne.symm hne, by omega⟩, ih hnul (by omega),
      List.length_cons, Nat.add_assoc, Nat.add_comm 1]

theorem strlen_full (hnul : nul ∉ text) (hmax : c + text.length ≤ max) :
    strlen nul max text c = .error .badPointer := by
  induction text generalizing c with
  | nil => rfl
  | cons a text ih =>
    obtain ⟨hne, hnul⟩ := List.ne_and_not_mem_of_not_mem_cons hnul
    rw [List.length_cons] at hmax
    rw [strlen, if_pos ⟨Ne.symm hne, by omega⟩, ih hnul (by omega)]

theorem textOf_text (hnul : nul ∉ text) : textOf nul (text ++ nul :: rest) = .ok text := by
  induction text with
  | nil => simp [textOf]
  | cons a text ih =>
    obtain ⟨hne, hnul⟩ := List.ne_and_not_mem_of_not_mem_cons hnul
    rw [List.cons_append, textOf, if_neg (Ne.symm hne), ih hnul, ok_bind]

end Text

end Tinker.Lib
