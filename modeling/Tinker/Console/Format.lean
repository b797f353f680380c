import Mathlib.Tactic
import Tinker.Lib.Cells

/-!
# Format strings

The loop of `printp_out`, `error_print` and `debug_print1` over a format string, and the scanner
of a directive, `print_out_process`, which stops at the letters `s`, `d`, `x` and `X` only. Any
other character is stored as padding, of which there is room for nine, and that includes the zero
at the end of the string.

What is printed for a directive is not looked at here; it is recorded with its letter, the padding
and the argument that it takes.
-/

namespace Tinker

open Tinker.Lib Exec

def maxPaddingChars : ℕ := 9

def isConversion (c : Char) : Bool := c == 's' || c == 'd' || c == 'x' || c == 'X'

inductive Printed (α : Type)
  | char (c : Char)
  | directive (letter : Char) (pad : List Char) (arg : α)

namespace Printed

variable {α : Type}

def isDirective : Printed α → Bool
  | .char _ => false
  | .directive .. => true

end Printed

/-- `print_out_process`: the letter, where the scan leaves `ptr`, and the padding. The cursor of
the scan is one character ahead of `ptr`. -/
def printOutProcess (cells : List Char) : (fuel ptr padp : ℕ) → (pad : List Char) →
    Exec (Char × ℕ × List Char)
  | 0, _, _, _ => .error .diverges
  | fuel + 1, ptr, padp, pad => do
    let c ← load cells (ptr + 1)
    if isConversion c then
      .ok (c, ptr, pad.take padp)
    else do
      let pad ← store pad padp c
      printOutProcess cells fuel (ptr + 1) (padp + 1) pad

variable {α : Type} (args : ℕ → α)

/-- The loop over the characters from `ptr` on, when `used` arguments have been taken. With what
is printed comes the number of arguments that have been taken in the end. -/
def printLoop (cells : List Char) : (fuel ptr used : ℕ) → Exec (List (Printed α) × ℕ)
  | 0, _, _ => .error .diverges
  | fuel + 1, ptr, used => do
    let c ← load cells ptr
    if c = '\x00' then
      .ok ([], used)
    else if c = '%' then do
      let (letter, ptr, pad) ←
        printOutProcess cells cells.length ptr 0 (List.replicate maxPaddingChars '\x00')
      let (printed, used') ← printLoop cells fuel (ptr + 2) (used + 1)
      .ok (.directive letter pad (args used) :: printed, used')
    else do
      let (printed, used') ← printLoop cells fuel (ptr + 1) used
      .ok (.char c :: printed, used')

def printpOut (format : List Char) : Exec (List (Printed α) × ℕ) :=
  printLoop args (format ++ ['\x00']) (format.length + 1) 0 0

/-- The time is printed first. -/
def errorPrint (time format : List Char) : Exec (List (Printed α) × ℕ) := do
  let (printed, used) ← printpOut args format
  .ok (time.map .char ++ printed, used)

/-- The time and the line of the source are printed first, if the subsystem is debugged at all. -/
def debugPrint1 (enabled : Bool) (place format : List Char) : Exec (List (Printed α) × ℕ) :=
  if enabled then errorPrint args place format else .ok ([], 0)

/-- Every `%` is followed by at most nine other characters and one of the four letters. -/
inductive WellFormed : List Char → Prop
  | nil : WellFormed []
  | char {c : Char} {rest : List Char} : c ≠ '%' → WellFormed rest → WellFormed (c :: rest)
  | directive {pad rest : List Char} {letter : Char} : pad.length ≤ maxPaddingChars →
      (∀ c ∈ pad, isConversion c = false) → isConversion letter = true → WellFormed rest →
      WellFormed ('%' :: (pad ++ letter :: rest))

variable {args} {before after pad cells : List Char} {x letter : Char} {fuel used : ℕ}

theorem load_next (before after : List Char) (x c : Char) :
    load (before ++ x :: c :: after) (before.length + 1) = .ok c := load_eq (by simp)

theorem printOutProcess_eq {stored room : List Char} (hpad : pad.length ≤ room.length)
    (hno : ∀ c ∈ pad, isConversion c = false) (hletter : isConversion letter = true)
    (hfuel : pad.length < fuel) :
    printOutProcess (before ++ x :: (pad ++ letter :: after)) fuel before.length stored.length
      (stored ++ room) = .ok (letter, before.length + pad.length, stored ++ pad) := by
  induction fuel generalizing before x pad stored room with
  | zero => exact absurd hfuel (Nat.not_lt_zero _)
  | succ fuel ih =>
    cases pad with
    | nil =>
      rw [List.nil_append, printOutProcess, load_next, ok_bind, if_pos hletter]
      simp
    | cons c pad =>
      obtain ⟨hc, hno⟩ := List.forall_mem_cons.mp hno
      cases room with
      | nil => exact absurd hpad (by simp)
      | cons b room =>
        have hbefore : before.length + 1 = (before ++ [x]).length := by simp
        have hstored : stored.length + 1 = (stored ++ [c]).length := by simp
        rw [List.cons_append, printOutProcess, load_next, ok_bind, if_neg (by simp [hc]),
          store_append, ok_bind, List.append_cons before, List.append_cons stored, hbefore,
          hstored, ih (Nat.le_of_succ_le_succ hpad) hno (Nat.lt_of_succ_lt_succ hfuel)]
        simp [Nat.add_assoc, Nat.add_comm 1]

theorem exists_of_printOutProcess {padp ptr : ℕ} {room : List Char} (hpadp : padp ≤ room.length)
    (h : printOutProcess (before ++ x :: after) fuel before.length padp room =
      .ok (letter, ptr, pad)) :
    ∃ chars rest, after = chars ++ letter :: rest ∧ padp + chars.length ≤ room.length ∧
      (∀ c ∈ chars, isConversion c = false) ∧ isConversion letter = true ∧
      ptr = before.length + chars.length := by
  induction fuel generalizing before x after padp room with
  | zero => cases h
  | succ fuel ih =>
    rw [printOutProcess] at h
    cases after with
    | nil =>
      rw [load, List.getElem?_eq_none (by simp)] at h
      cases h
    | cons c after =>
      rw [load_next, ok_bind] at h
      split at h
      next hletter =>
        cases h
        exact ⟨[], after, rfl, hpadp, by simp, hletter, rfl⟩
      next hc =>
        obtain ⟨room', hstore, h⟩ := of_bind h
        rw [store] at hstore
        split at hstore
        next hlt =>
          cases hstore
          have hbefore : before.length + 1 = (before ++ [x]).length := by simp
          rw [List.append_cons, hbefore] at h
          obtain ⟨chars, rest, rfl, hroom, hno, hletter, rfl⟩ := ih (by simpa using hlt) h
          refine ⟨c :: chars, rest, rfl, ?_, ?_, hletter, ?_⟩
          · simp at hroom ⊢
            omega
          · exact List.forall_mem_cons.mpr ⟨by simpa using hc, hno⟩
          simp
          omega
        · cases hstore

theorem printLoop_char {c : Char} (hnul : c ≠ '\x00') (hc : c ≠ '%') :
    printLoop args (before ++ c :: after) (fuel + 1) before.length used = (do
      let (printed, used') ←
        printLoop args (before ++ [c] ++ after) fuel (before ++ [c]).length used
      .ok (.char c :: printed, used')) := by
  have hload : load (before ++ c :: after) before.length = .ok c := load_eq (by simp)
  rw [printLoop, hload, ok_bind, if_neg hnul, if_neg hc, List.append_cons, List.length_append]
  rfl

theorem printLoop_directive (hpad : pad.length ≤ maxPaddingChars)
    (hno : ∀ c ∈ pad, isConversion c = false) (hletter : isConversion letter = true) :
    printLoop args (before ++ '%' :: (pad ++ letter :: after)) (fuel + 1) before.length used = (do
      let (printed, used') ← printLoop args (before ++ ('%' :: (pad ++ [letter])) ++ after) fuel
        (before ++ ('%' :: (pad ++ [letter]))).length (used + 1)
      .ok (.directive letter pad (args used) :: printed, used')) := by
  have hload : load (before ++ '%' :: (pad ++ letter :: after)) before.length = .ok '%' :=
    load_eq (by simp)
  have hscan : printOutProcess (before ++ '%' :: (pad ++ letter :: after))
      (before ++ '%' :: (pad ++ letter :: after)).length before.length ([] : List Char).length
      ([] ++ List.replicate maxPaddingChars '\x00') = _ :=
    printOutProcess_eq (by simpa using hpad) hno hletter (by simp; omega)
  have hcells : before ++ '%' :: (pad ++ letter :: after) =
      before ++ ('%' :: (pad ++ [letter])) ++ after := by simp
  have hptr : before.length + pad.length + 2 = (before ++ ('%' :: (pad ++ [letter]))).length := by
    simp
    omega
  rw [List.nil_append, List.length_nil] at hscan
  rw [printLoop, hload, ok_bind, if_neg (by decide), if_pos rfl, hscan, ok_bind]
  dsimp only
  rw [hptr, hcells, List.nil_append]

theorem exists_printLoop (hformat : WellFormed after) (hnul : '\x00' ∉ after)
    (hfuel : after.length < fuel) :
    ∃ printed, printLoop args (before ++ (after ++ ['\x00'])) fuel before.length used =
      .ok (printed, used + printed.countP Printed.isDirective) := by
  induction hformat generalizing before fuel used with
  | nil =>
    obtain ⟨fuel, rfl⟩ := Nat.exists_eq_add_of_lt hfuel
    exact ⟨[], by simp [printLoop, load]⟩
  | @char c rest hc _ ih =>
    obtain ⟨hne, hnul⟩ := List.ne_and_not_mem_of_not_mem_cons hnul
    obtain ⟨fuel, rfl⟩ := Nat.exists_eq_succ_of_ne_zero (Nat.ne_zero_of_lt hfuel)
    obtain ⟨printed, hloop⟩ : ∃ printed, printLoop args (before ++ [c] ++ (rest ++ ['\x00'])) fuel
        (before ++ [c]).length used = _ := ih hnul (Nat.lt_of_succ_lt_succ hfuel)
    refine ⟨.char c :: printed, ?_⟩
    rw [List.cons_append, Nat.succ_eq_add_one, printLoop_char hne.symm hc, hloop]
    rfl
  | @directive pad rest letter hpad hno hletter _ ih =>
    obtain ⟨fuel, rfl⟩ := Nat.exists_eq_succ_of_ne_zero (Nat.ne_zero_of_lt hfuel)
    obtain ⟨printed, hloop⟩ : ∃ printed, printLoop args
        (before ++ ('%' :: (pad ++ [letter])) ++ (rest ++ ['\x00'])) fuel
        (before ++ ('%' :: (pad ++ [letter]))).length (used + 1) = _ :=
      ih (fun hmem => hnul (by simp [hmem])) (by simp at hfuel; omega)
    refine ⟨.directive letter pad (args used) :: printed, ?_⟩
    rw [List.cons_append, List.append_assoc, List.cons_append, Nat.succ_eq_add_one,
      printLoop_directive hpad hno hletter, hloop, List.countP_cons_of_pos rfl,
      ← Nat.add_assoc, Nat.add_right_comm]
    rfl

theorem wellFormed_of_printLoop {result : List (Printed α) × ℕ} (hnul : '\x00' ∉ after)
    (h : printLoop args (before ++ (after ++ ['\x00'])) fuel before.length used = .ok result) :
    WellFormed after := by
  induction fuel generalizing before after used result with
  | zero => cases h
  | succ fuel ih =>
    cases after with
    | nil => exact .nil
    | cons c after =>
      obtain ⟨hne, hnul⟩ := List.ne_and_not_mem_of_not_mem_cons hnul
      rw [List.cons_append] at h
      by_cases hc : c = '%'
      · subst hc
        have hload : load (before ++ '%' :: (after ++ ['\x00'])) before.length = .ok '%' :=
          load_eq (by simp)
        have hscan := h
        rw [printLoop, hload, ok_bind, if_neg hne.symm, if_pos rfl] at hscan
        obtain ⟨⟨letter, ptr, pad⟩, hscan, -⟩ := of_bind hscan
        obtain ⟨chars, rest, heq, hroom, hno, hletter, -⟩ :=
          exists_of_printOutProcess (Nat.zero_le _) hscan
        rcases List.eq_nil_or_concat rest with rfl | ⟨rest, z, rfl⟩
        · obtain ⟨-, hz⟩ := List.append_inj' heq rfl
          cases hz
          cases hletter
        rw [List.concat_eq_append, ← List.cons_append, ← List.append_assoc] at heq
        obtain ⟨rfl, hz⟩ := List.append_inj' heq rfl
        cases hz
        rw [Nat.zero_add, List.length_replicate] at hroom
        rw [List.append_assoc, List.cons_append, printLoop_directive hroom hno hletter] at h
        obtain ⟨⟨printed, used'⟩, hloop, -⟩ := of_bind h
        exact .directive hroom hno hletter (ih (fun hmem => hnul (by simp [hmem])) hloop)
      rw [printLoop_char hne.symm hc] at h
      obtain ⟨⟨printed, used'⟩, hloop, -⟩ := of_bind h
      exact .char hc (ih hnul hloop)

/-- The formatter returns, so it has read the format string up to its end and stored no more than
nine characters of padding, and it has taken one argument for each directive. -/
def FormatsInside (result : Exec (List (Printed α) × ℕ)) : Prop :=
  ∃ printed, result = .ok (printed, printed.countP Printed.isDirective)

theorem formatsInside_printpOut (hnul : '\x00' ∉ after) :
    FormatsInside (printpOut args after) ↔ WellFormed after := by
  have hstart : printpOut args after = printLoop args ([] ++ (after ++ ['\x00']))
    (after.length + 1) ([] : List Char).length 0 := rfl
  rw [FormatsInside, hstart]
  constructor
  · rintro ⟨printed, h⟩
    exact wellFormed_of_printLoop hnul h
  intro hformat
  obtain ⟨printed, h⟩ := exists_printLoop hformat hnul (Nat.lt_succ_self _)
  exact ⟨printed, h.trans (by rw [Nat.zero_add])⟩

theorem formatsInside_errorPrint (time : List Char) :
    FormatsInside (errorPrint args time after) ↔ FormatsInside (printpOut args after) := by
  have hcount (printed : List (Printed α)) :
      (time.map Printed.char ++ printed).countP Printed.isDirective =
        printed.countP Printed.isDirective := by
    rw [List.countP_append, List.countP_map]
    simp [Function.comp_def, Printed.isDirective]
  constructor
  · rintro ⟨printed, h⟩
    obtain ⟨⟨printed', used⟩, h, heq⟩ := of_bind h
    cases heq
    exact ⟨printed', hcount printed' ▸ h⟩
  rintro ⟨printed, h⟩
  refine ⟨time.map .char ++ printed, ?_⟩
  rw [errorPrint, h, hcount]
  rfl

/-- Exactly the format strings that are well-formed are printed as they should be. -/
theorem formatsInside_iff (args : ℕ → α) (format : List Char) (hnul : '\x00' ∉ format) :
    (FormatsInside (printpOut args format) ↔ WellFormed format) ∧
    (∀ time, FormatsInside (errorPrint args time format) ↔ WellFormed format) ∧
    ∀ enabled place, FormatsInside (debugPrint1 args enabled place format) ↔
      (enabled = true → WellFormed format) := by
  have hprint : FormatsInside (printpOut args format) ↔ _ := formatsInside_printpOut hnul
  refine ⟨hprint, fun time => (formatsInside_errorPrint time).trans hprint, fun enabled place => ?_⟩
  cases enabled with
  | true =>
    refine ((formatsInside_errorPrint place).trans hprint).trans ?_
    exact ⟨fun hformat _ => hformat, fun hformat => hformat rfl⟩
  | false => exact iff_of_true ⟨[], rfl⟩ nofun

theorem formatsInside_iff_signed : FormatsInside (printpOut (fun n => n) ['%', '2', 'd', '.']) :=
  (formatsInside_iff _ _ (by decide)).1.mpr
    (@WellFormed.directive ['2'] ['.'] 'd' (by decide) (List.forall_mem_singleton.mpr rfl) rfl
      (.char (by decide) .nil))

/-- A `%` at the end, and a letter that is not known. -/
theorem not_formatsInside : ¬ FormatsInside (printpOut (fun n => n) ['%']) ∧
    ¬ FormatsInside (printpOut (fun n => n) ['%', 'c']) := by
  constructor
  · rintro ⟨printed, h⟩
    cases h
  · rintro ⟨printed, h⟩
    cases h

end Tinker
