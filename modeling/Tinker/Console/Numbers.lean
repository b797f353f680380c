import Mathlib.Tactic
import Tinker.Lib.Cells

/-!
# Numbers on the console

`util_i_to_a.c`, `util_a_to_i.c` and how `print_out.c` prints a number. The digits are stored with
the lowest one first, into a buffer that has ten cells for decimal ones, and the minus sign behind
them. The length is found by looking for a zero, so a number that fills the buffer is read beyond
it. The most negative number has no positive one, so it has no digits.

Reading a number is wrong from three digits on: the weight of a digit is ten times its place.
-/

namespace Tinker

open Tinker.Lib Exec

/-! ## The conversions -/

def utilStrlen (string : List Char) (max : ℕ) : Exec ℕ := strlen '\x00' max string 0

/-- What is left has the length that is returned. In front of the string there is no cell. -/
def utilTrim (string : List Char) : (length : ℕ) → Exec (ℕ × List Char)
  | 0 => .error .badPointer
  | length + 1 => do
    let c ← load string length
    if c = '0' then do
      let string ← store string length '\x00'
      utilTrim string length
    else
      .ok (length + 1, string)

def utilReverseString (src : List Char) (srcLength : ℕ) (dst : List Char) : Exec (List Char) :=
  copyBack id src srcLength 0 dst

def decimalChar (tmp : ℕ) : Char := Char.ofNat (tmp + '0'.toNat)

def storeNumber (isNeg : Bool) (n : ℕ) (revBuffer : List Char) : Exec (List Char) := do
  let (p, revBuffer) ← storeDigits 10 decimalChar (n + 1) n 0 revBuffer
  if isNeg then store revBuffer p '-' else .ok revBuffer

/-- The text is written to the start of `buffer`. The most negative number stays negative, and the
loop over its digits ends at once. -/
def utilIToA (i : Int32) (buffer : List Char) (bufferLength : ℕ) : Exec (List Char) :=
  if i = 0 then do
    let buffer ← store buffer 0 '0'
    store buffer 1 '\x00'
  else do
    let isNeg : Bool := i < 0
    let n := if isNeg then i * -1 else i
    let revBuffer ← storeNumber isNeg n.toNatClampNeg (List.replicate bufferLength '\x00')
    let numberLength ← utilStrlen revBuffer bufferLength
    let (newLength, revBuffer) ← utilTrim revBuffer numberLength
    utilReverseString revBuffer newLength buffer

def hexChar (rem : ℕ) : Char :=
  if rem < 10 then Char.ofNat ('0'.toNat + rem) else Char.ofNat ('A'.toNat + (rem - 10))

def utilIToH (i : UInt32) (buffer : List Char) (bufferLength : ℕ) : Exec (List Char) :=
  if i = 0 then do
    let buffer ← store buffer 0 '0'
    store buffer 1 '\x00'
  else do
    let (length, rem) ← storeDigits 16 id (i.toNat + 1) i.toNat 0 (List.replicate bufferLength 0)
    copyBack hexChar rem length 0 buffer

/-- The case of a text is changed up to its end. -/
def utilToCase (low high : Char) (change : Char → Char) : List Char → Exec (List Char)
  | [] => .error .badPointer
  | v :: string =>
    if v = '\x00' then .ok (v :: string)
    else do
      let string ← utilToCase low high change string
      .ok ((if low ≤ v ∧ v ≤ high then change v else v) :: string)

def utilToUpper : List Char → Exec (List Char) :=
  utilToCase 'a' 'z' fun v => Char.ofNat (v.toNat - 32)

def utilToLower : List Char → Exec (List Char) :=
  utilToCase 'A' 'Z' fun v => Char.ofNat (v.toNat + 32)

/-! ## Printing -/

def maxPadding : ℕ := 256
def maxIntegerLength : ℕ := 10
def maxHexIntegerLength : ℕ := 8

def printOutPrintString (padding : ℕ) (string : List Char) : Exec (List Char) := do
  let size ← utilStrlen string maxPadding
  let text ← textOf '\x00' string
  .ok (List.replicate (padding - size) '0' ++ text)

def printOutPrintSigned (padding : ℕ) (i : Int32) : Exec (List Char) := do
  let number ← utilIToA i (List.replicate (maxIntegerLength + 1) '\x00') maxIntegerLength
  printOutPrintString padding number

def printOutPrintHex (padding : ℕ) (i : UInt32) (upperCase : Bool) : Exec (List Char) := do
  let hexNumber ← utilIToH i (List.replicate (maxHexIntegerLength + 1) '\x00') maxHexIntegerLength
  let hexNumber ← if upperCase then utilToUpper hexNumber else utilToLower hexNumber
  printOutPrintString padding hexNumber

section Decimal

variable {b n : ℕ} {i : Int32} {bufferLength : ℕ} {buffer : List Char}

theorem toDigits_eq_digits (hb : 1 < b) (hn : 0 < n) :
    Nat.toDigits b n = ((b.digits n).map Nat.digitChar).reverse := by
  induction n using Nat.strong_induction_on with
  | _ n ih =>
    rw [Nat.digits_def' hb hn, List.map_cons, List.reverse_cons]
    by_cases hlt : n < b
    · rw [Nat.toDigits_of_lt_base hlt, Nat.div_eq_of_lt hlt, Nat.mod_eq_of_lt hlt, Nat.digits_zero]
      rfl
    have hle : b ≤ n := not_lt.mp hlt
    rw [Nat.toDigits_of_base_le hb hle,
      ih (n / b) (Nat.div_lt_self hn hb) (Nat.div_pos hle (by omega))]

theorem decimalChar_eq {d : ℕ} (hd : d < 10) : decimalChar d = d.digitChar := by
  interval_cases d <;> rfl

/-- What is stored for a number, with the lowest digit first. -/
def revNumber (isNeg : Bool) (n : ℕ) : List Char :=
  (Nat.digits 10 n).map decimalChar ++ if isNeg then ['-'] else []

theorem reverse_revNumber (isNeg : Bool) (hn : 0 < n) :
    (revNumber isNeg n).reverse = (if isNeg then ['-'] else []) ++ Nat.toDigits 10 n := by
  have hdigits : (Nat.digits 10 n).map decimalChar = (Nat.digits 10 n).map Nat.digitChar :=
    List.map_congr_left fun d hd => decimalChar_eq (Nat.digits_lt_base (by decide) hd)
  rw [revNumber, toDigits_eq_digits (by decide) hn, hdigits, List.reverse_append]
  cases isNeg <;> rfl

theorem zero_notMem_revNumber (isNeg : Bool) (n : ℕ) : '\x00' ∉ revNumber isNeg n := by
  intro hmem
  rcases List.mem_append.mp hmem with hmem | hmem
  · obtain ⟨d, hd, hzero⟩ := List.mem_map.mp hmem
    have hlt : d < 10 := Nat.digits_lt_base (by decide) hd
    interval_cases d <;> cases hzero
  · cases isNeg <;> simp at hmem

theorem exists_last_revNumber {isNeg : Bool} (h : isNeg = false → 0 < n) :
    ∃ text c, revNumber isNeg n = text ++ [c] ∧ c ≠ '0' := by
  cases isNeg with
  | true => exact ⟨_, '-', rfl, by decide⟩
  | false =>
    have hn : n ≠ 0 := (h rfl).ne'
    have hnil : Nat.digits 10 n ≠ [] := Nat.digits_ne_nil_iff_ne_zero.mpr hn
    have hlt := Nat.digits_lt_base (by decide) (List.getLast_mem hnil)
    have hlast := Nat.getLast_digit_ne_zero 10 hn
    refine ⟨(Nat.digits 10 n).dropLast.map decimalChar,
      decimalChar ((Nat.digits 10 n).getLast hnil), ?_, ?_⟩
    · rw [← List.map_singleton, ← List.map_append, List.dropLast_append_getLast hnil]
      exact List.append_nil _
    generalize (Nat.digits 10 n).getLast hnil = d at *
    interval_cases d <;> simp_all [decimalChar]

theorem storeNumber_eq (isNeg : Bool) (n : ℕ) (cells : List Char) :
    storeNumber isNeg n cells =
      if (revNumber isNeg n).length ≤ cells.length then
        .ok (revNumber isNeg n ++ cells.drop (revNumber isNeg n).length)
      else .error .badPointer := by
  have hlength : (revNumber isNeg n).length =
      ((Nat.digits 10 n).map decimalChar).length + isNeg.toNat := by
    cases isNeg <;> simp [revNumber]
  rw [storeNumber, storeDigits_start (by decide), ← List.length_map decimalChar, hlength, revNumber]
  generalize (Nat.digits 10 n).map decimalChar = digits
  by_cases hroom : digits.length ≤ cells.length
  · obtain ⟨done, rest, rfl, hdone⟩ : ∃ done rest, cells = done ++ rest ∧
        done.length = digits.length :=
      ⟨_, _, (List.take_append_drop digits.length cells).symm, by simp [hroom]⟩
    rw [if_pos hroom, ok_bind, ← hdone, List.drop_left]
    cases isNeg with
    | false => simp
    | true =>
      cases rest with
      | nil => simp [hdone, store_full]
      | cons c rest => simp [hdone, store_append, List.drop_append]
  rw [if_neg hroom, if_neg (by omega)]
  rfl

theorem utilTrim_eq {text rest : List Char} {c : Char} (hc : c ≠ '0') :
    utilTrim (text ++ [c] ++ rest) (text ++ [c]).length =
      .ok ((text ++ [c]).length, text ++ [c] ++ rest) := by
  have hload : (text ++ [c] ++ rest)[text.length]? = some c := by simp
  rw [List.length_append, List.length_singleton, utilTrim, load_eq hload, ok_bind, if_neg hc]

theorem utilIToA_eq (hi : i ≠ 0) {n : ℕ}
    (hn : n = (if i < 0 then i * -1 else i).toNatClampNeg)
    (hbuffer : (revNumber (i < 0) n).length ≤ buffer.length) :
    utilIToA i buffer bufferLength =
      if (revNumber (i < 0) n).length < bufferLength then
        .ok ((revNumber (i < 0) n).reverse ++ buffer.drop (revNumber (i < 0) n).length)
      else .error .badPointer := by
  have hpos : decide (i < 0) = false → 0 < n := by
    intro hneg
    have hge : ¬ i < 0 := of_decide_eq_false hneg
    rw [hn, if_neg hge, Int32.toNatClampNeg]
    have hzero : i.toInt ≠ (0 : Int32).toInt := fun h => hi (Int32.toInt_inj.mp h)
    rw [Int32.lt_iff_toInt_lt] at hge
    have : (0 : Int32).toInt = 0 := rfl
    omega
  have hnul := zero_notMem_revNumber (i < 0) n
  obtain ⟨text, c, hlast, hc⟩ := exists_last_revNumber hpos
  simp only [utilIToA, if_neg hi, decide_eq_true_eq, ← hn, storeNumber_eq, List.length_replicate]
  rw [hlast] at hnul hbuffer ⊢
  rcases lt_trichotomy (text ++ [c]).length bufferLength with hlt | heq | hgt
  · obtain ⟨m, rfl⟩ := Nat.exists_eq_add_of_lt hlt
    have hcells : (List.replicate ((text ++ [c]).length + m + 1) '\x00').drop
        (text ++ [c]).length = '\x00' :: List.replicate m '\x00' := by
      rw [List.drop_replicate, Nat.add_assoc, Nat.add_sub_cancel_left, List.replicate_succ]
    rw [if_pos hlt.le, ok_bind, hcells, utilStrlen, strlen_text hnul (by omega), ok_bind,
      Nat.zero_add, utilTrim_eq hc, ok_bind, if_pos hlt]
    simpa only [utilReverseString, List.map_id] using copyBack_start (f := id) hbuffer
  · rw [if_pos heq.le, if_neg heq.not_lt, ok_bind, heq, List.drop_replicate, Nat.sub_self,
      List.replicate_zero, List.append_nil, utilStrlen, strlen_full hnul (by omega)]
    rfl
  rw [if_neg (by omega), if_neg (by omega)]
  rfl

theorem printOutPrintString_text {text rest : List Char} (hnul : '\x00' ∉ text)
    (hlength : text.length ≤ maxPadding) (padding : ℕ) :
    printOutPrintString padding (text ++ '\x00' :: rest) =
      .ok (List.replicate (padding - text.length) '0' ++ text) := by
  rw [printOutPrintString, utilStrlen, strlen_text hnul (by omega), ok_bind, textOf_text hnul,
    ok_bind, Nat.zero_add]

theorem toList_repr_eq (z : ℤ) :
    z.repr.toList = (if z < 0 then ['-'] else []) ++ Nat.toDigits 10 z.natAbs := by
  cases z with
  | ofNat m => simp [Int.repr]
  | negSucc m => simp [Int.repr, Int.negSucc_lt_zero]

theorem toNatClampNeg_abs (hmin : i.toInt ≠ -2 ^ 31) :
    (if i < 0 then i * -1 else i).toNatClampNeg = i.toInt.natAbs := by
  have hone : (-1 : Int32).toInt = -1 := rfl
  have hlow := Int32.le_toInt i
  simp only [Int32.lt_iff_toInt_lt, Int32.toInt_zero]
  split
  · rw [Int32.toNatClampNeg, Int32.toInt_mul, hone, Int.bmod_eq_of_le (by omega) (by omega)]
    omega
  rw [Int32.toNatClampNeg]
  omega

theorem length_repr_le_iff {z : ℤ} {k : ℕ} (hk : 0 < k) :
    z.repr.toList.length ≤ k + 1 ↔ -(10 ^ k : ℕ) < z ∧ z < (10 ^ (k + 1) : ℕ) := by
  rw [toList_repr_eq, List.length_append]
  split
  · rw [List.length_singleton, Nat.add_comm, Nat.add_le_add_iff_right,
      Nat.length_toDigits_le_iff (by decide) hk]
    omega
  rw [List.length_nil, Nat.zero_add, Nat.length_toDigits_le_iff (by decide) (by omega)]
  omega

theorem utilIToA_repr (hi : i ≠ 0) (hmin : i.toInt ≠ -2 ^ 31) :
    utilIToA i (List.replicate (maxIntegerLength + 1) '\x00') maxIntegerLength =
      if i.toInt.repr.toList.length < maxIntegerLength then
        .ok (i.toInt.repr.toList ++
          '\x00' :: List.replicate (maxIntegerLength - i.toInt.repr.toList.length) '\x00')
      else .error .badPointer := by
  have hzero : i.toInt ≠ (0 : Int32).toInt := fun h => hi (Int32.toInt_inj.mp h)
  have hnumber : (revNumber (i < 0) i.toInt.natAbs).reverse = i.toInt.repr.toList := by
    rw [reverse_revNumber _ (Int.natAbs_pos.mpr hzero), toList_repr_eq]
    simp only [decide_eq_true_eq, Int32.lt_iff_toInt_lt, Int32.toInt_zero]
  have hlength : i.toInt.repr.toList.length ≤ 10 + 1 := by
    have hlow := Int32.le_toInt i
    have hhigh := Int32.toInt_lt i
    exact (length_repr_le_iff (by decide)).mpr (by omega)
  rw [← hnumber, List.length_reverse] at hlength ⊢
  rw [utilIToA_eq hi (toNatClampNeg_abs hmin).symm (by rwa [List.length_replicate])]
  split
  next hlt => rw [List.drop_replicate, Nat.sub_add_comm hlt.le, List.replicate_succ]
  · rfl

theorem zero_notMem_repr (z : ℤ) : '\x00' ∉ z.repr.toList := by
  rw [toList_repr_eq]
  intro hmem
  rcases List.mem_append.mp hmem with hmem | hmem
  · split at hmem <;> simp at hmem
  · exact absurd (Nat.isDigit_of_mem_toDigits (by decide) (by decide) hmem) (by decide)

theorem printOutPrintSigned_iff (i : Int32) :
    printOutPrintSigned 0 i = .ok i.toInt.repr.toList ↔
      -100000000 < i.toInt ∧ i.toInt < 1000000000 := by
  by_cases hzero : i = 0
  · subst hzero
    exact iff_of_true rfl (by decide)
  by_cases hmin : i.toInt = -2 ^ 31
  · obtain rfl : i = -2147483648 := Int32.toInt_inj.mp hmin
    refine iff_of_false ?_ (by decide)
    decide
  have hfits : i.toInt.repr.toList.length < maxIntegerLength ↔ _ :=
    Nat.lt_succ_iff.trans (length_repr_le_iff (by decide : 0 < 8))
  rw [printOutPrintSigned, utilIToA_repr hzero hmin]
  split
  next hlt =>
    rw [ok_bind, printOutPrintString_text (zero_notMem_repr _) (hlt.le.trans (by decide)),
      Nat.zero_sub, List.replicate_zero, List.nil_append]
    exact iff_of_true rfl (by simpa using hfits.mp hlt)
  next hlt => exact iff_of_false nofun fun h => hlt (hfits.mpr (by simpa using h))

end Decimal

section Hex

variable {b n : ℕ} {i : UInt32} {c : Char} {text rest : List Char}

theorem exists_digit_of_mem_toDigits (hb : 1 < b) (hc : c ∈ Nat.toDigits b n) :
    ∃ d < b, c = d.digitChar := by
  rcases Nat.eq_zero_or_pos n with rfl | hn
  · rw [Nat.toDigits_zero, List.mem_singleton] at hc
    exact ⟨0, by omega, hc⟩
  rw [toDigits_eq_digits hb hn, List.mem_reverse, List.mem_map] at hc
  obtain ⟨d, hd, rfl⟩ := hc
  exact ⟨d, Nat.digits_lt_base hb hd, rfl⟩

def hexNumeral (upperCase : Bool) (n : ℕ) : List Char :=
  (Nat.toDigits 16 n).map fun c => if upperCase then c.toUpper else c

theorem utilIToH_eq (i : UInt32) : ∃ rest,
    utilIToH i (List.replicate (maxHexIntegerLength + 1) '\x00') maxHexIntegerLength =
      .ok (hexNumeral true i.toNat ++ '\x00' :: rest) := by
  by_cases hi : i = 0
  · subst hi
    exact ⟨_, rfl⟩
  have hpos : 0 < i.toNat := by
    rw [Nat.pos_iff_ne_zero]
    exact fun h => hi (UInt32.toNat_inj.mp h)
  have hlength : (Nat.digits 16 i.toNat).length ≤ maxHexIntegerLength :=
    (Nat.digits_length_le_iff (by decide) _).mpr (UInt32.toNat_lt i)
  have hdigits : (Nat.digits 16 i.toNat).map hexChar =
      (Nat.digits 16 i.toNat).map fun d => d.digitChar.toUpper := by
    refine List.map_congr_left fun d hd => ?_
    have hlt : d < 16 := Nat.digits_lt_base (by decide) hd
    interval_cases d <;> rfl
  have hnumeral : ((Nat.digits 16 i.toNat).map hexChar).reverse = hexNumeral true i.toNat := by
    rw [hdigits, hexNumeral, toDigits_eq_digits (by decide) hpos, List.map_reverse, List.map_map]
    rfl
  rw [utilIToH, if_neg hi, storeDigits_start (by decide), if_pos (by simpa using hlength), ok_bind,
    List.map_id]
  dsimp only
  rw [copyBack_start (by simp; omega), hnumeral, List.drop_replicate, Nat.sub_add_comm hlength,
    List.replicate_succ]
  exact ⟨_, rfl⟩

theorem utilToCase_text {low high : Char} {change : Char → Char} (hnul : '\x00' ∉ text) :
    utilToCase low high change (text ++ '\x00' :: rest) =
      .ok (text.map (fun v => if low ≤ v ∧ v ≤ high then change v else v) ++ '\x00' :: rest) := by
  induction text with
  | nil => rfl
  | cons v text ih =>
    obtain ⟨hne, hnul⟩ := List.ne_and_not_mem_of_not_mem_cons hnul
    rw [List.cons_append, utilToCase, if_neg hne.symm, ih hnul]
    rfl

theorem zero_notMem_hexNumeral (upperCase : Bool) (n : ℕ) : '\x00' ∉ hexNumeral upperCase n := by
  intro hmem
  obtain ⟨c, hc, hzero⟩ := List.mem_map.mp hmem
  obtain ⟨d, hd, rfl⟩ := exists_digit_of_mem_toDigits (by decide) hc
  interval_cases d <;> cases upperCase <;> cases hzero

theorem map_hexNumeral {f : Char → Char} (upperCase : Bool) (hf : ∀ d < 16,
    f d.digitChar.toUpper = if upperCase then d.digitChar.toUpper else d.digitChar) (n : ℕ) :
    (hexNumeral true n).map f = hexNumeral upperCase n := by
  rw [hexNumeral, List.map_map]
  refine List.map_congr_left fun c hc => ?_
  obtain ⟨d, hd, rfl⟩ := exists_digit_of_mem_toDigits (by decide) hc
  exact hf d hd

theorem printOutPrintHex_eq (padding : ℕ) (i : UInt32) (upperCase : Bool) :
    printOutPrintHex padding i upperCase =
      .ok (List.replicate (padding - (hexNumeral upperCase i.toNat).length) '0' ++
        hexNumeral upperCase i.toNat) := by
  obtain ⟨rest, hnumber⟩ := utilIToH_eq i
  have hnul := zero_notMem_hexNumeral true i.toNat
  have hupper : utilToUpper (hexNumeral true i.toNat ++ '\x00' :: rest) =
      .ok (hexNumeral true i.toNat ++ '\x00' :: rest) := by
    rw [utilToUpper, utilToCase_text hnul, map_hexNumeral true (by decide)]
  have hlower : utilToLower (hexNumeral true i.toNat ++ '\x00' :: rest) =
      .ok (hexNumeral false i.toNat ++ '\x00' :: rest) := by
    rw [utilToLower, utilToCase_text hnul, map_hexNumeral false (by decide)]
  have hlength : (hexNumeral upperCase i.toNat).length ≤ maxPadding := by
    rw [hexNumeral, List.length_map]
    exact ((Nat.length_toDigits_le_iff (k := 8) (by decide) (by decide)).mpr
      (UInt32.toNat_lt i)).trans (by decide)
  rw [← printOutPrintString_text (zero_notMem_hexNumeral _ _) hlength padding, printOutPrintHex,
    hnumber, ok_bind]
  cases upperCase with
  | true => rw [if_pos rfl, hupper, ok_bind]
  | false => rw [if_neg (by decide), hlower, ok_bind]

/-- Numbers of at most nine characters are printed as their numerals, and so are all hexadecimal
ones; the buffers are not left. -/
theorem numbers_printed_iff (i : Int32) (padding : ℕ) (j : UInt32) (upperCase : Bool) :
    (printOutPrintSigned 0 i = .ok i.toInt.repr.toList ↔
      -100000000 < i.toInt ∧ i.toInt < 1000000000) ∧
    printOutPrintHex padding j upperCase =
      .ok (List.replicate (padding - (hexNumeral upperCase j.toNat).length) '0' ++
        hexNumeral upperCase j.toNat) :=
  ⟨printOutPrintSigned_iff i, printOutPrintHex_eq padding j upperCase⟩

/-- The most negative number loses its digits, and a sign behind ten digits is written beyond the
buffer. -/
theorem numbers_not_printed :
    printOutPrintSigned 0 (-2147483648) = .ok ['-'] ∧
      utilIToA (-1000000000) (List.replicate 11 '\x00') maxIntegerLength = .error .badPointer ∧
      utilIToA 1000000000 (List.replicate 11 '\x00') maxIntegerLength = .error .badPointer :=
  ⟨rfl, rfl, rfl⟩

end Hex

/-! ## Reading a number -/

/-- The loop of `util_a_to_i`. Its counter has 8 bits, so it does not end if it has not ended after
256 rounds. -/
def aToILoop (buffer : List Char) (len : ℕ) : (fuel : ℕ) → (p : UInt8) → UInt32 → Exec UInt32
  | 0, _, _ => .error .diverges
  | fuel + 1, p, value =>
    if p.toNat < len then do
      let pos := UInt8.ofNat (len - p.toNat - 1)
      let c ← load buffer pos.toNat
      let val := UInt8.ofNat c.toNat - 48
      let weight := if p.toNat = 0 then 1 else p.toNat * 10
      aToILoop buffer len fuel (p + 1)
        (if val ≤ 9 then value + UInt32.ofNat (val.toNat * weight) else value)
    else
      .ok value

def utilAToI (buffer : List Char) (bufferLength : ℕ) : Exec UInt32 := do
  let len ← utilStrlen buffer bufferLength
  aToILoop buffer len 257 0 0

section Reading

variable {digits rest : List Char} {len fuel p k : ℕ}

/-- What is added up for the digits from the place `p` on, with the lowest one first. -/
def weighed : (p : ℕ) → List ℕ → ℕ
  | _, [] => 0
  | p, d :: ds => d * (if p = 0 then 1 else p * 10) + weighed (p + 1) ds

theorem weighed_cases (hp : 2 ≤ p) (ds : List ℕ) :
    (weighed p ds = 0 ∧ Nat.ofDigits 10 ds = 0) ∨ weighed p ds < 10 ^ p * Nat.ofDigits 10 ds := by
  induction ds generalizing p with
  | nil => exact .inl ⟨rfl, rfl⟩
  | cons d ds ih =>
    have hweight : p * 10 < 10 ^ p := by
      obtain ⟨q, rfl⟩ := Nat.exists_eq_add_of_le' hp
      have hlt : q < 10 ^ q := Nat.lt_pow_self (by decide)
      rw [pow_succ, pow_succ]
      omega
    have hsplit : 10 ^ p * (d + 10 * Nat.ofDigits 10 ds) =
        d * 10 ^ p + 10 ^ (p + 1) * Nat.ofDigits 10 ds := by ring
    rw [weighed, if_neg (by omega), Nat.ofDigits_cons, hsplit]
    have hrest := ih (p := p + 1) (by omega)
    rcases Nat.eq_zero_or_pos d with rfl | hd
    · omega
    have hless : d * (p * 10) < d * 10 ^ p := Nat.mul_lt_mul_of_pos_left hweight hd
    rcases hrest with ⟨hzero, hzero'⟩ | hlt
    · rw [hzero, hzero']
      omega
    · omega

theorem weighed_cases_zero {ds : List ℕ} (hds : ∀ d ∈ ds, d < 10) :
    (weighed 0 ds = Nat.ofDigits 10 ds ∧ Nat.ofDigits 10 ds < 100) ∨
      (weighed 0 ds < Nat.ofDigits 10 ds ∧ 100 ≤ Nat.ofDigits 10 ds) := by
  rcases ds with - | ⟨a, - | ⟨b, ds⟩⟩
  · exact .inl ⟨rfl, by decide⟩
  · have ha := hds a (by simp)
    simp only [weighed, if_true, Nat.ofDigits_singleton]
    omega
  have ha := hds a (by simp)
  have hb := hds b (by simp)
  have hrest := weighed_cases (le_refl 2) ds
  simp only [weighed, if_true, Nat.ofDigits_cons, Nat.zero_add, one_ne_zero, if_false]
  generalize Nat.ofDigits 10 ds = v at *
  simp only [Nat.reduceAdd]
  omega

def digitsOf (digits : List Char) : List ℕ := digits.reverse.map fun c => c.toNat - '0'.toNat

theorem ofDigits_digitsOf (digits : List Char) :
    Nat.ofDigits 10 (digitsOf digits) = Nat.ofDigitChars 10 digits 0 := by
  induction digits using List.reverseRecOn with
  | nil => rfl
  | append_singleton digits c ih =>
    rw [Nat.ofDigitChars_append, Nat.ofDigitChars_cons, Nat.ofDigitChars_nil, ← ih, digitsOf,
      List.reverse_append]
    simp [digitsOf, Nat.ofDigits_cons, Nat.add_comm]

theorem toNat_sub_zero {c : Char} (hc : c.isDigit) :
    (UInt8.ofNat c.toNat - 48).toNat = c.toNat - '0'.toNat ∧ UInt8.ofNat c.toNat - 48 ≤ 9 := by
  have hrange : 48 ≤ c.toNat ∧ c.toNat ≤ 57 := Char.isDigit_iff_toNat.mp hc
  have hzero : '0'.toNat = 48 := rfl
  have hbyte : (48 : UInt8).toNat = 48 := rfl
  have hsub : (UInt8.ofNat c.toNat - 48).toNat = c.toNat - '0'.toNat := by
    rw [UInt8.toNat_sub, UInt8.toNat_ofNat', hbyte]
    omega
  refine ⟨hsub, ?_⟩
  rw [UInt8.le_iff_toNat_le, hsub, show (9 : UInt8).toNat = 9 from rfl]
  omega

theorem aToILoop_eq (hdigits : ∀ c ∈ digits, c.isDigit) (hlength : digits.length ≤ 255)
    (hk : k ≤ digits.length) (hfuel : digits.length < k + fuel) (v : ℕ) :
    aToILoop (digits ++ rest) digits.length fuel (UInt8.ofNat k) (UInt32.ofNat v) =
      .ok (UInt32.ofNat (v + weighed k ((digitsOf digits).drop k))) := by
  induction fuel generalizing k v with
  | zero => omega
  | succ fuel ih =>
    have hp : (UInt8.ofNat k).toNat = k := by
      rw [UInt8.toNat_ofNat']
      omega
    rw [aToILoop, hp]
    by_cases hlt : k < digits.length
    · obtain ⟨j, hj⟩ : ∃ j, j = digits.length - k - 1 := ⟨_, rfl⟩
      have hin : j < digits.length := by omega
      have hpos : (UInt8.ofNat j).toNat = j := by
        rw [UInt8.toNat_ofNat']
        omega
      have hload : (digits ++ rest)[j]? = some digits[j] := by
        rw [List.getElem?_append_left hin, List.getElem?_eq_getElem hin]
      obtain ⟨hval, hle⟩ := toNat_sub_zero (hdigits _ (List.getElem_mem hin))
      have hdrop : (digitsOf digits).drop k =
          (digits[j].toNat - '0'.toNat) :: (digitsOf digits).drop (k + 1) := by
        rw [List.drop_eq_getElem_cons (by simpa [digitsOf] using hlt)]
        simp [digitsOf, hj, Nat.sub_sub, Nat.add_comm]
      rw [if_pos hlt, ← hj]
      dsimp only
      rw [hpos, load_eq hload, ok_bind, if_pos hle, hval, ← UInt32.ofNat_add]
      have hnext : UInt8.ofNat k + 1 = UInt8.ofNat (k + 1) := (UInt8.ofNat_add k 1).symm
      rw [hnext, ih (by omega) (by omega), hdrop, weighed, Nat.add_assoc]
    obtain rfl : k = digits.length := by omega
    rw [if_neg hlt, List.drop_of_length_le (by simp [digitsOf]), weighed, Nat.add_zero]

theorem aToILoop_ne_ok {buffer : List Char} (hlen : 256 ≤ len) (p : UInt8) (value result : UInt32) :
    aToILoop buffer len fuel p value ≠ .ok result := by
  induction fuel generalizing p value with
  | zero => nofun
  | succ fuel ih =>
    have hp := p.toNat_lt
    rw [aToILoop, if_pos (by omega)]
    intro h
    obtain ⟨c, -, h⟩ := of_bind h
    exact ih _ _ h

/-- A number is read as it is denoted if it has at most two digits, leading zeros apart, and
at most 255 with them. -/
theorem utilAToI_iff {bufferLength : ℕ} (hdigits : ∀ c ∈ digits, c.isDigit)
    (hvalue : Nat.ofDigitChars 10 digits 0 < 2 ^ 32) (hbuffer : digits.length ≤ bufferLength) :
    utilAToI (digits ++ '\x00' :: rest) bufferLength =
        .ok (UInt32.ofNat (Nat.ofDigitChars 10 digits 0)) ↔
      digits.length ≤ 255 ∧ Nat.ofDigitChars 10 digits 0 < 100 := by
  have hnul : '\x00' ∉ digits := fun hmem => absurd (hdigits _ hmem) (by decide)
  rw [utilAToI, utilStrlen, strlen_text hnul (by omega), ok_bind, Nat.zero_add]
  by_cases hlength : digits.length ≤ 255
  · have hds : ∀ d ∈ digitsOf digits, d < 10 := by
      intro d hd
      obtain ⟨c, hc, rfl⟩ := List.mem_map.mp hd
      obtain ⟨hval, hle⟩ := toNat_sub_zero (hdigits c (List.mem_reverse.mp hc))
      rw [UInt8.le_iff_toNat_le, hval] at hle
      exact Nat.lt_succ_of_le hle
    have hcases := weighed_cases_zero hds
    have hloop : aToILoop (digits ++ '\x00' :: rest) digits.length 257 (UInt8.ofNat 0)
        (UInt32.ofNat 0) = _ := aToILoop_eq hdigits hlength (Nat.zero_le _) (by omega) 0
    rw [List.drop_zero, Nat.zero_add] at hloop
    rw [ofDigits_digitsOf] at hcases
    have hsize : UInt32.size = 2 ^ 32 := rfl
    change aToILoop _ _ _ (UInt8.ofNat 0) (UInt32.ofNat 0) = _ ↔ _
    rw [hloop, Except.ok.injEq, ← UInt32.toNat_inj, UInt32.toNat_ofNat_of_lt' (by omega),
      UInt32.toNat_ofNat_of_lt' (by omega)]
    omega
  · exact iff_of_false (aToILoop_ne_ok (by omega) _ _ _) (fun h => hlength h.1)

/-- Parser and printer agree on numbers of at most two digits. -/
theorem utilAToI_reads_iff (digits rest : List Char) (bufferLength : ℕ) (i : Int32) :
    (digits ≠ [] → (∀ c ∈ digits, c.isDigit) → Nat.ofDigitChars 10 digits 0 < 2 ^ 32 →
      digits.length ≤ bufferLength →
      (utilAToI (digits ++ '\x00' :: rest) bufferLength =
          .ok (UInt32.ofNat (Nat.ofDigitChars 10 digits 0)) ↔
        digits.length ≤ 255 ∧ Nat.ofDigitChars 10 digits 0 < 100)) ∧
    (0 ≤ i.toInt → i.toInt < 1000000000 →
      ((do
        let buffer ← utilIToA i (List.replicate (maxIntegerLength + 1) '\x00') maxIntegerLength
        utilAToI buffer maxIntegerLength) = .ok (UInt32.ofNat i.toInt.toNat) ↔
        i.toInt < 100)) := by
  refine ⟨fun _ hdigits hvalue hbuffer => utilAToI_iff hdigits hvalue hbuffer,
    fun hnonneg hlt => ?_⟩
  by_cases hzero : i = 0
  · subst hzero
    exact iff_of_true rfl (by decide)
  have hvalue : Nat.ofDigitChars 10 i.toInt.repr.toList 0 = i.toInt.toNat := by
    rw [toList_repr_eq, if_neg (by omega), List.nil_append, Nat.ofDigitChars_ten_toDigits]
    omega
  have hdigits : ∀ c ∈ i.toInt.repr.toList, c.isDigit := by
    rw [toList_repr_eq, if_neg (by omega)]
    exact fun c hc => Nat.isDigit_of_mem_toDigits (by decide) (by decide) hc
  have hlength : i.toInt.repr.toList.length < maxIntegerLength :=
    Nat.lt_succ_of_le ((length_repr_le_iff (by decide : 0 < 8)).mpr ⟨by omega, hlt⟩)
  rw [utilIToA_repr hzero (by omega), if_pos hlength, ok_bind, ← hvalue,
    utilAToI_iff hdigits (by omega) hlength.le, hvalue]
  have hshort : i.toInt.repr.toList.length ≤ 255 := hlength.le.trans (by decide)
  omega

/-- Three digits. -/
theorem utilAToI_hundred : Nat.ofDigitChars 10 ['1', '0', '0'] 0 = 100 ∧
    utilAToI (['1', '0', '0'] ++ ['\x00']) 3 = .ok 20 := ⟨rfl, rfl⟩

end Reading

end Tinker
