import Mathlib.Data.Nat.Bitwise
import Mathlib.Data.BitVec

/-!
# Fields of machine words

The fields of a word are cut out with masks and single bits. As numbers, a mask of high bits rounds
down, a mask of low bits takes a remainder, and a bit is the parity of a quotient; once a word is
written so, linear arithmetic decides what its fields are.

## Main results

* `toNat_and_highMask`, `toNat_and_lowMask` — masks as division and remainder
* `getLsbD_eq_decide` — a bit as a parity
-/

namespace Tinker.Lib

variable {w : ℕ}

theorem toNat_and_highMask (x : BitVec w) (k : ℕ) :
    (x &&& BitVec.allOnes w <<< k).toNat = x.toNat / 2 ^ k * 2 ^ k := by
  have hmask : x &&& BitVec.allOnes w <<< k = x >>> k <<< k := by
    ext i hi
    by_cases hk : i < k
    · simp [hk]
    · simp [hk, hi, Nat.add_sub_of_le (Nat.le_of_not_lt hk)]
  rw [hmask, BitVec.toNat_shiftLeft, BitVec.toNat_ushiftRight, Nat.shiftLeft_eq,
    Nat.shiftRight_eq_div_pow]
  exact Nat.mod_eq_of_lt ((Nat.div_mul_le_self _ _).trans_lt x.isLt)

theorem toNat_and_lowMask (x : BitVec w) {k : ℕ} (hk : k ≤ w) :
    (x &&& BitVec.ofNat w (2 ^ k - 1)).toNat = x.toNat % 2 ^ k := by
  have hlt : 2 ^ k - 1 < 2 ^ w :=
    (Nat.sub_lt (Nat.two_pow_pos k) Nat.one_pos).trans_le (Nat.pow_le_pow_right Nat.two_pos hk)
  rw [BitVec.toNat_and, BitVec.toNat_ofNat, Nat.mod_eq_of_lt hlt, Nat.and_two_pow_sub_one_eq_mod]

theorem getLsbD_eq_decide (x : BitVec w) (i : ℕ) :
    x.getLsbD i = decide (x.toNat / 2 ^ i % 2 = 1) := by
  rw [← BitVec.testBit_toNat, Nat.testBit_eq_decide_div_mod_eq]

end Tinker.Lib
