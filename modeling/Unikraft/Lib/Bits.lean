import Mathlib.Data.Nat.Bitwise

/-!
# The lowest bit of a word

The number of zero bits below the lowest bit that is set, which is 64 for the word 0.
-/

namespace Bits

def lowestSet (x : BitVec 64) : Nat := x.ctz.toNat

/-- The lowest bit that is set. -/
theorem lowestSet_spec {x : BitVec 64} (hx : x ≠ 0) :
    lowestSet x < 64 ∧ x.getLsbD (lowestSet x) = true ∧ ∀ k < lowestSet x, x.getLsbD k = false := by
  refine ⟨?_, BitVec.getLsbD_true_ctz_of_ne_zero hx, fun k hk => BitVec.getLsbD_false_of_lt_ctz hk⟩
  by_contra h
  have hbit : x.getLsbD (lowestSet x) = true := BitVec.getLsbD_true_ctz_of_ne_zero hx
  rw [BitVec.getLsbD_of_ge _ _ (Nat.not_lt.1 h)] at hbit
  cases hbit

theorem two_pow_lowestSet_dvd {n : Nat} (hn : n < 2 ^ 64) : 2 ^ lowestSet (BitVec.ofNat 64 n) ∣ n := by
  refine Nat.dvd_of_mod_eq_zero (Nat.eq_of_testBit_eq fun i => ?_)
  rw [Nat.testBit_mod_two_pow, Nat.zero_testBit]
  by_cases hi : i < lowestSet (BitVec.ofNat 64 n)
  · have hbit := BitVec.getLsbD_false_of_lt_ctz hi
    rw [BitVec.getLsbD, BitVec.toNat_ofNat, Nat.mod_eq_of_lt hn] at hbit
    rw [hbit, Bool.and_false]
  · rw [decide_eq_false hi, Bool.false_and]

end Bits
