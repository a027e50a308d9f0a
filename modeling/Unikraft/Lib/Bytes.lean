import Mathlib.Data.Nat.Bitwise

/-!
# A memory of bytes with 64-bit addresses

Addresses wrap at `2 ^ 64`. A word of eight bytes is stored with the lowest byte first. A store is read back
(`load64_store64`), and what is not written stays (`store64_other`, `copy_other`). `alignDown` and `alignUp` round an
address to a power of two, the second one modulo `2 ^ 64`.
-/

namespace Bytes

open BitVec

def alignDown (x a : BitVec 64) : BitVec 64 := x &&& ~~~(a - 1)

def alignUp (x a : BitVec 64) : BitVec 64 := (x + a - 1) &&& ~~~(a - 1)

private theorem and_compl_eq {x k : Nat} (hx : x < 2 ^ 64) (hk : k < 64) :
    x &&& (2 ^ 64 - 1 - (2 ^ k - 1)) = x / 2 ^ k * 2 ^ k := by
  have hlt : 2 ^ k - 1 < 2 ^ 64 := by
    have := Nat.pow_lt_pow_right (a := 2) (by omega) hk
    omega
  rw [show 2 ^ 64 - 1 - (2 ^ k - 1) = 2 ^ 64 - (2 ^ k - 1 + 1) by omega]
  refine Nat.eq_of_testBit_eq fun i => ?_
  rw [Nat.testBit_and, Nat.testBit_two_pow_sub_succ hlt, Nat.testBit_two_pow_sub_one, Nat.testBit_mul_two_pow,
    Nat.testBit_div_two_pow]
  by_cases hik : k ≤ i
  · rw [show i - k + k = i by omega]
    by_cases hi : i < 64
    · simp [hik, hi, Nat.not_lt.2 hik]
    · have : x.testBit i = false :=
        Nat.testBit_lt_two_pow (Nat.lt_of_lt_of_le hx (Nat.pow_le_pow_right (by omega) (Nat.not_lt.1 hi)))
      simp [this]
  · simp [hik, Nat.not_le.1 hik]

variable {a : BitVec 64}

/-- For a power of two, the mask clears the bits below it. -/
theorem alignDown_toNat (x : BitVec 64) {k : Nat} (hk : k < 64) (ha : a.toNat = 2 ^ k) :
    (alignDown x a).toNat = x.toNat / 2 ^ k * 2 ^ k := by
  have hpos : 0 < 2 ^ k := Nat.two_pow_pos k
  have hm : (a - 1).toNat = 2 ^ k - 1 := by
    rw [← ha] at hpos ⊢
    bv_omega
  unfold alignDown
  rw [toNat_and, toNat_not, hm, and_compl_eq x.isLt hk]

theorem alignUp_eq (x a : BitVec 64) : alignUp x a = alignDown (x + a - 1) a := rfl

/-- For a power of two, and unless it wraps, the next multiple. -/
theorem alignUp_toNat (x : BitVec 64) {k : Nat} (hk : k < 64) (ha : a.toNat = 2 ^ k)
    (h : x.toNat + (2 ^ k - 1) < 2 ^ 64) : (alignUp x a).toNat = (x.toNat + (2 ^ k - 1)) / 2 ^ k * 2 ^ k := by
  have hpos : 0 < 2 ^ k := Nat.two_pow_pos k
  have hm : (x + a - 1).toNat = x.toNat + (2 ^ k - 1) := by
    rw [← ha] at hpos h ⊢
    bv_omega
  rw [alignUp_eq, alignDown_toNat _ hk ha, hm]

abbrev Memory := BitVec 64 → BitVec 8

/-- The byte at `a + i` is the `i`-th byte of the word. -/
def load64 (m : Memory) (a : BitVec 64) : BitVec 64 :=
  BitVec.ofNat 64 ((m a).toNat + 256 *
      ((m (a + 1#64)).toNat + 256 * ((m (a + 2#64)).toNat + 256 * ((m (a + 3#64)).toNat +
    256 * ((m (a + 4#64)).toNat + 256 *
        ((m (a + 5#64)).toNat + 256 * ((m (a + 6#64)).toNat + 256 * (m (a + 7#64)).toNat)))))))

def store64 (m : Memory) (a v : BitVec 64) : Memory := fun x =>
  if (x - a).toNat < 8 then BitVec.ofNat 8 (v.toNat / 256 ^ (x - a).toNat) else m x

def copy (m : Memory) (dst src n : BitVec 64) : Memory := fun x =>
  if (x - dst).toNat < n.toNat then m (src + (x - dst)) else m x

section
variable {m m' : Memory} {a b v x : BitVec 64}

theorem store64_other (h : ¬ (x - a).toNat < 8) : store64 m a v x = m x := if_neg h

theorem copy_other {dst src n : BitVec 64} (h : ¬ (x - dst).toNat < n.toNat) : copy m dst src n x = m x := if_neg h

theorem copy_same {dst src n i : BitVec 64} (h : i.toNat < n.toNat) : copy m dst src n (dst + i) = m (src + i) := by
  have hi : dst + i - dst = i := by bv_omega
  unfold copy
  rw [hi, if_pos h]

theorem load64_congr (h : ∀ i : BitVec 64, i.toNat < 8 → m (a + i) = m' (a + i)) : load64 m a = load64 m' a := by
  have h0 := h 0#64 (by decide)
  rw [BitVec.add_zero] at h0
  unfold load64
  rw [h0, h 1#64 (by decide), h 2#64 (by decide), h 3#64 (by decide), h 4#64 (by decide), h 5#64 (by decide),
    h 6#64 (by decide), h 7#64 (by decide)]

private theorem store64_byte (i : Nat) (hi : i < 8) :
    (store64 m a v (a + BitVec.ofNat 64 i)).toNat = v.toNat / 256 ^ i % 256 := by
  have hs : (a + BitVec.ofNat 64 i - a).toNat = i := by bv_omega
  unfold store64
  rw [hs, if_pos hi, toNat_ofNat]

/-- A word that was stored is loaded again. -/
theorem load64_store64 : load64 (store64 m a v) a = v := by
  have h0 := store64_byte (m := m) (a := a) (v := v) 0 (by decide)
  rw [BitVec.add_zero] at h0
  unfold load64
  rw [h0, store64_byte 1 (by decide), store64_byte 2 (by decide), store64_byte 3 (by decide),
    store64_byte 4 (by decide), store64_byte 5 (by decide), store64_byte 6 (by decide), store64_byte 7 (by decide)]
  apply eq_of_toNat_eq
  rw [toNat_ofNat]
  simp only [Nat.reducePow] at *
  omega

/-- A store changes no word that is apart from it. -/
theorem load64_store64_other (h : ∀ i : BitVec 64, i.toNat < 8 → ¬ (b + i - a).toNat < 8) :
    load64 (store64 m a v) b = load64 m b :=
  load64_congr fun i hi => store64_other (h i hi)

end

end Bytes
