import Mathlib.Tactic.Ring
import Unikraft.Lib.Runs

/-!
# The TSC clock

Each call of `tscclock_monotonic` adds the ticks since the last call, in whole nanoseconds, so that the rounding
errors add up. `tscclock_init` computes the frequency in 32 bits, and the factor does not fit in 32 bits for 1 GHz.
-/

namespace Unikraft.Plat

open Runs

structure Tscclock where
  timeBase : Nat := 0
  tscBase : Nat

/-- The frequency in Hz, from the one in kHz of the hypervisor leaf, or by calibration. -/
def tscFreq (eax calibrated : Nat) : Nat := if eax * 1000 % 2 ^ 32 = 0 then calibrated else eax * 1000 % 2 ^ 32

def tscMult (freq : Nat) : Nat := 10 ^ 9 * 2 ^ 32 / freq % 2 ^ 32

/-- A call at a time when the TSC is `tscNow`. -/
def tscclockMonotonic (tscMult : Nat) (c : Tscclock) (tscNow : Nat) : Tscclock :=
  let delta := (2 ^ 64 + tscNow - c.tscBase) % 2 ^ 64
  let delta := if (2 ^ 64 - 1) / 2 ≤ delta then 1 else delta
  ⟨(c.timeBase + delta * tscMult / 2 ^ 32) % 2 ^ 64, tscNow⟩

/-- The time between two calls is that of the ticks, with a relative error of `2 ^ -31` and `k` nanoseconds. -/
def Measures (freq k : Nat) (c c' : Tscclock) : Prop :=
  c.timeBase ≤ c'.timeBase ∧ 2 ^ 31 *
    ((freq * (c'.timeBase - c.timeBase) : Int) - 10 ^ 9 * (c'.tscBase - c.tscBase)).natAbs ≤
    10 ^ 9 * (c'.tscBase - c.tscBase) + 2 ^ 31 * (freq * k)

/-- The TSC does not go back, nor by half of its range forward, and if it has changed then by so much that the
nanosecond a call may lose and the error of the factor together are within the relative error. For frequencies with a
remainder of `2 * 10 ^ 9` or more the factor alone uses up the relative error, so that there only calls without a
change of the TSC are spaced. -/
def Spaced (freq : Nat) (c : Tscclock) (tscNow : Nat) : Prop :=
  c.tscBase ≤ tscNow ∧ tscNow < 2 ^ 64 ∧ tscNow - c.tscBase < (2 ^ 64 - 1) / 2 ∧
    (tscNow = c.tscBase ∨
      2 ^ 32 * freq + (tscNow - c.tscBase) * (10 ^ 9 * 2 ^ 32 % freq) ≤ (tscNow - c.tscBase) * (2 * 10 ^ 9))

/-- The clock is late, within the relative error. -/
structure Late (freq : Nat) (c c' : Tscclock) : Prop where
  tscBase : c.tscBase ≤ c'.tscBase
  timeBase : c.timeBase ≤ c'.timeBase
  late : freq * c'.timeBase + 10 ^ 9 * c.tscBase ≤ freq * c.timeBase + 10 ^ 9 * c'.tscBase
  close : 2 ^ 31 * (freq * c.timeBase) + (2 ^ 31 - 1) * (10 ^ 9 * c'.tscBase) ≤
    2 ^ 31 * (freq * c'.timeBase) + (2 ^ 31 - 1) * (10 ^ 9 * c.tscBase)

variable {freq : Nat} {c c' c'' : Tscclock}

private theorem Late.trans (h : Late freq c c') (h' : Late freq c' c'') : Late freq c c'' := by
  obtain ⟨h1, h2, h3, h4⟩ := h
  obtain ⟨h1', h2', h3', h4'⟩ := h'
  exact ⟨by omega, by omega, by omega, by omega⟩

private theorem Late.measures (h : Late freq c c') : Measures freq 0 c c' := by
  obtain ⟨h1, h2, h3, h4⟩ := h
  refine ⟨h2, ?_⟩
  rw [Int.mul_sub, ← Int.natCast_mul, ← Int.natCast_mul]
  omega

/-- What `delta` ticks add is less than their time by at most the error of the factor and a nanosecond. -/
private theorem freq_mul_add (h : 10 ^ 9 < freq) (delta : Nat) :
    freq * (delta * tscMult freq / 2 ^ 32) ≤ 10 ^ 9 * delta ∧
    2 ^ 32 * (10 ^ 9 * delta) ≤
      2 ^ 32 * (freq * (delta * tscMult freq / 2 ^ 32)) + delta * (10 ^ 9 * 2 ^ 32 % freq) + 2 ^ 32 * freq := by
  have hmult : tscMult freq = 10 ^ 9 * 2 ^ 32 / freq :=
    Nat.mod_eq_of_lt (Nat.div_lt_of_lt_mul (Nat.mul_lt_mul_of_pos_right h (by decide)))
  have hrest := Nat.mul_le_mul_left freq (Nat.mod_lt (delta * tscMult freq) (by decide : 0 < 2 ^ 32)).le
  have hsum : 2 ^ 32 * (freq * (delta * tscMult freq / 2 ^ 32)) + freq * (delta * tscMult freq % 2 ^ 32) +
      delta * (10 ^ 9 * 2 ^ 32 % freq) = 2 ^ 32 * (10 ^ 9 * delta) :=
    calc
      _ = freq * (2 ^ 32 * (delta * tscMult freq / 2 ^ 32) + delta * tscMult freq % 2 ^ 32) + delta *
        (10 ^ 9 * 2 ^ 32 % freq) := by ring
      _ = delta * (freq * (10 ^ 9 * 2 ^ 32 / freq) + 10 ^ 9 * 2 ^ 32 % freq) := by rw [Nat.div_add_mod, hmult]; ring
      _ = 2 ^ 32 * (10 ^ 9 * delta) := by rw [Nat.div_add_mod]; ring
  constructor <;> omega

/-- The time stays below the TSC, so that it does not wrap around. -/
theorem Late.step (h : 10 ^ 9 < freq) (hle : freq * c.timeBase ≤ 10 ^ 9 * c.tscBase) {tscNow : Nat}
    (hs : Spaced freq c tscNow) :
    Late freq c (tscclockMonotonic (tscMult freq) c tscNow) := by
  obtain ⟨hback, hlt, hfar, hgap⟩ := hs
  obtain ⟨delta, rfl⟩ := Nat.exists_eq_add_of_le hback
  have hdelta : (2 ^ 64 + (c.tscBase + delta) - c.tscBase) % 2 ^ 64 = delta := by omega
  obtain ⟨hlate, hclose⟩ := freq_mul_add h delta
  simp only [tscclockMonotonic, hdelta, if_neg (by omega : ¬(2 ^ 64 - 1) / 2 ≤ delta)]
  generalize delta * tscMult freq / 2 ^ 32 = nsec at hlate hclose ⊢
  have hadd := Nat.mul_add freq c.timeBase nsec
  have htime : c.timeBase + nsec < 2 ^ 64 := by
    by_contra hge
    have hmul := Nat.mul_le_mul h.le (Nat.not_lt.1 hge)
    omega
  rw [Nat.mod_eq_of_lt htime]
  rw [Nat.add_sub_cancel_left] at hgap
  exact ⟨hback, Nat.le_add_right .., by dsimp only; omega, by dsimp only; omega⟩

/-- In a run of calls that are spaced, the time between any two of them is that of the ticks. -/
theorem clock_measures {eax calibrated tsc : Nat} (before between : List Nat) (h : 10 ^ 9 < eax * 1000)
    (hlt : eax * 1000 < 2 ^ 32)
    (hm : Meets (tscclockMonotonic (tscMult (tscFreq eax calibrated)))
      (Spaced (eax * 1000)) ⟨0, tsc⟩ (before ++ between)) :
    Measures (eax * 1000) 0 (run (tscclockMonotonic (tscMult (tscFreq eax calibrated))) ⟨0, tsc⟩ before)
      (run (tscclockMonotonic (tscMult (tscFreq eax calibrated))) ⟨0, tsc⟩ (before ++ between)) := by
  have hfreq : tscFreq eax calibrated = eax * 1000 := by
    unfold tscFreq
    split <;> omega
  rw [hfreq] at hm ⊢
  obtain ⟨hbefore, hbetween⟩ := meets_append.1 hm
  rw [run_append]
  generalize eax * 1000 = freq at *
  have hstep (c₀ c : Tscclock) (tscNow : Nat) (hc : Late freq c₀ c ∧ freq * c.timeBase ≤ 10 ^ 9 * c.tscBase)
    (hs : Spaced freq c tscNow) :
      Late freq c₀ (tscclockMonotonic (tscMult freq) c tscNow) ∧
        freq * (tscclockMonotonic (tscMult freq) c tscNow).timeBase ≤ 10 ^ 9 *
          (tscclockMonotonic (tscMult freq) c tscNow).tscBase := by
    have hlate := Late.step h hc.2 hs
    have hle := hlate.late
    exact ⟨hc.1.trans hlate, by omega⟩
  have hrefl (c : Tscclock) : Late freq c c := ⟨Nat.le_refl _, Nat.le_refl _, Nat.le_refl _, Nat.le_refl _⟩
  have hmid := hbefore.invariant (hstep ⟨0, tsc⟩) ⟨hrefl _, by simp⟩
  exact (hbetween.invariant (hstep _) ⟨hrefl _, hmid.2⟩).1.measures

/-- At 2 GHz, with calls after 5 seconds, after 10 seconds, and once more at the same tick. -/
theorem clock_measures_seconds : Measures 2000000000 0
    (run (tscclockMonotonic (tscMult (tscFreq 2000000 0))) ⟨0, 0⟩ [10 ^ 10])
    (run (tscclockMonotonic (tscMult (tscFreq 2000000 0))) ⟨0, 0⟩ ([10 ^ 10] ++ [2 * 10 ^ 10, 2 * 10 ^ 10])) :=
  clock_measures [10 ^ 10] [2 * 10 ^ 10, 2 * 10 ^ 10] (by decide) (by decide)
    ⟨⟨by decide, by decide, by decide, .inr (by decide)⟩, ⟨by decide, by decide, by decide, .inr (by decide)⟩,
      ⟨by decide, by decide, by decide, .inl rfl⟩, trivial⟩

private theorem run_ticks (n : Nat) {tsc : Nat} (h : tsc + n < 2 ^ 64) :
    run (tscclockMonotonic (2 ^ 31)) ⟨0, tsc⟩ (List.range' (tsc + 1) n) = ⟨0, tsc + n⟩ := by
  induction n generalizing tsc with
  | zero => rfl
  | succ n ih =>
    have hdelta : (2 ^ 64 + (tsc + 1) - tsc) % 2 ^ 64 = 1 := by omega
    have hstep : tscclockMonotonic (2 ^ 31) ⟨0, tsc⟩ (tsc + 1) = ⟨0, tsc + 1⟩ := by
      simp only [tscclockMonotonic, hdelta]
      rfl
    rw [List.range'_succ, run_cons, hstep, ih (by omega), Nat.add_right_comm, Nat.add_assoc]

/-- With a call at every tick the time does not advance, and at 1 GHz it never does. -/
theorem not_clock_measures : (∀ k < 2 ^ 60, ¬Measures 2000000000 k ⟨0, 0⟩
    (run (tscclockMonotonic (tscMult (tscFreq 2000000 0))) ⟨0, 0⟩ (List.range' 1 (4 * k + 4)))) ∧
    tscMult (tscFreq 1000000 0) = 0 := by
  have hmult : tscMult (tscFreq 2000000 0) = 2 ^ 31 := by decide
  refine ⟨fun k hk h => ?_, by decide⟩
  rw [hmult, run_ticks (4 * k + 4) (by omega : 0 + (4 * k + 4) < 2 ^ 64)] at h
  have herr := h.2
  dsimp only at herr
  omega

end Unikraft.Plat
