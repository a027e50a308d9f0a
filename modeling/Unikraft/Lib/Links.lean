import Mathlib.Data.List.Iterate
import Mathlib.Data.List.Nodup

/-!
# Lists linked by an array of successors

`List.iterate next a n` is the list of the `n` nodes one visits from `a` on, and `next^[n] a` is where one is then.
Such a list does not change if the links of its nodes do not (`iterate_eq_of_eqOn`), and setting the link of its last
node joins it to another list (`iterate_relink`).
-/

namespace Links

open List

variable {α : Type} {next next' : α → α} {a b : α} {n m : Nat}

/-- A walk does not depend on the links of other nodes. -/
theorem iterate_eq_of_eqOn (h : ∀ x ∈ List.iterate next a n, next' x = next x) :
    (∀ m ≤ n, next'^[m] a = next^[m] a) ∧ List.iterate next' a n = List.iterate next a n := by
  have hm : ∀ m ≤ n, next'^[m] a = next^[m] a := by
    intro m hm
    induction m with
    | zero => rfl
    | succ m ih =>
      rw [Function.iterate_succ_apply', Function.iterate_succ_apply', ih (by omega)]
      exact h _ (mem_iterate.2 ⟨m, hm, rfl⟩)
  refine ⟨hm, ?_⟩
  rw [← range_map_iterate, ← range_map_iterate]
  apply map_congr_left
  intro i hi
  exact hm i (mem_range.1 hi).le

theorem iterate_inj (h : (List.iterate next a n).Nodup) {i j : Nat} (hi : i < n) (hj : j < n)
    (he : next^[i] a = next^[j] a) : i = j := by
  have hi' : i < (List.iterate next a n).length := by rwa [length_iterate]
  have hj' : j < (List.iterate next a n).length := by rwa [length_iterate]
  have hget : (List.iterate next a n)[i] = (List.iterate next a n)[j] := by
    rwa [getElem_iterate, getElem_iterate]
  exact h.getElem_inj_iff.1 hget

/-- The last link of a walk without repetition is changed. -/
theorem iterate_relink [DecidableEq α] (h : (List.iterate next a (n + 1)).Nodup) (b : α) :
    List.iterate (Function.update next (next^[n] a) b) a (n + 1) = List.iterate next a (n + 1) ∧
      (Function.update next (next^[n] a) b)^[n + 1] a = b := by
  have hne : ∀ x ∈ List.iterate next a n, Function.update next (next^[n] a) b x = next x := by
    intro x hx
    obtain ⟨i, hi, rfl⟩ := mem_iterate.1 hx
    apply Function.update_of_ne
    intro he
    have := iterate_inj h (by omega) (by omega) he
    omega
  obtain ⟨hm, hl⟩ := iterate_eq_of_eqOn hne
  constructor
  · rw [iterate_add, iterate_add, hl, hm n le_rfl]
    rfl
  · rw [Function.iterate_succ_apply', hm n le_rfl, Function.update_self]

end Links
