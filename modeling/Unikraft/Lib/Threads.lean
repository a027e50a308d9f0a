import Mathlib.Algebra.BigOperators.Group.Finset.Piecewise
import Mathlib.Algebra.Order.BigOperators.Group.Finset

/-!
# Threads with local states

A system of threads has for each thread a local state, and a step changes the state of one of them. Sums of a weight
of the local states, such as the number of threads at a point of a program, change by the difference at that thread.
-/

namespace Threads

open Function (update update_of_ne update_self)

variable {T α : Type} [Fintype T] [DecidableEq T] {f : T → α} {t : T}

/-- The sum over all threads after one of them has moved. -/
theorem sum_update (f : T → α) (t : T) (a : α) (w : α → Nat) :
    ∑ u, w (update f t a u) + w (f t) = ∑ u, w (f u) + w a := by
  have hne : ∀ u ∈ Finset.univ.erase t, w (update f t a u) = w (f u) := by
    intro u hu
    rw [update_of_ne (Finset.ne_of_mem_erase hu)]
  rw [← Finset.sum_erase_add _ _ (Finset.mem_univ t), ← Finset.sum_erase_add _ (fun u => w (f u)) (Finset.mem_univ t),
    Finset.sum_congr rfl hne, update_self]
  omega

omit [DecidableEq T] in
theorem le_sum (f : T → α) (t : T) (w : α → Nat) : w (f t) ≤ ∑ u, w (f u) :=
  Finset.single_le_sum (f := fun u => w (f u)) (fun _ _ => Nat.zero_le _) (Finset.mem_univ t)

omit [DecidableEq T] in
theorem exists_pos_of_sum_pos {w : α → Nat} (h : 0 < ∑ u, w (f u)) : ∃ t, 0 < w (f t) := by
  by_contra hno
  push Not at hno
  have h0 : ∑ u, w (f u) = 0 := Finset.sum_eq_zero fun u _ => Nat.le_zero.1 (hno u)
  omega

omit [Fintype T] in
theorem forall_update {a : α} {P : T → α → Prop} (ht : P t a) (h : ∀ u, u ≠ t → P u (f u)) (u : T) :
    P u (update f t a u) := by
  by_cases hu : u = t
  · subst hu
    rwa [update_self]
  · rw [update_of_ne hu]
    exact h u hu

omit [Fintype T] in
theorem apply_update {β : Type} (g : α → β) {a b : α} (ht : f t = b) (h : g a = g b) (u : T) :
    g (update f t a u) = g (f u) := by
  by_cases hu : u = t
  · subst hu
    rw [update_self, h, ht]
  · rw [update_of_ne hu]

end Threads
