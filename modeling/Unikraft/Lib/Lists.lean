import Mathlib.Algebra.BigOperators.Group.List.Basic
import Mathlib.Algebra.Ring.Nat
import Mathlib.Data.List.Basic

/-!
# Lists by position

The entries of a list that grows at its end, a list cut at one of its positions, and the first position of an entry.
-/

namespace Lists

open List

variable {α : Type} {l A B : List α} {a b : α} {i : Nat}

theorem getElem?_concat_of_some (h : l[i]? = some b) : (l ++ [a])[i]? = some b := by
  obtain ⟨hi, -⟩ := List.getElem?_eq_some_iff.1 h
  rw [getElem?_append_left hi, h]

/-- An entry of the longer list is an old one or the new one. -/
theorem getElem?_concat_cases (h : (l ++ [a])[i]? = some b) : l[i]? = some b ∨ i = l.length ∧ a = b := by
  rcases Nat.lt_trichotomy i l.length with hi | hi | hi
  · rw [getElem?_append_left hi] at h
    exact .inl h
  · subst hi
    exact .inr ⟨rfl, by simpa using h⟩
  · rw [getElem?_eq_none (by simp; omega)] at h
    cases h

theorem exists_eq_append (h : l[i]? = some a) : ∃ A B, l = A ++ a :: B ∧ A.length = i := by
  obtain ⟨hi, rfl⟩ := List.getElem?_eq_some_iff.1 h
  refine ⟨l.take i, l.drop (i + 1), ?_, length_take_of_le (Nat.le_of_lt hi)⟩
  rw [cons_getElem_drop_succ, take_append_drop]

theorem modify_append_cons {f : α → α} : (A ++ a :: B).modify A.length f = A ++ f a :: B := by
  induction A with
  | nil => rfl
  | cons b A ih => rw [cons_append, length_cons, modify_succ_cons, ih, cons_append]

theorem idxOf?_append_cons [DecidableEq α] (h : a ∉ l) (rest : List α) :
    (l ++ a :: rest).idxOf? a = some l.length := by
  induction l with
  | nil => simp [idxOf?_cons]
  | cons b l ih =>
    rw [mem_cons, not_or] at h
    rw [cons_append, idxOf?_cons, if_neg (by simpa using Ne.symm h.1), ih h.2]
    rfl

theorem drop_append_cons (a : α) (l rest : List α) : (l ++ a :: rest).drop (l.length + 1) = rest := by
  simp

/-- The sum of a weight over a list, with one entry taken out. -/
theorem sum_eraseIdx {f : α → Nat} (h : l[i]? = some a) : (l.map f).sum = f a + ((l.eraseIdx i).map f).sum := by
  induction l generalizing i with
  | nil => cases h
  | cons b l ih =>
    cases i with
    | zero =>
      cases h
      rw [map_cons, sum_cons, eraseIdx_cons_zero]
    | succ i =>
      rw [map_cons, sum_cons, eraseIdx_cons_succ, map_cons, sum_cons, ih h]
      omega

end Lists
