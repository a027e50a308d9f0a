import Mathlib.Data.List.Basic

/-!
# Lists of areas

An area occupies the addresses from its lower to its upper end and has a value. A list of areas gives each address the
value of the first area it is in (`look`). When the areas stand in ascending order and do not overlap (`Apart`), that
is the only one. Two adjacent areas of one value look like the area they make together (`Joined`), so splitting and
merging keep the view.
-/

namespace Areas

open List

variable {α κ : Type} (lo hi : α → Nat) (val : α → κ) (ok : α → Prop)

def Has (v : α) (a : Nat) : Prop := lo v ≤ a ∧ a < hi v

instance (v : α) (a : Nat) : Decidable (Has lo hi v a) := inferInstanceAs (Decidable (_ ∧ _))

def look (l : List α) (a : Nat) : Option κ := (l.find? fun v => decide (Has lo hi v a)).map val

/-- The areas are not empty and are `ok`; they ascend and do not overlap. -/
@[mk_iff]
structure Apart (l : List α) : Prop where
  each : ∀ v ∈ l, lo v < hi v ∧ ok v
  sorted : l.Pairwise fun v w => hi v ≤ lo w

/-- The areas `v` and `w` are adjacent, and `x` is both of them. -/
structure Joined (v w x : α) : Prop where
  lower : lo x = lo v
  meet : hi v = lo w
  upper : hi x = hi w
  left : val v = val x
  right : val w = val x

variable {lo hi val ok} {l l₁ l₂ : List α} {v w x : α} {a : Nat} {k : κ}

@[simp]
theorem look_cons : look lo hi val (v :: l) a = if Has lo hi v a then some (val v) else look lo hi val l a := by
  unfold look
  by_cases h : Has lo hi v a <;> simp [h]

/-- Earlier areas hide later ones. -/
theorem look_append : look lo hi val (l₁ ++ l₂) a = (look lo hi val l₁ a).or (look lo hi val l₂ a) := by
  induction l₁ with
  | nil => rfl
  | cons v l ih =>
    rw [cons_append, look_cons, look_cons]
    split
    · rfl
    · exact ih

theorem look_eq_none_iff : look lo hi val l a = none ↔ ∀ v ∈ l, ¬ Has lo hi v a := by
  simp [look]

theorem look_eq_some (h : look lo hi val l a = some k) : ∃ v ∈ l, Has lo hi v a ∧ val v = k := by
  obtain ⟨v, hv, rfl⟩ := Option.map_eq_some_iff.1 h
  exact ⟨v, mem_of_find?_eq_some hv, by simpa using List.find?_some hv, rfl⟩

theorem look_of_lt (h : ∀ v ∈ l, a < lo v) : look lo hi val l a = none :=
  look_eq_none_iff.2 fun v hv hhas => absurd (h v hv) (Nat.not_lt.2 hhas.1)

theorem look_of_le (h : ∀ v ∈ l, hi v ≤ a) : look lo hi val l a = none :=
  look_eq_none_iff.2 fun v hv hhas => absurd hhas.2 (Nat.not_lt.2 (h v hv))

theorem look_append_of_le (h : ∀ v ∈ l₁, hi v ≤ a) : look lo hi val (l₁ ++ l₂) a = look lo hi val l₂ a := by
  rw [look_append, look_of_le h, Option.none_or]

theorem look_cons_of_le (h : hi v ≤ a) : look lo hi val (v :: l) a = look lo hi val l a := by
  rw [look_cons, if_neg fun hhas => absurd hhas.2 (Nat.not_lt.2 h)]

theorem apart_append : Apart lo hi ok (l₁ ++ l₂) ↔ Apart lo hi ok l₁ ∧ Apart lo hi ok l₂ ∧ ∀ v ∈ l₁, ∀ w ∈ l₂,
    hi v ≤ lo w := by
  simp only [apart_iff, forall_mem_append, pairwise_append]
  tauto

theorem apart_cons : Apart lo hi ok (v :: l) ↔ (lo v < hi v ∧ ok v) ∧ Apart lo hi ok l ∧ ∀ w ∈ l, hi v ≤ lo w := by
  simp only [apart_iff, forall_mem_cons, pairwise_cons]
  tauto

theorem Apart.head_le (h : Apart lo hi ok (v :: l)) (hw : w ∈ v :: l) : lo v ≤ lo w := by
  obtain ⟨hv, -, hl⟩ := apart_cons.1 h
  rcases mem_cons.1 hw with rfl | hw
  · exact Nat.le_refl _
  · exact Nat.le_trans (Nat.le_of_lt hv.1) (hl w hw)

/-- In a list of disjoint areas every area shows. -/
theorem Apart.look_of_mem (h : Apart lo hi ok l) (hv : v ∈ l) (h1 : lo v ≤ a) (h2 : a < hi v) :
    look lo hi val l a = some (val v) := by
  induction l with
  | nil => cases hv
  | cons w l ih =>
    obtain ⟨-, hl, hw⟩ := apart_cons.1 h
    rcases mem_cons.1 hv with rfl | hv
    · rw [look_cons, if_pos ⟨h1, h2⟩]
    · rw [look_cons_of_le (Nat.le_trans (hw v hv) h1), ih hl hv]

theorem Apart.insert (h : Apart lo hi ok (l₁ ++ l₂)) (hv : lo v < hi v ∧ ok v) (h1 : ∀ w ∈ l₁, hi w ≤ lo v)
    (h2 : ∀ w ∈ l₂, hi v ≤ lo w) : Apart lo hi ok (l₁ ++ v :: l₂) := by
  obtain ⟨hl1, hl2, h12⟩ := apart_append.1 h
  exact apart_append.2 ⟨hl1, apart_cons.2 ⟨hv, hl2, h2⟩, fun w hw => forall_mem_cons.2 ⟨h1 w hw, h12 w hw⟩⟩

/-- An area that is inserted shows, and the rest shows as before. -/
theorem look_insert (h1 : ∀ w ∈ l₁, hi w ≤ lo v) :
    look lo hi val (l₁ ++ v :: l₂) a = if Has lo hi v a then some (val v) else look lo hi val (l₁ ++ l₂) a := by
  split
  next hhas => rw [look_append_of_le fun w hw => Nat.le_trans (h1 w hw) hhas.1, look_cons, if_pos hhas]
  next hhas => rw [look_append, look_append, look_cons, if_neg hhas]

section
variable (h : Joined lo hi val v w x)
include h

/-- Two areas show as the one they are joined to. -/
theorem Joined.look_eq (hv : lo v ≤ hi v) (hw : lo w ≤ hi w) :
    look lo hi val (l₁ ++ v :: w :: l₂) a = look lo hi val (l₁ ++ x :: l₂) a := by
  have hhas : Has lo hi x a ↔ Has lo hi v a ∨ Has lo hi w a := by
    have h1 := h.lower
    have h2 := h.meet
    have h3 := h.upper
    unfold Has
    omega
  simp only [look_append, look_cons, h.left, h.right, hhas]
  by_cases hav : Has lo hi v a <;> simp [hav]

/-- Two areas are replaced by the one they are joined to. -/
theorem Joined.merge (hx : ok x) (hl : Apart lo hi ok (l₁ ++ v :: w :: l₂)) : Apart lo hi ok (l₁ ++ x :: l₂) := by
  have h1 := h.lower
  have h2 := h.meet
  have h3 := h.upper
  simp only [apart_append, apart_cons, forall_mem_cons] at hl ⊢
  obtain ⟨hl1, ⟨hv, ⟨hw, hl2, hwl⟩, -⟩, hl12⟩ := hl
  refine ⟨hl1, ⟨⟨by omega, hx⟩, hl2, fun y hy => h3 ▸ hwl y hy⟩, fun y hy => ⟨?_, (hl12 y hy).2.2⟩⟩
  exact h1 ▸ (hl12 y hy).1

/-- An area is replaced by two that are joined to it. -/
theorem Joined.split (hv : lo v < hi v ∧ ok v) (hw : lo w < hi w ∧ ok w)
    (hl : Apart lo hi ok (l₁ ++ x :: l₂)) : Apart lo hi ok (l₁ ++ v :: w :: l₂) := by
  have h1 := h.lower
  have h2 := h.meet
  have h3 := h.upper
  simp only [apart_append, apart_cons, forall_mem_cons] at hl ⊢
  obtain ⟨hl1, ⟨-, hl2, hxl⟩, hl12⟩ := hl
  rw [h3] at hxl
  refine ⟨hl1, ⟨hv, ⟨hw, hl2, hxl⟩, Nat.le_of_eq h2, fun y hy => ?_⟩, fun y hy => ?_⟩
  · have := hxl y hy
    omega
  · have := (hl12 y hy).1
    exact ⟨by omega, by omega, (hl12 y hy).2⟩

end

end Areas
