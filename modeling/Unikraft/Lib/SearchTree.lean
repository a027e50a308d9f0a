import Mathlib.Data.List.Nodup

/-!
# Ordered sets and search trees

Elements are found and placed by a comparison of their keys: in the list of the elements in order (`OrdSet`), or in a
tree. The comparison is arbitrary, so that a search key may leave parts of the key open. Where it is a strict order on
the keys in use (`Ordered`), a search finds what is in the tree, whatever the shape of the tree is.
-/

namespace OrdSet

variable {α κ : Type} {cmp : κ → κ → Ordering} {key : α → κ}

def find (cmp : κ → κ → Ordering) (key : α → κ) (k : κ) (t : List α) : Option α :=
  t.find? fun a => cmp k (key a) == .eq

def place (cmp : κ → κ → Ordering) (key : α → κ) (a : α) : List α → List α
  | [] => [a]
  | b :: t => if cmp (key a) (key b) = .lt then a :: b :: t else b :: place cmp key a t

/-- Insert `a`; an element with an equal key is returned instead, and then nothing is inserted. -/
def insert (cmp : κ → κ → Ordering) (key : α → κ) (a : α) (t : List α) : List α × Option α :=
  match find cmp key (key a) t with
  | some b => (t, some b)
  | none => (place cmp key a t, none)

variable {k : κ} {t : List α} {a : α}

theorem find_eq_none : find cmp key k t = none ↔ ∀ a ∈ t, cmp k (key a) ≠ .eq := by
  simp [find]

theorem find_eq_some (h : find cmp key k t = some a) : a ∈ t ∧ cmp k (key a) = .eq := by
  refine ⟨List.mem_of_find?_eq_some h, ?_⟩
  have := List.find?_some h
  simpa using this

/-- The only element that compares equal is found. -/
theorem find_of_unique (ha : a ∈ t) (he : cmp k (key a) = .eq)
    (hu : ∀ b ∈ t, cmp k (key b) = .eq → b = a) : find cmp key k t = some a := by
  cases h : find cmp key k t with
  | none => exact absurd he (find_eq_none.1 h a ha)
  | some b =>
    obtain ⟨hb, hbe⟩ := find_eq_some h
    rw [hu b hb hbe]

/-- An element is placed somewhere. -/
theorem place_perm (a : α) (t : List α) : (place cmp key a t).Perm (a :: t) := by
  induction t with
  | nil => exact List.Perm.refl _
  | cons b t ih =>
    unfold place
    split
    · exact List.Perm.refl _
    · exact (List.Perm.cons b ih).trans (List.Perm.swap a b t)

theorem insert_of_none (h : find cmp key (key a) t = none) : insert cmp key a t = (place cmp key a t, none) := by
  simp [insert, h]

theorem insert_fst (cmp : κ → κ → Ordering) (key : α → κ) (a : α) (t : List α) :
    (find cmp key (key a) t = none ∧ (insert cmp key a t).1.Perm (a :: t)) ∨ (insert cmp key a t).1 = t := by
  cases h : find cmp key (key a) t with
  | some b =>
    simp [insert, h]
  | none =>
    left
    refine ⟨rfl, ?_⟩
    rw [insert_of_none h]
    exact place_perm a t

end OrdSet

namespace SearchTree

open List

inductive Tree (α : Type) where
  | leaf
  | node (l : Tree α) (a : α) (r : Tree α)

namespace Tree

variable {α κ : Type}

def toList : Tree α → List α
  | leaf => []
  | node l a r => l.toList ++ a :: r.toList

theorem toList_eq_nil {t : Tree α} : t.toList = [] ↔ t = leaf := by cases t <;> simp [toList]

def ofList (l : List α) : Tree α := l.foldr (node leaf) leaf

theorem toList_ofList (l : List α) : (ofList l).toList = l := by
  induction l with
  | nil => rfl
  | cons a l ih => exact congrArg (a :: ·) ih

section
variable (cmp : κ → κ → Int) (key : α → κ)

def find (k : κ) : Tree α → Option α
  | leaf => none
  | node l a r => if cmp k (key a) < 0 then find k l else if 0 < cmp k (key a) then find k r else some a

def insert (a : α) : Tree α → Tree α × Option α
  | leaf => (node leaf a leaf, none)
  | node l b r =>
    if cmp (key a) (key b) < 0 then (node (insert a l).1 b r, (insert a l).2)
    else if 0 < cmp (key a) (key b) then (node l b (insert a r).1, (insert a r).2)
    else (node l b r, some b)

/-- The greatest element that is not larger than `k`, with all that follow it in order. `rest` is what follows the
subtree, and `res` is what was found above it. -/
def pfind (k : κ) (res : Option (List α)) (rest : List α) : Tree α → Option (List α)
  | leaf => res
  | node l a r =>
    if cmp k (key a) < 0 then pfind k res (a :: r.toList ++ rest) l
    else if 0 < cmp k (key a) then pfind k (some (a :: r.toList ++ rest)) rest r
    else some (a :: r.toList ++ rest)

def Ordered (l : List κ) : Prop :=
  ∀ a ∈ l, ∀ b ∈ l, (cmp a b = 0 ↔ a = b) ∧ (cmp a b < 0 ↔ 0 < cmp b a) ∧ ∀ c ∈ l, cmp a b < 0 → cmp b c < 0 →
    cmp a c < 0

def Sorted (l : List α) : Prop := l.Pairwise fun a b => cmp (key a) (key b) < 0

end

variable {cmp : κ → κ → Int} {key : α → κ} {k : κ} {a : α} {t : Tree α}

theorem Ordered.mono {l l' : List κ} (h : Ordered cmp l) (hsub : l' ⊆ l) : Ordered cmp l' := fun a ha b hb =>
  have hab := h a (hsub ha) b (hsub hb)
  ⟨hab.1, hab.2.1, fun c hc => hab.2.2 c (hsub hc)⟩

theorem find_eq_some (h : find cmp key k t = some a) : a ∈ t.toList ∧ cmp k (key a) = 0 := by
  induction t with
  | leaf => cases h
  | node l b r ihl ihr =>
    unfold find at h
    rw [toList, mem_append, mem_cons]
    split_ifs at h
    · exact (ihl h).imp_left .inl
    · exact (ihr h).imp_left fun hr => .inr (.inr hr)
    · cases h
      exact ⟨.inr (.inl rfl), by omega⟩

/-- What compares equal to `k` lies between what is larger and what is smaller than `k`. -/
def Cut (cmp : κ → κ → Int) (key : α → κ) (k : κ) (l : List α) : Prop :=
  l.Pairwise fun a b => (cmp k (key a) < 0 → cmp k (key b) < 0) ∧ (0 < cmp k (key b) → 0 < cmp k (key a))

section
variable (hc : Cut cmp key k t.toList)
include hc

private theorem exists_find (ha : a ∈ t.toList) (h0 : cmp k (key a) = 0) : ∃ b, find cmp key k t = some b := by
  induction t with
  | leaf => cases ha
  | node l b r ihl ihr =>
    obtain ⟨hl, hbr, hlbr⟩ := pairwise_append.1 hc
    obtain ⟨hb, hr⟩ := pairwise_cons.1 hbr
    unfold find
    rcases mem_append.1 ha with ha | ha
    · have hab := hlbr a ha b mem_cons_self
      split_ifs with hlt hgt
      · exact ihl hl ha
      · exact absurd (hab.2 hgt) (by omega)
      · exact ⟨b, rfl⟩
    rcases mem_cons.1 ha with rfl | ha
    · rw [if_neg (by omega), if_neg (by omega)]
      exact ⟨a, rfl⟩
    · split_ifs with hlt hgt
      · exact absurd ((hb a ha).1 hlt) (by omega)
      · exact ihr hr ha
      · exact ⟨b, rfl⟩

theorem find_isSome_iff : (find cmp key k t).isSome = true ↔ ∃ a ∈ t.toList, cmp k (key a) = 0 := by
  rw [Option.isSome_iff_exists]
  constructor
  · rintro ⟨a, ha⟩
    exact ⟨a, find_eq_some ha⟩
  · rintro ⟨a, ha, h0⟩
    exact exists_find hc ha h0

theorem find_eq_some_iff (hu : ∀ b ∈ t.toList, cmp k (key b) = 0 → ∀ c ∈ t.toList, cmp k (key c) = 0 → b = c) :
    find cmp key k t = some a ↔ a ∈ t.toList ∧ cmp k (key a) = 0 := by
  refine ⟨find_eq_some, fun ⟨ha, h0⟩ => ?_⟩
  obtain ⟨b, hb⟩ := exists_find hc ha h0
  obtain ⟨hmem, hb0⟩ := find_eq_some hb
  rw [hb, hu b hmem hb0 a ha h0]

end

theorem Sorted.eq_of_key {l : List α} (hs : Sorted cmp key l) (ho : ∀ k ∈ l.map key, cmp k k = 0) {b : α} (ha : a ∈ l)
    (hb : b ∈ l) (h : key a = key b) : a = b := by
  have hnodup : (l.map key).Nodup := pairwise_map.2 <| hs.imp_of_mem fun {a b} ha _ hlt heq => by
    have h0 := ho (key a) (mem_map_of_mem ha)
    rw [heq] at h0 hlt
    omega
  exact inj_on_of_nodup_map hnodup ha hb h

/-- In a tree that is in order, every element is found by its key. -/
theorem find_of_mem (hs : Sorted cmp key t.toList) (ho : Ordered cmp (t.toList.map key)) (ha : a ∈ t.toList) :
    find cmp key (key a) t = some a := by
  have hself (k : κ) (hk : k ∈ t.toList.map key) : cmp k k = 0 := ((ho k hk k hk).1).2 rfl
  refine (find_eq_some_iff (hs.imp_of_mem fun {b c} hb hc hlt => ?_) fun b hb h0 c hc h0' => ?_).2
    ⟨ha, hself _ (mem_map_of_mem ha)⟩
  · have hab := ho _ (mem_map_of_mem ha) _ (mem_map_of_mem hb)
    have hca := ho _ (mem_map_of_mem hc) _ (mem_map_of_mem ha)
    have hbc := ho _ (mem_map_of_mem hb) _ (mem_map_of_mem hc)
    have hba := ho _ (mem_map_of_mem hb) _ (mem_map_of_mem ha)
    exact ⟨fun h => hab.2.2 _ (mem_map_of_mem hc) h hlt,
        fun h => hba.2.1.1 (hbc.2.2 _ (mem_map_of_mem ha) hlt (hca.2.1.2 h))⟩
  · have hb' := (ho _ (mem_map_of_mem ha) _ (mem_map_of_mem hb)).1.1 h0
    exact hs.eq_of_key hself hb hc (hb'.symm.trans ((ho _ (mem_map_of_mem ha) _ (mem_map_of_mem hc)).1.1 h0'))

/-- A new element is inserted, and the tree stays in order. -/
theorem insert_spec (hs : Sorted cmp key t.toList) (ho : Ordered cmp (key a :: t.toList.map key))
    (hnew : ∀ b ∈ t.toList, key b ≠ key a) : (insert cmp key a t).2 = none ∧
      (∀ b, b ∈ (insert cmp key a t).1.toList ↔ b = a ∨ b ∈ t.toList) ∧
      Sorted cmp key (insert cmp key a t).1.toList := by
  induction t with
  | leaf => exact ⟨rfl, fun b => by simp [insert, toList], pairwise_singleton _ _⟩
  | node l b r ihl ihr =>
    obtain ⟨hl, hbr, hlbr⟩ := pairwise_append.1 hs
    obtain ⟨hb, hr⟩ := pairwise_cons.1 hbr
    simp only [toList] at ho hnew
    have hab := ho (key a) mem_cons_self (key b) (by simp)
    unfold insert
    split_ifs with hlt hgt
    · obtain ⟨hprev, hmem, hsort⟩ := ihl hl (ho.mono (by simp)) fun x hx => hnew x (by simp [hx])
      refine ⟨hprev, fun x => by simp [toList, hmem, or_assoc], pairwise_append.2 ⟨hsort, hbr, fun x hx y hy => ?_⟩⟩
      rcases (hmem x).1 hx with rfl | hx
      · rcases mem_cons.1 hy with rfl | hy
        · exact hlt
        · exact hab.2.2 _ (by simp [mem_map_of_mem hy]) hlt (hb y hy)
      · exact hlbr x hx y hy
    · obtain ⟨hprev, hmem, hsort⟩ := ihr hr (ho.mono (by intro x; grind)) fun x hx => hnew x (by simp [hx])
      have hba := (ho (key b) (by simp) (key a) mem_cons_self).2.1.2 hgt
      refine ⟨hprev, fun x => by simp only [toList, mem_append, mem_cons, hmem, or_left_comm],
          pairwise_append.2 ⟨hl, pairwise_cons.2 ⟨fun y hy => ?_, hsort⟩, ?_⟩⟩
      · rcases (hmem y).1 hy with rfl | hy
        · exact hba
        · exact hb y hy
      · intro x hx y hy
        rcases mem_cons.1 hy with rfl | hy
        · exact hlbr x hx y mem_cons_self
        rcases (hmem y).1 hy with rfl | hy
        · have hxb := ho (key x) (by simp [mem_map_of_mem hx]) (key b) (by simp)
          exact hxb.2.2 _ mem_cons_self (hlbr x hx b mem_cons_self) hba
        · exact hlbr x hx y (mem_cons_of_mem _ hy)
    · exact absurd (hab.1.1 (by omega)).symm (hnew b (by simp))

end Tree

end SearchTree
