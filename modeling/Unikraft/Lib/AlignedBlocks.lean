import Mathlib.Data.Nat.Bitwise
import Mathlib.Data.Set.Insert

/-!
# Aligned blocks of powers of two

A block has `2 ^ order` numbers and starts at a multiple of its size. Two blocks are nested or disjoint, and two
blocks whose indices differ in the lowest bit are buddies: together they are their parent, of the next order.

In a set of disjoint blocks in which no two are buddies, a block whose numbers are all covered lies in one of them
(`Decomposition.exists_le`).
-/

namespace AlignedBlocks

@[ext] structure Block where
  first : Nat
  order : Nat
  aligned : 2 ^ order ∣ first

instance : Membership Nat Block := ⟨fun b x => b.first ≤ x ∧ x < b.first + 2 ^ b.order⟩

instance : LE Block := ⟨fun a b => ∀ x ∈ a, x ∈ b⟩

def Block.index (b : Block) : Nat := b.first / 2 ^ b.order

variable {a b c : Block} {x y : Nat}

theorem mem_def : x ∈ b ↔ b.first ≤ x ∧ x < b.first + 2 ^ b.order := Iff.rfl

theorem first_mem (b : Block) : b.first ∈ b := ⟨Nat.le_refl _, Nat.lt_add_of_pos_right (Nat.two_pow_pos _)⟩

private theorem first_eq (b : Block) : b.first = 2 ^ b.order * b.index := (Nat.mul_div_cancel' b.aligned).symm

private theorem mem_iff_index : x ∈ b ↔ x / 2 ^ b.order = b.index := by
  have hpos := Nat.two_pow_pos b.order
  rw [mem_def, first_eq, Nat.div_eq_iff hpos, Nat.mul_comm b.index]
  omega

private theorem eq_of_index (ho : a.order = b.order) (hi : a.index = b.index) : a = b := by
  refine Block.ext ?_ ho
  rw [first_eq a, first_eq b, ho, hi]

/-- Blocks of one order are equal or disjoint. -/
theorem eq_of_mem_of_order (hx : x ∈ a) (hx' : x ∈ b) (ho : a.order = b.order) : a = b := by
  rw [mem_iff_index] at hx hx'
  refine eq_of_index ho ?_
  rw [← hx, ← hx', ho]

private theorem le_of_mem (hx : x ∈ a) (hx' : x ∈ b) (ho : a.order ≤ b.order) : a ≤ b := by
  intro y hy
  rw [mem_iff_index] at hx hx' hy ⊢
  have hpow : 2 ^ b.order = 2 ^ a.order * 2 ^ (b.order - a.order) := by rw [← Nat.pow_add, Nat.add_sub_cancel' ho]
  rw [← hx', hpow, ← Nat.div_div_eq_div_mul, ← Nat.div_div_eq_div_mul, hy, hx]

theorem order_le_of_le (h : a ≤ b) : a.order ≤ b.order := by
  have hpos := Nat.two_pow_pos a.order
  have h1 := h a.first (first_mem a)
  have h2 := h (a.first + (2 ^ a.order - 1)) ⟨Nat.le_add_right .., by omega⟩
  rw [mem_def] at h1 h2
  rw [← Nat.pow_le_pow_iff_right (a := 2) (by decide)]
  omega

private theorem first_eq_of_mem (h : b.first ∈ c) (ho : c.order ≤ b.order) : c.first = b.first := by
  have := le_of_mem h (first_mem b) ho c.first (first_mem c)
  rw [mem_def] at this h
  omega

private theorem mul_xor_pow (m k : Nat) : (2 ^ k * m) ^^^ 2 ^ k = 2 ^ k * (m ^^^ 1) := by
  have h := Nat.shiftLeft_xor_distrib (a := m) (b := 1) (i := k)
  simp only [Nat.shiftLeft_eq, Nat.one_mul] at h
  rw [Nat.mul_comm, Nat.mul_comm _ (m ^^^ 1), h]

private theorem xor_one_eq (m : Nat) : m % 2 = 0 ∧ m ^^^ 1 = m + 1 ∨ m % 2 = 1 ∧ m ^^^ 1 = m - 1 := by
  rcases Nat.even_or_odd m with h | h
  · exact .inl ⟨Nat.even_iff.1 h, Nat.xor_one_of_even h⟩
  · exact .inr ⟨Nat.odd_iff.1 h, Nat.xor_one_of_odd h⟩

def Block.buddy (b : Block) : Block where
  first := b.first ^^^ 2 ^ b.order
  order := b.order
  aligned := by
    rw [first_eq, mul_xor_pow]
    exact Nat.dvd_mul_right ..

def Block.parent (b : Block) : Block where
  first := 2 ^ (b.order + 1) * (b.index / 2)
  order := b.order + 1
  aligned := Nat.dvd_mul_right ..

@[simp] theorem buddy_order (b : Block) : b.buddy.order = b.order := rfl

@[simp] theorem parent_order (b : Block) : b.parent.order = b.order + 1 := rfl

private theorem buddy_index (b : Block) : b.buddy.index = b.index ^^^ 1 := by
  change (b.first ^^^ 2 ^ b.order) / 2 ^ b.order = _
  rw [first_eq, mul_xor_pow, Nat.mul_div_cancel_left _ (Nat.two_pow_pos _)]

private theorem parent_index (b : Block) : b.parent.index = b.index / 2 :=
  Nat.mul_div_cancel_left _ (Nat.two_pow_pos _)

@[simp] theorem buddy_buddy (b : Block) : b.buddy.buddy = b := by
  refine eq_of_index rfl ?_
  rw [buddy_index, buddy_index, Nat.xor_assoc, Nat.xor_self, Nat.xor_zero]

/-- A parent is a block and its buddy. -/
theorem mem_parent : x ∈ b.parent ↔ x ∈ b ∨ x ∈ b.buddy := by
  have hdiv : x / 2 ^ (b.order + 1) = x / 2 ^ b.order / 2 := by rw [Nat.pow_succ, Nat.div_div_eq_div_mul]
  rw [mem_iff_index, mem_iff_index, mem_iff_index, parent_index, buddy_index, parent_order, buddy_order]
  rcases xor_one_eq b.index with ⟨h, he⟩ | ⟨h, he⟩ <;> omega

private theorem parent_buddy (b : Block) : b.buddy.parent = b.parent :=
  eq_of_mem_of_order (mem_parent.2 (.inl (first_mem _))) (mem_parent.2 (.inr (first_mem _))) rfl

theorem not_mem_buddy (h : x ∈ b) : x ∉ b.buddy := by
  rw [mem_iff_index] at h
  rw [mem_iff_index, buddy_index, buddy_order]
  rcases xor_one_eq b.index with ⟨-, he⟩ | ⟨h1, he⟩ <;> omega

/-- The buddy comes right after a block with an even index, and right before one with an odd index. -/
theorem buddy_first (b : Block) : b.index % 2 = 0 ∧ b.buddy.first = b.first + 2 ^ b.order ∨
      b.index % 2 = 1 ∧ b.buddy.index % 2 = 0 ∧ b.buddy.first + 2 ^ b.order = b.first := by
  rw [first_eq b.buddy, first_eq b, buddy_index, buddy_order]
  rcases xor_one_eq b.index with ⟨h, he⟩ | ⟨h, he⟩
  · rw [he]
    exact .inl ⟨h, Nat.mul_succ ..⟩
  · refine .inr ⟨h, by omega, ?_⟩
    rw [← Nat.mul_succ]
    congr 1
    omega

theorem index_even_iff (b : Block) : b.index % 2 = 0 ↔ 2 ^ (b.order + 1) ∣ b.first := by
  rw [first_eq b, Nat.pow_succ, Nat.mul_dvd_mul_iff_left (Nat.two_pow_pos _), Nat.dvd_iff_mod_eq_zero]

/-- The first element of a parent has the bit of the order clear. -/
theorem parent_first (b : Block) : b.parent.first = if b.buddy.first &&& 2 ^ b.order = 0 then b.buddy.first
    else b.first := by
  have hbit : b.buddy.first &&& 2 ^ b.order = 0 ↔ (b.index ^^^ 1) % 2 = 0 := by
    rw [first_eq, buddy_index, Nat.and_two_pow, Nat.testBit_two_pow_mul]
    simp
  change 2 ^ (b.order + 1) * (b.index / 2) = _
  rw [Nat.pow_succ, Nat.mul_assoc]
  split
  case isTrue h =>
    rw [first_eq b.buddy, buddy_index]
    congr 1
    rcases xor_one_eq b.index with ⟨h0, he⟩ | ⟨h1, he⟩ <;> omega
  case isFalse h =>
    conv_rhs => rw [first_eq b]
    congr 1
    rcases xor_one_eq b.index with ⟨h0, he⟩ | ⟨h1, he⟩ <;> omega

/-- A block inside a larger one has its parent inside it. -/
theorem parent_le (h : a ≤ b) (ho : a.order < b.order) : a.parent ≤ b :=
  le_of_mem (mem_parent.2 (.inl (first_mem a))) (h _ (first_mem a)) ho

structure Decomposition (C : Set Block) (S : Set Nat) : Prop where
  disjoint : ∀ a ∈ C, ∀ b ∈ C, ∀ x, x ∈ a → x ∈ b → a = b
  cover : ∀ x, x ∈ S ↔ ∃ b ∈ C, x ∈ b

def BuddyFree (C : Set Block) : Prop := ∀ b ∈ C, b.buddy ∉ C

variable {C D : Set Block} {S : Set Nat}

section
variable (h : Decomposition C S)
include h

theorem Decomposition.mem (hb : b ∈ C) (hx : x ∈ b) : x ∈ S := (h.cover x).2 ⟨b, hb, hx⟩

/-- A block of new elements is added. -/
theorem Decomposition.insert (hb : ∀ x ∈ b, x ∉ S) : Decomposition (insert b C) (S ∪ {x | x ∈ b}) where
  disjoint := by
    rintro a (rfl | ha) c (rfl | hc) x hxa hxc
    · rfl
    · exact absurd (h.mem hc hxc) (hb x hxa)
    · exact absurd (h.mem ha hxa) (hb x hxc)
    · exact h.disjoint a ha c hc x hxa hxc
  cover x := by
    constructor
    · rintro (hx | hx)
      · obtain ⟨c, hc, hxc⟩ := (h.cover x).1 hx
        exact ⟨c, .inr hc, hxc⟩
      · exact ⟨b, .inl rfl, hx⟩
    · rintro ⟨c, rfl | hc, hxc⟩
      · exact .inr hxc
      · exact .inl (h.mem hc hxc)

/-- A block is taken out with its elements. -/
theorem Decomposition.erase (hb : b ∈ C) : Decomposition (C \ {b}) (S \ {x | x ∈ b}) where
  disjoint a ha c hc := h.disjoint a ha.1 c hc.1
  cover x := by
    constructor
    · rintro ⟨hx, hxb⟩
      obtain ⟨c, hc, hxc⟩ := (h.cover x).1 hx
      refine ⟨c, ⟨hc, ?_⟩, hxc⟩
      rintro rfl
      exact hxb hxc
    · rintro ⟨c, ⟨hc, hcb⟩, hxc⟩
      exact ⟨h.mem hc hxc, fun hxb => hcb (h.disjoint c hc b hb x hxc hxb)⟩

end

theorem BuddyFree.insert (h : BuddyFree C) (hb : b.buddy ∉ C) : BuddyFree (insert b C) := by
  have hself : b.buddy ≠ b := fun he => not_mem_buddy (first_mem b) (he.symm ▸ first_mem b)
  rintro c (rfl | hc) (he | hc')
  · exact hself he
  · exact hb hc'
  · rw [← he, buddy_buddy] at hb
    exact hb hc
  · exact h c hc hc'

theorem BuddyFree.mono (h : BuddyFree C) (hs : D ⊆ C) : BuddyFree D := fun b hb hb' => h b (hs hb) (hs hb')

/-- If no two blocks are buddies, a covered block lies in one of them: its halves do, and if they lie in different
ones, these are the halves. -/
theorem Decomposition.exists_le (h : Decomposition C S) (hf : BuddyFree C) (b : Block) (hb : ∀ x ∈ b, x ∈ S) :
    ∃ c ∈ C, b ≤ c := by
  obtain ⟨p, k, hp⟩ := b
  induction k generalizing p with
  | zero =>
    obtain ⟨c, hc, hx⟩ := (h.cover p).1 (hb p (first_mem ⟨p, 0, hp⟩))
    exact ⟨c, hc, le_of_mem (first_mem ⟨p, 0, hp⟩) hx (Nat.zero_le _)⟩
  | succ k ih =>
    let l : Block := ⟨p, k, (Nat.pow_dvd_pow 2 (Nat.le_succ k)).trans hp⟩
    have hparent : l.parent = ⟨p, k + 1, hp⟩ :=
      eq_of_mem_of_order (mem_parent.2 (.inl (first_mem l))) (first_mem ⟨p, k + 1, hp⟩) rfl
    rw [← hparent] at hb ⊢
    obtain ⟨c, hc, hlc⟩ := ih p l.aligned fun x hx => hb x (mem_parent.2 (.inl hx))
    obtain ⟨d, hd, hrd⟩ := ih l.buddy.first l.buddy.aligned fun x hx => hb x (mem_parent.2 (.inr hx))
    by_cases hck : k < c.order
    · exact ⟨c, hc, parent_le hlc hck⟩
    by_cases hdk : k < d.order
    · exact ⟨d, hd, parent_buddy l ▸ parent_le hrd hdk⟩
    have hcl : c = l := by
      refine (eq_of_mem_of_order (first_mem l) (hlc _ (first_mem l)) ?_).symm
      exact Nat.le_antisymm (order_le_of_le hlc) (Nat.not_lt.1 hck)
    have hdl : d = l.buddy := by
      refine (eq_of_mem_of_order (first_mem l.buddy) (hrd _ (first_mem l.buddy)) ?_).symm
      exact Nat.le_antisymm (order_le_of_le hrd) (Nat.not_lt.1 hdk)
    rw [hcl] at hc
    rw [hdl] at hd
    exact absurd hd (hf l hc)

/-- The buddy of a block that is not covered is not part of a larger block: if its first number is covered, a block
starts there. -/
theorem Decomposition.exists_first (h : Decomposition C S) (hb : ∀ x ∈ b, x ∉ S) (hs : b.buddy.first ∈ S) :
    ∃ c ∈ C, c.first = b.buddy.first ∧ c.order ≤ b.order := by
  obtain ⟨c, hc, hx⟩ := (h.cover _).1 hs
  have ho : c.order ≤ b.order := by
    by_contra hlt
    have hle : b.buddy.parent ≤ c := parent_le (le_of_mem (first_mem _) hx (by simp; omega)) (by simp; omega)
    exact hb b.first (first_mem b) (h.mem hc (hle _ (mem_parent.2 (.inr (by simpa using first_mem b)))))
  exact ⟨c, hc, first_eq_of_mem hx ho, ho⟩

end AlignedBlocks
