import Mathlib.Data.List.Basic
import Mathlib.Data.Nat.ModEq

/-!
# Circular memory

A memory `Nat → α` of which the cells `0, …, cap - 1` are used as a ring. `window mem cap head n` is the list of the
`n` cells from `head` on, read around the ring; `store` and `load` are split at the end of the ring. The indices of
`RingIndex` have `w > k` bits for `2 ^ k` cells and are only ever incremented; `between` is the queue of the cells
between two of them.
-/

namespace Circular

open List

variable {α : Type} (mem : Nat → α)

def window (cap head n : Nat) : List α :=
  (List.range n).map fun i => mem ((head + i) % cap)

def copyTo (pos : Nat) (xs : List α) : Nat → α :=
  fun i => if h : pos ≤ i ∧ i - pos < xs.length then xs.get ⟨i - pos, h.2⟩ else mem i

/-- Block copy of `xs` into the ring from cell `pos < cap` on, in two parts if the block meets the end. -/
def store (cap pos : Nat) (xs : List α) : Nat → α :=
  let toCopy := min xs.length (cap - pos)
  let mem' := copyTo mem pos (xs.take toCopy)
  if toCopy < xs.length then copyTo mem' 0 (xs.drop toCopy) else mem'

def block (start n : Nat) : List α :=
  (List.range n).map fun i => mem (start + i)

/-- Read of `size` cells of the ring from `start` on, in two parts if the block meets the end. -/
def load (cap start size : Nat) : List α :=
  let toCopy := min (start + size) cap - min start cap
  let out := if 0 < toCopy then block mem start toCopy else []
  if cap < start + size then out ++ block mem 0 (size - toCopy) else out

@[simp] theorem length_window (cap head n : Nat) : (window mem cap head n).length = n := by
  simp [window]

@[simp] theorem window_zero (cap head : Nat) : window mem cap head 0 = [] := rfl

theorem window_mod (cap head n : Nat) : window mem cap (head % cap) n = window mem cap head n := by
  simp [window]

private theorem window_add (cap head m n : Nat) :
    window mem cap head (m + n) = window mem cap head m ++ window mem cap (head + m) n := by
  simp [window, range_add, Nat.add_assoc]

variable {cap n i pos : Nat} {xs : List α} {m : Nat} {start : Nat}

private theorem window_congr {mem mem' : Nat → α} {head : Nat}
    (h : ∀ i < n, mem ((head + i) % cap) = mem' ((head + i) % cap)) :
    window mem cap head n = window mem' cap head n := by
  apply map_congr_left
  intro i hi
  exact h i (mem_range.1 hi)

theorem window_succ (cap head n : Nat) :
    window mem cap head (n + 1) = mem (head % cap) :: window mem cap (head + 1) n := by
  rw [Nat.add_comm n 1, window_add]
  rfl

theorem window_take (cap head : Nat) (h : m ≤ n) : (window mem cap head n).take m = window mem cap head m := by
  obtain ⟨k, rfl⟩ := Nat.exists_eq_add_of_le h
  rw [window_add, take_left' (length_window ..)]

theorem window_drop (cap head : Nat) (h : m ≤ n) : (window mem cap head n).drop m = window mem cap (head + m)
    (n - m) := by
  obtain ⟨k, rfl⟩ := Nat.exists_eq_add_of_le h
  rw [window_add, drop_left' (length_window ..), Nat.add_sub_cancel_left]

private theorem copyTo_of_mem (pos : Nat) (h : i < xs.length) : copyTo mem pos xs (pos + i) = xs[i] := by
  simp [copyTo, h]

private theorem copyTo_of_not_mem {j : Nat} (h : j < pos ∨ pos + xs.length ≤ j) : copyTo mem pos xs j = mem j := by
  have hj : ¬ (pos ≤ j ∧ j - pos < xs.length) := by omega
  simp [copyTo, hj]

private theorem ring_index (hp : pos < cap) (hi : i < cap) : (pos + i) % cap = if pos + i < cap then pos + i
    else pos + i - cap := by
  split
  · exact Nat.mod_eq_of_lt ‹_›
  · rw [Nat.mod_eq_sub_mod (by omega), Nat.mod_eq_of_lt (by omega)]

private theorem store_of_mem (hp : pos < cap) (hx : xs.length ≤ cap) (hi : i < xs.length) :
    store mem cap pos xs ((pos + i) % cap) = xs[i] := by
  rw [ring_index hp (by omega)]
  unfold store
  by_cases hw : pos + i < cap
  · have h1 : copyTo mem pos (xs.take (min xs.length (cap - pos))) (pos + i) = xs[i] := by
      rw [copyTo_of_mem _ _ (by simp; omega)]
      simp
    split
    · rw [copyTo_of_not_mem _ (by simp; omega), h1]
    · exact h1
  · rw [if_neg hw, if_pos (by omega)]
    have hd : pos + i - cap < (xs.drop (min xs.length (cap - pos))).length := by simp; omega
    have h2 := copyTo_of_mem (copyTo mem pos (xs.take (min xs.length (cap - pos)))) 0 hd
    rw [Nat.zero_add] at h2
    rw [h2, getElem_drop]
    congr 1
    omega

private theorem store_of_not_mem (hp : pos < cap)
    (hx : xs.length ≤ i) (hi : i < cap) : store mem cap pos xs ((pos + i) % cap) = mem ((pos + i) % cap) := by
  rw [ring_index hp hi]
  unfold store
  split
  · split
    · rw [copyTo_of_not_mem _ (by simp; omega), copyTo_of_not_mem _ (by simp; omega)]
    · rw [copyTo_of_not_mem _ (by simp; omega), copyTo_of_not_mem _ (by simp; omega)]
  · split
    · rw [copyTo_of_not_mem _ (by simp; omega)]
    · rw [copyTo_of_not_mem _ (by simp; omega)]

/-- Storing after the window makes it longer, as long as it does not go round. -/
theorem window_store (head n : Nat) (hc : 0 < cap) (hn : n + xs.length ≤ cap) :
    window (store mem cap ((head + n) % cap) xs) cap head (n + xs.length) = window mem cap head n ++ xs := by
  have hp : (head + n) % cap < cap := Nat.mod_lt _ hc
  rw [window_add]
  congr 1
  · apply window_congr
    intro i hi
    -- cell `i` of the window is cell `cap - n + i` of the ring counted from the block
    have e : (head + i) % cap = ((head + n) % cap + (cap - n + i)) % cap := by
      rw [Nat.mod_add_mod, show head + n + (cap - n + i) = head + i + cap by omega, Nat.add_mod_right]
    rw [e, store_of_not_mem mem hp (by omega) (by omega)]
  · rw [← window_mod]
    apply ext_getElem
    · simp
    · intro i h1 h2
      simp only [window, getElem_map, getElem_range]
      exact store_of_mem mem hp (by omega) h2

private theorem store_singleton (h : pos < cap) (x : α) : store mem cap pos [x] = Function.update mem pos x := by
  have hone : min [x].length (cap - pos) = 1 := by
    rw [length_singleton]
    omega
  funext i
  unfold store
  rw [hone, if_neg (by simp), take_one]
  by_cases hi : i = pos
  · subst hi
    simp [copyTo]
  · rw [copyTo_of_not_mem, Function.update_of_ne hi]
    simp only [List.head?_cons, Option.toList_some, length_singleton]
    omega

theorem window_update (head : Nat) (h : n < cap) (x : α) :
    window (Function.update mem ((head + n) % cap) x) cap head (n + 1) = window mem cap head n ++ [x] := by
  rw [← store_singleton mem (Nat.mod_lt _ (by omega)) x]
  exact window_store mem head n (by omega) h

private theorem block_eq_window (h : start + n ≤ cap) : block mem start n = window mem cap start n := by
  apply map_congr_left
  intro i hi
  rw [Nat.mod_eq_of_lt (by have := mem_range.1 hi; omega)]

/-- A load in one or two pieces reads a window. -/
theorem load_eq_window {size : Nat} (hs : start < cap) (hn : size ≤ cap) :
    load mem cap start size = window mem cap start size := by
  unfold load
  by_cases hw : cap < start + size
  · have e : min (start + size) cap - min start cap = cap - start := by omega
    rw [e, if_pos hw, if_pos (by omega), block_eq_window mem (by omega : start + (cap - start) ≤ cap),
      block_eq_window mem (by omega : 0 + (size - (cap - start)) ≤ cap)]
    conv => rhs; rw [show size = (cap - start) + (size - (cap - start)) by omega, window_add]
    rw [show start + (cap - start) = cap by omega, ← window_mod mem cap cap, Nat.mod_self]
  · have e : min (start + size) cap - min start cap = size := by omega
    rw [e, if_neg hw]
    split
    · exact block_eq_window mem (by omega)
    · rw [show size = 0 by omega, window_zero]

end Circular

namespace RingIndex

open BitVec Circular

variable {α : Type} {w k : Nat} {tail head : BitVec w} {mem : Nat → α}

/-- The cells from the reading index `tail` up to the writing index `head`. -/
def between (mem : Nat → α) (k : Nat) (tail head : BitVec w) : List α :=
  window mem (2 ^ k) tail.toNat (head - tail).toNat

@[simp] theorem length_between : (between mem k tail head).length = (head - tail).toNat := length_window ..

@[simp] theorem between_self : between mem k tail tail = [] := by
  simp [between]

theorem between_eq_nil : between mem k tail head = [] ↔ head = tail := by
  rw [← List.length_eq_zero_iff, length_between]
  constructor
  · intro h
    have h0 : head - tail = 0#w := eq_of_toNat_eq (by rw [h]; simp)
    exact BitVec.sub_eq_iff_eq_add.1 h0 |>.trans (BitVec.zero_add ..)
  · rintro rfl
    simp

private theorem toNat_mod (hk : k ≤ w) (tail head : BitVec w) :
    head.toNat % 2 ^ k = (tail.toNat + (head - tail).toNat) % 2 ^ k := by
  have hd : 2 ^ k ∣ 2 ^ w := Nat.pow_dvd_pow 2 hk
  conv_lhs => rw [← BitVec.sub_add_cancel head tail, toNat_add, Nat.mod_mod_of_dvd _ hd, Nat.add_comm]

theorem toNat_sub_lt (h : head ≠ tail) : 0 < (head - tail).toNat := by
  have hne : (between (fun _ => ()) 0 tail head) ≠ [] := fun he => h (between_eq_nil.1 he)
  have hpos := List.length_pos_iff.2 hne
  rwa [length_between] at hpos

theorem toNat_sub_succ (h : (head - tail).toNat + 1 < 2 ^ w) :
    (head + 1#w - tail).toNat = (head - tail).toNat + 1 := by
  have he : head + 1#w - tail = head - tail + 1#w := by
    rw [BitVec.sub_eq_add_neg, BitVec.sub_eq_add_neg, BitVec.add_assoc, BitVec.add_comm 1#w, BitVec.add_assoc]
  have h1 : (1 : Nat) < 2 ^ w := by omega
  rw [he, toNat_add, toNat_ofNat, Nat.mod_eq_of_lt h1, Nat.mod_eq_of_lt h]

/-- The head moves over a new element. -/
theorem between_push (mem : Nat → α) (hk : k < w) (h : (head - tail).toNat < 2 ^ k) (v : α) :
    between (Function.update mem (head.toNat % 2 ^ k) v) k tail (head + 1#w) = between mem k tail head ++ [v] := by
  have hlt : 2 ^ k < 2 ^ w := Nat.pow_lt_pow_right (by omega) hk
  unfold between
  rw [toNat_sub_succ (by omega), window_add, toNat_mod hk.le tail head]
  congr 1
  · apply window_congr
    intro i hi
    apply Function.update_of_ne
    intro he
    have hmod : tail.toNat + i ≡ tail.toNat + (head - tail).toNat [MOD 2 ^ k] := he
    have heq : i % 2 ^ k = (head - tail).toNat % 2 ^ k := hmod.add_left_cancel'
    rw [Nat.mod_eq_of_lt (by omega), Nat.mod_eq_of_lt h] at heq
    omega
  · simp [window]

private theorem toNat_sub_pred (h : head ≠ tail) : (head - tail).toNat = (head - (tail + 1#w)).toNat + 1 := by
  have he : head - tail = head - (tail + 1#w) + 1#w := by
    rw [← sub_sub, sub_add_cancel]
  have hpos := toNat_sub_lt h
  rw [he, toNat_add, toNat_ofNat] at hpos ⊢
  rw [Nat.add_mod_mod] at hpos ⊢
  apply Nat.mod_eq_of_lt
  by_contra hge
  rw [show (head - (tail + 1#w)).toNat + 1 = 2 ^ w by omega, Nat.mod_self] at hpos
  omega

/-- The tail moves over the oldest element. -/
theorem between_pop (mem : Nat → α) (hk : k ≤ w) (h : head ≠ tail) :
    between mem k tail head = mem (tail.toNat % 2 ^ k) :: between mem k (tail + 1#w) head := by
  have hcell : (tail + 1#w).toNat % 2 ^ k = (tail.toNat + 1) % 2 ^ k := by
    rw [toNat_add, toNat_ofNat, Nat.add_mod_mod, Nat.mod_mod_of_dvd _ (Nat.pow_dvd_pow 2 hk)]
  unfold between
  rw [toNat_sub_pred h, Nat.add_comm _ 1, window_add, ← window_mod mem _ (tail + 1#w).toNat, hcell, window_mod]
  rfl

end RingIndex
