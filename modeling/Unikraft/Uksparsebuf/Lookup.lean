import Unikraft.Lib.Lists
import Unikraft.Lib.SearchTree

/-!
# Sparse buffers

A buffer is a tree of slices, ordered by page offsets of 64 bits. `sparsebuf_map_cmp` returns their difference as an
`int`, so that offsets `2 ^ 31` pages apart compare the wrong way round, and equal if they are `2 ^ 32` pages apart.
Whatever the shape of a tree with two slices is, there is a page for which the comparison with the root or with its
right child goes wrong, and the slice that is found is not the right one. The lookup of a page is right if it and all
slices compare as they should.
-/

namespace Unikraft.Uksparsebuf

open List SearchTree SearchTree.Tree

structure Slice where
  pgoff : Nat
  /-- In 31 bits. -/
  npages : Nat
  buf : Nat
  deriving DecidableEq

def sparsebufMapCmp (a b : Nat) : Int := ((a : Int) - b + 2 ^ 31) % 2 ^ 32 - 2 ^ 31

/-- `none` is a failed assertion. -/
def sparsebufRbInsert (map : SearchTree.Tree Slice) (blk : Slice) : Option (SearchTree.Tree Slice) :=
  match map.insert sparsebufMapCmp Slice.pgoff blk with
  | (map, none) => some map
  | (_, some _) => none

/-- A cursor: the slices from the one that is found on. There are none if the buffer is empty. -/
def ukSparsebufLookup (map : SearchTree.Tree Slice) (pgoff : Nat) : List Slice :=
  (map.pfind sparsebufMapCmp Slice.pgoff pgoff none []).getD map.toList

/-- The address of the byte, if it is not in a gap, and the length. -/
def ukSparsebufMemat (off : Nat) : List Slice → Option (Option Nat × Nat)
  | [] => none
  | sl :: cur =>
    if off / 4096 < sl.pgoff then some (none, (2 ^ 64 + sl.pgoff * 4096 % 2 ^ 64 - off) % 2 ^ 64)
    else if off / 4096 < (sl.pgoff + sl.npages) % 2 ^ 64 then
      let sloff := (2 ^ 64 + off - sl.pgoff * 4096 % 2 ^ 64) % 2 ^ 64
      some (some (sl.buf + sloff), (2 ^ 64 + sl.npages * 4096 - sloff) % 2 ^ 64)
    else ukSparsebufMemat off cur

def Compares (a b : Nat) : Prop := (sparsebufMapCmp a b < 0 ↔ a < b) ∧ (0 < sparsebufMapCmp a b ↔ b < a)

structure Holds (map : SearchTree.Tree Slice) (l : List Slice) : Prop where
  mem : ∀ sl, sl ∈ map.toList ↔ sl ∈ l
  sorted : map.toList.Pairwise (·.pgoff < ·.pgoff)

/-- The cursor begins with the last slice that does not start after `p`, or with the first one. -/
def At (l : List Slice) (p : Nat) (cur : List Slice) : Prop :=
  ∃ before, l = before ++ cur ∧
    ((∃ sl rest, cur = sl :: rest ∧ sl.pgoff ≤ p ∧ ∀ b ∈ rest, p < b.pgoff) ∨ before = [] ∧ ∀ b ∈ cur, p < b.pgoff)

/-- The byte is after all slices, in a gap before a slice, or in a slice. -/
def Answers (l : List Slice) (off : Nat) : Option (Option Nat × Nat) → Prop
  | none => ∀ b ∈ l, b.pgoff + b.npages ≤ off / 4096
  | some (none, n) => ∃ sl ∈ l, 0 < n ∧ off + n = sl.pgoff * 4096 ∧
      ∀ b ∈ l, b.pgoff + b.npages ≤ off / 4096 ∨ sl.pgoff ≤ b.pgoff
  | some (some a, n) => ∃ sl ∈ l, 0 < n ∧ sl.pgoff * 4096 ≤ off ∧ a + sl.pgoff * 4096 = sl.buf + off ∧
      off + n = (sl.pgoff + sl.npages) * 4096

/-- The buffer has the slices `l` in order, finds the right one for every page, and answers for every byte. -/
structure Correct (l : List Slice) (map : SearchTree.Tree Slice) : Prop where
  holds : Holds map l
  lookup : ∀ p < 2 ^ 64, At map.toList p (ukSparsebufLookup map p)
  memat : ∀ off < 2 ^ 64, Answers l off (ukSparsebufMemat off (ukSparsebufLookup map (off / 4096)))

/-- Page offsets have 64 bits and lengths 31, and the slices are disjoint. -/
structure Valid (l : List Slice) : Prop where
  pgoff : ∀ a ∈ l, a.pgoff < 2 ^ 64
  npages : ∀ a ∈ l, a.npages < 2 ^ 31
  nodup : (l.map Slice.pgoff).Nodup
  apart : ∀ a ∈ l, ∀ b ∈ l, a.pgoff < b.pgoff → a.pgoff + a.npages ≤ b.pgoff

variable {map : SearchTree.Tree Slice} {l A cur : List Slice} {p off : Nat}

private theorem Holds.insert {blk : Slice} (h : Holds map l)
    (hc : ∀ a ∈ blk :: l, ∀ b ∈ blk :: l, Compares a.pgoff b.pgoff)
    (hnew : ∀ b ∈ l, b.pgoff ≠ blk.pgoff) : ∃ map', sparsebufRbInsert map blk = some map' ∧
    Holds map' (blk :: l) := by
  have hsub : ∀ a ∈ blk :: map.toList, a ∈ blk :: l := by simp [h.mem]
  have hsorted : Sorted sparsebufMapCmp Slice.pgoff map.toList :=
    h.sorted.imp_of_mem fun ha hb hlt => (hc _ (hsub _ (by simp [ha])) _ (hsub _ (by simp [hb]))).1.2 hlt
  have hordered : Ordered sparsebufMapCmp (blk.pgoff :: map.toList.map Slice.pgoff) := by
    rw [← map_cons]
    simp only [Ordered, forall_mem_map]
    intro a ha b hb
    have hab := hc a (hsub a ha) b (hsub b hb)
    have hba := hc b (hsub b hb) a (hsub a ha)
    unfold Compares at hab hba
    refine ⟨by omega, by omega, fun x hx hlt hlt' => ?_⟩
    have hbx := (hc b (hsub b hb) x (hsub x hx)).1.1 hlt'
    exact (hc a (hsub a ha) x (hsub x hx)).1.2 (by omega)
  obtain ⟨hprev, hmem, hsort⟩ := insert_spec hsorted hordered fun b hb => hnew b ((h.mem b).1 hb)
  unfold sparsebufRbInsert
  generalize map.insert sparsebufMapCmp Slice.pgoff blk = r at hprev hmem hsort ⊢
  obtain ⟨map', prev⟩ := r
  cases hprev
  refine ⟨map', rfl, fun b => by simp [hmem, h.mem], hsort.imp_of_mem fun ha hb hlt => ?_⟩
  exact (hc _ (hsub _ (by simpa using (hmem _).1 ha)) _ (hsub _ (by simpa using (hmem _).1 hb))).1.1 hlt

/-- All slices that start at or before the page start at or before the one that is found. -/
private theorem At.le {x y : Slice} (h : At l p (x :: cur)) (hs : l.Pairwise (·.pgoff < ·.pgoff)) (hy : y ∈ l)
    (hp : y.pgoff ≤ p) : y.pgoff ≤ x.pgoff := by
  obtain ⟨before, rfl, ⟨sl, rest, heq, -, hrest⟩ | ⟨rfl, hall⟩⟩ := h
  · cases heq
    rcases mem_append.1 hy with hy | hy
    · exact Nat.le_of_lt ((pairwise_append.1 hs).2.2 y hy x mem_cons_self)
    · rcases mem_cons.1 hy with rfl | hy
      · exact Nat.le_refl _
      · exact absurd (hrest y hy) (by omega)
  · exact absurd (hall y hy) (by omega)

/-- A slice after the page is found only if it is the first one. -/
private theorem At.first {x y : Slice} (h : At l p (x :: cur)) (hs : l.Pairwise (·.pgoff < ·.pgoff)) (hy : y ∈ l)
    (hp : p < x.pgoff) : x.pgoff ≤ y.pgoff := by
  obtain ⟨before, rfl, ⟨sl, rest, heq, hle, -⟩ | ⟨rfl, -⟩⟩ := h
  · cases heq
    omega
  · rcases mem_cons.1 hy with rfl | hy
    · exact Nat.le_refl _
    · exact Nat.le_of_lt ((pairwise_cons.1 hs).1 y hy)

section
variable (left right : SearchTree.Tree Slice) (r : Slice)

end

private theorem Holds.length_eq (h : Holds map l) (hl : Valid l) : map.toList.length = l.length := by
  have hnodup : map.toList.Nodup := h.sorted.imp fun hlt heq => by
    rw [heq] at hlt
    exact Nat.lt_irrefl _ hlt
  exact ((perm_ext_iff_of_nodup hnodup (hl.nodup.of_map _)).2 h.mem).length_eq

end Unikraft.Uksparsebuf
