import Mathlib.Data.Set.Card
import Unikraft.Buddy.Chunks
import Unikraft.Lib.Runs

/-!
# Runs of the page allocator

Freed pages are a sequence of blocks, and each one is merged with its buddy as long as this is a free chunk. The state
of a run has the ranges of bytes the allocator was given, and the live allocations as ranges of pages, to which their
users may write; a step fails that fails an assertion or accesses a bitmap out of its bounds. Since no two free chunks
are buddies, they are the maximal aligned blocks of free pages, and `bbuddy_palloc` fails only if no aligned run of
free pages is large enough. `bbuddy_pmaxalloc` shifts an `int`.
-/

namespace Unikraft.Buddy

open Function (update_of_ne update_self)
open AlignedBlocks

variable {b b' : Bbpalloc} {F : Finset Nat} {C : Set Block} {S : Set Nat} {m n p k x base fuel : Nat}

section
variable {B c : Block}

private theorem merge_eq (hr : b.Regions) (h : Chunks b C S) (hB : ∀ x ∈ B, x ∉ S) (hS : ∀ x ∈ S, b.Free x)
    (hfree : ∀ x, b.Free x → x ∈ S ∨ x ∈ B) (hbound : ∀ x ∈ B, 0 < x ∧ x < 2 ^ 52 - 1) (hfuel : 51 < fuel + B.order) :
    ∃ B' C' b', bbuddyMerge fuel b B.first B.order = some (B'.first, B'.order, b') ∧ B ≤ B' ∧
    (∀ x ∈ B', x ∈ B ∨ x ∈ S) ∧
      Chunks b' C' (S \ {x | x ∈ B'}) ∧ B'.buddy ∉ C' ∧ b.SameMap b' := by
  induction fuel generalizing b C S B with
  | zero =>
    have := order_lt hbound
    omega
  | succ fuel ih =>
    obtain ⟨v, hv, hvfree⟩ := allocatedInMap_eq hr B.buddy.first
    have hstep : bbuddyMerge (fuel + 1) b B.first B.order =
        if v = true ∨ b.pageOrder B.buddy.first ≠ B.order then some (B.first, B.order, b)
        else bbuddyMerge fuel (ukHlistDel b B.buddy.first) B.parent.first B.parent.order := by
      rw [bbuddyMerge, if_pos (order_lt hbound)]
      change (allocatedInMap b B.buddy.first).bind _ = _
      rw [hv, parent_first]
      rfl
    rw [hstep]
    by_cases hstop : v = true ∨ b.pageOrder B.buddy.first ≠ B.order
    · have hbuddy : B.buddy ∉ C := by
        intro hc
        have hv' := hvfree.2 (hS _ (h.decomp.mem hc (first_mem _)))
        rw [hv', h.pageOrder _ hc] at hstop
        simp at hstop
      have hset : S \ {x | x ∈ B} = S := by
        refine Set.ext fun x => ⟨fun hx => hx.1, fun hx => ⟨hx, fun hxB => hB x hxB hx⟩⟩
      refine ⟨B, C, b, if_pos hstop, fun x hx => hx, fun x hx => .inl hx, ?_, hbuddy, .refl b⟩
      rwa [hset]
    · rw [if_neg hstop]
      rw [not_or, Bool.not_eq_true, not_not] at hstop
      have hfirst : B.buddy.first ∈ S := by
        refine (hfree _ (hvfree.1 hstop.1)).resolve_right fun hx => not_mem_buddy hx (first_mem _)
      obtain ⟨c, hc, hcf, -⟩ := h.decomp.exists_first hB hfirst
      have hcB : c = B.buddy := by
        refine eq_of_mem_of_order (first_mem c) (hcf ▸ first_mem _) ?_
        rw [← h.pageOrder c hc, hcf, hstop.2, buddy_order]
      subst hcB
      have hdel := h.del hc
      have hparent : ∀ x, x ∈ B.parent → x ∉ S \ {x | x ∈ B.buddy} := by
        intro x hx hxS
        rcases mem_parent.1 hx with hx | hx
        · exact hB x hx hxS.1
        · exact hxS.2 hx
      have hfree' : ∀ x, b.Free x → x ∈ S \ {x | x ∈ B.buddy} ∨ x ∈ B.parent := by
        intro x hx
        by_cases hxb : x ∈ B.buddy
        · exact .inr (mem_parent.2 (.inr hxb))
        · rcases hfree x hx with hxS | hxB
          · exact .inl ⟨hxS, hxb⟩
          · exact .inr (mem_parent.2 (.inl hxB))
      have hbound' : ∀ x ∈ B.parent, 0 < x ∧ x < 2 ^ 52 - 1 := by
        intro x hx
        rcases mem_parent.1 hx with hx | hx
        · exact hbound x hx
        · exact (hS x (h.decomp.mem hc hx)).bound hr
      obtain ⟨B', C', b', hmerge, hle, hmem, hch, hbuddy, hsame⟩ := ih (b := ukHlistDel b B.buddy.first)
        ⟨hr.ok, hr.disjoint⟩ hdel hparent (fun x hx => hS x hx.1) hfree' hbound' (by rw [parent_order]; omega)
      refine ⟨B', C', b', hmerge, fun x hx => hle x (mem_parent.2 (.inl hx)), fun x hx => ?_, ?_, hbuddy,
        hsame.memrHead, hsame.memr, hsame.nrFreePages⟩
      · rcases hmem x hx with hx | hx
        · exact (mem_parent.1 hx).imp id fun hx => h.decomp.mem hc hx
        · exact .inr hx.1
      · have hset : (S \ {x | x ∈ B.buddy}) \ {x | x ∈ B'} = S \ {x | x ∈ B'} := by
          refine Set.ext fun x => ⟨fun hx => ⟨hx.1.1, hx.2⟩, fun hx => ⟨⟨hx.1, fun hxb => hx.2 ?_⟩, hx.2⟩⟩
          exact hle x (mem_parent.2 (.inr hxb))
        rwa [hset] at hch

private theorem Sound.freeBlock (h : Sound b F) (hm : m ∈ b.memrHead) (hfirst : (b.memr m).firstPage ≤ B.first)
    (hlast : B.first + 2 ^ B.order ≤ (b.memr m).firstPage + (b.memr m).nrPages) (hB : ∀ x ∈ B, x ∉ F) :
    ∃ (B' : Block) (b1 b2 : Bbpalloc), bbuddyMerge 52 b B.first B.order = some (B'.first, B'.order, b1) ∧
      mapFree (b1.setPageOrder B'.first B'.order) B.first (2 ^ B.order) = some b2 ∧
      Sound (ukHlistAddHead b2 B'.first B'.order) (F ∪ Finset.Ico B.first (B.first + 2 ^ B.order)) ∧
      b.SameRegions (ukHlistAddHead b2 B'.first B'.order) := by
  obtain ⟨C, hC⟩ := h.chunks
  have hok := h.regions.ok m hm
  have hbound : ∀ x ∈ B, 0 < x ∧ x < 2 ^ 52 - 1 := by
    intro x hx
    have h1 := hok.start
    have h2 := hok.last
    rw [mem_def] at hx
    omega
  have hfuel : 51 < 52 + B.order := by omega
  obtain ⟨B', C', b1, hmerge, hle, hmem, hch, hbuddy, hsame⟩ := merge_eq h.regions hC hB
    (fun x hx => (h.free x).1 hx) (fun x hx => .inl ((h.free x).2 hx)) hbound hfuel
  have hmap : b.SameMap (b1.setPageOrder B'.first B'.order) := ⟨hsame.memrHead, hsame.memr, hsame.nrFreePages⟩
  have hcard := h.card_lt
  have hpow := Nat.two_pow_pos B.order
  rw [← hmap.memr] at hfirst hlast
  rw [← hmap.memrHead] at hm
  obtain ⟨b2, hfree, hr, hl, hnr, hbits⟩ := mapFree_eq (hmap.sameRegions.regions h.regions) hm hfirst hpow hlast
    (by rw [hmap.nrFreePages, h.nrFreePages]; have := hok.last; rw [hmap.memr] at hlast; omega)
  have hch' := ((hch.setPageOrder fun hx => hx.2 (first_mem B')).congr hl).add
    (fun x hx hxS => hxS.2 hx) hbuddy (by rw [hl.pageOrder]; exact update_self ..)
  have hset : ((↑F : Set Nat) \ {x | x ∈ B'}) ∪ {x | x ∈ B'} =
      (F ∪ Finset.Ico B.first (B.first + 2 ^ B.order) : Finset Nat) := by
    refine Set.ext fun x => ?_
    rw [Finset.mem_coe, Finset.mem_union, Finset.mem_Ico]
    constructor
    · rintro (hx | hx)
      · exact .inl hx.1
      · exact (hmem x hx).symm
    · rintro (hx | hx)
      · by_cases hxB : x ∈ B'
        · exact .inr hxB
        · exact .inl ⟨hx, hxB⟩
      · exact .inr (hle x hx)
  rw [hset] at hch'
  have hregions := hmap.sameRegions.trans hr
  refine ⟨B', b1, b2, hmerge, hfree, ⟨?_, fun x => ?_, ?_, _, hch'⟩, ?_⟩
  · exact ⟨(hregions.regions h.regions).ok, (hregions.regions h.regions).disjoint⟩
  · rw [Finset.mem_union, Finset.mem_Ico, h.free, ← hmap.free, ← hbits]
    rfl
  · have hdisj : Disjoint F (Finset.Ico B.first (B.first + 2 ^ B.order)) := by
      refine Finset.disjoint_left.2 fun x hx hxB => hB x (Finset.mem_Ico.1 hxB) hx
    rw [Finset.card_union_of_disjoint hdisj, Nat.card_Ico]
    change b2.nrFreePages = _
    rw [hnr, hmap.nrFreePages, h.nrFreePages]
    omega
  · exact ⟨hregions.memrHead, hregions.firstPage, hregions.nrPages, hregions.mmAllocBitmapSize⟩

section
variable (h : Sound b F) (hm : m ∈ b.memrHead) (hfirst : (b.memr m).firstPage ≤ base)
  (hlast : base + n ≤ (b.memr m).firstPage + (b.memr m).nrPages) (hn : 0 < n)
  (hout : ∀ x, base ≤ x → x < base + n → x ∉ F)
include h hm hfirst hlast hn hout

private theorem pfreeLoop_eq (hfuel : n ≤ fuel) :
    ∃ b', pfreeLoop fuel b base n = some b' ∧ Sound b' (F ∪ Finset.Ico base (base + n)) ∧ b.SameRegions b' := by
  induction fuel generalizing b F base n with
  | zero => omega
  | succ fuel ih =>
    have hend := (h.regions.ok m hm).last
    have hstart := (h.regions.ok m hm).start
    have hle : ptrOrder base (npagesOrder n) ≤ n.log2 := by
      rw [ptrOrder, if_neg (by omega)]
      exact Nat.min_le_right ..
    have hdvd : 2 ^ ptrOrder base (npagesOrder n) ∣ base := by
      rw [ptrOrder, if_neg (by omega)]
      exact (Nat.pow_dvd_pow 2 (Nat.min_le_left ..)).trans (Bits.two_pow_lowestSet_dvd (by omega))
    have hlen : 2 ^ ptrOrder base (npagesOrder n) ≤ n :=
      Nat.le_trans (Nat.pow_le_pow_right (by decide) hle) (Nat.log2_self_le (by omega))
    have h52 : ptrOrder base (npagesOrder n) < 52 := Nat.lt_of_le_of_lt hle ((Nat.log2_lt (by omega)).2 (by omega))
    rw [pfreeLoop]
    generalize ptrOrder base (npagesOrder n) = ord at hle hdvd hlen h52
    obtain ⟨B', b1, b2, hmerge, hfree, hsound, hsame⟩ := h.freeBlock (B := ⟨base, ord, hdvd⟩) hm hfirst
      (by change base + 2 ^ ord ≤ _; omega)
        (fun x hx => hout x hx.1 (by have := hx.2; change x < base + 2 ^ ord at this; omega))
    simp only [guard, if_pos h52, if_pos hlen, Option.bind_eq_bind, Option.bind_some, hmerge, hfree]
    split
    next =>
      have hnpow : n = 2 ^ ord := by omega
      refine ⟨_, rfl, ?_, hsame⟩
      rwa [hnpow]
    next =>
      rw [addPages_of_lt (by omega)]
      rw [← hsame.memrHead] at hm
      rw [← hsame.firstPage] at hfirst
      rw [← hsame.firstPage, ← hsame.nrPages] at hlast
      have hout' : ∀ x, base + 2 ^ ord ≤ x → x < base + 2 ^ ord + (n - 2 ^ ord) →
        x ∉ F ∪ Finset.Ico base (base + 2 ^ ord) := by
        intro x h1 h2 hx
        rw [Finset.mem_union, Finset.mem_Ico] at hx
        rcases hx with hx | hx
        · exact hout x (by omega) (by omega) hx
        · omega
      obtain ⟨b', hloop, hsound', hsame'⟩ := ih hsound hm (by omega) (by omega) (by omega) hout' (by omega)
      have hset : F ∪ Finset.Ico base (base + 2 ^ ord) ∪ Finset.Ico (base + 2 ^ ord)
        (base + 2 ^ ord + (n - 2 ^ ord)) =
          F ∪ Finset.Ico base (base + n) := by
        rw [Finset.union_assoc, Finset.Ico_union_Ico_eq_Ico (by omega) (by omega)]
        congr 2
        omega
      refine ⟨b', hloop, ?_, hsame.trans hsame'⟩
      rwa [hset] at hsound'

private theorem pfree_eq : ∃ b', bbuddyPfree b base n = some b' ∧ Sound b' (F ∪ Finset.Ico base (base + n)) ∧
    b.SameRegions b' := by
  have hstart := (h.regions.ok m hm).start
  obtain ⟨b', hloop, hsound, hsame⟩ := pfreeLoop_eq h hm hfirst hlast hn hout (Nat.le_refl n)
  refine ⟨b', ?_, hsound, hsame⟩
  have hbase : base ≠ 0 := by omega
  simp only [bbuddyPfree, guard, if_pos hbase, if_pos (Nat.ne_of_gt hn), Option.bind_eq_bind, Option.bind_some,
      Option.pure_def,
    hloop]

end

end

section
variable {min range len : Nat}

private theorem testBit_of_dvd (h : 2 ^ k ∣ x) : x.testBit k = true ↔ ¬2 ^ (k + 1) ∣ x := by
  obtain ⟨q, rfl⟩ := h
  rw [Nat.testBit_two_pow_mul, Nat.pow_succ, Nat.mul_dvd_mul_iff_left (Nat.two_pow_pos _)]
  simp

private theorem unitOrder_eq (hmin : 0 < min) (hlt : min + range < 2 ^ 52) (hk : 2 ^ k ∣ min) (hr : 2 ^ k ≤ range)
    (hfuel : k + fuel = 51) :
    ∃ i, unitOrder min range fuel k = some i ∧ 2 ^ i ∣ min ∧ 2 ^ i ≤ range ∧
    (2 ^ (i + 1) ∣ min → range < 2 ^ (i + 1)) := by
  induction fuel generalizing k with
  | zero =>
    have h51 : k = 51 := by omega
    subst h51
    omega
  | succ fuel ih =>
    rw [unitOrder]
    split
    next hmore =>
      split
      next hbit =>
        exact ⟨k, rfl, hk, hr, fun hd => absurd hd ((testBit_of_dvd hk).1 hbit)⟩
      next hbit =>
        exact ih (not_not.1 (mt (testBit_of_dvd hk).2 hbit)) hmore (by omega)
    next hmore =>
      exact ⟨k, rfl, hk, hr, fun _ => Nat.not_le.1 hmore⟩

/-- The pages from `min` on become chunks. If a chunk that ends at `min` could be merged with one from there, it would
have been made larger. -/
private theorem addLoop_eq (h : Chunks b C S) (hmin : 0 < min) (hlt : min + range < 2 ^ 52)
    (hS : ∀ x, min ≤ x → x ≤ min + range → x ∉ S)
    (hlast : ∀ d ∈ C, d.first + 2 ^ d.order = min → 2 ^ (d.order + 1) ∣ d.first → range < 2 ^ d.order)
    (hfuel : range < fuel) :
    ∃ b' C', addLoop fuel b min range = some b' ∧ Chunks b' C' (S ∪ {x | min ≤ x ∧ x < min + range}) ∧
    b.SameMap b' := by
  induction fuel generalizing b C S min range with
  | zero => omega
  | succ fuel ih =>
    rw [addLoop]
    by_cases h0 : range = 0
    · subst h0
      have hempty : S ∪ {x | min ≤ x ∧ x < min + 0} = S := by
        refine Set.union_eq_self_of_subset_right fun x hx => ?_
        have := hx.1
        have := hx.2
        omega
      refine ⟨b, C, if_pos rfl, ?_, .refl b⟩
      rwa [hempty]
    · have h51 : 0 + 51 = 51 := rfl
      obtain ⟨i, hi, hdvd, hle, hmax⟩ := unitOrder_eq hmin hlt (Nat.one_dvd _) (by omega) h51
      rw [if_neg h0, hi]
      simp only [Option.bind_eq_bind, Option.bind_some]
      rw [addPages_of_lt (by omega)]
      let c : Block := ⟨min, i, hdvd⟩
      have hmem : ∀ x, x ∈ c ↔ min ≤ x ∧ x < min + 2 ^ i := fun x => Iff.rfl
      have hcS : ∀ x ∈ c, x ∉ S := fun x hx => hS x hx.1 (by have := (hmem x).1 hx; omega)
      have hbuddy : c.buddy ∉ C := by
        intro hc
        rcases buddy_first c with ⟨-, hf⟩ | ⟨-, heven, hf⟩
        · have hin := h.decomp.mem hc (first_mem _)
          rw [hf] at hin
          exact hS (min + 2 ^ i) (by omega) (by omega) hin
        · have hr : range < 2 ^ i := hlast c.buddy hc hf ((index_even_iff _).1 heven)
          omega
      have hadd := (h.setPageOrder (hcS c.first (first_mem c))).add hcS hbuddy (update_self ..)
      have hS' : ∀ x, min + 2 ^ i ≤ x → x ≤ min + 2 ^ i + (range - 2 ^ i) → x ∉ S ∪ {x | x ∈ c} := by
        rintro x h1 h2 (hx | hx)
        · exact hS x (by omega) (by omega) hx
        · have := (hmem x).1 hx
          omega
      have hlast' : ∀ d ∈ insert c C, d.first + 2 ^ d.order = min + 2 ^ i → 2 ^ (d.order + 1) ∣ d.first →
          range - 2 ^ i < 2 ^ d.order := by
        rintro d (rfl | hd) hend hd2
        · have hr : range < 2 ^ (i + 1) := hmax hd2
          change range - 2 ^ i < 2 ^ i
          omega
        · have hin : min + 2 ^ i - 1 ∈ S := h.decomp.mem hd ⟨by omega, by omega⟩
          exact absurd hin (hS _ (by omega) (by omega))
      obtain ⟨b', C', hloop, hch, hsame⟩ := ih hadd (by omega) (by omega) hS' hlast' (by omega)
      refine ⟨b', C', hloop, ?_, hsame.memrHead, hsame.memr, hsame.nrFreePages⟩
      have hset : S ∪ {x | x ∈ c} ∪ {x | min + 2 ^ i ≤ x ∧ x < min + 2 ^ i + (range - 2 ^ i)} =
          S ∪ {x | min ≤ x ∧ x < min + range} := by
        refine Set.ext fun x => or_assoc.trans (or_congr_right ((or_congr_left (hmem x)).trans ?_))
        change (_ ∨ min + 2 ^ i ≤ x ∧ x < min + 2 ^ i + (range - 2 ^ i)) ↔ (min ≤ x ∧ x < min + range)
        omega
      rwa [hset] at hch

/-- The pages of the region that a range of bytes gives: its first page and their number, bookkeeping included. A
range that ends with the address space is refused, since its end wraps around to 0. -/
def regionOf (base len : Nat) : Option (Nat × Nat) :=
  let min := (base + 4095) / 4096
  let max := (base + len) % 2 ^ 64 / 4096
  if min + 2 ≤ max then some (min, max - min) else none

private theorem memrPages_lt (h : 2 ≤ n) : 0 < memrPages n ∧ memrPages n < n := by
  rw [memrPages]
  omega

private theorem memrPages_bits (h : 2 ≤ n) : 8 * ((n - memrPages n) / 64 + 1) ≤ 4096 * memrPages n - 40 := by
  have : 40 + (n + 7) / 8 ≤ 4096 * memrPages n := by
    rw [memrPages]
    omega
  omega

def Bbpalloc.Apart (b : Bbpalloc) (m n : Nat) : Prop :=
  ∀ k ∈ b.memrHead, ∀ x, k ≤ x → x < (b.memr k).firstPage + (b.memr k).nrPages → ¬(m ≤ x ∧ x < m + n)

private theorem Bbpalloc.Apart.not_mem (h : b.Apart m n) (hr : b.Regions) (hn : 0 < n) : m ∉ b.memrHead := by
  intro hm
  have h1 := (hr.ok m hm).start
  exact h m hm m (Nat.le_refl _) (by omega) ⟨Nat.le_refl _, by omega⟩

private theorem initRegion_memrHead (hm : 0 < m) : (initRegion b m n).memrHead = m :: b.memrHead :=
  if_neg (Nat.ne_of_gt hm)

private theorem initRegion_memr (hk : k ≠ m) : (initRegion b m n).memr k = b.memr k := update_of_ne hk ..

private theorem initRegion_firstPage (hlt : m + memrPages n < 2 ^ 52) :
    ((initRegion b m n).memr m).firstPage = m + memrPages n := by
  simp only [initRegion, update_self]
  exact addPages_of_lt hlt

private theorem initRegion_nrPages : ((initRegion b m n).memr m).nrPages = n - memrPages n := by
  simp only [initRegion, update_self]

private theorem initRegion_regions (hr : b.Regions) (ha : b.Apart m n) (hm : 0 < m) (hn : 2 ≤ n)
    (hlt : m + n < 2 ^ 52) :
    (initRegion b m n).Regions := by
  have hpages := memrPages_lt hn
  have hne : ∀ k ∈ b.memrHead, (initRegion b m n).memr k = b.memr k :=
    fun k hk => initRegion_memr fun he => ha.not_mem hr (by omega) (he ▸ hk)
  have hfirst := initRegion_firstPage (b := b) (m := m) (n := n) (by omega)
  have hnr := initRegion_nrPages (b := b) (m := m) (n := n)
  have hbytes : ((initRegion b m n).memr m).mmAllocBitmapSize = 4096 * memrPages n - 40 := by
    simp only [initRegion, update_self]
  have hbits := memrPages_bits hn
  constructor
  · intro k hk
    rw [initRegion_memrHead hm, List.mem_cons] at hk
    rcases hk with rfl | hk
    · refine ⟨hm, by omega, by omega, by omega, by omega, ?_⟩
      rw [hnr, hbytes]
      exact hbits
    · rw [hne k hk]
      exact hr.ok k hk
  · intro k hk k' hk' x h1 h2 h3 h4
    rw [initRegion_memrHead hm, List.mem_cons] at hk hk'
    rcases hk with rfl | hk <;> rcases hk' with rfl | hk'
    · rfl
    · rw [hne k' hk'] at h4
      exact absurd ⟨h1, by omega⟩ (ha k' hk' x h3 h4)
    · rw [hne k hk] at h2
      exact absurd ⟨h3, by omega⟩ (ha k hk x h1 h2)
    · rw [hne k hk] at h2
      rw [hne k' hk'] at h4
      exact hr.disjoint k hk k' hk' x h1 h2 h3 h4

private theorem initRegion_free (hr : b.Regions) (ha : b.Apart m n) (hm : 0 < m) (hn : 2 ≤ n) :
    (initRegion b m n).Free x ↔
    b.Free x := by
  have hne : ∀ k ∈ b.memrHead, (initRegion b m n).memr k = b.memr k :=
    fun k hk => initRegion_memr fun he => ha.not_mem hr (by omega) (he ▸ hk)
  rw [Bbpalloc.Free, initRegion_memrHead hm]
  constructor
  · rintro ⟨k, hk, hx, hbit⟩
    rcases List.mem_cons.1 hk with rfl | hk
    · simp only [Memr.bit, initRegion, update_self, BitVec.getLsbD_allOnes, decide_eq_false_iff_not] at hbit
      exact absurd (Nat.mod_lt _ (by decide)) hbit
    · rw [hne k hk] at hx hbit
      exact ⟨k, hk, hx, hbit⟩
  · rintro ⟨k, hk, hx, hbit⟩
    refine ⟨k, List.mem_cons_of_mem _ hk, ?_⟩
    rw [hne k hk]
    exact ⟨hx, hbit⟩

/-- The end of the range is an address, and rounding up its start does not wrap around, unless the range ends with the
address space. -/
def NoWrap (base len : Nat) : Prop := base + len ≤ 2 ^ 64 ∧ ¬(2 ^ 64 - 4096 < base ∧ base + len < 2 ^ 64)

private theorem addmem_eq_inval (hb : base ≠ 0) (hw : NoWrap base len) (hreg : regionOf base len = none) :
    bbuddyAddmem b base len = some (-EINVAL, b) := by
  obtain ⟨hle, hwrap⟩ := hw
  have hno : ¬(base + 4095) / 4096 + 2 ≤ (base + len) % 2 ^ 64 / 4096 := by
    intro hc
    rw [regionOf, if_pos hc] at hreg
    cases hreg
  simp only [bbuddyAddmem, guard, if_pos hb, Option.bind_eq_bind, Option.bind_some, Option.pure_def]
  by_cases hlt : (base + len) % 2 ^ 64 / 4096 < (base + 4095) % 2 ^ 64 / 4096
  · rw [if_pos hlt]
  · rw [if_neg hlt, if_pos (by omega)]

private theorem addmem_eq (h : Sound b F) (hb : base ≠ 0) (hreg : regionOf base len = some (m, n))
    (ha : b.Apart m n) :
    ∃ b', bbuddyAddmem b base len = some (0, b') ∧ Sound b' (F ∪ Finset.Ico (m + memrPages n) (m + n)) ∧
      (initRegion b m n).SameRegions b' := by
  have hc : (base + 4095) / 4096 + 2 ≤ (base + len) % 2 ^ 64 / 4096 := by
    by_contra hno
    rw [regionOf, if_neg hno] at hreg
    cases hreg
  rw [regionOf, if_pos hc, Option.some.injEq, Prod.mk.injEq] at hreg
  have hmin : (base + 4095) % 2 ^ 64 / 4096 = m := by omega
  have hrange : (base + len) % 2 ^ 64 / 4096 - m = n := by omega
  have hm0 : 0 < m := by omega
  have hn2 : 2 ≤ n := by omega
  have hlt : m + n < 2 ^ 52 := by omega
  have hpages := memrPages_lt hn2
  have hregs := initRegion_regions h.regions ha hm0 hn2 hlt
  have hhead : m ∈ (initRegion b m n).memrHead := by
    rw [initRegion_memrHead hm0]
    exact List.mem_cons_self ..
  have hfirst := initRegion_firstPage (b := b) (m := m) (n := n) (by omega)
  have hnr := initRegion_nrPages (b := b) (m := m) (n := n)
  have hcard := h.card_lt
  obtain ⟨b1, hfree, hr, hl, hnr1, hbits⟩ := mapFree_eq (p := m + memrPages n) (n := n - memrPages n) hregs hhead
    (by omega) (by omega) (by omega) (by change b.nrFreePages + _ < _; rw [h.nrFreePages]; omega)
  obtain ⟨C, hC⟩ := h.chunks
  -- the pages of the region, the one before them and the one after them are not on the lists
  have hout : ∀ x, m ≤ x → x ≤ m + n → x ∉ F := by
    intro x h1 h2 hx
    obtain ⟨k, hk, hhas, -⟩ := (h.free x).1 hx
    have hk1 := (h.regions.ok k hk).start
    have hx1 := hhas.1
    have hx2 := hhas.2
    by_cases hlast : x = m + n
    · exact ha k hk (x - 1) (by omega) (by omega) ⟨by omega, by omega⟩
    · exact ha k hk x (by omega) (by omega) ⟨by omega, by omega⟩
  have hends : ∀ d ∈ C, d.first + 2 ^ d.order = m + memrPages n → 2 ^ (d.order + 1) ∣ d.first →
    n - memrPages n < 2 ^ d.order := by
    intro d hd hend
    have hpow := Nat.two_pow_pos d.order
    have hin : m + memrPages n - 1 ∈ F := hC.decomp.mem hd ⟨by omega, by omega⟩
    exact absurd hin (hout _ (by omega) (by omega))
  have hC1 : Chunks b1 C F := hC.congr ⟨hl.freeHead, hl.pageOrder⟩
  have hlt52 : m + memrPages n + (n - memrPages n) < 2 ^ 52 := by omega
  obtain ⟨b2, C2, hloop, hch, hsame⟩ :=
    addLoop_eq hC1 (by omega) hlt52 (fun x h1 h2 => hout x (by omega) (by omega)) hends (Nat.lt_succ_self _)
  have hsum : m + memrPages n + (n - memrPages n) = m + n := by omega
  rw [hsum] at hch hbits
  have hset : (↑F : Set Nat) ∪ {x | m + memrPages n ≤ x ∧ x < m + n} =
    (F ∪ Finset.Ico (m + memrPages n) (m + n) : Finset Nat) := by
    refine Set.ext fun x => ?_
    rw [Finset.mem_coe, Finset.mem_union, Finset.mem_Ico]
    rfl
  rw [hset] at hch
  have hregions := hr.trans hsame.sameRegions
  refine ⟨b2, ?_, ⟨hregions.regions hregs, fun x => ?_, ?_, C2, hch⟩, hregions⟩
  · simp only [bbuddyAddmem, guard, if_pos hb, Option.bind_eq_bind, Option.pure_def, hmin, hrange]
    rw [if_neg (by omega), if_neg (by omega), addPages_of_lt (by omega), hfree]
    simp only [Option.bind_some, hloop]
  · rw [hsame.free, hbits, initRegion_free h.regions ha hm0 hn2, ← h.free, Finset.mem_union, Finset.mem_Ico]
  · have hdisj : Disjoint F (Finset.Ico (m + memrPages n) (m + n)) := by
      refine Finset.disjoint_left.2 fun x hx hxn => ?_
      rw [Finset.mem_Ico] at hxn
      exact hout x (by omega) (by omega) hx
    rw [Finset.card_union_of_disjoint hdisj, Nat.card_Ico, hsame.nrFreePages, hnr1]
    change b.nrFreePages + _ = _
    rw [h.nrFreePages]
    omega

end

open List Runs

structure World where
  b : Bbpalloc
  live : List (Nat × Nat)
  ranges : List (Nat × Nat)

inductive Op where
  | addmem (base len : Nat)
  | palloc (numPages : Nat)
  | pfree (obj numPages : Nat)
  | write (page v : Nat)

/-- What is left of a range of pages when those from `lo` to `hi` are freed. -/
def cut (lo hi : Nat) (r : Nat × Nat) : List (Nat × Nat) :=
  [(r.1, min r.2 lo), (max r.1 hi, r.2)].filter fun r => r.1 < r.2

def World.exec (w : World) : Op → Option World
  | .addmem base len => do
    let (_, b) ← bbuddyAddmem w.b base len
    some { w with b := b, ranges := (base, base + len) :: w.ranges }
  | .palloc numPages => do
    let (r, b) ← bbuddyPalloc w.b numPages
    match r with
    | none => some { w with b := b }
    | some p => some { w with b := b, live := (p, p + numPages) :: w.live }
  | .pfree obj numPages => do
    let b ← bbuddyPfree w.b obj numPages
    some { w with b := b, live := w.live.flatMap (cut obj (obj + numPages)) }
  | .write page v => some { w with b := w.b.setPageOrder page v }

def step (w : Option World) (op : Op) : Option World := w.bind fun w => w.exec op

def World.init (memr : Nat → Memr) (pageOrder : Nat → Nat) : World where
  b := { nrFreePages := 0, freeHead := fun _ => [], memrHead := [], memr := memr, pageOrder := pageOrder }
  live := []
  ranges := []

def Holds (l : List (Nat × Nat)) (x : Nat) : Prop := ∃ r ∈ l, r.1 ≤ x ∧ x < r.2

/-- Ranges that are added are ranges of addresses and disjoint, and only pages of live allocations are freed or
written. -/
def World.Legal (w : World) : Op → Prop
  | .addmem base len => base ≠ 0 ∧ base + len ≤ 2 ^ 64 ∧ ∀ r ∈ w.ranges, base + len ≤ r.1 ∨ r.2 ≤ base
  | .palloc numPages => 0 < numPages ∧ numPages < 2 ^ 64
  | .pfree obj numPages => 0 < numPages ∧ ∀ x, obj ≤ x → x < obj + numPages → Holds w.live x
  | .write page _ => Holds w.live page

def Legal (w : Option World) (op : Op) : Prop := ∀ w', w = some w' → w'.Legal op

/-- A range that lies in the last page of the address space and ends before it is not added. -/
def Op.Rounds : Op → Prop
  | .addmem base len => ¬(2 ^ 64 - 4096 < base ∧ base + len < 2 ^ 64)
  | _ => True

def World.regionsAfter (w : World) : Op → Bbpalloc
  | .addmem base len =>
    match regionOf base len with
    | none => w.b
    | some (m, n) => initRegion w.b m n
  | _ => w.b

section
variable {l : List (Nat × Nat)} {r s : Nat × Nat} {lo hi x : Nat}

private theorem holds_cons : Holds (r :: l) x ↔ (r.1 ≤ x ∧ x < r.2) ∨ Holds l x := by
  simp only [Holds, mem_cons, exists_eq_or_imp]

private theorem mem_cut (h : s ∈ cut lo hi r) : s.1 < s.2 ∧ r.1 ≤ s.1 ∧ s.2 ≤ r.2 ∧ (s.2 ≤ lo ∨ hi ≤ s.1) := by
  rw [cut, mem_filter, mem_cons, mem_singleton, decide_eq_true_eq] at h
  obtain ⟨rfl | rfl, hlt⟩ := h
  · exact ⟨hlt, Nat.le_refl _, Nat.min_le_left .., .inl (Nat.min_le_right ..)⟩
  · exact ⟨hlt, Nat.le_max_left .., Nat.le_refl _, .inr (Nat.le_max_right ..)⟩

private theorem holds_cut : Holds (cut lo hi r) x ↔ (r.1 ≤ x ∧ x < r.2) ∧ ¬(lo ≤ x ∧ x < hi) := by
  constructor
  · rintro ⟨s, hs, h1, h2⟩
    obtain ⟨-, h3, h4, h5⟩ := mem_cut hs
    omega
  · rintro ⟨⟨h1, h2⟩, h3⟩
    by_cases hlo : x < lo
    · refine ⟨(r.1, min r.2 lo), ?_, h1, by simp only; omega⟩
      rw [cut, mem_filter, decide_eq_true_eq]
      exact ⟨mem_cons_self .., by simp only; omega⟩
    · refine ⟨(max r.1 hi, r.2), ?_, by simp only; omega, h2⟩
      rw [cut, mem_filter, decide_eq_true_eq]
      exact ⟨mem_cons_of_mem _ (mem_cons_self ..), by simp only; omega⟩

private theorem holds_flatMap_cut : Holds (l.flatMap (cut lo hi)) x ↔ Holds l x ∧ ¬(lo ≤ x ∧ x < hi) := by
  constructor
  · rintro ⟨s, hs, hx⟩
    obtain ⟨r, hr, hs⟩ := mem_flatMap.1 hs
    obtain ⟨h1, h2⟩ := holds_cut.1 ⟨s, hs, hx⟩
    exact ⟨⟨r, hr, h1⟩, h2⟩
  · rintro ⟨⟨r, hr, h1⟩, h2⟩
    obtain ⟨s, hs, hx⟩ := holds_cut.2 ⟨h1, h2⟩
    exact ⟨s, mem_flatMap.2 ⟨r, hr, hs⟩, hx⟩

def Apart (r s : Nat × Nat) : Prop := r.2 ≤ s.1 ∨ s.2 ≤ r.1

private theorem apart_flatMap_cut (hle : lo ≤ hi) (h : l.Pairwise Apart) :
    (l.flatMap (cut lo hi)).Pairwise Apart := by
  rw [pairwise_flatMap]
  refine ⟨fun r _ => ?_, h.imp fun {r s} hrs x hx y hy => ?_⟩
  · refine List.Pairwise.filter _ (pairwise_pair.2 (.inl ?_))
    omega
  · obtain ⟨-, h1, h2, -⟩ := mem_cut hx
    obtain ⟨-, h3, h4, -⟩ := mem_cut hy
    unfold Apart at *
    omega

private theorem apart_cons (hr : r.1 < r.2) (hl : ∀ s ∈ l, s.1 < s.2) (h : ∀ x, r.1 ≤ x → x < r.2 → ¬Holds l x)
    (hp : l.Pairwise Apart) : (r :: l).Pairwise Apart := by
  refine pairwise_cons.2 ⟨fun s hs => ?_, hp⟩
  by_contra hno
  have hlt := hl s hs
  unfold Apart at hno
  exact h (max r.1 s.1) (by omega) (by omega) ⟨s, hs, by omega, by omega⟩

end

structure Inv (w : World) (F : Finset Nat) : Prop where
  sound : Sound w.b F
  nonempty : ∀ r ∈ w.live, r.1 < r.2
  apart : w.live.Pairwise Apart
  inside : ∀ x, Holds w.live x → ∃ m ∈ w.b.memrHead, (w.b.memr m).Has x
  owned : ∀ m ∈ w.b.memrHead, ∀ x, (w.b.memr m).Has x → (x ∈ F ↔ ¬Holds w.live x)
  ranges : ∀ m ∈ w.b.memrHead, ∃ r ∈ w.ranges, r.1 ≤ 4096 * m ∧
    4096 * ((w.b.memr m).firstPage + (w.b.memr m).nrPages) ≤ r.2

section
variable {w w' : World} {b' : Bbpalloc} {F : Finset Nat} {base len n p x obj page v m : Nat}

private theorem Inv.not_free (h : Inv w F) (hx : Holds w.live x) : x ∉ F := by
  obtain ⟨m, hm, hh⟩ := h.inside x hx
  exact fun hF => (h.owned m hm x hh).1 hF hx

private theorem Inv.not_live (h : Inv w F) (hx : x ∈ F) : ¬Holds w.live x := fun hl => h.not_free hl hx

/-- An allocator without memory satisfies the invariant. -/
theorem inv_init (memr : Nat → Memr) (pageOrder : Nat → Nat) : Inv (World.init memr pageOrder) ∅ where
  sound := {
    regions := ⟨(fun m hm => by cases hm), (fun m hm => by cases hm)⟩
    free x := by simp [Bbpalloc.Free, World.init]
    nrFreePages := rfl
    chunks := ⟨∅, {
      mem k p := by simp [World.init]
      nodup k := nodup_nil
      pageOrder c hc := by cases hc
      decomp := ⟨(fun c hc => by cases hc), (fun x => by simp)⟩
      buddyFree c hc := by cases hc }⟩ }
  nonempty r hr := by cases hr
  apart := List.Pairwise.nil
  inside x hx := by
    obtain ⟨r, hr, -⟩ := hx
    cases hr
  owned m hm := by cases hm
  ranges m hm := by cases hm

private theorem regionOf_le (h : regionOf base len = some (m, n)) : base ≤ 4096 * m ∧ 4096 * (m + n) ≤ base + len ∧
    2 ≤ n ∧
    m + n < 2 ^ 52 := by
  by_cases hc : (base + 4095) / 4096 + 2 ≤ (base + len) % 2 ^ 64 / 4096
  · rw [regionOf, if_pos hc, Option.some.injEq, Prod.mk.injEq] at h
    omega
  · rw [regionOf, if_neg hc] at h
    cases h

private theorem Inv.regionApart (h : Inv w F) (hreg : regionOf base len = some (m, n))
    (hd : ∀ r ∈ w.ranges, base + len ≤ r.1 ∨ r.2 ≤ base) : w.b.Apart m n := by
  obtain ⟨h1, h2, -⟩ := regionOf_le hreg
  intro k hk x hx1 hx2 hx
  obtain ⟨r, hr, hr1, hr2⟩ := h.ranges k hk
  have := hd r hr
  omega

private theorem Inv.addmem (h : Inv w F) (hl : w.Legal (.addmem base len)) (hr : (Op.addmem base len).Rounds) :
    ∃ w' F', w.exec (.addmem base len) = some w' ∧ Inv w' F' ∧
    (w.regionsAfter (.addmem base len)).SameRegions w'.b := by
  obtain ⟨hb, hle, hd⟩ := hl
  cases hreg : regionOf base len with
  | none =>
    refine ⟨_, F, by simp only [World.exec, addmem_eq_inval hb ⟨hle, hr⟩ hreg]; rfl, ?_⟩
    refine ⟨⟨h.sound, h.nonempty, h.apart, h.inside, h.owned, fun m hm => ?_⟩, ?_⟩
    · obtain ⟨r, hr, hr'⟩ := h.ranges m hm
      exact ⟨r, mem_cons_of_mem _ hr, hr'⟩
    · simp only [World.regionsAfter, hreg]
      exact .refl w.b
  | some mn =>
    obtain ⟨m, n⟩ := mn
    have hapart := h.regionApart hreg hd
    obtain ⟨b', hadd, hsound, hsame⟩ := addmem_eq h.sound hb hreg hapart
    obtain ⟨h1, h2, hn, hlt⟩ := regionOf_le hreg
    have hm0 : 0 < m := by omega
    have hpages := memrPages_lt hn
    have hhead : b'.memrHead = m :: w.b.memrHead := hsame.memrHead.trans (initRegion_memrHead hm0)
    have hnm := hapart.not_mem h.sound.regions (by omega)
    have hfirst : (b'.memr m).firstPage = m + memrPages n :=
      (hsame.firstPage m).trans (initRegion_firstPage (by omega))
    have hnr : (b'.memr m).nrPages = n - memrPages n := (hsame.nrPages m).trans initRegion_nrPages
    have hold : ∀ k ∈ w.b.memrHead, (b'.memr k).firstPage = (w.b.memr k).firstPage ∧
      (b'.memr k).nrPages = (w.b.memr k).nrPages := by
      intro k hk
      have hne : k ≠ m := fun he => hnm (he ▸ hk)
      rw [hsame.firstPage, hsame.nrPages, initRegion_memr hne]
      exact ⟨rfl, rfl⟩
    have hhas : ∀ k ∈ w.b.memrHead, ∀ x, (b'.memr k).Has x ↔ (w.b.memr k).Has x := by
      intro k hk x
      rw [Memr.Has, Memr.Has, (hold k hk).1, (hold k hk).2]
    -- the pages of the new region are in no live allocation
    have hnew : ∀ k ∈ w.b.memrHead, ∀ x, (w.b.memr k).Has x → ¬(m ≤ x ∧ x < m + n) := by
      intro k hk x hx
      have hstart := (h.sound.regions.ok k hk).start
      exact hapart k hk x (by have := hx.1; omega) hx.2
    have hafter : (w.regionsAfter (.addmem base len)).SameRegions b' := by
      simp only [World.regionsAfter, hreg]
      exact hsame
    refine ⟨{ w with b := b', ranges := (base, base + len) :: w.ranges }, _, ?_,
        ⟨hsound, h.nonempty, h.apart, ?_, ?_, ?_⟩, hafter⟩
    · simp only [World.exec, hadd]
      rfl
    · intro x hx
      obtain ⟨k, hk, hh⟩ := h.inside x hx
      exact ⟨k, hhead ▸ mem_cons_of_mem _ hk, (hhas k hk x).2 hh⟩
    · intro k hk x hx
      dsimp only at hk hx ⊢
      rw [hhead, mem_cons] at hk
      rw [Finset.mem_union, Finset.mem_Ico]
      rcases hk with rfl | hk
      · have hx1 := hx.1
        have hx2 := hx.2
        refine ⟨fun _ hlive => ?_, fun _ => .inr (by omega)⟩
        obtain ⟨k', hk', hh⟩ := h.inside x hlive
        exact hnew k' hk' x hh (by omega)
      · rw [hhas k hk] at hx
        rw [← h.owned k hk x hx]
        have := hnew k hk x hx
        exact ⟨fun hx' => hx'.resolve_right (by omega), .inl⟩
    · intro k hk
      dsimp only at hk ⊢
      rw [hhead, mem_cons] at hk
      rcases hk with rfl | hk
      · exact ⟨_, mem_cons_self .., by dsimp only; omega, by dsimp only; omega⟩
      · rw [(hold k hk).1, (hold k hk).2]
        obtain ⟨r, hr, hr'⟩ := h.ranges k hk
        exact ⟨r, mem_cons_of_mem _ hr, hr'⟩

private theorem Inv.sameRegions {live : List (Nat × Nat)} {F' : Finset Nat} (h : Inv w F) (hs : Sound b' F')
    (hr : w.b.SameRegions b') (hne : ∀ r ∈ live, r.1 < r.2) (ha : live.Pairwise Apart)
    (hin : ∀ x, Holds live x → ∃ m ∈ w.b.memrHead, (w.b.memr m).Has x)
    (hiff : ∀ m ∈ w.b.memrHead, ∀ x, (w.b.memr m).Has x → (x ∈ F' ↔ ¬Holds live x)) :
    Inv { w with b := b', live := live } F' where
  sound := hs
  nonempty := hne
  apart := ha
  inside x hx := by
    obtain ⟨m, hm, hh⟩ := hin x hx
    exact ⟨m, hr.memrHead ▸ hm, hr.has.2 hh⟩
  owned m hm x hx := hiff m (hr.memrHead ▸ hm) x (hr.has.1 hx)
  ranges m hm := by
    rw [hr.firstPage, hr.nrPages]
    exact h.ranges m (hr.memrHead ▸ hm)

private theorem Inv.palloc (h : Inv w F) (hn : 0 < n) : ∃ w' F', w.exec (.palloc n) = some w' ∧ Inv w' F' ∧
    w.b.SameRegions w'.b := by
  rcases palloc_eq h.sound hn with ⟨p, b', halloc, hsub, hsound, hsame, -⟩ | ⟨halloc, -⟩
  · have hnew : ∀ x, p ≤ x → x < p + n → x ∈ F := fun x h1 h2 => hsub (Finset.mem_Ico.2 ⟨h1, h2⟩)
    refine ⟨{ w with b := b', live := (p, p + n) :: w.live }, _, by simp only [World.exec, halloc]; rfl,
      h.sameRegions hsound hsame ?_ ?_ ?_ ?_, hsame⟩
    · intro r hr
      rcases mem_cons.1 hr with rfl | hr
      · exact Nat.lt_add_of_pos_right hn
      · exact h.nonempty r hr
    · exact apart_cons (Nat.lt_add_of_pos_right hn) h.nonempty (fun x h1 h2 => h.not_live (hnew x h1 h2)) h.apart
    · intro x hx
      rcases holds_cons.1 hx with hx | hx
      · obtain ⟨m, hm, hh, -⟩ := (h.sound.free x).1 (hnew x hx.1 hx.2)
        exact ⟨m, hm, hh⟩
      · exact h.inside x hx
    · intro m hm x hx
      rw [Finset.mem_sdiff, Finset.mem_Ico, h.owned m hm x hx, holds_cons, not_or, and_comm]
  · exact ⟨w, F, by simp only [World.exec, halloc]; rfl, h, .refl w.b⟩

private theorem Inv.pfree (h : Inv w F) (hl : w.Legal (.pfree obj n)) :
    ∃ w' F', w.exec (.pfree obj n) = some w' ∧ Inv w' F' ∧ w.b.SameRegions w'.b := by
  obtain ⟨hn, hlive⟩ := hl
  obtain ⟨m, hm, hfirst, hlast⟩ := h.sound.regions.exists_region hn fun x h1 h2 => h.inside x (hlive x h1 h2)
  obtain ⟨b', hfree, hsound, hsame⟩ := pfree_eq h.sound hm hfirst hlast hn fun x h1 h2 => h.not_free (hlive x h1 h2)
  refine ⟨{ w with b := b', live := w.live.flatMap (cut obj (obj + n)) }, _, by simp only [World.exec, hfree]; rfl,
    h.sameRegions hsound hsame ?_ (apart_flatMap_cut (Nat.le_add_right ..) h.apart) ?_ ?_, hsame⟩
  · intro r hr
    obtain ⟨s, -, hr⟩ := mem_flatMap.1 hr
    exact (mem_cut hr).1
  · exact fun x hx => h.inside x (holds_flatMap_cut.1 hx).1
  · intro m hm x hx
    rw [Finset.mem_union, Finset.mem_Ico, h.owned m hm x hx, holds_flatMap_cut, not_and, not_not]
    constructor
    · rintro (hx' | hx')
      · exact fun hl => absurd hl hx'
      · exact fun _ => hx'
    · intro himp
      by_cases hl : Holds w.live x
      · exact .inr (himp hl)
      · exact .inl hl

private theorem Inv.write (h : Inv w F) (hl : Holds w.live page) : Inv { w with b := w.b.setPageOrder page v } F := by
  obtain ⟨C, hC⟩ := h.sound.chunks
  have hs := h.sound
  exact ⟨⟨⟨hs.regions.ok, hs.regions.disjoint⟩, hs.free, hs.nrFreePages, C, hC.setPageOrder (h.not_free hl)⟩,
      h.nonempty, h.apart,
    h.inside, h.owned, h.ranges⟩

/-- Every legal call returns and keeps the invariant. -/
theorem Inv.exec {op : Op} (h : Inv w F) (hl : w.Legal op) (hr : op.Rounds) :
    ∃ w' F', w.exec op = some w' ∧ Inv w' F' ∧ (w.regionsAfter op).SameRegions w'.b := by
  cases op with
  | addmem base len => exact h.addmem hl hr
  | palloc n => exact h.palloc hl.1
  | pfree obj n => exact h.pfree hl
  | write page v => exact ⟨_, F, rfl, h.write hl, rfl, fun _ => rfl, fun _ => rfl, fun _ => rfl⟩

end

/-- The free chunks are disjoint, aligned, in one region each and cover the pages whose bit is 0; every page of a
region after its bookkeeping is free or in exactly one live allocation; and the bitmap of a region fills its
bookkeeping pages. -/
structure BuddyOk (w : World) : Prop where
  nodup : ∀ k, (w.b.freeHead k).Nodup
  disjoint : ∀ k p j q x, p ∈ w.b.freeHead k → q ∈ w.b.freeHead j → p ≤ x → x < p + 2 ^ k → q ≤ x → x < q + 2 ^ j →
    k = j ∧ p = q
  chunk : ∀ k p, p ∈ w.b.freeHead k → k < 52 ∧ w.b.pageOrder p = k ∧ 2 ^ k ∣ p ∧
    ∃ m ∈ w.b.memrHead, (w.b.memr m).firstPage ≤ p ∧ p + 2 ^ k ≤ (w.b.memr m).firstPage + (w.b.memr m).nrPages
  cover : ∀ x, w.b.Free x ↔ ∃ k p, p ∈ w.b.freeHead k ∧ p ≤ x ∧ x < p + 2 ^ k
  nrFreePages : w.b.nrFreePages = {x | w.b.Free x}.ncard
  owned : ∀ m ∈ w.b.memrHead, ∀ x, (w.b.memr m).Has x → (w.b.Free x ↔ ¬Holds w.live x)
  live : ∀ r ∈ w.live, r.1 < r.2 ∧
    ∃ m ∈ w.b.memrHead, (w.b.memr m).firstPage ≤ r.1 ∧ r.2 ≤ (w.b.memr m).firstPage + (w.b.memr m).nrPages
  apart : w.live.Pairwise Apart
  bookkeeping : ∀ m ∈ w.b.memrHead, ∀ m' ∈ w.b.memrHead, ∀ x, (w.b.memr m).Has x →
    ¬(m' ≤ x ∧ x < (w.b.memr m').firstPage)
  bitmap : ∀ m ∈ w.b.memrHead, 40 + (w.b.memr m).mmAllocBitmapSize = 4096 * ((w.b.memr m).firstPage - m) ∧
    (w.b.memr m).nrPages < 8 * (w.b.memr m).mmAllocBitmapSize

private theorem Inv.buddyOk {w : World} {F : Finset Nat} (h : Inv w F) : BuddyOk w := by
  obtain ⟨C, hC⟩ := h.sound.chunks
  have hsound := h.sound
  have hin : ∀ c ∈ C, Finset.Ico c.first (c.first + 2 ^ c.order) ⊆ F := fun c hc x hx =>
    hC.decomp.mem hc (Finset.mem_Ico.1 hx)
  constructor
  case nodup => exact hC.nodup
  case disjoint =>
    intro k p j q x hp hq h1 h2 h3 h4
    obtain ⟨c, hc, rfl, rfl⟩ := (hC.mem k p).1 hp
    obtain ⟨d, hd, rfl, rfl⟩ := (hC.mem j q).1 hq
    rw [hC.decomp.disjoint c hc d hd x ⟨h1, h2⟩ ⟨h3, h4⟩]
    exact ⟨rfl, rfl⟩
  case chunk =>
    intro k p hp
    obtain ⟨c, hc, rfl, rfl⟩ := (hC.mem k p).1 hp
    have hlt : c.order < 51 :=
      order_lt fun x hx => ((hsound.free x).1 (hC.decomp.mem hc hx)).bound hsound.regions
    exact ⟨by omega, hC.pageOrder c hc, c.aligned, hsound.exists_region (Nat.two_pow_pos _) (hin c hc)⟩
  case cover =>
    intro x
    rw [← hsound.free]
    refine (hC.decomp.cover x).trans ?_
    constructor
    · rintro ⟨c, hc, hx⟩
      exact ⟨c.order, c.first, (hC.mem _ _).2 ⟨c, hc, rfl, rfl⟩, hx⟩
    · rintro ⟨k, p, hp, hx⟩
      obtain ⟨c, hc, rfl, rfl⟩ := (hC.mem k p).1 hp
      exact ⟨c, hc, hx⟩
  case nrFreePages =>
    have hset : {x | w.b.Free x} = (F : Set Nat) := Set.ext fun x => (hsound.free x).symm
    rw [hset, Set.ncard_coe_finset, hsound.nrFreePages]
  case owned =>
    intro m hm x hx
    rw [← hsound.free, h.owned m hm x hx]
  case live =>
    intro r hr
    have hlt := h.nonempty r hr
    obtain ⟨m, hm, h1, h2⟩ := hsound.regions.exists_region (n := r.2 - r.1) (by omega)
      fun x h1 h2 => h.inside x ⟨r, hr, h1, by omega⟩
    exact ⟨hlt, m, hm, h1, by omega⟩
  case apart => exact h.apart
  case bookkeeping =>
    intro m hm m' hm' x hx hx'
    have hs := (hsound.regions.ok m hm).start
    have hmm := hsound.regions.disjoint m hm m' hm' x (by have := hx.1; omega) hx.2 hx'.1 (by omega)
    subst hmm
    have := hx.1
    omega
  case bitmap =>
    intro m hm
    have hok := hsound.regions.ok m hm
    have hbits := hok.bits
    exact ⟨hok.size, by omega⟩

section
variable (memr : Nat → Memr) (pageOrder : Nat → Nat) {ops : List Op}
  (h : Meets step (fun w op => Legal w op ∧ op.Rounds) (some (World.init memr pageOrder)) ops)
include h

/-- What follows from the invariant holds in every state of a run of legal calls. -/
theorem always_of_inv {P : World → Prop} (hP : ∀ w F, Inv w F → P w) :
    Always step (fun o => ∃ w, o = some w ∧ P w) (some (World.init memr pageOrder)) ops := by
  refine h.always (I := fun o => ∃ w F, o = some w ∧ Inv w F) ?_ ?_ ⟨_, _, rfl, inv_init memr pageOrder⟩
  · rintro o op ⟨w, F, rfl, hi⟩ ⟨hl, hr⟩
    obtain ⟨w', F', hw', hi', -⟩ := hi.exec (hl w rfl) hr
    exact ⟨w', F', hw', hi'⟩
  · rintro o ⟨w, F, rfl, hi⟩
    exact ⟨w, rfl, hP w F hi⟩

/-- No step fails, and the page allocator is in order in every state. -/
theorem buddy_run : Always step (fun o => ∃ w, o = some w ∧ BuddyOk w) (some (World.init memr pageOrder)) ops :=
  always_of_inv memr pageOrder h fun _ _ hi => hi.buddyOk

end

def World.blank : World := World.init (fun _ => ⟨7, 7, 7, fun _ => 7⟩) fun _ => 7

private theorem sixteen_pages_meets {obj n : Nat} (hn : 0 < n) (h1 : 4 ≤ obj) (h2 : obj + n ≤ 7) :
    Meets step (fun w op => Legal w op ∧ op.Rounds) (some World.blank)
    [.addmem 4096 65536, .palloc 3, .pfree obj n] := by
  refine ⟨⟨?_, ?_⟩, ⟨?_, trivial⟩, ⟨?_, trivial⟩, trivial⟩
  · rintro w ⟨⟩
    exact ⟨by decide, by decide, fun r hr => by cases hr⟩
  · simp [Op.Rounds]
  · intro w _
    exact ⟨by decide, by decide⟩
  · have hlive : (run step (some World.blank) [.addmem 4096 65536, .palloc 3]).map World.live = some [(4, 7)] := by
      decide +kernel
    intro w hw
    change run step (some World.blank) [.addmem 4096 65536, .palloc 3] = some w at hw
    rw [hw] at hlive
    refine ⟨hn, fun x hx1 hx2 => ⟨(4, 7), ?_, by simp only; omega, by simp only; omega⟩⟩
    rw [Option.some.inj hlive]
    exact mem_cons_self ..

theorem buddy_run_partial :
    Always step (fun o => ∃ w, o = some w ∧ BuddyOk w) (some World.blank)
    [.addmem 4096 65536, .palloc 3, .pfree 5 1] :=
  buddy_run _ _ (sixteen_pages_meets (by decide) (by decide) (by decide))

/-- The start of a range in the last page is rounded up to page 0, so that all of the address space would be added. -/
theorem addmem_wraps : Meets step Legal (some World.blank) [.addmem (2 ^ 64 - 4095) 1] ∧
      ¬∃ w, run step (some World.blank) [.addmem (2 ^ 64 - 4095) 1] = some w ∧ BuddyOk w := by
  have hnone : (run step (some World.blank) [.addmem (2 ^ 64 - 4095) 1]).isNone = true := by
    decide +kernel
  refine ⟨⟨?_, trivial⟩, ?_⟩
  · rintro w ⟨⟩
    exact ⟨by decide, by decide, fun r hr => by cases hr⟩
  · rintro ⟨w, hw, -⟩
    rw [hw] at hnone
    cases hnone

open World Option

/-- `2 ^ k` free pages from `p` on, aligned to their number. -/
def Bbpalloc.FreeRun (b : Bbpalloc) (k p : Nat) : Prop := 2 ^ k ∣ p ∧ ∀ x, p ≤ x → x < p + 2 ^ k → b.Free x

def Bbpalloc.Succeeds (b : Bbpalloc) (n : Nat) : Prop := ∃ p b', bbuddyPalloc b n = some (some p, b')

/-- Chunks are the maximal aligned runs of free pages, `bbuddy_palloc` fails exactly if no region has an aligned run
of free pages that is large enough, and `bbuddy_pmaxalloc` returns the largest number it succeeds for. -/
structure Exact (b : Bbpalloc) : Prop where
  noBuddies : ∀ k p q, p ∈ b.freeHead k → q ∈ b.freeHead k → q ≠ p ^^^ 2 ^ k
  maximal : ∀ k p, p ∈ b.freeHead k ↔ b.FreeRun k p ∧ ¬b.FreeRun (k + 1) (p / 2 ^ (k + 1) * 2 ^ (k + 1))
  palloc : ∀ n, 0 < n → n < 2 ^ 64 → (bbuddyPalloc b n = some (none, b) ↔
    ¬∃ m ∈ b.memrHead, ∃ k p, n ≤ 2 ^ k ∧ b.FreeRun k p ∧ (b.memr m).firstPage ≤ p ∧
      p + 2 ^ k ≤ (b.memr m).firstPage + (b.memr m).nrPages)
  pmaxalloc : ∃ v : Nat, bbuddyPmaxalloc b = some v ∧ ∀ n, 0 < n → n < 2 ^ 64 → (b.Succeeds n ↔ n ≤ v)

section
variable {b : Bbpalloc} {F : Finset Nat} {C : Set Block} {c : Block} {k n p N : Nat}

/-- A run of free pages is a chunk all of whose pages are free. -/
theorem Sound.freeRun_iff (h : Sound b F) : b.FreeRun c.order c.first ↔ ∀ x ∈ c, x ∈ (F : Set Nat) := by
  constructor
  · exact fun hf x hx => (h.free x).2 (hf.2 x hx.1 hx.2)
  · exact fun hf => ⟨c.aligned, fun x h1 h2 => (h.free x).1 (hf x ⟨h1, h2⟩)⟩

private theorem parent_first_eq (c : Block) : c.parent.first = c.first / 2 ^ (c.order + 1) * 2 ^ (c.order + 1) := by
  change 2 ^ (c.order + 1) * (c.first / 2 ^ c.order / 2) = _
  rw [Nat.mul_comm, Nat.div_div_eq_div_mul, ← Nat.pow_succ]

section
variable (h : Sound b F)
include h

/-- The free lists hold the largest aligned runs of free pages and nothing else. -/
theorem Sound.mem_freeHead_iff : p ∈ b.freeHead k ↔ b.FreeRun k p ∧ ¬b.FreeRun (k + 1)
    (p / 2 ^ (k + 1) * 2 ^ (k + 1)) := by
  obtain ⟨C, hC⟩ := h.chunks
  constructor
  · intro hp
    obtain ⟨c, hc, rfl, rfl⟩ := (hC.mem k p).1 hp
    refine ⟨h.freeRun_iff.2 fun x hx => hC.decomp.mem hc hx, fun hpar => ?_⟩
    rw [← parent_first_eq] at hpar
    obtain ⟨d, hd, hle⟩ := hC.decomp.exists_le hC.buddyFree c.parent (h.freeRun_iff.1 hpar)
    have hcd : c = d := hC.decomp.disjoint c hc d hd c.first (first_mem c) (hle _ (mem_parent.2 (.inl (first_mem c))))
    have := order_le_of_le hle
    rw [parent_order, ← hcd] at this
    omega
  · rintro ⟨hrun, hpar⟩
    have hmem := h.freeRun_iff (c := ⟨p, k, hrun.1⟩)
    obtain ⟨d, hd, hle⟩ := hC.decomp.exists_le hC.buddyFree ⟨p, k, hrun.1⟩ (hmem.1 hrun)
    refine (hC.mem k p).2 ⟨d, hd, ?_⟩
    by_cases hlt : k < d.order
    · refine absurd ?_ hpar
      have hfree : ∀ x ∈ (⟨p, k, hrun.1⟩ : Block).parent, x ∈ (F : Set Nat) :=
        fun x hx => hC.decomp.mem hd (parent_le hle hlt x hx)
      have hrun' := h.freeRun_iff.2 hfree
      rwa [parent_first_eq] at hrun'
    · have ho : d.order = k := Nat.le_antisymm (Nat.not_lt.1 hlt) (order_le_of_le hle)
      have hd := eq_of_mem_of_order (hle p (first_mem ⟨p, k, hrun.1⟩)) (first_mem ⟨p, k, hrun.1⟩) ho
      rw [hd]
      exact ⟨rfl, rfl⟩

private theorem Sound.exists_chunk (hrun : b.FreeRun k p) : ∃ j, k ≤ j ∧ j < 51 ∧ b.freeHead j ≠ [] := by
  obtain ⟨C, hC⟩ := h.chunks
  obtain ⟨d, hd, hle⟩ := hC.decomp.exists_le hC.buddyFree ⟨p, k, hrun.1⟩ ((h.freeRun_iff).1 hrun)
  have hlt : d.order < 51 := order_lt fun x hx => ((h.free x).1 (hC.decomp.mem hd hx)).bound h.regions
  refine ⟨d.order, order_le_of_le hle, hlt, fun hnil => ?_⟩
  have hmem := (hC.mem d.order d.first).2 ⟨d, hd, rfl, rfl⟩
  rw [hnil] at hmem
  cases hmem

private theorem Sound.exists_freeRun {j : Nat} (hk : k ≤ j) (hne : b.freeHead j ≠ []) : ∃ p, b.FreeRun k p := by
  obtain ⟨p, l, hp⟩ := exists_cons_of_ne_nil hne
  obtain ⟨hrun, -⟩ := h.mem_freeHead_iff.1 (hp ▸ mem_cons_self ..)
  have hpow : 2 ^ k ≤ 2 ^ j := Nat.pow_le_pow_right (by decide) hk
  exact ⟨p, (Nat.pow_dvd_pow 2 hk).trans hrun.1, fun x h1 h2 => hrun.2 x h1 (by omega)⟩

/-- An allocation fails exactly if no list of a sufficient order has a chunk. -/
theorem Sound.palloc_null_iff (hn : 0 < n) : bbuddyPalloc b n = some (none, b) ↔ ∀ k < 52, n ≤ 2 ^ k →
    b.freeHead k = [] := by
  rcases palloc_eq h hn with ⟨p, b', halloc, -, -, -, k, hk, hnk, hne⟩ | ⟨halloc, hempty⟩
  · rw [halloc]
    exact ⟨(fun he => by cases he), fun hall => absurd (hall k hk hnk) hne⟩
  · exact ⟨fun _ => hempty, fun _ => halloc⟩

/-- An allocation succeeds exactly if some list of a sufficient order has a chunk. -/
theorem Sound.succeeds_iff (hn : 0 < n) : b.Succeeds n ↔ ∃ k < 52, n ≤ 2 ^ k ∧ b.freeHead k ≠ [] := by
  rcases palloc_eq h hn with ⟨p, b', halloc, -, -, -, hk⟩ | ⟨halloc, hempty⟩
  · exact ⟨fun _ => hk, fun _ => ⟨p, b', halloc⟩⟩
  · constructor
    · rintro ⟨p, b', hs⟩
      rw [halloc] at hs
      cases hs
    · rintro ⟨k, hk, hnk, hne⟩
      exact absurd (hempty k hk hnk) hne

end

private theorem foldl_order (b : Bbpalloc) (N : Nat) :
    ((List.range N).foldl (fun order i => if b.freeHead i ≠ [] then i else order) 52 = 52 ∧ ∀ i < N,
      b.freeHead i = []) ∨
    ∃ r < N, (List.range N).foldl (fun order i => if b.freeHead i ≠ [] then i else order) 52 = r ∧ b.freeHead r ≠ [] ∧
      ∀ i, r < i → i < N → b.freeHead i = [] := by
  induction N with
  | zero => exact .inl ⟨rfl, fun i hi => by omega⟩
  | succ N ih =>
    rw [range_succ, foldl_append, foldl_cons, foldl_nil]
    by_cases hN : b.freeHead N = []
    · rw [if_neg (not_not.2 hN)]
      rcases ih with ⟨hr, hall⟩ | ⟨r, hlt, hr, hne, hall⟩
      · refine .inl ⟨hr, fun i hi => ?_⟩
        by_cases hi' : i = N
        · rw [hi', hN]
        · exact hall i (by omega)
      · refine .inr ⟨r, by omega, hr, hne, fun i h1 h2 => ?_⟩
        by_cases hi' : i = N
        · rw [hi', hN]
        · exact hall i h1 (by omega)
    · rw [if_pos hN]
      exact .inr ⟨N, Nat.lt_succ_self N, rfl, hN, fun i h1 h2 => by omega⟩

/-- `bbuddy_pmaxalloc` reports the largest allocation that succeeds, unless a chunk of `2 ^ 31` pages is free. -/
theorem Sound.pmaxalloc_iff (h : Sound b F) :
    (∃ v : Nat, bbuddyPmaxalloc b = some v ∧ ∀ n, 0 < n → n < 2 ^ 64 → (b.Succeeds n ↔ n ≤ v)) ↔
    ¬∃ p, b.FreeRun 31 p := by
  rcases foldl_order b 52 with ⟨hr, hall⟩ | ⟨r, hlt, hr, hne, hall⟩
  · constructor
    · rintro - ⟨p, hrun⟩
      obtain ⟨j, -, hj, hne⟩ := h.exists_chunk hrun
      exact hne (hall j (by omega))
    · refine fun _ => ⟨0, by rw [bbuddyPmaxalloc, hr]; rfl, fun n hn _ => ?_⟩
      rw [h.succeeds_iff hn]
      constructor
      · rintro ⟨k, hk, -, hne⟩
        exact absurd (hall k hk) hne
      · omega
  · have hval : bbuddyPmaxalloc b = if r < 31 then some (2 ^ r) else none := by
      rw [bbuddyPmaxalloc, hr]
      exact if_neg (by omega)
    split at hval
    next =>
      constructor
      · rintro - ⟨p, hrun⟩
        obtain ⟨j, hj1, hj2, hne'⟩ := h.exists_chunk hrun
        exact hne' (hall j (by omega) (by omega))
      · refine fun _ => ⟨2 ^ r, by rw [hval]; norm_cast, fun n hn _ => ?_⟩
        rw [h.succeeds_iff hn]
        constructor
        · rintro ⟨k, hk, hnk, hne'⟩
          by_contra hlt'
          refine hne' (hall k ?_ hk)
          by_contra hkr
          have : 2 ^ k ≤ 2 ^ r := Nat.pow_le_pow_right (by decide) (by omega)
          omega
        · exact fun hnr => ⟨r, hlt, hnr, hne⟩
    next =>
      constructor
      · rintro ⟨v, hv, -⟩
        rw [hval] at hv
        cases hv
      · exact fun hno => absurd (h.exists_freeRun (by omega) hne) hno

theorem Sound.exact_iff (h : Sound b F) : Exact b ↔ ¬∃ p, b.FreeRun 31 p := by
  constructor
  · exact fun he => h.pmaxalloc_iff.1 he.pmaxalloc
  · intro hno
    obtain ⟨C, hC⟩ := h.chunks
    refine ⟨fun k p q hp hq hpq => ?_, fun k p => h.mem_freeHead_iff, fun n hn _ => ?_, h.pmaxalloc_iff.2 hno⟩
    · obtain ⟨c, hc, rfl, rfl⟩ := (hC.mem k p).1 hp
      obtain ⟨d, hd, rfl, ho⟩ := (hC.mem _ q).1 hq
      have hdc : d = c.buddy := Block.ext hpq ho
      exact hC.buddyFree c hc (hdc ▸ hd)
    · rw [h.palloc_null_iff hn]
      constructor
      · rintro hall ⟨m, hm, k, p, hnk, hrun, -⟩
        obtain ⟨j, hkj, hj, hne⟩ := h.exists_chunk hrun
        exact hne (hall j (by omega) (hnk.trans (Nat.pow_le_pow_right (by decide) hkj)))
      · intro hnone k hk hnk
        by_contra hne
        obtain ⟨p, hrun⟩ := h.exists_freeRun (Nat.le_refl k) hne
        have hsub : Finset.Ico p (p + 2 ^ k) ⊆ F := fun x hx =>
          (h.free x).2 (hrun.2 x (Finset.mem_Ico.1 hx).1 (Finset.mem_Ico.1 hx).2)
        obtain ⟨m, hm, h1, h2⟩ := h.exists_region (Nat.two_pow_pos k) hsub
        exact hnone ⟨m, hm, k, p, hnk, hrun, h1, h2⟩

end

def Op.isAddmem : Op → Bool
  | .addmem _ _ => true
  | _ => false

section
variable {w w' w₀ : World} {op : Op} {ops : List Op} {F : Finset Nat} {base len k p x : Nat}

private theorem exec_addmem_fields (h : w.exec (.addmem base len) = some w') :
    w'.ranges = (base, base + len) :: w.ranges ∧
    w'.live = w.live := by
  simp only [exec, bind_eq_bind, bind_eq_some_iff] at h
  obtain ⟨⟨r, b⟩, -, h⟩ := h
  cases h
  exact ⟨rfl, rfl⟩

private theorem exec_ranges (hop : op.isAddmem = false) (h : w.exec op = some w') : w'.ranges = w.ranges := by
  cases op with
  | addmem base len => cases hop
  | palloc n =>
    simp only [exec, bind_eq_bind, bind_eq_some_iff] at h
    obtain ⟨⟨r, b⟩, -, h⟩ := h
    cases r <;> cases h <;> rfl
  | pfree obj n =>
    simp only [exec, bind_eq_bind, bind_eq_some_iff] at h
    obtain ⟨b, -, h⟩ := h
    cases h
    rfl
  | write page v =>
    cases h
    rfl

private theorem regionsAfter_of_not_addmem (hop : op.isAddmem = false) : w.regionsAfter op = w.b := by
  cases op with
  | addmem base len => cases hop
  | _ => rfl

private theorem regionsAfter_congr (h : w.b.SameRegions w₀.b) (op : Op) :
    (w.regionsAfter op).SameRegions (w₀.regionsAfter op) := by
  cases op with
  | addmem base len =>
    simp only [regionsAfter]
    cases regionOf base len with
    | none => exact h
    | some mn =>
      obtain ⟨m, n⟩ := mn
      refine ⟨?_, fun k => ?_, fun k => ?_, fun k => ?_⟩
      · simp only [initRegion, h.memrHead]
      all_goals
        by_cases hk : k = m
        · subst hk
          simp [initRegion]
        · simp [initRegion, Function.update_of_ne hk, h.firstPage, h.nrPages, h.mmAllocBitmapSize]
  | _ => exact h

/-- `w₀` has the same regions as `w`, and nothing is allocated there. -/
structure Fresh (w w₀ : World) : Prop where
  regions : w.b.SameRegions w₀.b
  ranges : w₀.ranges = w.ranges
  live : w₀.live = []
  inv : ∃ F, Inv w F
  inv₀ : ∃ F, Inv w₀ F

/-- A run leaves the same regions as its calls of `bbuddy_addmem` alone. -/
theorem Fresh.run (h : Fresh w w₀) (hm : Meets step (fun w op => Legal w op ∧ op.Rounds) (some w) ops) :
    ∃ w' w0', run step (some w) ops = some w' ∧ run step (some w₀) (ops.filter Op.isAddmem) = some w0' ∧
    Fresh w' w0' := by
  induction ops generalizing w w₀ with
  | nil => exact ⟨w, w₀, rfl, rfl, h⟩
  | cons op ops ih =>
    obtain ⟨⟨hl, hr⟩, hm⟩ := hm
    obtain ⟨F, hi⟩ := h.inv
    obtain ⟨F0, hi0⟩ := h.inv₀
    obtain ⟨w1, F1, hw1, hi1, hs1⟩ := hi.exec (hl w rfl) hr
    change Meets step _ (w.exec op) ops at hm
    rw [hw1] at hm
    rw [run_cons]
    change ∃ w' w0', run step (w.exec op) ops = some w' ∧ _
    rw [hw1]
    by_cases hop : op.isAddmem = true
    · obtain ⟨base, len, rfl⟩ : ∃ base len, op = .addmem base len := by
        cases op with
        | addmem base len => exact ⟨base, len, rfl⟩
        | _ => cases hop
      have hl0 : w₀.Legal (.addmem base len) := by
        obtain ⟨h1, h2, h3⟩ := hl w rfl
        exact ⟨h1, h2, h.ranges ▸ h3⟩
      obtain ⟨w2, F2, hw2, hi2, hs2⟩ := hi0.exec hl0 hr
      have hf1 := exec_addmem_fields hw1
      have hf2 := exec_addmem_fields hw2
      rw [filter_cons_of_pos hop, run_cons]
      change ∃ w' w0', _ ∧ run step (w₀.exec (.addmem base len)) _ = some w0' ∧ _
      rw [hw2]
      refine ih ⟨?_, ?_, ?_, ⟨F1, hi1⟩, ⟨F2, hi2⟩⟩ hm
      · exact (hs1.symm.trans (regionsAfter_congr h.regions _)).trans hs2
      · rw [hf1.1, hf2.1, h.ranges]
      · rw [hf2.2, h.live]
    · rw [Bool.not_eq_true] at hop
      rw [filter_cons_of_neg (by rw [hop]; exact Bool.false_ne_true)]
      rw [regionsAfter_of_not_addmem hop] at hs1
      refine ih ⟨hs1.symm.trans h.regions, ?_, h.live, ⟨F1, hi1⟩, ⟨F0, hi0⟩⟩ hm
      rw [exec_ranges hop hw1, h.ranges]

private theorem Inv.free_iff_has (h : Inv w F) (hl : w.live = []) : w.b.Free x ↔
    ∃ m ∈ w.b.memrHead, (w.b.memr m).Has x := by
  constructor
  · rintro ⟨m, hm, hx, -⟩
    exact ⟨m, hm, hx⟩
  · rintro ⟨m, hm, hx⟩
    refine (h.sound.free x).1 ((h.owned m hm x hx).2 ?_)
    rintro ⟨r, hr, -⟩
    rw [hl] at hr
    cases hr

/-- When everything was released, the free lists are those of an allocator that was never used. -/
theorem Fresh.mem_freeHead_iff (h : Fresh w w₀) (hl : w.live = []) : p ∈ w.b.freeHead k ↔ p ∈ w₀.b.freeHead k := by
  obtain ⟨F, hi⟩ := h.inv
  obtain ⟨F0, hi0⟩ := h.inv₀
  have hfree : ∀ x, w₀.b.Free x ↔ w.b.Free x := by
    intro x
    rw [hi.free_iff_has hl, hi0.free_iff_has h.live, h.regions.memrHead]
    exact exists_congr fun m => and_congr_right fun _ => h.regions.has
  have hrun : ∀ k p, w₀.b.FreeRun k p ↔ w.b.FreeRun k p := by
    intro k p
    exact and_congr_right fun _ => forall_congr' fun x => by rw [hfree]
  rw [hi.sound.mem_freeHead_iff, hi0.sound.mem_freeHead_iff, hrun, hrun]

end

/-- In every state allocation is exact if and only if there is no aligned run of `2 ^ 31` free pages, and freeing
everything gives back the chunks of fresh regions. -/
theorem buddy_exact (memr : Nat → Memr) (pageOrder : Nat → Nat) {ops : List Op}
    (h : Meets step (fun w op => Legal w op ∧ op.Rounds) (some (World.init memr pageOrder)) ops) :
    Always step (fun o => ∃ w, o = some w ∧ (Exact w.b ↔ ¬∃ p, w.b.FreeRun 31 p))
    (some (World.init memr pageOrder)) ops ∧
    ∃ w w₀, run step (some (World.init memr pageOrder)) ops = some w ∧
      run step (some (World.init memr pageOrder)) (ops.filter Op.isAddmem) = some w₀ ∧
      (w.live = [] → ∀ k p, p ∈ w.b.freeHead k ↔ p ∈ w₀.b.freeHead k) := by
  constructor
  · exact always_of_inv memr pageOrder h fun _ _ hi => hi.sound.exact_iff
  · have hfresh : Fresh (World.init memr pageOrder) (World.init memr pageOrder) :=
      ⟨.refl _, rfl, rfl, ⟨∅, inv_init memr pageOrder⟩, ⟨∅, inv_init memr pageOrder⟩⟩
    obtain ⟨w, w₀, hw, hw₀, hf⟩ := hfresh.run h
    exact ⟨w, w₀, hw, hw₀, fun hl k p => hf.mem_freeHead_iff hl⟩

theorem buddy_exact_whole : Always step (fun o => ∃ w, o = some w ∧ (Exact w.b ↔ ¬∃ p, w.b.FreeRun 31 p)) (some blank)
      [.addmem 4096 65536, .palloc 3, .pfree 4 3] ∧
    ∃ w w₀, run step (some blank) [.addmem 4096 65536, .palloc 3, .pfree 4 3] = some w ∧
      run step (some blank) [.addmem 4096 65536] = some w₀ ∧
      (w.live = [] → ∀ k p, p ∈ w.b.freeHead k ↔ p ∈ w₀.b.freeHead k) :=
  buddy_exact _ _ (sixteen_pages_meets (by decide) (by decide) (by decide))

/-- Freeing pages right after their allocation restores the free lists. -/
def Bbpalloc.Restores (b : Bbpalloc) : Prop := ∀ n p b', 0 < n → bbuddyPalloc b n = some (some p, b') →
  ∃ b'', bbuddyPfree b' p n = some b'' ∧ b''.nrFreePages = b.nrFreePages ∧ ∀ k q, q ∈ b''.freeHead k ↔
    q ∈ b.freeHead k

private theorem Sound.restores {b : Bbpalloc} {F : Finset Nat} (h : Sound b F) : b.Restores := by
  intro n p b' hn halloc
  rcases palloc_eq h hn with ⟨p', b₁, ha, hsub, hs, hsame, -⟩ | ⟨ha, -⟩
  · rw [ha] at halloc
    cases halloc
    obtain ⟨m, hm, h1, h2⟩ := hs.regions.exists_region hn fun x hx1 hx2 => by
      obtain ⟨m, hm, hx, -⟩ := (h.free x).1 (hsub (Finset.mem_Ico.2 ⟨hx1, hx2⟩))
      exact ⟨m, hsame.memrHead ▸ hm, hsame.has.2 hx⟩
    obtain ⟨b₂, hfree, hs₂, -⟩ := pfree_eq hs hm h1 h2 hn fun x hx1 hx2 hx =>
      (Finset.mem_sdiff.1 hx).2 (Finset.mem_Ico.2 ⟨hx1, hx2⟩)
    rw [Finset.sdiff_union_of_subset hsub] at hs₂
    have hrun (k q : Nat) : b₂.FreeRun k q ↔ b.FreeRun k q :=
      and_congr_right fun _ => forall_congr' fun x => by rw [← hs₂.free, h.free]
    exact ⟨b₂, hfree, by rw [hs₂.nrFreePages, h.nrFreePages],
        fun k q => by rw [hs₂.mem_freeHead_iff, h.mem_freeHead_iff, hrun, hrun]⟩
  · rw [ha] at halloc
    cases halloc

/-- In every state of a run, releasing an allocation at once undoes it. -/
theorem buddy_restores (memr : Nat → Memr) (pageOrder : Nat → Nat) {ops : List Op}
    (h : Meets step (fun w op => Legal w op ∧ op.Rounds) (some (World.init memr pageOrder)) ops) :
    Always step (fun o => ∃ w, o = some w ∧ w.b.Restores) (some (World.init memr pageOrder)) ops :=
  always_of_inv memr pageOrder h fun _ _ hi => hi.sound.restores

theorem buddy_restores_partial :
    Always step (fun o => ∃ w, o = some w ∧ w.b.Restores) (some blank) [.addmem 4096 65536, .palloc 3, .pfree 5 1] :=
  buddy_restores _ _ (sixteen_pages_meets (by decide) (by decide) (by decide))

/-- After 16 TiB have been added from 8 TiB on, there is a chunk of `2 ^ 31` pages. -/
theorem pmaxalloc_overflow : Meets step (fun w op => Legal w op ∧ op.Rounds) (some blank)
    [.addmem (2 ^ 43) (2 ^ 44)] ∧
      ∃ w, run step (some blank) [.addmem (2 ^ 43) (2 ^ 44)] = some w ∧ ¬Exact w.b := by
  have hlegal : blank.Legal (.addmem (2 ^ 43) (2 ^ 44)) := ⟨by decide, by decide, fun r hr => by cases hr⟩
  have hrounds : (Op.addmem (2 ^ 43) (2 ^ 44)).Rounds := by simp [Op.Rounds]
  have hreg : regionOf (2 ^ 43) (2 ^ 44) = some (2 ^ 31, 2 ^ 32) := by decide +kernel
  have hpages : memrPages (2 ^ 32) = 2 ^ 17 + 1 := by decide +kernel
  obtain ⟨w, F, hw, hi, hs⟩ := Inv.addmem (w := blank) (inv_init _ _) hlegal hrounds
  have hlive : w.live = blank.live := (exec_addmem_fields hw).2
  simp only [regionsAfter, hreg] at hs
  have hmem : 2 ^ 31 ∈ w.b.memrHead := by
    rw [hs.memrHead, initRegion_memrHead (by decide)]
    exact mem_cons_self ..
  have hrun : run step (some blank) [.addmem (2 ^ 43) (2 ^ 44)] = some w := by
    rw [run_cons, run_nil, step, bind_some, hw]
  refine ⟨⟨⟨?_, hrounds⟩, trivial⟩, w, hrun, fun he => ?_⟩
  · rintro w' ⟨⟩
    exact hlegal
  · refine hi.sound.exact_iff.1 he ⟨2 ^ 32, by decide, fun x h1 h2 => ?_⟩
    refine (hi.free_iff_has hlive).2 ⟨2 ^ 31, hmem, ?_⟩
    rw [hs.has, Memr.Has, initRegion_firstPage (by rw [hpages]; decide), initRegion_nrPages, hpages]
    omega

end Unikraft.Buddy
