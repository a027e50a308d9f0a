import Mathlib.Order.Interval.Finset.Nat
import Unikraft.Lib.AlignedBlocks
import Unikraft.Lib.Bits

/-!
# The binary buddy page allocator

Page-aligned addresses are page numbers, below `2 ^ 52`. A region has a bookkeeping struct in its first page, followed
by the words of its bitmap, with a bit that is 1 for each allocated page; the pages after these are the ones it
manages. `free_head[k]` lists the first pages of the free chunks of `2 ^ k` pages, which are disjoint aligned blocks
without buddies. A failed `UK_ASSERT`, an access outside a bitmap and a loop that reaches the bound on its rounds are
`none`.
-/

namespace Unikraft.Buddy

open Function (update update_of_ne update_self)

def addPages (p n : Nat) : Nat := (p + n) % 2 ^ 52

def subPages (p n : Nat) : Nat := (p + (2 ^ 52 - n % 2 ^ 52)) % 2 ^ 52

/-- `struct uk_bbpalloc_memr`, with the size of the bitmap in bytes. -/
structure Memr where
  firstPage : Nat
  nrPages : Nat
  mmAllocBitmapSize : Nat
  mmAllocBitmap : Nat → BitVec 64

/-- `memr` holds the structs of the regions at the pages where they start, `pageOrder` the field of this name of a
chunk head at a page. -/
structure Bbpalloc where
  nrFreePages : Nat
  freeHead : Nat → List Nat
  memrHead : List Nat
  memr : Nat → Memr
  pageOrder : Nat → Nat

variable (r : Memr)

def Memr.modifyWord (i : Nat) (f : BitVec 64 → BitVec 64) : Option Memr :=
  if 8 * (i + 1) ≤ r.mmAllocBitmapSize then
    some { r with mmAllocBitmap := update r.mmAllocBitmap i (f (r.mmAllocBitmap i)) }
  else none

/-- `while (more(++curr_idx)) mm_alloc_bitmap[curr_idx] = v`, with the index after the loop. -/
def Memr.fillWhile (more : Nat → Bool) (v : BitVec 64) : Nat → Memr → Nat → Option (Memr × Nat)
  | 0, _, _ => none
  | fuel + 1, r, curr =>
    if more (curr + 1) then
      match r.modifyWord (curr + 1) fun _ => v with
      | none => none
      | some r => fillWhile more v fuel r (curr + 1)
    else some (r, curr + 1)

/-- How `map_alloc` and `map_free` go through the words of the bits from `first` to `last`: all bits are in one word,
or there is a first word, words that are overwritten, and a last one, which need not have any of the bits. -/
def Memr.updateBits (first last : Nat) (one head tail : BitVec 64 → BitVec 64) (more : Nat → Bool) (v : BitVec 64) :
    Option Memr :=
  let currIdx := first / 64
  let endIdx := last / 64
  if currIdx = endIdx then r.modifyWord currIdx one
  else do
    let r ← r.modifyWord currIdx head
    -- each round writes one word
    let (r, currIdx) ← r.fillWhile more v (r.mmAllocBitmapSize / 8 + 1) currIdx
    r.modifyWord currIdx tail

def Memr.allocBits (first last : Nat) : Option Memr :=
  let startOff := first % 64
  let endOff := last % 64
  let endIdx := last / 64
  r.updateBits first last (fun w => w ||| ((1#64 <<< endOff - 1#64) &&& -(1#64 <<< startOff)))
    (fun w => w ||| -(1#64 <<< startOff)) (fun w => w ||| (1#64 <<< endOff - 1#64)) (fun i => i < endIdx)
      (BitVec.allOnes 64)

def Memr.freeBits (first last : Nat) : Option Memr :=
  let startOff := first % 64
  let endOff := last % 64
  let endIdx := last / 64
  r.updateBits first last (fun w => w &&& (-(1#64 <<< endOff) ||| (1#64 <<< startOff - 1#64)))
    (fun w => w &&& (1#64 <<< startOff - 1#64)) (fun w => w &&& -(1#64 <<< endOff)) (fun i => i ≠ endIdx) 0#64

variable (b : Bbpalloc)

def mapGetMemr (page : Nat) : Option Nat :=
  b.memrHead.find? fun m =>
    decide ((b.memr m).firstPage ≤ page ∧ page < addPages (b.memr m).firstPage (b.memr m).nrPages)

/-- Whether the bit of a page is set; a page outside of the regions counts as allocated. -/
def allocatedInMap (page : Nat) : Option Bool :=
  match mapGetMemr b page with
  | none => some true
  | some m =>
    let r := b.memr m
    let pageIdx := page - r.firstPage
    let bmIdx := pageIdx / 64
    let bmOff := pageIdx % 64
    if 8 * (bmIdx + 1) ≤ r.mmAllocBitmapSize then some (decide (r.mmAllocBitmap bmIdx &&& 1#64 <<< bmOff ≠ 0))
      else none

def Bbpalloc.updateMap (firstPage nrPages : Nat) (bits : Memr → Nat → Nat → Option Memr) : Option Bbpalloc := do
  let m ← mapGetMemr b firstPage
  guard (addPages firstPage nrPages ≤ addPages (b.memr m).firstPage (b.memr m).nrPages)
  let firstPageIdx := firstPage - (b.memr m).firstPage
  let r ← bits (b.memr m) firstPageIdx ((firstPageIdx + nrPages) % 2 ^ 64)
  some { b with memr := update b.memr m r }

def mapAlloc (firstPage nrPages : Nat) : Option Bbpalloc := do
  let b ← b.updateMap firstPage nrPages Memr.allocBits
  some { b with nrFreePages := (b.nrFreePages + (2 ^ 64 - nrPages % 2 ^ 64)) % 2 ^ 64 }

def mapFree (firstPage nrPages : Nat) : Option Bbpalloc := do
  let b ← b.updateMap firstPage nrPages Memr.freeBits
  some { b with nrFreePages := (b.nrFreePages + nrPages) % 2 ^ 64 }

def Memr.bit (i : Nat) : Bool := (r.mmAllocBitmap (i / 64)).getLsbD (i % 64)

section
variable {r : Memr} {v : BitVec 64} {more : Nat → Bool} {c e f i j k s fuel : Nat}

private theorem lowMask_getLsbD (hk : k < 64) : (1#64 <<< k - 1#64).getLsbD j = decide (j < k) := by
  have hpow : 2 ^ k < 2 ^ 64 := Nat.pow_lt_pow_right (by decide) hk
  have hnat : (1#64 <<< k - 1#64).toNat = 2 ^ k - 1 := by
    have hpos := Nat.two_pow_pos k
    rw [BitVec.toNat_sub, BitVec.toNat_shiftLeft, BitVec.toNat_ofNat]
    omega
  rw [BitVec.getLsbD, hnat, Nat.testBit_two_pow_sub_one]

private theorem highMask_getLsbD (hk : k < 64) (hj : j < 64) : (-(1#64 <<< k)).getLsbD j = decide (k ≤ j) := by
  have hneg : -(1#64 <<< k) = ~~~(1#64 <<< k - 1#64) := by
    bv_omega
  rw [hneg, BitVec.getLsbD_not, lowMask_getLsbD hk]
  by_cases h : j < k
  · simp [h]
  · simp [hj, Nat.not_lt.1 h]

private theorem and_bit_eq_zero {w : BitVec 64} (hk : k < 64) : w &&& 1#64 <<< k = 0 ↔ w.getLsbD k = false := by
  change w &&& BitVec.twoPow 64 k = 0#64 ↔ _
  have hne : BitVec.twoPow 64 k ≠ 0#64 := by
    intro h
    have hbit := congrArg (fun y => y.getLsbD k) h
    simp [hk] at hbit
  rw [BitVec.and_twoPow]
  cases h : w.getLsbD k with
  | false => simp
  | true => simp [hne]

private theorem Memr.modifyWord_eq {g : BitVec 64 → BitVec 64} (h : 8 * (i + 1) ≤ r.mmAllocBitmapSize) :
    r.modifyWord i g = some { r with mmAllocBitmap := update r.mmAllocBitmap i (g (r.mmAllocBitmap i)) } :=
  if_pos h

private theorem Memr.fillWhile_eq (hmore : ∀ i, c < i → i < e → more i = true) (hstop : more e = false) (hce : c < e)
    (hsize : 8 * e ≤ r.mmAllocBitmapSize) (hfuel : e - c ≤ fuel) :
    r.fillWhile more v fuel c =
      some ({ r with mmAllocBitmap := fun q => if c < q ∧ q < e then v else r.mmAllocBitmap q }, e) := by
  induction fuel generalizing r c with
  | zero => omega
  | succ fuel ih =>
    rw [Memr.fillWhile]
    by_cases hlast : c + 1 = e
    · have hnone : (fun q => if c < q ∧ q < e then v else r.mmAllocBitmap q) = r.mmAllocBitmap := by
        funext q
        rw [if_neg (by omega)]
      rw [hlast, hstop, if_neg Bool.false_ne_true, hnone]
    · rw [if_pos (hmore (c + 1) (Nat.lt_succ_self c) (by omega)), Memr.modifyWord_eq (by omega)]
      refine (ih (fun i h1 h2 => hmore i (by omega) h2) (by omega) (by exact hsize) (by omega)).trans ?_
      congr 3
      funext q
      dsimp only
      by_cases hq : q = c + 1
      · subst hq
        rw [if_neg (by omega), if_pos (by omega), update_self]
      · rw [update_of_ne hq]
        split
        next =>
          rw [if_pos (by omega)]
        next =>
          rw [if_neg (by omega)]

/-- The result of a function that changes the bitmap only, with new bits `g`. -/
structure Memr.Changed (r r' : Memr) (g : Nat → Bool) : Prop where
  firstPage : r'.firstPage = r.firstPage
  nrPages : r'.nrPages = r.nrPages
  mmAllocBitmapSize : r'.mmAllocBitmapSize = r.mmAllocBitmapSize
  bit : ∀ i, r'.bit i = g i

private theorem Memr.updateBits_eq {one head tail : BitVec 64 → BitVec 64} {g : Bool → Bool → Bool} (hse : s ≤ e)
    (hsize : 8 * (e / 64 + 1) ≤ r.mmAllocBitmapSize) (hmore : ∀ i, i < e / 64 → more i = true)
    (hstop : more (e / 64) = false) (hout : ∀ x, g false x = x)
    (hone : ∀ w j, j < 64 → (one w).getLsbD j = g (decide (s % 64 ≤ j ∧ j < e % 64)) (w.getLsbD j))
    (hhead : ∀ w j, j < 64 → (head w).getLsbD j = g (decide (s % 64 ≤ j)) (w.getLsbD j))
    (htail : ∀ w j, j < 64 → (tail w).getLsbD j = g (decide (j < e % 64)) (w.getLsbD j))
    (hv : ∀ x j, j < 64 → v.getLsbD j = g true x) :
    ∃ r', r.updateBits s e one head tail more v = some r' ∧ r.Changed r' fun i => g (decide (s ≤ i ∧ i < e))
    (r.bit i) := by
  have h64 : ∀ i, i % 64 < 64 := fun i => Nat.mod_lt _ (by decide)
  simp only [Memr.updateBits]
  split
  next =>
    rw [Memr.modifyWord_eq (by omega)]
    refine ⟨_, rfl, rfl, rfl, rfl, fun i => ?_⟩
    simp only [Memr.bit]
    by_cases hi : i / 64 = s / 64
    · rw [hi, update_self, hone _ _ (h64 i)]
      congr 1
      rw [decide_eq_decide]
      omega
    · rw [update_of_ne hi, decide_eq_false (by omega), hout]
  next =>
    rw [Memr.modifyWord_eq (by omega)]
    simp only [Option.bind_eq_bind, Option.bind_some]
    rw [Memr.fillWhile_eq (fun i _ hi => hmore i hi) hstop (by omega) (by dsimp only; omega) (by omega)]
    simp only [Option.bind_some]
    rw [Memr.modifyWord_eq (by dsimp only; omega)]
    refine ⟨_, rfl, rfl, rfl, rfl, fun i => ?_⟩
    simp only [Memr.bit]
    by_cases hie : i / 64 = e / 64
    · rw [hie, update_self, if_neg (by omega), update_of_ne (by omega), htail _ _ (h64 i)]
      congr 1
      rw [decide_eq_decide]
      omega
    · rw [update_of_ne hie]
      split
      next =>
        rw [decide_eq_true (by omega)]
        exact hv _ _ (h64 i)
      next =>
        by_cases hi : i / 64 = s / 64
        · rw [hi, update_self, hhead _ _ (h64 i)]
          congr 1
          rw [decide_eq_decide]
          omega
        · rw [update_of_ne hi, decide_eq_false (by omega), hout]

private theorem Memr.allocBits_eq (hse : s ≤ e) (hsize : 8 * (e / 64 + 1) ≤ r.mmAllocBitmapSize) :
    ∃ r', r.allocBits s e = some r' ∧ r.Changed r' fun i => r.bit i || decide (s ≤ i ∧ i < e) := by
  have hs64 : s % 64 < 64 := Nat.mod_lt _ (by decide)
  have he64 : e % 64 < 64 := Nat.mod_lt _ (by decide)
  refine Memr.updateBits_eq (g := fun b x => x || b) hse hsize (fun i hi => decide_eq_true hi) (by simp)
    (fun x => Bool.or_false x) ?_ ?_ ?_ ?_
  · intro w j hj
    rw [BitVec.getLsbD_or, BitVec.getLsbD_and, lowMask_getLsbD he64, highMask_getLsbD hs64 hj, Bool.and_comm,
        Bool.decide_and]
  · intro w j hj
    rw [BitVec.getLsbD_or, highMask_getLsbD hs64 hj]
  · intro w j hj
    rw [BitVec.getLsbD_or, lowMask_getLsbD he64]
  · intro x j hj
    rw [BitVec.getLsbD_allOnes, decide_eq_true hj, Bool.or_true]

private theorem Memr.freeBits_eq (hse : s ≤ e) (hsize : 8 * (e / 64 + 1) ≤ r.mmAllocBitmapSize) :
    ∃ r', r.freeBits s e = some r' ∧ r.Changed r' fun i => r.bit i && !decide (s ≤ i ∧ i < e) := by
  have hs64 : s % 64 < 64 := Nat.mod_lt _ (by decide)
  have he64 : e % 64 < 64 := Nat.mod_lt _ (by decide)
  refine Memr.updateBits_eq (g := fun b x => x && !b) hse hsize (fun i hi => decide_eq_true (Nat.ne_of_lt hi))
    (by simp)
    (fun x => by simp) ?_ ?_ ?_ ?_
  · intro w j hj
    rw [BitVec.getLsbD_and, BitVec.getLsbD_or, lowMask_getLsbD hs64, highMask_getLsbD he64 hj, ← Bool.decide_or,
      ← decide_not]
    congr 1
    rw [decide_eq_decide]
    omega
  · intro w j hj
    rw [BitVec.getLsbD_and, lowMask_getLsbD hs64, ← decide_not]
    congr 1
    rw [decide_eq_decide]
    omega
  · intro w j hj
    rw [BitVec.getLsbD_and, highMask_getLsbD he64 hj, ← decide_not]
    congr 1
    rw [decide_eq_decide]
    omega
  · simp

end

def Memr.Has (x : Nat) : Prop := r.firstPage ≤ x ∧ x < r.firstPage + r.nrPages

instance (r : Memr) (x : Nat) : Decidable (r.Has x) := inferInstanceAs (Decidable (_ ∧ _))

/-- A region whose struct is at page `m`: the struct and the bitmap fill the pages before the first one, and the
bitmap has a bit for the page after the last one, which `map_alloc` and `map_free` may touch. -/
structure Memr.Ok (r : Memr) (m : Nat) : Prop where
  pos : 0 < m
  start : m < r.firstPage
  size : 40 + r.mmAllocBitmapSize = 4096 * (r.firstPage - m)
  nonempty : 0 < r.nrPages
  last : r.firstPage + r.nrPages < 2 ^ 52
  bits : 8 * (r.nrPages / 64 + 1) ≤ r.mmAllocBitmapSize

structure Bbpalloc.Regions (b : Bbpalloc) : Prop where
  ok : ∀ m ∈ b.memrHead, (b.memr m).Ok m
  disjoint : ∀ m ∈ b.memrHead, ∀ m' ∈ b.memrHead, ∀ x, m ≤ x → x < (b.memr m).firstPage + (b.memr m).nrPages →
    m' ≤ x →
    x < (b.memr m').firstPage + (b.memr m').nrPages → m = m'

def Bbpalloc.Free (x : Nat) : Prop :=
  ∃ m ∈ b.memrHead, (b.memr m).Has x ∧ (b.memr m).bit (x - (b.memr m).firstPage) = false

structure Bbpalloc.SameRegions (b b' : Bbpalloc) : Prop where
  memrHead : b'.memrHead = b.memrHead
  firstPage : ∀ m, (b'.memr m).firstPage = (b.memr m).firstPage
  nrPages : ∀ m, (b'.memr m).nrPages = (b.memr m).nrPages
  mmAllocBitmapSize : ∀ m, (b'.memr m).mmAllocBitmapSize = (b.memr m).mmAllocBitmapSize

structure Bbpalloc.SameLists (b b' : Bbpalloc) : Prop where
  freeHead : b'.freeHead = b.freeHead
  pageOrder : b'.pageOrder = b.pageOrder

section
variable {b b' : Bbpalloc} {m m' x p n : Nat}

private theorem Bbpalloc.Regions.eq_of_has (h : b.Regions) (hm : m ∈ b.memrHead) (hm' : m' ∈ b.memrHead)
    (hx : (b.memr m).Has x) (hx' : (b.memr m').Has x) : m = m' := by
  have h1 := (h.ok m hm).start
  have h2 := (h.ok m' hm').start
  exact h.disjoint m hm m' hm' x (Nat.le_trans (Nat.le_of_lt h1) hx.1) hx.2
    (Nat.le_trans (Nat.le_of_lt h2) hx'.1) hx'.2

/-- The bit of a page is in the bitmap of its region. -/
theorem Bbpalloc.Regions.free_iff (h : b.Regions) (hm : m ∈ b.memrHead) (hx : (b.memr m).Has x) :
    b.Free x ↔ (b.memr m).bit (x - (b.memr m).firstPage) = false := by
  constructor
  · rintro ⟨m', hm', hx', hb⟩
    rwa [h.eq_of_has hm hm' hx hx']
  · exact fun hb => ⟨m, hm, hx, hb⟩

theorem Bbpalloc.SameRegions.refl (b : Bbpalloc) : b.SameRegions b := ⟨rfl, fun _ => rfl, fun _ => rfl, fun _ => rfl⟩

theorem Bbpalloc.SameRegions.symm (h : b.SameRegions b') : b'.SameRegions b :=
  ⟨h.memrHead.symm, fun m => (h.firstPage m).symm, fun m => (h.nrPages m).symm, fun m => (h.mmAllocBitmapSize m).symm⟩

theorem Bbpalloc.SameRegions.trans {b'' : Bbpalloc} (h : b.SameRegions b') (h' : b'.SameRegions b'') :
    b.SameRegions b'' where
  memrHead := h'.memrHead.trans h.memrHead
  firstPage m := (h'.firstPage m).trans (h.firstPage m)
  nrPages m := (h'.nrPages m).trans (h.nrPages m)
  mmAllocBitmapSize m := (h'.mmAllocBitmapSize m).trans (h.mmAllocBitmapSize m)

theorem Bbpalloc.SameRegions.has (h : b.SameRegions b') : (b'.memr m).Has x ↔ (b.memr m).Has x := by
  rw [Memr.Has, Memr.Has, h.firstPage, h.nrPages]

theorem Bbpalloc.SameRegions.regions (h : b.SameRegions b') (hr : b.Regions) : b'.Regions where
  ok m hm := by
    rw [h.memrHead] at hm
    obtain ⟨h1, h2, h3, h4, h5, h6⟩ := hr.ok m hm
    rw [← h.firstPage] at h2 h3 h5
    rw [← h.nrPages] at h4 h5 h6
    rw [← h.mmAllocBitmapSize] at h3 h6
    exact ⟨h1, h2, h3, h4, h5, h6⟩
  disjoint m hm m' hm' x h1 h2 h3 h4 := by
    rw [h.memrHead] at hm hm'
    rw [h.firstPage, h.nrPages] at h2 h4
    exact hr.disjoint m hm m' hm' x h1 h2 h3 h4

theorem addPages_of_lt (h : p + n < 2 ^ 52) : addPages p n = p + n := Nat.mod_eq_of_lt h

private theorem mapGetMemr_eq (h : b.Regions) (hm : m ∈ b.memrHead) (hx : (b.memr m).Has x) :
    mapGetMemr b x = some m := by
  have hlt : ∀ m ∈ b.memrHead, addPages (b.memr m).firstPage (b.memr m).nrPages =
    (b.memr m).firstPage + (b.memr m).nrPages :=
    fun m hm => addPages_of_lt (h.ok m hm).last
  cases hf : mapGetMemr b x with
  | none =>
    have := List.find?_eq_none.1 hf m hm
    rw [hlt m hm] at this
    exact absurd (decide_eq_true hx) this
  | some m' =>
    have hm' := List.mem_of_find?_eq_some hf
    have hx' : (b.memr m').firstPage ≤ x ∧ x < addPages (b.memr m').firstPage (b.memr m').nrPages := by
      simpa using List.find?_some hf
    rw [hlt m' hm'] at hx'
    rw [h.eq_of_has hm' hm hx' hx]

private theorem mapGetMemr_eq_none (h : b.Regions) (hx : ∀ m ∈ b.memrHead, ¬(b.memr m).Has x) :
    mapGetMemr b x = none := by
  refine List.find?_eq_none.2 fun m hm hd => hx m hm ?_
  have := of_decide_eq_true hd
  rwa [addPages_of_lt (h.ok m hm).last] at this

private theorem word_size {i : Nat} {r : Memr} (h : r.Ok m) (hi : i ≤ r.nrPages) :
    8 * (i / 64 + 1) ≤ r.mmAllocBitmapSize := by
  have := h.bits
  omega

/-- `allocated_in_map` finds the region of the page and reads its bit. -/
theorem allocatedInMap_eq (h : b.Regions) (x : Nat) : ∃ v, allocatedInMap b x = some v ∧ (v = false ↔ b.Free x) := by
  by_cases hx : ∃ m ∈ b.memrHead, (b.memr m).Has x
  · obtain ⟨m, hm, hx⟩ := hx
    have hidx : x - (b.memr m).firstPage ≤ (b.memr m).nrPages := by
      have := hx.2
      omega
    simp only [allocatedInMap, mapGetMemr_eq h hm hx]
    refine ⟨_, if_pos (word_size (h.ok m hm) hidx), ?_⟩
    rw [h.free_iff hm hx, decide_eq_false_iff_not, not_not]
    exact and_bit_eq_zero (Nat.mod_lt _ (by decide))
  · refine ⟨true, ?_, ?_⟩
    · rw [allocatedInMap, mapGetMemr_eq_none h fun m hm hh => hx ⟨m, hm, hh⟩]
    · constructor
      · intro ht
        cases ht
      · rintro ⟨m, hm, hh, -⟩
        exact absurd ⟨m, hm, hh⟩ hx

private theorem updateMap_eq {bits : Memr → Nat → Nat → Option Memr} {g : Bool → Bool → Bool}
    (hbits : ∀ (r : Memr) s e, s ≤ e → 8 * (e / 64 + 1) ≤ r.mmAllocBitmapSize →
      ∃ r', bits r s e = some r' ∧ r.Changed r' fun i => g (decide (s ≤ i ∧ i < e)) (r.bit i))
      (hout : ∀ x, g false x = x)
    (h : b.Regions) (hm : m ∈ b.memrHead) (hp : (b.memr m).firstPage ≤ p) (hn : 0 < n)
    (he : p + n ≤ (b.memr m).firstPage + (b.memr m).nrPages) :
    ∃ b', b.updateMap p n bits = some b' ∧ b.SameRegions b' ∧ b.SameLists b' ∧ b'.nrFreePages = b.nrFreePages ∧
      ∀ x, b'.Free x ↔ ∃ m ∈ b.memrHead, (b.memr m).Has x ∧
        g (decide (p ≤ x ∧ x < p + n)) ((b.memr m).bit (x - (b.memr m).firstPage)) = false := by
  have hok := h.ok m hm
  have hlast := hok.last
  have hget := mapGetMemr_eq h hm ⟨hp, by omega⟩
  obtain ⟨r', hr', hc⟩ := hbits (b.memr m) (p - (b.memr m).firstPage) (p - (b.memr m).firstPage + n) (by omega)
    (word_size hok (by omega))
  have hmod : (p - (b.memr m).firstPage + n) % 2 ^ 64 = p - (b.memr m).firstPage + n := Nat.mod_eq_of_lt (by omega)
  have hguard : addPages p n ≤ addPages (b.memr m).firstPage (b.memr m).nrPages := by
    rw [addPages_of_lt hlast, addPages_of_lt (by omega)]
    exact he
  have hsame : b.SameRegions { b with memr := update b.memr m r' } := by
    refine ⟨rfl, fun k => ?_, fun k => ?_, fun k => ?_⟩
    all_goals
      by_cases hk : k = m
      · subst hk
        simp [hc.firstPage, hc.nrPages, hc.mmAllocBitmapSize]
      · simp [update_of_ne hk]
  refine ⟨{ b with memr := update b.memr m r' }, ?_, hsame, ⟨rfl, rfl⟩, rfl, fun x => ?_⟩
  · simp only [Bbpalloc.updateMap, hget, hmod, hr', guard, if_pos hguard, Option.bind_eq_bind, Option.bind_some,
        Option.pure_def]
  · have hmem : ∀ k, (update b.memr m r' k).Has x ↔ (b.memr k).Has x := fun k => hsame.has
    refine exists_congr fun k => and_congr_right fun hk => ?_
    dsimp only
    rw [hmem k]
    refine and_congr_right fun hx => ?_
    by_cases hkm : k = m
    · subst hkm
      have hx1 := hx.1
      rw [update_self, hc.bit, hc.firstPage]
      have hiff : (p - (b.memr k).firstPage ≤ x - (b.memr k).firstPage ∧
          x - (b.memr k).firstPage < p - (b.memr k).firstPage + n) ↔ (p ≤ x ∧ x < p + n) := by omega
      rw [decide_eq_decide.2 hiff]
    · have hno : ¬(p ≤ x ∧ x < p + n) := fun hpx => hkm (h.eq_of_has hk hm hx ⟨by omega, by omega⟩)
      rw [update_of_ne hkm, decide_eq_false hno, hout]

/-- Pages that follow one another are in one region: between two regions there is a page of bookkeeping. -/
theorem Bbpalloc.Regions.exists_region (h : b.Regions) (hn : 0 < n)
    (hp : ∀ x, p ≤ x → x < p + n → ∃ m ∈ b.memrHead, (b.memr m).Has x) :
    ∃ m ∈ b.memrHead, (b.memr m).firstPage ≤ p ∧ p + n ≤ (b.memr m).firstPage + (b.memr m).nrPages := by
  induction n with
  | zero => omega
  | succ n ih =>
    obtain ⟨m', hm', hx'⟩ := hp (p + n) (by omega) (by omega)
    by_cases hn0 : n = 0
    · subst hn0
      exact ⟨m', hm', hx'.1, hx'.2⟩
    · obtain ⟨m, hm, hfirst, hlast⟩ := ih (by omega) fun x h1 h2 => hp x h1 (by omega)
      have hmm : m = m' := by
        have hs := (h.ok m hm).start
        have hs' := (h.ok m' hm').start
        have hx1 := hx'.1
        have hx2 := hx'.2
        exact h.disjoint m hm m' hm' (p + n - 1) (by omega) (by omega) (by omega) (by omega)
      subst hmm
      exact ⟨m, hm, hfirst, hx'.2⟩

section
variable (h : b.Regions) (hm : m ∈ b.memrHead) (hp : (b.memr m).firstPage ≤ p) (hn : 0 < n)
  (he : p + n ≤ (b.memr m).firstPage + (b.memr m).nrPages)
include h hm hp hn he

private theorem mapAlloc_eq (hfree : n ≤ b.nrFreePages) (hnr : b.nrFreePages < 2 ^ 64) :
    ∃ b', mapAlloc b p n = some b' ∧ b.SameRegions b' ∧ b.SameLists b' ∧ b'.nrFreePages = b.nrFreePages - n ∧
      ∀ x, b'.Free x ↔ b.Free x ∧ ¬(p ≤ x ∧ x < p + n) := by
  obtain ⟨b1, h1, hs, hls, hnr1, hf⟩ := updateMap_eq (g := fun b x => x || b) (fun r s e => Memr.allocBits_eq)
    (fun x => Bool.or_false x) h hm hp hn he
  refine ⟨{ b1 with nrFreePages := (b1.nrFreePages + (2 ^ 64 - n % 2 ^ 64)) % 2 ^ 64 }, ?_,
    ⟨hs.memrHead, hs.firstPage, hs.nrPages, hs.mmAllocBitmapSize⟩, ⟨hls.freeHead, hls.pageOrder⟩, ?_, fun x => ?_⟩
  · simp only [mapAlloc, h1, Option.bind_eq_bind, Option.bind_some]
  · dsimp only
    omega
  · refine (hf x).trans ?_
    simp only [Bool.or_eq_false_iff, decide_eq_false_iff_not, ← and_assoc, Bbpalloc.Free]
    rw [← exists_and_right]

/-- `map_free` makes exactly the `n` pages from `p` on free. -/
theorem mapFree_eq (hnr : b.nrFreePages + n < 2 ^ 64) :
    ∃ b', mapFree b p n = some b' ∧ b.SameRegions b' ∧ b.SameLists b' ∧ b'.nrFreePages = b.nrFreePages + n ∧
      ∀ x, b'.Free x ↔ b.Free x ∨ p ≤ x ∧ x < p + n := by
  obtain ⟨b1, h1, hs, hls, hnr1, hf⟩ := updateMap_eq (g := fun b x => x && !b) (fun r s e => Memr.freeBits_eq)
    (fun x => by simp) h hm hp hn he
  refine ⟨{ b1 with nrFreePages := (b1.nrFreePages + n) % 2 ^ 64 }, ?_,
    ⟨hs.memrHead, hs.firstPage, hs.nrPages, hs.mmAllocBitmapSize⟩, ⟨hls.freeHead, hls.pageOrder⟩, ?_, fun x => ?_⟩
  · simp only [mapFree, h1, Option.bind_eq_bind, Option.bind_some]
  · rw [hnr1, Nat.mod_eq_of_lt hnr]
  · refine (hf x).trans ?_
    simp only [Bool.and_eq_false_iff, Bool.not_eq_false', decide_eq_true_eq]
    constructor
    · rintro ⟨k, hk, hx, hb | hb⟩
      · exact .inl ⟨k, hk, hx, hb⟩
      · exact .inr hb
    · rintro (⟨k, hk, hx, hb⟩ | hb)
      · exact ⟨k, hk, hx, .inl hb⟩
      · exact ⟨m, hm, ⟨by omega, by omega⟩, .inr hb⟩

end

end

def ukMssbl (x : Nat) : Nat := Nat.log2 x

def ukLssbl (x : Nat) : Nat := Bits.lowestSet (BitVec.ofNat 64 x)

def numPagesToOrder (numPages : Nat) : Nat := if numPages = 1 then 0 else ukMssbl (numPages - 1) + 1

def ptrOrder (p maxord : Nat) : Nat := if p = 0 then maxord else min (ukLssbl p) maxord

def npagesOrder (numPages : Nat) : Nat := ukMssbl numPages

def Bbpalloc.setPageOrder (ch ord : Nat) : Bbpalloc :=
  { b with pageOrder := Function.update b.pageOrder ch ord }

def ukHlistAddHead (ch ord : Nat) : Bbpalloc :=
  { b with freeHead := Function.update b.freeHead ord (ch :: b.freeHead ord) }

def ukHlistDel (ch : Nat) : Bbpalloc :=
  { b with freeHead := fun k => (b.freeHead k).erase ch }

def trimLoop : Nat → Bbpalloc → Nat → Nat → Option Bbpalloc
  | 0, _, _, _ => none
  | fuel + 1, b, sparePages, spareEnd =>
    if sparePages = 0 then some b
    else do
      let spareOrd := npagesOrder sparePages
      let spareCh := subPages spareEnd (2 ^ spareOrd)
      guard (spareOrd < 52)
      guard (2 ^ spareOrd ≤ sparePages)
      let b := ukHlistAddHead (b.setPageOrder spareCh spareOrd) spareCh spareOrd
      trimLoop fuel b (sparePages - 2 ^ spareOrd) (subPages spareEnd (2 ^ spareOrd))

def bbuddyTrim (ch ord numPages : Nat) : Option Bbpalloc := do
  guard (b.pageOrder ch = ord)
  -- each round takes the highest bit of the number of pages
  trimLoop 65 b (2 ^ ord - numPages) (addPages ch (2 ^ ord))

def skipEmpty (b : Bbpalloc) : Nat → Nat → Nat
  | 0, ord => ord
  | fuel + 1, ord => if ord < 52 ∧ b.freeHead ord = [] then skipEmpty b fuel (ord + 1) else ord

/-- `none` in the result is `NULL`. -/
def bbuddyPalloc (numPages : Nat) : Option (Option Nat × Bbpalloc) := do
  guard (numPages ≠ 0)
  let ord := skipEmpty b 52 (numPagesToOrder numPages)
  if 52 ≤ ord then some (none, b)
  else
    let allocCh ← (b.freeHead ord).head?
    let b := ukHlistDel b allocCh
    guard (allocCh % 2 ^ ord = 0)
    let b ← bbuddyTrim b allocCh ord numPages
    let b ← mapAlloc b allocCh numPages
    some (some allocCh, b)

def bbuddyMerge : Nat → Bbpalloc → Nat → Nat → Option (Nat × Nat × Bbpalloc)
  | 0, _, _, _ => none
  | fuel + 1, b, ch, ord =>
    if ord < 51 then do
      let buddy := ch ^^^ 2 ^ ord
      let allocated ← allocatedInMap b buddy
      if allocated ∨ b.pageOrder buddy ≠ ord then some (ch, ord, b)
      else bbuddyMerge fuel (ukHlistDel b buddy) (if buddy &&& 2 ^ ord = 0 then buddy else ch) (ord + 1)
    else some (ch, ord, b)

def pfreeLoop : Nat → Bbpalloc → Nat → Nat → Option Bbpalloc
  | 0, _, _, _ => none
  | fuel + 1, b, base, numPages => do
    let ord := ptrOrder base (npagesOrder numPages)
    let freedPages := 2 ^ ord
    guard (ord < 52)
    guard (freedPages ≤ numPages)
    let (ch, ord, b) ← bbuddyMerge 52 b base ord
    let b ← mapFree (b.setPageOrder ch ord) base freedPages
    let b := ukHlistAddHead b ch ord
    let numPages := numPages - freedPages
    if numPages = 0 then some b else pfreeLoop fuel b (addPages base freedPages) numPages

def bbuddyPfree (obj numPages : Nat) : Option Bbpalloc := do
  guard (obj ≠ 0)
  guard (numPages ≠ 0)
  pfreeLoop numPages b obj numPages

/-- The largest order with a free chunk is shifted as an `int`: a result that does not fit is `none`. -/
def bbuddyPmaxalloc : Option Int :=
  let order := (List.range 52).foldl (fun order i => if b.freeHead i ≠ [] then i else order) 52
  if order = 52 then some 0 else if order < 31 then some (2 ^ order) else none

/-- The order of the next chunk of a new region: `1UL << (i + 1)` is only defined below 64. -/
def unitOrder (min range : Nat) : Nat → Nat → Option Nat
  | 0, _ => none
  | fuel + 1, i =>
    if 2 ^ (i + 1) ≤ range then if min.testBit i then some i else unitOrder min range fuel (i + 1)
    else some i

def addLoop : Nat → Bbpalloc → Nat → Nat → Option Bbpalloc
  | 0, _, _, _ => none
  | fuel + 1, b, min, range =>
    if range = 0 then some b
    else do
      let i ← unitOrder min range 51 0
      addLoop fuel (ukHlistAddHead (b.setPageOrder min i) min i) (addPages min (2 ^ i)) (range - 2 ^ i)

def EINVAL : Int := 22

def memrPages (nrPages : Nat) : Nat := (40 + (nrPages + 7) / 8 + 4095) / 4096

/-- The region is set up at page `min` with `range` pages in all, the pages of its bookkeeping included. -/
def initRegion (min range : Nat) : Bbpalloc :=
  { b with
    memr := Function.update b.memr min
      { firstPage := addPages min (memrPages range)
        nrPages := range - memrPages range
        mmAllocBitmapSize := 4096 * memrPages range - 40
        mmAllocBitmap := fun _ => BitVec.allOnes 64 }
    -- page 0 is `NULL`
    memrHead := if min = 0 then [] else min :: b.memrHead }

/-- `base` and `len` are in bytes. -/
def bbuddyAddmem (base len : Nat) : Option (Int × Bbpalloc) := do
  guard (base ≠ 0)
  let min := (base + 4095) % 2 ^ 64 / 4096
  let max := (base + len) % 2 ^ 64 / 4096
  if max < min then some (-EINVAL, b)
  else
    let range := max - min
    -- a page for the struct and the first word of the bitmap, and one that can be allocated
    if 4096 * range < 4096 * ((40 + 8 + 4095) / 4096) + 4096 then some (-EINVAL, b)
    else
      let b := initRegion b min range
      let first := addPages min (memrPages range)
      let nrPages := range - memrPages range
      let b ← mapFree b first nrPages
      let b ← addLoop (nrPages + 1) b first nrPages
      some (0, b)

open AlignedBlocks

/-- The chunks on the free lists are the blocks `C`, which cover the pages `S`. -/
structure Chunks (b : Bbpalloc) (C : Set Block) (S : Set Nat) : Prop where
  mem : ∀ k p, p ∈ b.freeHead k ↔ ∃ c ∈ C, c.first = p ∧ c.order = k
  nodup : ∀ k, (b.freeHead k).Nodup
  pageOrder : ∀ c ∈ C, b.pageOrder c.first = c.order
  decomp : Decomposition C S
  buddyFree : BuddyFree C

structure Bbpalloc.SameMap (b b' : Bbpalloc) : Prop where
  memrHead : b'.memrHead = b.memrHead
  memr : b'.memr = b.memr
  nrFreePages : b'.nrFreePages = b.nrFreePages

variable {b b' : Bbpalloc} {C : Set Block} {S : Set Nat} {B c : Block} {m p k n x fuel : Nat}

section
variable {b'' : Bbpalloc}

theorem Bbpalloc.SameMap.refl (b : Bbpalloc) : b.SameMap b := ⟨rfl, rfl, rfl⟩

theorem Bbpalloc.SameMap.sameRegions (h : b.SameMap b') : b.SameRegions b' :=
  ⟨h.memrHead, fun m => by rw [h.memr], fun m => by rw [h.memr], fun m => by rw [h.memr]⟩

theorem Bbpalloc.SameMap.free (h : b.SameMap b') : b'.Free x ↔ b.Free x := by
  rw [Bbpalloc.Free, Bbpalloc.Free, h.memrHead, h.memr]

section
variable (h : Chunks b C S)
include h

theorem Chunks.congr (hs : b.SameLists b') : Chunks b' C S where
  mem k p := by rw [hs.freeHead, h.mem]
  nodup k := by
    rw [hs.freeHead]
    exact h.nodup k
  pageOrder c hc := by rw [hs.pageOrder, h.pageOrder c hc]
  decomp := h.decomp
  buddyFree := h.buddyFree

private theorem Chunks.eq_of_first {d : Block} (hc : c ∈ C) (hd : d ∈ C) (hf : c.first = d.first) : c = d :=
  h.decomp.disjoint c hc d hd c.first (first_mem c) (hf ▸ first_mem d)

theorem Chunks.setPageOrder (hp : p ∉ S) : Chunks (b.setPageOrder p k) C S where
  mem := h.mem
  nodup := h.nodup
  pageOrder c hc := by
    have hne : c.first ≠ p := by
      rintro rfl
      exact hp (h.decomp.mem hc (first_mem c))
    change update b.pageOrder p k c.first = _
    rw [update_of_ne hne, h.pageOrder c hc]
  decomp := h.decomp
  buddyFree := h.buddyFree

/-- A chunk of new pages is added to the list of its order, if its buddy is not free. -/
theorem Chunks.add (hc : ∀ x ∈ c, x ∉ S) (hb : c.buddy ∉ C) (ho : b.pageOrder c.first = c.order) :
    Chunks (ukHlistAddHead b c.first c.order) (insert c C) (S ∪ {x | x ∈ c}) where
  mem k p := by
    change p ∈ update b.freeHead c.order (c.first :: b.freeHead c.order) k ↔ _
    by_cases hk : k = c.order
    · subst hk
      rw [update_self, List.mem_cons, h.mem]
      constructor
      · rintro (rfl | ⟨d, hd, h1, h2⟩)
        · exact ⟨c, .inl rfl, rfl, rfl⟩
        · exact ⟨d, .inr hd, h1, h2⟩
      · rintro ⟨d, rfl | hd, h1, h2⟩
        · exact .inl h1.symm
        · exact .inr ⟨d, hd, h1, h2⟩
    · rw [update_of_ne hk, h.mem]
      constructor
      · rintro ⟨d, hd, h1, h2⟩
        exact ⟨d, .inr hd, h1, h2⟩
      · rintro ⟨d, rfl | hd, h1, h2⟩
        · exact absurd h2.symm hk
        · exact ⟨d, hd, h1, h2⟩
  nodup k := by
    change (update b.freeHead c.order (c.first :: b.freeHead c.order) k).Nodup
    by_cases hk : k = c.order
    · subst hk
      rw [update_self, List.nodup_cons, h.mem]
      refine ⟨?_, h.nodup _⟩
      rintro ⟨d, hd, h1, -⟩
      exact hc c.first (first_mem c) (h1 ▸ h.decomp.mem hd (first_mem d))
    · rw [update_of_ne hk]
      exact h.nodup k
  pageOrder := by
    rintro d (rfl | hd)
    · exact ho
    · exact h.pageOrder d hd
  decomp := h.decomp.insert hc
  buddyFree := h.buddyFree.insert hb

/-- A chunk is taken out of its list, and its pages with it. -/
theorem Chunks.del (hc : c ∈ C) : Chunks (ukHlistDel b c.first) (C \ {c}) (S \ {x | x ∈ c}) where
  mem k p := by
    change p ∈ (b.freeHead k).erase c.first ↔ _
    rw [(h.nodup k).mem_erase_iff, h.mem]
    constructor
    · rintro ⟨hne, d, hd, h1, h2⟩
      refine ⟨d, ⟨hd, ?_⟩, h1, h2⟩
      rintro rfl
      exact hne h1.symm
    · rintro ⟨d, ⟨hd, hne⟩, h1, h2⟩
      refine ⟨?_, d, hd, h1, h2⟩
      rintro rfl
      exact hne (h.eq_of_first hd hc h1)
  nodup k := (h.nodup k).erase _
  pageOrder d hd := h.pageOrder d hd.1
  decomp := h.decomp.erase hc
  buddyFree := h.buddyFree.mono Set.sdiff_subset

end

/-- No chunk can have order 51: it would contain the first or the last page of the address space. -/
theorem order_lt (hB : ∀ x ∈ B, 0 < x ∧ x < 2 ^ 52 - 1) : B.order < 51 := by
  by_contra hlt
  have hpow : 2 ^ 51 ≤ 2 ^ B.order := Nat.pow_le_pow_right (by decide) (by omega)
  have h0 := hB B.first (first_mem B)
  have h1 := hB (B.first + (2 ^ 51 - 1)) ⟨by omega, by omega⟩
  obtain ⟨q, hq⟩ : 2 ^ 51 ∣ B.first := (Nat.pow_dvd_pow 2 (by omega)).trans B.aligned
  omega

end

section
variable {e spare : Nat}

private theorem subPages_of_le (hn : n ≤ p) (hp : p < 2 ^ 52) : subPages p n = p - n := by
  rw [subPages]
  omega

/-- The pages before `e` come back as chunks with decreasing orders, so no two are buddies, and a buddy outside of
them would lie in `B`, too. -/
private theorem trimLoop_eq (h : Chunks b C S) (hspare : spare < 2 ^ m) (hm : m ≤ B.order) (he : 2 ^ m ∣ e)
    (hle : spare ≤ e)
    (hlt : e < 2 ^ 52) (hB : ∀ x, e - spare ≤ x → x < e → x ∈ B) (hbig : ∀ d ∈ C, ∀ x ∈ d, x ∈ B → m ≤ d.order)
    (hS : ∀ x, e - spare ≤ x → x < e → x ∉ S) (hfuel : m < fuel) :
    ∃ b' C', trimLoop fuel b spare e = some b' ∧ Chunks b' C' (S ∪ {x | e - spare ≤ x ∧ x < e}) ∧ b.SameMap b' := by
  induction fuel generalizing b C S m e spare with
  | zero => omega
  | succ fuel ih =>
    rw [trimLoop]
    by_cases h0 : spare = 0
    · subst h0
      have hempty : S ∪ {x | e - 0 ≤ x ∧ x < e} = S := by
        refine Set.union_eq_self_of_subset_right fun x hx => ?_
        have := hx.1
        have := hx.2
        omega
      refine ⟨b, C, if_pos rfl, ?_, .refl b⟩
      rwa [hempty]
    · rw [if_neg h0]
      have hj : 2 ^ spare.log2 ≤ spare := Nat.log2_self_le h0
      have hj' : spare < 2 ^ (spare.log2 + 1) := Nat.lt_log2_self
      have hjm : spare.log2 < m := (Nat.log2_lt h0).2 hspare
      have hj52 : spare.log2 < 52 := (Nat.log2_lt h0).2 (by omega)
      obtain ⟨q, hq⟩ := he
      generalize hord : spare.log2 = j at hj hj' hjm hj52
      have hpow : 2 ^ m = 2 ^ j * 2 ^ (m - j) := by rw [← Nat.pow_add, Nat.add_sub_cancel' hjm.le]
      have hdvd : 2 ^ j ∣ e - 2 ^ j :=
        Nat.dvd_sub (hq ▸ hpow ▸ Nat.mul_assoc _ _ _ ▸ Nat.dvd_mul_right ..) (Nat.dvd_refl _)
      have hsub : subPages e (2 ^ j) = e - 2 ^ j := subPages_of_le (by omega) hlt
      let c : Block := ⟨e - 2 ^ j, j, hdvd⟩
      have hmem : ∀ x, x ∈ c ↔ e - 2 ^ j ≤ x ∧ x < e := fun x => by
        change e - 2 ^ j ≤ x ∧ x < e - 2 ^ j + 2 ^ j ↔ _
        omega
      have hcB : c ≤ B := fun x hx => hB x (by have := (hmem x).1 hx; omega) ((hmem x).1 hx).2
      have hcS : ∀ x ∈ c, x ∉ S := fun x hx => hS x (by have := (hmem x).1 hx; omega) ((hmem x).1 hx).2
      have hbuddy : c.buddy ∉ C := by
        intro hc
        have hin : c.buddy.first ∈ B := parent_le hcB (by change j < _; omega) _ (mem_parent.2 (.inr (first_mem _)))
        have hmj : m ≤ j := hbig c.buddy hc _ (first_mem _) hin
        omega
      have hadd := (h.setPageOrder (hcS c.first (first_mem c))).add hcS hbuddy (update_self ..)
      have hunion : ∀ x, x ∈ S ∪ {x | x ∈ c} ↔ x ∈ S ∨ e - 2 ^ j ≤ x ∧ x < e := fun x => or_congr Iff.rfl (hmem x)
      have hbig' : ∀ d ∈ insert c C, ∀ x ∈ d, x ∈ B → j ≤ d.order := by
        rintro d (rfl | hd) x hx hxB
        · exact Nat.le_refl _
        · exact Nat.le_trans hjm.le (hbig d hd x hx hxB)
      have hS' : ∀ x, e - 2 ^ j - (spare - 2 ^ j) ≤ x → x < e - 2 ^ j → x ∉ S ∪ {x | x ∈ c} := by
        intro x h1 h2
        rw [hunion]
        rintro (hx | hx)
        · exact hS x (by omega) (by omega) hx
        · omega
      obtain ⟨b', C', htrim, hch, hsame⟩ := ih hadd (by omega) (by omega) hdvd (by omega) (by omega)
        (fun x h1 h2 => hB x (by omega) (by omega)) hbig' hS' (by omega)
      refine ⟨b', C', ?_, ?_, hsame.memrHead, hsame.memr, hsame.nrFreePages⟩
      · simp only [npagesOrder, ukMssbl, hord, hsub, guard, if_pos hj52, if_pos hj]
        exact htrim
      · have hset : S ∪ {x | x ∈ c} ∪ {x | e - 2 ^ j - (spare - 2 ^ j) ≤ x ∧ x < e - 2 ^ j} =
            S ∪ {x | e - spare ≤ x ∧ x < e} := by
          refine Set.ext fun x => (or_congr (hunion x) Iff.rfl).trans (or_assoc.trans (or_congr_right ?_))
          change (_ ∨ e - 2 ^ j - (spare - 2 ^ j) ≤ x ∧ x < e - 2 ^ j) ↔ (e - spare ≤ x ∧ x < e)
          omega
        rwa [hset] at hch

end

/-- `F` are the free pages: those with a bit that is 0, and those of the chunks. -/
structure Sound (b : Bbpalloc) (F : Finset Nat) : Prop where
  regions : b.Regions
  free : ∀ x, x ∈ F ↔ b.Free x
  nrFreePages : b.nrFreePages = F.card
  chunks : ∃ C, Chunks b C F

section
variable {F : Finset Nat} {ord : Nat}

theorem Bbpalloc.Free.bound (h : b.Regions) (hx : b.Free x) : 0 < x ∧ x < 2 ^ 52 - 1 := by
  obtain ⟨m, hm, hh, -⟩ := hx
  have h2 := (h.ok m hm).start
  have h3 := (h.ok m hm).last
  have h4 := hh.1
  have h5 := hh.2
  omega

theorem Sound.card_lt (h : Sound b F) : F.card < 2 ^ 52 := by
  have hsub : F ⊆ Finset.Ico 1 (2 ^ 52) := fun x hx => by
    have := ((h.free x).1 hx).bound h.regions
    rw [Finset.mem_Ico]
    omega
  have hle := Finset.card_le_card hsub
  rw [Nat.card_Ico] at hle
  omega

/-- Free pages in a row belong to one region, as regions do not touch. -/
theorem Sound.exists_region (h : Sound b F) (hn : 0 < n) (hp : Finset.Ico p (p + n) ⊆ F) :
    ∃ m ∈ b.memrHead, (b.memr m).firstPage ≤ p ∧ p + n ≤ (b.memr m).firstPage + (b.memr m).nrPages := by
  refine h.regions.exists_region hn fun x h1 h2 => ?_
  obtain ⟨m, hm, hx, -⟩ := (h.free x).1 (hp (Finset.mem_Ico.2 ⟨h1, h2⟩))
  exact ⟨m, hm, hx⟩

/-- The search stops at the first order from `ord` on whose list is not empty. -/
theorem skipEmpty_spec (hfuel : 52 ≤ ord + fuel) :
    ord ≤ skipEmpty b fuel ord ∧ (∀ k, ord ≤ k → k < skipEmpty b fuel ord → b.freeHead k = []) ∧
      (skipEmpty b fuel ord < 52 → b.freeHead (skipEmpty b fuel ord) ≠ []) := by
  induction fuel generalizing ord with
  | zero =>
    rw [skipEmpty]
    exact ⟨Nat.le_refl _, fun k h1 h2 => by omega, fun h => by omega⟩
  | succ fuel ih =>
    rw [skipEmpty]
    split
    next h =>
      have hsucc : 52 ≤ ord + 1 + fuel := by omega
      obtain ⟨h1, h2, h3⟩ := ih hsucc
      refine ⟨by omega, fun k hk hlt => ?_, h3⟩
      by_cases hkord : k = ord
      · rw [hkord, h.2]
      · exact h2 k (by omega) hlt
    next h =>
      exact ⟨Nat.le_refl _, fun k h1 h2 => by omega, fun hlt he => h ⟨hlt, he⟩⟩

private theorem numPagesToOrder_le (hn : 0 < n) : numPagesToOrder n ≤ k ↔ n ≤ 2 ^ k := by
  rw [numPagesToOrder]
  by_cases h1 : n = 1
  · rw [h1]
    exact ⟨fun _ => Nat.one_le_two_pow, fun _ => Nat.zero_le _⟩
  · rw [if_neg h1, ukMssbl, Nat.add_one_le_iff, Nat.log2_lt (by omega)]
    omega

private theorem Sound.mapAlloc (h : Sound b F) (hc : Chunks b' C (F \ Finset.Ico p (p + n) : Finset Nat))
    (hs : b.SameMap b') (hn : 0 < n) (hp : Finset.Ico p (p + n) ⊆ F) :
    ∃ b'', Buddy.mapAlloc b' p n = some b'' ∧ Sound b'' (F \ Finset.Ico p (p + n)) ∧ b.SameRegions b'' := by
  obtain ⟨m, hm, hfirst, hlast⟩ := h.exists_region hn hp
  have hcard : n ≤ F.card := by
    have := Finset.card_le_card hp
    rw [Nat.card_Ico] at this
    omega
  have hlt := h.card_lt
  have hnr : b'.nrFreePages = F.card := hs.nrFreePages.trans h.nrFreePages
  rw [← hs.memr] at hfirst hlast
  rw [← hs.memrHead] at hm
  obtain ⟨b'', hb, hr, hl, hnr', hfree⟩ :=
    mapAlloc_eq (hs.sameRegions.regions h.regions) hm hfirst hn hlast (by omega) (by omega)
  have hregions := hs.sameRegions.trans hr
  refine ⟨b'', hb, ⟨hregions.regions h.regions, fun x => ?_, ?_, C, hc.congr hl⟩, hregions⟩
  · rw [hfree, hs.free, ← h.free, Finset.mem_sdiff, Finset.mem_Ico]
  · rw [Finset.card_sdiff_of_subset hp, Nat.card_Ico]
    omega

/-- `bbuddy_palloc` takes `n` free pages, or there is no chunk that is large enough and nothing changes. -/
theorem palloc_eq (h : Sound b F) (hn : 0 < n) :
    (∃ p b', bbuddyPalloc b n = some (some p, b') ∧ Finset.Ico p (p + n) ⊆ F ∧ Sound b' (F \ Finset.Ico p (p + n)) ∧
      b.SameRegions b' ∧ ∃ k < 52, n ≤ 2 ^ k ∧ b.freeHead k ≠ []) ∨
    (bbuddyPalloc b n = some (none, b) ∧ ∀ k < 52, n ≤ 2 ^ k → b.freeHead k = []) := by
  obtain ⟨C, hC⟩ := h.chunks
  have hfuel : 52 ≤ numPagesToOrder n + 52 := by omega
  obtain ⟨hord, hempty, hne⟩ := skipEmpty_spec (b := b) hfuel
  rw [numPagesToOrder_le hn] at hord
  simp only [bbuddyPalloc, guard, if_pos (Nat.ne_of_gt hn)]
  generalize skipEmpty b 52 (numPagesToOrder n) = ord at hord hempty hne
  split
  next =>
    exact .inr ⟨rfl, fun k hk hnk => hempty k ((numPagesToOrder_le hn).2 hnk) (by omega)⟩
  next =>
    refine .inl ?_
    obtain ⟨p, rest, hhead⟩ := List.exists_cons_of_ne_nil (hne (by omega))
    obtain ⟨B, hB, rfl, rfl⟩ := (hC.mem ord p).1 (hhead ▸ List.mem_cons_self ..)
    have hBF : ∀ x ∈ B, x ∈ F := fun x hx => hC.decomp.mem hB hx
    have hbound : ∀ x ∈ B, 0 < x ∧ x < 2 ^ 52 - 1 := fun x hx => ((h.free x).1 (hBF x hx)).bound h.regions
    have hsub : Finset.Ico B.first (B.first + n) ⊆ F := by
      intro x hx
      rw [Finset.mem_Ico] at hx
      exact hBF x ⟨hx.1, by omega⟩
    have hlast := hbound (B.first + (2 ^ B.order - 1)) ⟨by omega, by omega⟩
    have hend : addPages B.first (2 ^ B.order) = B.first + 2 ^ B.order := addPages_of_lt (by omega)
    have hdel := hC.del hB
    have hspare : 2 ^ B.order - n < 2 ^ B.order := by
      omega
    have hfuel : B.order < 65 := by
      omega
    obtain ⟨b1, C1, htrim, hch, hsame⟩ := trimLoop_eq (B := B) hdel hspare (Nat.le_refl _)
      ((Nat.dvd_add_right B.aligned).2 (Nat.dvd_refl _)) (by omega) (by omega) (fun x h1 h2 => ⟨by omega, h2⟩)
      (fun d hd x hxd hxB => absurd (hC.decomp.disjoint d hd.1 B hB x hxd hxB) hd.2)
      (fun x h1 h2 hx => hx.2 ⟨by omega, h2⟩) hfuel
    have hset : (↑F \ {x | x ∈ B} : Set Nat) ∪
      {x | B.first + 2 ^ B.order - (2 ^ B.order - n) ≤ x ∧ x < B.first + 2 ^ B.order} =
        (F \ Finset.Ico B.first (B.first + n) : Finset Nat) := by
      refine Set.ext fun x => ?_
      rw [Finset.mem_coe, Finset.mem_sdiff, Finset.mem_Ico]
      constructor
      · rintro (⟨hx, hxB⟩ | ⟨h1, h2⟩)
        · exact ⟨hx, fun hx' => hxB ⟨hx'.1, by omega⟩⟩
        · exact ⟨hBF x ⟨by omega, h2⟩, by omega⟩
      · rintro ⟨hx, hno⟩
        by_cases hxB : x ∈ B
        · have hx' := mem_def.1 hxB
          exact .inr ⟨by omega, hx'.2⟩
        · exact .inl ⟨hx, hxB⟩
    rw [hset] at hch
    obtain ⟨b2, hmap, hsound, hregions⟩ := h.mapAlloc hch ⟨hsame.memrHead, hsame.memr, hsame.nrFreePages⟩ hn hsub
    refine ⟨B.first, b2, ?_, hsub, hsound, hregions, B.order, by omega, hord, by simp [hhead]⟩
    have hpo : (ukHlistDel b B.first).pageOrder B.first = B.order := hC.pageOrder B hB
    have hmod : B.first % 2 ^ B.order = 0 := Nat.mod_eq_zero_of_dvd B.aligned
    simp only [hhead, List.head?_cons, Option.bind_some, hmod, bbuddyTrim, hpo, hend, guard, if_true, Option.pure_def,
      Option.bind_eq_bind, htrim, hmap]

end

end Unikraft.Buddy
