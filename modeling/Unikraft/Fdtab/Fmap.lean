import Unikraft.Lib.Bits
import Unikraft.Lib.Linearizable
import Unikraft.Lib.Runs

/-!
# The descriptor map

A bit of the bitmap that is 1 stands for a free index; the bits of the last word from `size` on may have any value. A
slot is used if its bit is 0, and then holds an entry that is not null. Of many threads each is at a point of one of
the functions of `fmap.h`, and a step is one atomic operation on a word or a slot. Between `uk_fmap_critical_take` and
the matching put the index is in `held`; `hist` and `log` are history. The map is compared with the partial map
`Slots`, where each value has as its tag the operation that installed it.
-/

namespace Unikraft.Fdtab

abbrev Words := Nat → BitVec 64

def Words.bit (b : Words) (i : Nat) : Bool := (b (i / 64)).getLsbD (i % 64)

def Words.set (b : Words) (k : Nat) (w : BitVec 64) : Words := fun j => if j = k then w else b j

def UK_BIT_MASK (nr : Nat) : BitVec 64 := 1#64 <<< (nr % 64)

def UK_BITMAP_LAST_WORD_MASK (n : Nat) : BitVec 64 := BitVec.allOnes 64 >>> (64 - n)

def ukLssbl (x : BitVec 64) : Nat := Bits.lowestSet x

structure UkBmap where
  bitmap : Words
  size : Nat

variable (bm : UkBmap) (idx : Int)

def UkBmap.InRange : Prop := 0 ≤ idx ∧ idx.toNat < bm.size

instance (bm : UkBmap) (idx : Int) : Decidable (bm.InRange idx) := inferInstanceAs (Decidable (_ ∧ _))

def ukBmapReserve : Int × UkBmap :=
  if bm.InRange idx then
    let mask := UK_BIT_MASK idx.toNat
    let v := bm.bitmap (idx.toNat / 64)
    (if v &&& mask = 0 then 1 else 0, { bm with bitmap := bm.bitmap.set (idx.toNat / 64) (v &&& ~~~mask) })
  else (-1, bm)

def ukBmapFree : Int × UkBmap :=
  if bm.InRange idx then
    let mask := UK_BIT_MASK idx.toNat
    let v := bm.bitmap (idx.toNat / 64)
    (if v &&& mask = 0 then 0 else 1, { bm with bitmap := bm.bitmap.set (idx.toNat / 64) (v ||| mask) })
  else (-1, bm)

def ukBmapIsfree : Int :=
  if bm.InRange idx then if bm.bitmap.bit idx.toNat then 1 else 0 else -1

/-- What a search finds in one word: a bit, nothing but more words to read, or nothing. -/
inductive Scan where
  | found (n : Nat)
  | next
  | none
  deriving DecidableEq

def scanWord (size offset i : Nat) (w : BitVec 64) : Scan :=
  if i = offset / 64 ∧ offset % 64 ≠ 0 then
    -- the bits from `size` on are not masked here
    let mask := w &&& ~~~UK_BITMAP_LAST_WORD_MASK (offset % 64)
    if mask ≠ 0 then .found (64 * i + ukLssbl mask)
    else if size - 64 * i ≤ 64 then .none
    else .next
  else if 64 ≤ size - 64 * i then
    if w ≠ 0 then .found (64 * i + ukLssbl w)
    else if 64 * (i + 1) < size then .next
    else .none
  else
    let mask := w &&& UK_BITMAP_LAST_WORD_MASK (size - 64 * i)
    if mask ≠ 0 then .found (64 * i + ukLssbl mask) else .none

def findFrom (b : Words) (size offset : Nat) : Nat → Nat → Nat
  | 0, _ => size
  | n + 1, i =>
    match scanWord size offset i (b i) with
    | .found k => k
    | .none => size
    | .next => findFrom b size offset n (i + 1)

def ukFindNextBit (b : Words) (size offset : Nat) : Nat :=
  if size ≤ offset then size else findFrom b size offset (size / 64 + 1) (offset / 64)

section
variable {bm : UkBmap} {idx : Int} {b : Words} {i j k : Nat} {w : BitVec 64} {m : BitVec 64} {P : Nat → Prop}

private theorem bitMask_getLsbD (hj : j < 64) : (UK_BIT_MASK i).getLsbD j = decide (j = i % 64) := by
  unfold UK_BIT_MASK
  by_cases h : j = i % 64
  · subst h
    simp [hj]
  · by_cases hlt : j < i % 64
    · simp [hlt, h]
    · have : j - i % 64 ≠ 0 := by omega
      simp [h, this]

private theorem and_bitMask_eq_zero : w &&& UK_BIT_MASK i = 0 ↔ w.getLsbD (i % 64) = false := by
  have hi : i % 64 < 64 := Nat.mod_lt _ (by omega)
  constructor
  · intro h
    have := congrArg (fun x => x.getLsbD (i % 64)) h
    simpa [bitMask_getLsbD hi] using this
  · intro h
    refine BitVec.eq_of_getLsbD_eq fun j hj => ?_
    rw [BitVec.getLsbD_and, bitMask_getLsbD hj]
    by_cases hji : j = i % 64
    · rw [hji, h]
      simp
    · simp [hji]

private theorem div_mod_eq (h : i / 64 = j / 64) (h' : i % 64 = j % 64) : i = j := by omega

private theorem bit_set {x : Bool} (hw : ∀ k < 64, w.getLsbD k = if k = i % 64 then x else (b (i / 64)).getLsbD k) :
    (b.set (i / 64) w).bit j = if j = i then x else b.bit j := by
  unfold Words.bit Words.set
  split
  next hword =>
    rw [hw _ (Nat.mod_lt _ (by omega)), hword]
    exact if_congr ⟨div_mod_eq hword, congrArg (· % 64)⟩ rfl rfl
  next hword =>
    rw [if_neg fun h => hword (congrArg (· / 64) h)]

private theorem bit_set_and : (b.set (i / 64) (b (i / 64) &&& ~~~UK_BIT_MASK i)).bit j = if j = i then false
    else b.bit j := by
  refine bit_set fun k hk => ?_
  rw [BitVec.getLsbD_and, BitVec.getLsbD_not, bitMask_getLsbD hk]
  split <;> simp [*]

private theorem bit_set_or : (b.set (i / 64) (b (i / 64) ||| UK_BIT_MASK i)).bit j = if j = i then true
    else b.bit j := by
  refine bit_set fun k hk => ?_
  rw [BitVec.getLsbD_or, bitMask_getLsbD hk]
  split <;> simp [*]

/-- `uk_bmap_reserve` marks the index as used and says whether it was free. -/
theorem reserve_spec (h : bm.InRange idx) :
    ((ukBmapReserve bm idx).1 = 0 ↔ bm.bitmap.bit idx.toNat = true) ∧ (ukBmapReserve bm idx).2.size = bm.size ∧
      ∀ j, (ukBmapReserve bm idx).2.bitmap.bit j = if j = idx.toNat then false else bm.bitmap.bit j := by
  unfold ukBmapReserve
  rw [if_pos h]
  refine ⟨?_, rfl, fun j => bit_set_and⟩
  simp only [and_bitMask_eq_zero, Words.bit]
  cases (bm.bitmap (idx.toNat / 64)).getLsbD (idx.toNat % 64) <;> simp

/-- `uk_bmap_free` marks the index as free and says whether it was used. -/
theorem ukBmapFree_spec (h : bm.InRange idx) :
    ((ukBmapFree bm idx).1 = 0 ↔ bm.bitmap.bit idx.toNat = false) ∧ (ukBmapFree bm idx).2.size = bm.size ∧
      ∀ j, (ukBmapFree bm idx).2.bitmap.bit j = if j = idx.toNat then true else bm.bitmap.bit j := by
  unfold ukBmapFree
  rw [if_pos h]
  refine ⟨?_, rfl, fun j => bit_set_or⟩
  simp only [and_bitMask_eq_zero, Words.bit]
  cases (bm.bitmap (idx.toNat / 64)).getLsbD (idx.toNat % 64) <;> simp

theorem isfree_spec (h : bm.InRange idx) : ukBmapIsfree bm idx ≠ 0 ↔ bm.bitmap.bit idx.toNat = true := by
  unfold ukBmapIsfree
  rw [if_pos h]
  cases bm.bitmap.bit idx.toNat <;> simp

private theorem lastWordMask_getLsbD (h0 : 0 < k) (hk : k ≤ 64) :
    (UK_BITMAP_LAST_WORD_MASK k).getLsbD j = decide (j < k) := by
  unfold UK_BITMAP_LAST_WORD_MASK
  rw [BitVec.getLsbD_ushiftRight, BitVec.getLsbD_allOnes]
  by_cases h : j < k
  · rw [decide_eq_true h, decide_eq_true (by omega)]
  · rw [decide_eq_false h, decide_eq_false (by omega)]

private theorem masked_found (hm : ∀ k < 64, m.getLsbD k = true ↔ P (64 * i + k) ∧ b.bit (64 * i + k) = true)
    (h : m ≠ 0) :
    (64 * i + ukLssbl m) / 64 = i ∧ P (64 * i + ukLssbl m) ∧ b.bit (64 * i + ukLssbl m) = true ∧
      ∀ j, j / 64 = i → j < 64 * i + ukLssbl m → P j → b.bit j = false := by
  obtain ⟨hlt, hbit, hmin⟩ : ukLssbl m < 64 ∧ m.getLsbD (ukLssbl m) = true ∧ ∀ k < ukLssbl m, m.getLsbD k = false :=
    Bits.lowestSet_spec h
  obtain ⟨hP, hb⟩ := (hm _ hlt).1 hbit
  refine ⟨by omega, hP, hb, fun j hj hlt' hPj => ?_⟩
  have hj' : 64 * i + j % 64 = j := by omega
  have hz := hmin (j % 64) (by omega)
  cases hbj : b.bit j with
  | false => rfl
  | true =>
    have := (hm (j % 64) (Nat.mod_lt _ (by omega))).2 (by rw [hj']; exact ⟨hPj, hbj⟩)
    rw [this] at hz
    cases hz

private theorem masked_none (hm : ∀ k < 64, m.getLsbD k = true ↔ P (64 * i + k) ∧ b.bit (64 * i + k) = true)
    (h : m = 0) :
    ∀ j, j / 64 = i → P j → b.bit j = false := by
  intro j hj hPj
  have hj' : 64 * i + j % 64 = j := by omega
  cases hbj : b.bit j with
  | false => rfl
  | true =>
    have := (hm (j % 64) (Nat.mod_lt _ (by omega))).2 (by rw [hj']; exact ⟨hPj, hbj⟩)
    rw [h] at this
    simp at this

private theorem word_getLsbD (hk : k < 64) : (b i).getLsbD k = b.bit (64 * i + k) := by
  unfold Words.bit
  rw [show (64 * i + k) / 64 = i by omega, show (64 * i + k) % 64 = k by omega]

/-- A word is searched from the offset on. -/
theorem scanWord_spec {size offset : Nat} (hi : offset / 64 ≤ i) (hsize : 64 * i < size) :
    match scanWord size offset i (b i) with
    | .found n => n / 64 = i ∧ offset ≤ n ∧ b.bit n = true ∧
        ∀ j, j / 64 = i → offset ≤ j → j < size → j < n → b.bit j = false
    | .next => (∀ j, j / 64 = i → offset ≤ j → j < size → b.bit j = false) ∧ 64 * (i + 1) < size
    | .none => (∀ j, j / 64 = i → offset ≤ j → j < size → b.bit j = false) ∧ size ≤ 64 * (i + 1) := by
  unfold scanWord
  by_cases hfirst : i = offset / 64 ∧ offset % 64 ≠ 0
  · rw [if_pos hfirst]
    have hm : ∀ k < 64, (b i &&& ~~~UK_BITMAP_LAST_WORD_MASK (offset % 64)).getLsbD k = true ↔
        offset ≤ 64 * i + k ∧ b.bit (64 * i + k) = true := by
      intro k hk
      rw [BitVec.getLsbD_and, BitVec.getLsbD_not, lastWordMask_getLsbD (by omega) (by omega), word_getLsbD hk]
      simp only [hk, decide_true, Bool.true_and, Bool.and_eq_true, Bool.not_eq_true', decide_eq_false_iff_not]
      rw [and_comm]
      refine and_congr_left fun _ => ?_
      omega
    by_cases hz : b i &&& ~~~UK_BITMAP_LAST_WORD_MASK (offset % 64) = 0
    · rw [if_neg (not_not.2 hz)]
      have hnone := masked_none hm hz
      by_cases hlast : size - 64 * i ≤ 64
      · rw [if_pos hlast]
        exact ⟨fun j hj ho _ => hnone j hj ho, by omega⟩
      · rw [if_neg hlast]
        exact ⟨fun j hj ho _ => hnone j hj ho, by omega⟩
    · rw [if_pos hz]
      obtain ⟨h1, h2, h3, h4⟩ := masked_found hm hz
      exact ⟨h1, h2, h3, fun j hj ho _ hlt => h4 j hj hlt ho⟩
  · rw [if_neg hfirst]
    by_cases hfull : 64 ≤ size - 64 * i
    · rw [if_pos hfull]
      have hm : ∀ k < 64, (b i).getLsbD k = true ↔ True ∧ b.bit (64 * i + k) = true := fun k hk => by
        rw [word_getLsbD hk, true_and]
      by_cases hz : b i = 0
      · rw [if_neg (not_not.2 hz)]
        have hnone := masked_none (P := fun _ => True) hm hz
        by_cases hmore : 64 * (i + 1) < size
        · rw [if_pos hmore]
          exact ⟨fun j hj _ _ => hnone j hj trivial, hmore⟩
        · rw [if_neg hmore]
          exact ⟨fun j hj _ _ => hnone j hj trivial, by omega⟩
      · rw [if_pos hz]
        obtain ⟨h1, -, h3, h4⟩ := masked_found (P := fun _ => True) hm hz
        exact ⟨h1, by omega, h3, fun j hj _ _ hlt => h4 j hj hlt trivial⟩
    · rw [if_neg hfull]
      have hm : ∀ k < 64, (b i &&& UK_BITMAP_LAST_WORD_MASK (size - 64 * i)).getLsbD k = true ↔
          64 * i + k < size ∧ b.bit (64 * i + k) = true := by
        intro k hk
        rw [BitVec.getLsbD_and, lastWordMask_getLsbD (by omega) (by omega), word_getLsbD hk]
        simp only [Bool.and_eq_true, decide_eq_true_eq]
        rw [and_comm]
        refine and_congr_left fun _ => ?_
        omega
      by_cases hz : b i &&& UK_BITMAP_LAST_WORD_MASK (size - 64 * i) = 0
      · rw [if_neg (not_not.2 hz)]
        have hnone := masked_none (P := fun j => j < size) hm hz
        exact ⟨fun j hj _ hs => hnone j hj hs, by omega⟩
      · rw [if_pos hz]
        obtain ⟨h1, -, h3, h4⟩ := masked_found (P := fun j => j < size) hm hz
        exact ⟨h1, by omega, h3, fun j hj _ hs hlt => h4 j hj hlt hs⟩

/-- By induction on the number of words that are left: nothing before the index that is returned is free. -/
theorem findFrom_spec {size offset n : Nat} (hn : size ≤ 64 * (i + n)) (hi : offset / 64 ≤ i)
    (hsize : 64 * i < size) (hbefore : ∀ j, offset ≤ j → j < 64 * i → b.bit j = false) :
    (∀ j, offset ≤ j → j < findFrom b size offset n i → j < size → b.bit j = false) ∧
    (findFrom b size offset n i < size →
        offset ≤ findFrom b size offset n i ∧ b.bit (findFrom b size offset n i) = true) := by
  induction n generalizing i with
  | zero => omega
  | succ n ih =>
    -- a bit below the end of this word is in this word or before it
    have hword : (∀ j, j / 64 = i → offset ≤ j → j < size → b.bit j = false) →
        ∀ j, offset ≤ j → j < size → j < 64 * (i + 1) → b.bit j = false := by
      intro h j ho hs hj
      by_cases hji : j < 64 * i
      · exact hbefore j ho hji
      · exact h j (by omega) ho hs
    have h := scanWord_spec (b := b) hi hsize
    unfold findFrom
    cases hscan : scanWord size offset i (b i) with
    | found k =>
      rw [hscan] at h
      obtain ⟨hk, ho, hb, hmin⟩ := h
      refine ⟨fun j hoj hjk hjs => ?_, fun _ => ⟨ho, hb⟩⟩
      dsimp only at hjk
      by_cases hji : j < 64 * i
      · exact hbefore j hoj hji
      · exact hmin j (by omega) hoj hjs hjk
    | none =>
      rw [hscan] at h
      refine ⟨fun j hoj _ hjs => hword h.1 j hoj hjs (Nat.lt_of_lt_of_le hjs h.2), fun hlt => absurd hlt ?_⟩
      exact Nat.lt_irrefl _
    | next =>
      rw [hscan] at h
      have hnext : ∀ j, offset ≤ j → j < 64 * (i + 1) → b.bit j = false := fun j hoj hj =>
        hword h.1 j hoj (Nat.lt_trans hj h.2) hj
      exact ih (by omega) (by omega) h.2 hnext

/-- `uk_find_next_bit` returns the first free index from the offset on, or one out of range. -/
theorem findNextBit_spec (b : Words) (size offset : Nat) :
    (∀ j, offset ≤ j → j < ukFindNextBit b size offset → j < size → b.bit j = false) ∧
    (ukFindNextBit b size offset < size →
        offset ≤ ukFindNextBit b size offset ∧ b.bit (ukFindNextBit b size offset) = true) := by
  unfold ukFindNextBit
  split
  next =>
    exact ⟨fun j h1 _ h3 => by omega, fun hlt => absurd hlt (Nat.lt_irrefl _)⟩
  next =>
    exact findFrom_spec (by omega) (Nat.le_refl _) (by omega) (fun j h1 h2 => by omega)

end

open Function (update update_of_ne update_self)

structure UkFmap where
  bmap : UkBmap
  map : Nat → BitVec 64

def ukBmapInit (bm : UkBmap) : UkBmap :=
  { bm with bitmap := fun i =>
      if i < bm.size / 64 then BitVec.allOnes 64
      else if i = bm.size / 64 ∧ bm.size % 64 ≠ 0 then UK_BITMAP_LAST_WORD_MASK (bm.size % 64)
      else bm.bitmap i }

def ukBmapRequest (bm : UkBmap) (min : BitVec 32) : Option (Int × UkBmap) :=
  let pos := ukFindNextBit bm.bitmap bm.size (min.signExtend 64).toNat
  if bm.size ≤ pos then some (bm.size, bm)
  else
    let r := ukBmapReserve bm pos
    if r.1 = 0 then some (pos, r.2) else none

def ukFmapInit (m : UkFmap) : UkFmap :=
  { bmap := ukBmapInit m.bmap, map := fun i => if i < m.bmap.size then 0 else m.map i }

section
variable (m : UkFmap) (idx : Int) (p : BitVec 64)

def ukFmapSet : UkFmap :=
  if m.bmap.InRange idx then
    { bmap := if p ≠ 0 then (ukBmapReserve m.bmap idx).2 else (ukBmapFree m.bmap idx).2
      map := update m.map idx.toNat p }
  else m

def ukFmapLookup : Option (BitVec 64) :=
  if m.bmap.InRange idx then
    if m.map idx.toNat ≠ 0 then some (m.map idx.toNat)
    else if ukBmapIsfree m.bmap idx ≠ 0 then some 0
    else none
  else some 0

def ukFmapPut (min : BitVec 32) : Option (Int × UkFmap) := do
  let (pos, bmap) ← ukBmapRequest m.bmap min
  if bmap.InRange pos then
    if m.map pos.toNat = 0 then some (pos, ⟨bmap, update m.map pos.toNat p⟩) else none
  else some (pos, ⟨bmap, m.map⟩)

def ukFmapTake : Option (BitVec 64 × UkFmap) :=
  if m.bmap.InRange idx then
    if ukBmapIsfree m.bmap idx ≠ 0 then some (0, m)
    else if m.map idx.toNat ≠ 0 then
      let r := ukBmapFree m.bmap idx
      if r.1 = 0 then some (m.map idx.toNat, ⟨r.2, update m.map idx.toNat 0⟩) else none
    else none
  else some (0, m)

def ukFmapCriticalTake : Option (BitVec 64 × UkFmap) :=
  if m.bmap.InRange idx then
    if m.map idx.toNat ≠ 0 then some (m.map idx.toNat, { m with map := update m.map idx.toNat 0 })
    else if ukBmapIsfree m.bmap idx ≠ 0 then some (0, m)
    else none
  else some (0, m)

def ukFmapCriticalPut : Option (Int × UkFmap) :=
  if m.bmap.InRange idx then
    if m.map idx.toNat = 0 then some (0, ⟨(ukBmapReserve m.bmap idx).2, update m.map idx.toNat p⟩) else none
  else some (-1, m)

def ukFmapXchg : Option (Int × Option (BitVec 64) × UkFmap) :=
  if p = 0 then none
  else if m.bmap.InRange idx then
    let r := ukBmapReserve m.bmap idx
    let m := { m with bmap := r.2 }
    if r.1 ≠ 0 then do
      let (got, m) ← ukFmapCriticalTake m idx
      if got ≠ 0 then
        let (_, m) ← ukFmapCriticalPut m idx p
        some (0, some got, m)
      else none
    else if m.map idx.toNat = 0 then some (0, none, { m with map := update m.map idx.toNat p })
    else none
  else some (-1, none, m)

end

/-- The map has `n` slots with the entries `e`, where null stands for a free slot. -/
structure UkFmap.Is (m : UkFmap) (n : Nat) (e : Nat → BitVec 64) : Prop where
  size : m.bmap.size = n
  map : ∀ i < n, m.map i = e i
  bit : ∀ i < n, m.bmap.bitmap.bit i = decide (e i = 0)

/-- Entry `i` was taken out of the map, but the slot is still used. -/
structure UkFmap.Taken (m : UkFmap) (n : Nat) (e : Nat → BitVec 64) (i : Nat) : Prop where
  size : m.bmap.size = n
  map : ∀ j < n, m.map j = if j = i then 0 else e j
  bit : ∀ j < n, m.bmap.bitmap.bit j = decide (e j = 0)

structure LowestFree (n : Nat) (e : Nat → BitVec 64) (offset i : Nat) : Prop where
  lt : i < n
  le : offset ≤ i
  free : e i = 0
  lowest : ∀ j < i, offset ≤ j → e j ≠ 0

section
variable {m : UkFmap} {n i : Nat} {e : Nat → BitVec 64} {idx : Int} {p : BitVec 64}

private theorem UkFmap.Is.inRange (h : m.Is n e) (hi : i < n) : m.bmap.InRange i := ⟨by omega, by rw [h.size]; omega⟩

private theorem UkFmap.Is.isfree (h : m.Is n e) (hi : i < n) : ukBmapIsfree m.bmap i ≠ 0 ↔ e i = 0 := by
  rw [isfree_spec (h.inRange hi), Int.toNat_natCast, h.bit i hi, decide_eq_true_eq]

/-- A new map is empty. -/
theorem ukFmapInit_is : (ukFmapInit m).Is m.bmap.size (fun _ => 0) where
  size := rfl
  map i hi := if_pos hi
  bit i hi := by
    have h64 : i % 64 < 64 := Nat.mod_lt _ (by omega)
    simp only [ukFmapInit, ukBmapInit, Words.bit, decide_true]
    split
    next =>
      rw [BitVec.getLsbD_allOnes, decide_eq_true h64]
    next =>
      rw [if_pos (by omega), lastWordMask_getLsbD (by omega) (by omega), decide_eq_true_eq]
      omega

private theorem is_update {bm : UkBmap} {map : Nat → BitVec 64} {x : Bool} (hsize : bm.size = n)
    (hx : decide (p = 0) = x)
    (hmap : ∀ j < n, j ≠ i → map j = e j) (hbit : ∀ j < n, bm.bitmap.bit j = if j = i then x else decide (e j = 0)) :
    UkFmap.Is ⟨bm, update map i p⟩ n (update e i p) where
  size := hsize
  map j hj := by
    dsimp only
    by_cases h : j = i
    · rw [h, update_self, update_self]
    · rw [update_of_ne h, update_of_ne h, hmap j hj h]
  bit j hj := by
    rw [hbit j hj]
    by_cases h : j = i
    · rw [h, if_pos rfl, update_self, hx]
    · rw [if_neg h, update_of_ne h]

section
variable (h : m.Is n e) (hi : i < n)
include h hi

theorem fmapLookup_eq : ukFmapLookup m i = some (e i) := by
  unfold ukFmapLookup
  rw [if_pos (h.inRange hi), Int.toNat_natCast, h.map i hi]
  by_cases h0 : e i = 0
  · rw [if_neg (not_not.2 h0), if_pos ((h.isfree hi).2 h0), h0]
  · rw [if_pos h0]

theorem take_free (h0 : e i = 0) : ukFmapTake m i = some (0, m) := by
  unfold ukFmapTake
  rw [if_pos (h.inRange hi), if_pos ((h.isfree hi).2 h0)]

/-- `uk_fmap_take` returns the entry and empties its slot. -/
theorem take_used (h0 : e i ≠ 0) : ∃ m', ukFmapTake m i = some (e i, m') ∧ m'.Is n (update e i 0) := by
  obtain ⟨h1, h2, h3⟩ := ukBmapFree_spec (h.inRange hi)
  rw [Int.toNat_natCast, h.bit i hi, decide_eq_false h0] at h1
  refine ⟨⟨(ukBmapFree m.bmap i).2, update m.map i 0⟩, ?_, is_update (x := true) (h2.trans h.size) rfl ?_ ?_⟩
  · unfold ukFmapTake
    rw [if_pos (h.inRange hi), if_neg (fun hf => h0 ((h.isfree hi).1 hf)), Int.toNat_natCast, h.map i hi, if_pos h0]
    rw [if_pos (h1.2 rfl)]
  · exact fun j hj _ => h.map j hj
  · intro j hj
    rw [h3, h.bit j hj, Int.toNat_natCast]

theorem criticalTake_free (h0 : e i = 0) : ukFmapCriticalTake m i = some (0, m) := by
  unfold ukFmapCriticalTake
  rw [if_pos (h.inRange hi), Int.toNat_natCast, h.map i hi, if_neg (not_not.2 h0), if_pos ((h.isfree hi).2 h0)]

/-- `uk_fmap_critical_take` returns the entry and keeps the index. -/
theorem criticalTake_used (h0 : e i ≠ 0) : ∃ m', ukFmapCriticalTake m i = some (e i, m') ∧ m'.Taken n e i := by
  refine ⟨{ m with map := update m.map i 0 }, ?_, h.size, fun j hj => ?_, h.bit⟩
  · unfold ukFmapCriticalTake
    rw [if_pos (h.inRange hi), Int.toNat_natCast, h.map i hi, if_pos h0]
  · by_cases hji : j = i
    · rw [hji, if_pos rfl]
      exact update_self ..
    · rw [if_neg hji, ← h.map j hj]
      exact update_of_ne hji ..

end

/-- `uk_fmap_critical_put` puts an entry into a slot that was taken. -/
theorem criticalPut_taken (h : m.Taken n e i) (hi : i < n) (hp : p ≠ 0) :
    ∃ m', ukFmapCriticalPut m i p = some (0, m') ∧ m'.Is n (update e i p) := by
  have hr : m.bmap.InRange i := ⟨by omega, by rw [h.size]; omega⟩
  obtain ⟨-, h2, h3⟩ := reserve_spec hr
  refine ⟨⟨(ukBmapReserve m.bmap i).2, update m.map i p⟩, ?_, is_update (h2.trans h.size) (decide_eq_false hp) ?_ ?_⟩
  · unfold ukFmapCriticalPut
    rw [if_pos hr, Int.toNat_natCast, h.map i hi, if_pos rfl, if_pos rfl]
  · intro j hj hji
    rw [h.map j hj, if_neg hji]
  · intro j hj
    rw [h3, h.bit j hj, Int.toNat_natCast]

/-- An index out of range has no entry. -/
theorem fmap_outOfRange (h : m.Is n e) (hidx : ¬(0 ≤ idx ∧ idx.toNat < n)) :
    ukFmapLookup m idx = some 0 ∧ ukFmapTake m idx = some (0, m) ∧ ukFmapCriticalTake m idx = some (0, m) := by
  have hr : ¬m.bmap.InRange idx := by
    unfold UkBmap.InRange
    rwa [h.size]
  exact ⟨if_neg hr, if_neg hr, if_neg hr⟩

theorem xchg_free (h : m.Is n e) (hi : i < n) (h0 : e i = 0) (hp : p ≠ 0) :
    ∃ m', ukFmapXchg m i p = some (0, none, m') ∧ m'.Is n (update e i p) := by
  obtain ⟨h1, h2, h3⟩ := reserve_spec (h.inRange hi)
  rw [Int.toNat_natCast, h.bit i hi, decide_eq_true h0] at h1
  refine ⟨⟨(ukBmapReserve m.bmap i).2, update m.map i p⟩, ?_, is_update (h2.trans h.size) (decide_eq_false hp) ?_ ?_⟩
  · unfold ukFmapXchg
    rw [if_neg hp, if_pos (h.inRange hi)]
    rw [if_neg (not_not.2 (h1.2 rfl)), Int.toNat_natCast, h.map i hi, if_pos h0]
  · exact fun j hj _ => h.map j hj
  · intro j hj
    rw [h3, h.bit j hj, Int.toNat_natCast]

theorem xchg_used (h : m.Is n e) (hi : i < n) (h0 : e i ≠ 0) (hp : p ≠ 0) :
    ∃ m', ukFmapXchg m i p = some (0, some (e i), m') ∧ m'.Is n (update e i p) := by
  obtain ⟨h1, h2, h3⟩ := reserve_spec (h.inRange hi)
  rw [Int.toNat_natCast, h.bit i hi, decide_eq_false h0] at h1
  -- the bit was 0 already
  have hm : UkFmap.Is { m with bmap := (ukBmapReserve m.bmap i).2 } n e := by
    refine ⟨h2.trans h.size, h.map, fun j hj => ?_⟩
    rw [h3, h.bit j hj, Int.toNat_natCast]
    by_cases hji : j = i
    · rw [if_pos hji, hji, decide_eq_false h0]
    · rw [if_neg hji]
  obtain ⟨m1, ht, hm1⟩ := criticalTake_used hm hi h0
  obtain ⟨m2, hput, hm2⟩ := criticalPut_taken hm1 hi hp
  refine ⟨m2, ?_, hm2⟩
  unfold ukFmapXchg
  rw [if_neg hp, if_pos (h.inRange hi)]
  rw [if_pos (fun hz => by simp [h1] at hz), ht]
  simp only [bind, Option.bind]
  rw [if_pos h0, hput]

/-- `uk_fmap_put` puts the entry at the lowest free index from `min` on, or returns the size of the map. -/
theorem put_spec (h : m.Is n e) (hp : p ≠ 0) (min : BitVec 32) :
    (∃ i m', LowestFree n e (min.signExtend 64).toNat i ∧ ukFmapPut m p min = some ((i : Int), m') ∧
      m'.Is n (update e i p)) ∨
    ((∀ i < n, (min.signExtend 64).toNat ≤ i → e i ≠ 0) ∧ ukFmapPut m p min = some ((n : Int), m)) := by
  obtain ⟨hbefore, hfound⟩ :=
    findNextBit_spec m.bmap.bitmap m.bmap.size (min.signExtend 64).toNat
  have hused : ∀ j < n, m.bmap.bitmap.bit j = false → e j ≠ 0 := fun j hj hb => by
    rw [h.bit j hj] at hb
    exact of_decide_eq_false hb
  unfold ukFmapPut ukBmapRequest
  generalize ukFindNextBit m.bmap.bitmap m.bmap.size (min.signExtend 64).toNat = i at hbefore hfound
  rw [h.size] at hbefore hfound ⊢
  by_cases hfull : n ≤ i
  · right
    refine ⟨fun j hj ho => hused j hj (hbefore j ho (by omega) hj), ?_⟩
    rw [if_pos hfull]
    simp only [bind, Option.bind]
    rw [if_neg]
    rintro ⟨-, hlt⟩
    rw [h.size] at hlt
    omega
  · left
    have hi : i < n := Nat.not_le.1 hfull
    obtain ⟨ho, hb⟩ := hfound hi
    have h0 : e i = 0 := by
      rw [h.bit i hi] at hb
      exact of_decide_eq_true hb
    obtain ⟨h1, h2, h3⟩ := reserve_spec (h.inRange hi)
    rw [Int.toNat_natCast, hb] at h1
    refine ⟨i, ⟨(ukBmapReserve m.bmap i).2, update m.map i p⟩, ⟨hi, ho, h0, ?_⟩, ?_, ?_⟩
    · exact fun j hj hoj => hused j (Nat.lt_trans hj hi) (hbefore j hoj hj (Nat.lt_trans hj hi))
    · rw [if_neg hfull, if_pos (h1.2 rfl)]
      simp only [bind, Option.bind]
      rw [if_pos ⟨by omega, by rw [h2, h.size]; omega⟩, Int.toNat_natCast, h.map i hi, if_pos h0]
    · refine is_update (h2.trans h.size) (decide_eq_false hp) (fun j hj _ => h.map j hj) fun j hj => ?_
      rw [h3, h.bit j hj, Int.toNat_natCast]

theorem set_slot (hsize : m.bmap.size = n) (hi : i < n) (hmap : ∀ j < i, m.map j = e j)
    (hbit : ∀ j < i, m.bmap.bitmap.bit j = decide (e j = 0)) :
    (ukFmapSet m i (e i)).bmap.size = n ∧ (∀ j < i + 1, (ukFmapSet m i (e i)).map j = e j) ∧
      ∀ j < i + 1, (ukFmapSet m i (e i)).bmap.bitmap.bit j = decide (e j = 0) := by
  have hr : m.bmap.InRange i := ⟨by omega, by rw [hsize]; omega⟩
  obtain ⟨-, h2, h3⟩ := reserve_spec hr
  obtain ⟨-, h2', h3'⟩ := ukBmapFree_spec hr
  unfold ukFmapSet
  rw [if_pos hr]
  refine ⟨?_, fun j hj => ?_, fun j hj => ?_⟩
  · split
    · exact h2.trans hsize
    · exact h2'.trans hsize
  · dsimp only
    rw [Int.toNat_natCast]
    by_cases hji : j = i
    · rw [hji, update_self]
    · rw [update_of_ne hji, hmap j (by omega)]
  · by_cases h0 : e i = 0
    · rw [if_neg (not_not.2 h0), h3', Int.toNat_natCast]
      split
      next hji => rw [hji, decide_eq_true h0]
      next hji => exact hbit j (by omega)
    · rw [if_pos h0, h3, Int.toNat_natCast]
      split
      next hji => rw [hji, decide_eq_false h0]
      next hji => exact hbit j (by omega)

end

open Linearizable List

inductive MapOp (V : Type) where
  | put (p : V) (min : BitVec 32)
  | take (idx : Int)
  | lookup (idx : Int)
  | xchg (idx : Int) (p : V)
  | criticalTake (idx : Int)
  | criticalPut (idx : Int) (p : V)
  deriving DecidableEq

/-- `full` and `range` are the results of a full map and of an index that is out of range, and `ok` is the result 0
with the value of `*prev`. -/
inductive MapRet (V : Type) where
  | idx (i : Nat)
  | full
  | ptr (got : Option V)
  | ok (prev : Option V)
  | range
  deriving DecidableEq

def offset (min : BitVec 32) : Nat := (min.signExtend 64).toNat

/-- A slot in a critical section is `out`. -/
inductive Slot (V : Type) where
  | free
  | full (v : V) (tag : Nat)
  | out (tag : Nat)
  deriving DecidableEq

def Slot.tag {V : Type} : Slot V → Option Nat
  | .free => none
  | .full _ tag => some tag
  | .out tag => some tag

abbrev Slots (V : Type) := Nat → Slot V

abbrev MapDone (V : Type) := Done Nat (MapOp V) (MapRet V)

section
variable {V : Type} [DecidableEq V] (n : Nat)

def InRange (idx : Int) : Prop := 0 ≤ idx ∧ idx.toNat < n

instance decidableInRange (idx : Int) : Decidable (InRange n idx) := inferInstanceAs (Decidable (_ ∧ _))

def Slots.sel (s : Slots V) (idx : Int) : Slot V := if InRange n idx then s idx.toNat else .free

/-- The sequential map. A put may get any free index from `min` on, not only the lowest: a lower one may become free
after the search has found its index and before it is marked as used. -/
def Slots.apply (s : Slots V) (d : MapDone V) : Option (Slots V) :=
  match d.op with
  | .put p min =>
    match d.ret with
    | .idx i =>
      if offset min ≤ i ∧ i < n ∧ s i = .free then some (update s i (.full p d.id)) else none
    | .full => if ∀ i < n, offset min ≤ i → s i ≠ .free then some s else none
    | _ => none
  | .take idx =>
    match d.ret, s.sel n idx with
    | .ptr none, .free => some s
    | .ptr (some v), .full w _ => if w = v then some (update s idx.toNat .free) else none
    | _, _ => none
  | .lookup idx =>
    match d.ret, s.sel n idx with
    | .ptr none, .free => some s
    | .ptr (some v), .full w _ => if w = v then some s else none
    | _, _ => none
  | .xchg idx p =>
    if InRange n idx then
      match d.ret, s idx.toNat with
      | .ok none, .free => some (update s idx.toNat (.full p d.id))
      | .ok (some v), .full w _ => if w = v then some (update s idx.toNat (.full p d.id)) else none
      | _, _ => none
    else if d.ret = .range then some s else none
  | .criticalTake idx =>
    match d.ret, s.sel n idx with
    | .ptr none, .free => some s
    | .ptr (some v), .full w tag => if w = v then some (update s idx.toNat (.out tag)) else none
    | _, _ => none
  | .criticalPut idx p =>
    if InRange n idx then
      match d.ret, s idx.toNat with
      | .ok none, .out tag => some (update s idx.toNat (.full p tag))
      | _, _ => none
    else if d.ret = .range then some s else none

/-- The tag of the value that an operation hands out, as the result of `uk_fmap_take` or the previous value of
`uk_fmap_xchg`. -/
def Slots.handed (s : Slots V) (d : MapDone V) : Option Nat :=
  match d.op, d.ret with
  | .take idx, .ptr (some _) => (s.sel n idx).tag
  | .xchg idx _, .ok (some _) => (s.sel n idx).tag
  | _, _ => none

def Slots.handedAll : Slots V → List (MapDone V) → List Nat
  | _, [] => []
  | s, d :: l =>
    match s.apply n d with
    | none => []
    | some s' => (s.handed n d).toList ++ Slots.handedAll s' l

end

def Gives {V : Type} (d : MapDone V) (i : Nat) : Prop := ∃ p min, d.op = .put p min ∧ d.ret = .idx i

def Frees {V : Type} (d : MapDone V) (i : Nat) : Prop :=
  ∃ idx v, d.op = .take idx ∧ idx.toNat = i ∧ d.ret = .ptr (some v)

/-- Between two puts that were given an index there is a take of it. -/
def TakenBetween {V : Type} (l : List (MapDone V)) : Prop :=
  ∀ i l₁ a l₂ b l₃, l = l₁ ++ a :: (l₂ ++ b :: l₃) → Gives a i → Gives b i → ∃ d ∈ l₂, Frees d i

/-- What an operation does to the slots, and the tag it hands out: it installs a value, removes or replaces one, or
keeps the tag. -/
inductive Slots.Change {V : Type} (s : Slots V) (d : MapDone V) : Slots V → Option Nat → Prop where
  | same : Change s d s none
  | install {i : Nat} (p : V) (h : s i = .free) : Change s d (update s i (.full p d.id)) none
  | remove {i tag : Nat} (h : (s i).tag = some tag) (hf : Frees d i) : Change s d (update s i .free) (some tag)
  | replace {i tag : Nat} (p : V) (h : (s i).tag = some tag) : Change s d (update s i (.full p d.id)) (some tag)
  | keep {i tag : Nat} {x : Slot V} (h : (s i).tag = some tag) (hx : x.tag = some tag) :
      Change s d (update s i x) none

section
variable {V : Type} [DecidableEq V] {n : Nat} {s s' : Slots V} {d : MapDone V} {l : List (MapDone V)} {i : Nat}
    {t : Option Nat}

omit [DecidableEq V] in
private theorem Slots.sel_full {idx : Int} {v : V} {tag : Nat} (h : s.sel n idx = .full v tag) :
    InRange n idx ∧ s idx.toNat = .full v tag := by
  unfold Slots.sel at h
  split at h
  next hr =>
    exact ⟨hr, h⟩
  next =>
    cases h

private theorem Slots.apply_change (h : s.apply n d = some s') : s.Change d s' (s.handed n d) := by
  obtain ⟨id, op, ret⟩ := d
  cases op with
  | put p min =>
    cases ret <;> simp only [Slots.apply, reduceCtorEq, Option.ite_none_right_eq_some, Option.some.injEq] at h
    · obtain ⟨⟨-, -, hfree⟩, rfl⟩ := h
      exact .install p hfree
    · obtain ⟨-, rfl⟩ := h
      exact .same
  | take idx =>
    rcases ret with _ | _ | ⟨_ | v⟩ | _ | _ <;> cases hs : s.sel n idx <;>
      simp only [Slots.apply, hs, reduceCtorEq, Option.ite_none_right_eq_some, Option.some.injEq] at h
    · exact h ▸ .same
    · obtain ⟨rfl, rfl⟩ := h
      obtain ⟨-, hi⟩ := Slots.sel_full hs
      simp only [Slots.handed, hs]
      refine .remove ?_ ⟨idx, _, rfl, rfl, rfl⟩
      rw [hi]
      rfl
  | lookup idx =>
    rcases ret with _ | _ | ⟨_ | v⟩ | _ | _ <;> cases hs : s.sel n idx <;>
      simp only [Slots.apply, hs, reduceCtorEq, Option.ite_none_right_eq_some, Option.some.injEq] at h
    · exact h ▸ .same
    · exact h.2 ▸ .same
  | xchg idx p =>
    by_cases hr : InRange n idx
    · rcases ret with _ | _ | _ | ⟨_ | v⟩ | _ <;> cases hs : s idx.toNat <;>
        simp only [Slots.apply, if_pos hr, hs, reduceCtorEq, Option.ite_none_right_eq_some, Option.some.injEq] at h
      · exact h ▸ .install p hs
      · obtain ⟨rfl, rfl⟩ := h
        simp only [Slots.handed, Slots.sel, if_pos hr, hs]
        refine .replace p ?_
        rw [hs]
        rfl
    · simp only [Slots.apply, if_neg hr, Option.ite_none_right_eq_some, Option.some.injEq] at h
      obtain ⟨rfl, rfl⟩ := h
      exact .same
  | criticalTake idx =>
    rcases ret with _ | _ | ⟨_ | v⟩ | _ | _ <;> cases hs : s.sel n idx <;>
      simp only [Slots.apply, hs, reduceCtorEq, Option.ite_none_right_eq_some, Option.some.injEq] at h
    · exact h ▸ .same
    · obtain ⟨rfl, rfl⟩ := h
      obtain ⟨-, hi⟩ := Slots.sel_full hs
      refine .keep ?_ rfl
      rw [hi]
      rfl
  | criticalPut idx p =>
    by_cases hr : InRange n idx
    · rcases ret with _ | _ | _ | ⟨_ | v⟩ | _ <;> cases hs : s idx.toNat <;>
        simp only [Slots.apply, if_pos hr, hs, reduceCtorEq, Option.some.injEq] at h
      subst h
      refine .keep ?_ rfl
      rw [hs]
      rfl
    · simp only [Slots.apply, if_neg hr, Option.ite_none_right_eq_some, Option.some.injEq] at h
      obtain ⟨rfl, rfl⟩ := h
      exact .same

omit [DecidableEq V] in
private theorem Slots.Change.free_of (hc : s.Change d s' t) (hi : s i ≠ .free) (hf : ¬Frees d i) : s' i ≠ .free := by
  have htag : ∀ {x : Slot V} {tag : Nat}, x.tag = some tag → x ≠ .free := by
    rintro x tag hx rfl
    cases hx
  have hupd : ∀ {j : Nat} {x : Slot V}, x ≠ .free → update s j x i ≠ .free := by
    intro j x hx
    by_cases hij : i = j
    · rw [hij, update_self]
      exact hx
    · rw [update_of_ne hij]
      exact hi
  cases hc with
  | same => exact hi
  | install p h | replace p h => exact hupd (htag rfl)
  | @remove j tag h hfrees =>
    by_cases hij : i = j
    · exact absurd (hij ▸ hfrees) hf
    · rw [update_of_ne hij]
      exact hi
  | keep h hx => exact hupd (htag hx)

private theorem foldlM_cons_eq {a : MapDone V} (h : (a :: l).foldlM (Slots.apply n) s = some s') :
    ∃ s1, s.apply n a = some s1 ∧ l.foldlM (Slots.apply n) s1 = some s' := by
  exact Option.bind_eq_some_iff.1 h

private theorem foldlM_append_eq {l' : List (MapDone V)} (h : (l ++ l').foldlM (Slots.apply n) s = some s') :
    ∃ s1, l.foldlM (Slots.apply n) s = some s1 ∧ l'.foldlM (Slots.apply n) s1 = some s' := by
  rw [foldlM_append] at h
  exact Option.bind_eq_some_iff.1 h

private theorem used_of_foldlM (h : l.foldlM (Slots.apply n) s = some s') (hi : s i ≠ .free)
    (hl : ∀ d ∈ l, ¬Frees d i) :
    s' i ≠ .free := by
  induction l generalizing s with
  | nil =>
    cases h
    exact hi
  | cons d l ih =>
    obtain ⟨s1, h1, h2⟩ := foldlM_cons_eq h
    refine ih h2 ((Slots.apply_change h1).free_of hi (hl d mem_cons_self)) fun d' hd' => ?_
    exact hl d' (mem_cons_of_mem _ hd')

/-- In a sequential history an index is given again only after it was taken. -/
theorem takenBetween_of_foldlM (h : l.foldlM (Slots.apply n) s = some s') : TakenBetween l := by
  rintro i l1 ⟨ida, opa, reta⟩ l2 ⟨idb, opb, retb⟩ l3 rfl ⟨p, min, rfl, rfl⟩ ⟨q, min', rfl, rfl⟩
  by_contra hne
  obtain ⟨s1, -, h1⟩ := foldlM_append_eq h
  obtain ⟨s2, hput, h2⟩ := foldlM_cons_eq h1
  obtain ⟨s3, htake, h3⟩ := foldlM_append_eq h2
  obtain ⟨s4, hput', -⟩ := foldlM_cons_eq h3
  simp only [Slots.apply, Option.ite_none_right_eq_some, Option.some.injEq] at hput hput'
  have hused : s2 i ≠ .free := by
    rw [← hput.2, update_self]
    exact fun hf => by cases hf
  exact used_of_foldlM htake hused (fun d hd hf => hne ⟨d, hd, hf⟩) hput'.1.2.2

def Slots.TagsInj (s : Slots V) : Prop := ∀ i j tag, (s i).tag = some tag → (s j).tag = some tag → i = j

section

omit [DecidableEq V]

variable {x : Slot V}

private theorem tagsInj_update (hs : s.TagsInj)
    (hx : ∀ tag j, x.tag = some tag → (s j).tag = some tag → j = i) : Slots.TagsInj (update s i x) := by
  intro j k tag hj hk
  by_cases hji : j = i
  · by_cases hki : k = i
    · rw [hji, hki]
    · rw [hji, update_self] at hj
      rw [update_of_ne hki] at hk
      exact hji.trans (hx tag k hj hk).symm
  · rw [update_of_ne hji] at hj
    by_cases hki : k = i
    · rw [hki, update_self] at hk
      exact (hx tag j hk hj).trans hki.symm
    · rw [update_of_ne hki] at hk
      exact hs j k tag hj hk

private theorem tags_update (hs : s.TagsInj) (hd : ∀ i, (s i).tag ≠ some d.id)
    (hx : ∀ tag, x.tag = some tag → (s i).tag = some tag ∧ t = none ∨ tag = d.id)
    (ht : ∀ tag, t = some tag → (s i).tag = some tag) :
    Slots.TagsInj (update s i x) ∧ (∀ j tag, (update s i x j).tag = some tag →
      (∃ j, (s j).tag = some tag) ∧ t ≠ some tag ∨ tag = d.id) ∧ ∀ tag, t = some tag → ∃ j, (s j).tag = some tag := by
  refine ⟨tagsInj_update hs fun tag j htag hj => ?_, fun j tag hj => ?_, fun tag h => ⟨i, ht tag h⟩⟩
  · rcases hx tag htag with ⟨hi, -⟩ | rfl
    · exact hs j i tag hj hi
    · exact absurd hj (hd j)
  · by_cases hji : j = i
    · rw [hji, update_self] at hj
      exact (hx tag hj).imp_left fun ⟨hi, hnone⟩ => ⟨⟨i, hi⟩, by simp [hnone]⟩
    · rw [update_of_ne hji] at hj
      exact .inl ⟨⟨j, hj⟩, fun heq => hji (hs j i tag hj (ht tag heq))⟩

private theorem Slots.Change.tags (hc : s.Change d s' t) (hs : s.TagsInj) (hd : ∀ i, (s i).tag ≠ some d.id) :
    s'.TagsInj ∧ (∀ i tag, (s' i).tag = some tag → (∃ j, (s j).tag = some tag) ∧ t ≠ some tag ∨ tag = d.id) ∧
      ∀ tag, t = some tag → ∃ j, (s j).tag = some tag := by
  cases hc with
  | same => exact ⟨hs, fun i tag h => .inl ⟨⟨i, h⟩, by simp⟩, by simp⟩
  | install p h => exact tags_update hs hd (fun tag htag => .inr (Option.some.inj htag).symm) nofun
  | remove h hf => exact tags_update hs hd nofun fun tag ht => ht ▸ h
  | replace p h => exact tags_update hs hd (fun tag htag => .inr (Option.some.inj htag).symm) fun tag ht => ht ▸ h
  | keep h hx => exact tags_update hs hd (fun tag htag => .inl ⟨h.trans (hx.symm.trans htag), rfl⟩) nofun

end

/-- No value is handed out twice: each has the tag of the operation that stored it. -/
theorem handedAll_spec (hs : s.TagsInj) (hdisj : ∀ i tag, (s i).tag = some tag → tag ∉ l.map Done.id)
    (hl : (l.map Done.id).Nodup) :
    (s.handedAll n l).Nodup ∧ ∀ tag ∈ s.handedAll n l, (∃ i, (s i).tag = some tag) ∨ tag ∈ l.map Done.id := by
  induction l generalizing s with
  | nil => exact ⟨nodup_nil, fun tag h => by cases h⟩
  | cons d l ih =>
    rw [map_cons, nodup_cons] at hl
    unfold Slots.handedAll
    cases happly : s.apply n d with
    | none => exact ⟨nodup_nil, fun tag h => by cases h⟩
    | some s' =>
      have hd : ∀ i, (s i).tag ≠ some d.id := fun i h => hdisj i _ h mem_cons_self
      obtain ⟨hinj, htags, hhanded⟩ := (Slots.apply_change happly).tags hs hd
      have hdisj' : ∀ i tag, (s' i).tag = some tag → tag ∉ l.map Done.id := by
        intro i tag h hmem
        rcases htags i tag h with ⟨⟨j, hj⟩, -⟩ | rfl
        · exact hdisj j tag hj (mem_cons_of_mem _ hmem)
        · exact hl.1 hmem
      obtain ⟨hnodup, hmem⟩ := ih hinj hdisj' hl.2
      constructor
      · rw [nodup_append]
        refine ⟨?_, hnodup, ?_⟩
        · cases s.handed n d with
          | none => exact nodup_nil
          | some t => exact nodup_singleton t
        · rintro t ht _ ht' rfl
          rw [Option.mem_toList] at ht
          obtain ⟨j, hj⟩ := hhanded t ht
          rcases hmem t ht' with ⟨i, hi⟩ | hl'
          · rcases htags i t hi with ⟨-, hne⟩ | heq
            · exact hne ht
            · exact hd j (heq ▸ hj)
          · exact hdisj j t hj (mem_cons_of_mem _ hl')
      · intro t ht
        rw [mem_append, Option.mem_toList] at ht
        rcases ht with ht | ht
        · exact .inl (hhanded t ht)
        · rcases hmem t ht with ⟨i, hi⟩ | hl'
          · rcases htags i t hi with ⟨hj, -⟩ | rfl
            · exact .inl hj
            · exact .inr mem_cons_self
          · exact .inr (mem_cons_of_mem _ hl')

theorem handedAll_nodup (hl : (l.map Done.id).Nodup) :
    (Slots.handedAll n (fun _ : Nat => (.free : Slot V)) l).Nodup :=
  (handedAll_spec (fun i j tag h => by cases h) (fun i tag h => by cases h) hl).1

end

open Runs

/-- Where a thread is in a function: at its next operation on the map. -/
inductive Prog (V : Type) where
  | scan (p : V) (min : BitVec 32) (i : Nat)
  | reserve (p : V) (min : BitVec 32) (pos : Nat)
  | putStore (p : V) (min : BitVec 32) (pos : Nat)
  | takeTest (idx : Int)
  | takeXchg (idx : Int)
  | takeFree (idx : Int) (got : V)
  | lookupRead (idx : Int)
  | lookupTest (idx : Int)
  | ctakeXchg (idx : Int)
  | ctakeTest (idx : Int)
  | cputReserve (idx : Int) (p : V)
  | cputStore (idx : Int) (p : V)
  | xReserve (idx : Int) (p : V)
  | xTake (idx : Int) (p : V)
  | xTest (idx : Int) (p : V)
  | xPutReserve (idx : Int) (p : V) (got : V)
  | xPutStore (idx : Int) (p : V) (got : V)
  | xStore (idx : Int) (p : V)
  | done (op : MapOp V) (r : MapRet V)

section
variable {V : Type}

def Prog.op : Prog V → MapOp V
  | .scan p min _ | .reserve p min _ | .putStore p min _ => .put p min
  | .takeTest idx | .takeXchg idx | .takeFree idx _ => .take idx
  | .lookupRead idx | .lookupTest idx => .lookup idx
  | .ctakeXchg idx | .ctakeTest idx => .criticalTake idx
  | .cputReserve idx p | .cputStore idx p => .criticalPut idx p
  | .xReserve idx p | .xTake idx p | .xTest idx p | .xPutReserve idx p _ | .xPutStore idx p _ | .xStore idx p =>
    .xchg idx p
  | .done op _ => op

/-- The beginning of a function, up to the first operation on the map. -/
def Prog.start (n : Nat) : MapOp V → Prog V
  | .put p min => if n ≤ offset min then .done (.put p min) .full else .scan p min (offset min / 64)
  | .take idx => if InRange n idx then .takeTest idx else .done (.take idx) (.ptr none)
  | .lookup idx => if InRange n idx then .lookupRead idx else .done (.lookup idx) (.ptr none)
  | .xchg idx p => if InRange n idx then .xReserve idx p else .done (.xchg idx p) .range
  | .criticalTake idx => if InRange n idx then .ctakeXchg idx else .done (.criticalTake idx) (.ptr none)
  | .criticalPut idx p => if InRange n idx then .cputReserve idx p else .done (.criticalPut idx p) .range

/-- The result with which an operation has taken effect, if it has. -/
def Prog.lin : Prog V → Option (MapRet V)
  | .putStore _ _ pos => some (.idx pos)
  | .xStore _ _ => some (.ok none)
  | .done _ r => some r
  | _ => none

/-- The memory and the point of the thread after an operation, and whether an assertion failed. -/
structure Effect (V : Type) where
  bmap : UkBmap
  map : Nat → Option V
  prog : Prog V
  failed : Bool

variable (bm : UkBmap) (map : Nat → Option V)

/-- The values in `map` are stored by an exchange that asserts that the slot was null. -/
def exchangeNull (i : Nat) (p : V) (prog : Prog V) : Effect V :=
  ⟨bm, update map i (some p), prog, (map i).isSome⟩

def Prog.exec : Prog V → Effect V
  | .scan p min i =>
    match scanWord bm.size (offset min) i (bm.bitmap i) with
    | .found pos => ⟨bm, map, if bm.size ≤ pos then .done (.put p min) .full else .reserve p min pos, false⟩
    | .next => ⟨bm, map, .scan p min (i + 1), false⟩
    | .none => ⟨bm, map, .done (.put p min) .full, false⟩
  | .reserve p min pos =>
    let r := ukBmapReserve bm pos
    ⟨r.2, map, if r.1 = 0 then .putStore p min pos else .scan p min (offset min / 64), false⟩
  | .putStore p min pos => exchangeNull bm map pos p (.done (.put p min) (.idx pos))
  | .takeTest idx =>
    ⟨bm, map, if ukBmapIsfree bm idx ≠ 0 then .done (.take idx) (.ptr none) else .takeXchg idx, false⟩
  | .takeXchg idx =>
    match map idx.toNat with
    | some got => ⟨bm, update map idx.toNat none, .takeFree idx got, false⟩
    | none => ⟨bm, map, .takeTest idx, false⟩
  | .takeFree idx got =>
    let r := ukBmapFree bm idx
    ⟨r.2, map, .done (.take idx) (.ptr (some got)), decide (r.1 ≠ 0)⟩
  | .lookupRead idx =>
    match map idx.toNat with
    | some got => ⟨bm, map, .done (.lookup idx) (.ptr (some got)), false⟩
    | none => ⟨bm, map, .lookupTest idx, false⟩
  | .lookupTest idx =>
    ⟨bm, map, if ukBmapIsfree bm idx ≠ 0 then .done (.lookup idx) (.ptr none) else .lookupRead idx, false⟩
  | .ctakeXchg idx =>
    match map idx.toNat with
    | some got => ⟨bm, update map idx.toNat none, .done (.criticalTake idx) (.ptr (some got)), false⟩
    | none => ⟨bm, map, .ctakeTest idx, false⟩
  | .ctakeTest idx =>
    ⟨bm, map, if ukBmapIsfree bm idx ≠ 0 then .done (.criticalTake idx) (.ptr none) else .ctakeXchg idx, false⟩
  | .cputReserve idx p => ⟨(ukBmapReserve bm idx).2, map, .cputStore idx p, false⟩
  | .cputStore idx p => exchangeNull bm map idx.toNat p (.done (.criticalPut idx p) (.ok none))
  | .xReserve idx p =>
    let r := ukBmapReserve bm idx
    ⟨r.2, map, if r.1 ≠ 0 then .xTake idx p else .xStore idx p, false⟩
  | .xTake idx p =>
    match map idx.toNat with
    | some got => ⟨bm, update map idx.toNat none, .xPutReserve idx p got, false⟩
    | none => ⟨bm, map, .xTest idx p, false⟩
  | .xTest idx p => ⟨bm, map, if ukBmapIsfree bm idx ≠ 0 then .xReserve idx p else .xTake idx p, false⟩
  | .xPutReserve idx p got => ⟨(ukBmapReserve bm idx).2, map, .xPutStore idx p got, false⟩
  | .xPutStore idx p got => exchangeNull bm map idx.toNat p (.done (.xchg idx p) (.ok (some got)))
  | .xStore idx p => exchangeNull bm map idx.toNat p (.done (.xchg idx p) (.ok none))
  | .done op r => ⟨bm, map, .done op r, false⟩

end

structure State (T V : Type) where
  bmap : UkBmap
  map : Nat → Option V
  threads : T → Option (Nat × Prog V)
  held : List Nat
  next : Nat
  hist : List (Event Nat (MapOp V) (MapRet V))
  log : List (MapDone V)
  failed : Bool

inductive Label (T V : Type) where
  | call (t : T) (op : MapOp V)
  | step (t : T)

section
variable {T V : Type} [DecidableEq T] (n : Nat)

def State.init : State T V where
  bmap := ukBmapInit ⟨fun _ => 0, n⟩
  map := fun _ => none
  threads := fun _ => none
  held := []
  next := 0
  hist := []
  log := []
  failed := false

/-- The operation is entered in the log when it takes effect. -/
def logged (log : List (MapDone V)) (id : Nat) (before : Option (MapRet V)) (prog : Prog V) : List (MapDone V) :=
  match before, prog.lin with
  | none, some r => log ++ [⟨id, prog.op, r⟩]
  | _, _ => log

variable (s : State T V)

def State.call (t : T) (op : MapOp V) : State T V :=
  { s with
    threads := update s.threads t (some (s.next, .start n op))
    held := match op with
      | .criticalPut idx _ => s.held.erase idx.toNat
      | _ => s.held
    next := s.next + 1
    hist := s.hist ++ [.inv s.next op]
    log := logged s.log s.next none (.start n op) }

/-- A critical section begins with the return from `uk_fmap_critical_take`. -/
def State.ret (t : T) (id : Nat) (op : MapOp V) (r : MapRet V) : State T V :=
  { s with
    threads := update s.threads t none
    held := match op, r with
      | .criticalTake idx, .ptr (some _) => idx.toNat :: s.held
      | _, _ => s.held
    hist := s.hist ++ [.res id r] }

def State.go (t : T) (id : Nat) (prog : Prog V) : State T V :=
  let e := prog.exec s.bmap s.map
  { s with
    bmap := e.bmap
    map := e.map
    threads := update s.threads t (some (id, e.prog))
    log := logged s.log id prog.lin e.prog
    failed := s.failed || e.failed }

def State.step : Label T V → State T V
  | .call t op => s.call n t op
  | .step t =>
    match s.threads t with
    | none => s
    | some (id, .done op r) => s.ret t id op r
    | some (id, prog) => s.go t id prog

/-- A thread makes one call at a time, and `uk_fmap_critical_put` matches a `uk_fmap_critical_take`. -/
def State.Legal : Label T V → Prop
  | .call t (.criticalPut idx _) => s.threads t = none ∧ InRange n idx ∧ idx.toNat ∈ s.held
  | .call t _ => s.threads t = none
  | .step _ => True

instance (s : State T V) (l : Label T V) : Decidable (s.Legal n l) :=
  match l with
  | .call t (.criticalPut idx _) =>
    inferInstanceAs (Decidable (s.threads t = none ∧ InRange n idx ∧ idx.toNat ∈ s.held))
  | .call t (.put _ _) | .call t (.take _) | .call t (.lookup _) | .call t (.xchg _ _) | .call t (.criticalTake _) =>
    inferInstanceAs (Decidable (s.threads t = none))
  | .step _ => isTrue trivial

/-- No index is marked as free behind the search of another thread. -/
def State.Ahead : Label T V → Prop
  | .step t => ∀ id idx got, s.threads t = some (id, .takeFree idx got) →
      ∀ t' id' p min i, s.threads t' = some (id', .scan p min i) → ¬(offset min ≤ idx.toNat ∧ idx.toNat < 64 * i)
  | .call _ _ => True

end

end Unikraft.Fdtab
