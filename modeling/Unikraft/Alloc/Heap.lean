import Mathlib.Data.List.Pairwise
import Unikraft.Lib.Bytes
import Unikraft.Lib.Runs

/-!
# The heap over a page allocator

A block lies in the pages that were obtained for it, behind a record that is found from its pointer (`Live`). Sizes
and addresses wrap: for sums in the last page below `2 ^ 64` the heap asks for no page at all (`Wraps`). The page
allocator is a parameter that sees the memory and may write to it. History: the runs of pages `held`, and the `calls`
of the page allocator. `none` is a failed assertion. `CallOk` says what is expected of each call of a run.
-/

namespace Unikraft.Alloc

open Bytes

def PAGE_SIZE : BitVec 64 := 4096
def METADATA_IFPAGES_SIZE_POW2 : BitVec 64 := 32

structure MetadataIfpages where
  size : BitVec 64
  numPages : BitVec 64
  base : BitVec 64
  deriving DecidableEq

def sizeofMetadata : BitVec 64 := 24

structure Pages where
  base : BitVec 64
  num : BitVec 64
  deriving DecidableEq

inductive PageCall where
  | palloc (num : BitVec 64)
  | pfree (base num : BitVec 64)
  deriving DecidableEq

structure World where
  mem : Memory
  held : List Pages
  calls : List PageCall

/-- The operations of the page allocator: the pointer and the memory after `palloc`, the memory after `pfree`. -/
structure PageAllocator where
  palloc : World → BitVec 64 → BitVec 64 × Memory
  pfree : World → BitVec 64 → BitVec 64 → Memory

inductive Errno where
  | EINVAL
  | ENOMEM
  deriving DecidableEq

section
variable (A : PageAllocator) (w : World)

def ukPalloc (num : BitVec 64) : BitVec 64 × World :=
  let r := A.palloc w num
  (r.1, { mem := r.2
          held := if r.1 = 0 then w.held else ⟨r.1, num⟩ :: w.held
          calls := w.calls ++ [.palloc num] })

def ukPfree (base num : BitVec 64) : World where
  mem := A.pfree w base num
  held := w.held.erase ⟨base, num⟩
  calls := w.calls ++ [.pfree base num]

def sizeToNumPages (size : BitVec 64) : BitVec 64 := alignUp size PAGE_SIZE / PAGE_SIZE

def readMetadata (m : Memory) (a : BitVec 64) : MetadataIfpages :=
  ⟨load64 m a, load64 m (a + 8), load64 m (a + 16)⟩

def writeMetadata (m : Memory) (a : BitVec 64) (d : MetadataIfpages) : Memory :=
  store64 (store64 (store64 m a d.size) (a + 8) d.numPages) (a + 16) d.base

def ukGetMetadata (ptr : BitVec 64) : Option (BitVec 64) :=
  if ptr < PAGE_SIZE + METADATA_IFPAGES_SIZE_POW2 then none
  else
    let metadata := alignDown ptr PAGE_SIZE
    -- page-aligned memory has its record in the page before
    some (if metadata = ptr then metadata - PAGE_SIZE else metadata)

def ukGetmallocsize (m : Memory) (ptr : BitVec 64) : Option (BitVec 64) := do
  let metadata ← ukGetMetadata ptr
  let d := readMetadata m metadata
  return d.base + d.numPages * PAGE_SIZE - ptr

/-- The pointer is 0 on failure. -/
def ukMallocIfpages (size : BitVec 64) : BitVec 64 × World :=
  let realsize := METADATA_IFPAGES_SIZE_POW2 + size
  if size = 0 ∨ realsize < size then (0, w)
  else
    let numPages := sizeToNumPages realsize
    let r := ukPalloc A w numPages
    if r.1 = 0 then r
    else (r.1 + METADATA_IFPAGES_SIZE_POW2, { r.2 with mem := writeMetadata r.2.mem r.1 ⟨size, numPages, r.1⟩ })

def ukFreeIfpages (ptr : BitVec 64) : Option World :=
  if ptr = 0 then some w
  else do
    let metadata ← ukGetMetadata ptr
    let d := readMetadata w.mem metadata
    if d.base = 0 ∨ d.numPages = 0 then none
    else some (ukPfree A w d.base d.numPages)

def ukReallocIfpages (ptr size : BitVec 64) : Option (BitVec 64 × World) :=
  if ptr = 0 then some (ukMallocIfpages A w size)
  else if size = 0 then (ukFreeIfpages A w ptr).map fun w => (0, w)
  else
    let r := ukMallocIfpages A w size
    if r.1 = 0 then some r
    else do
      let mallocsize ← ukGetmallocsize r.2.mem ptr
      let n := if size < mallocsize then size else mallocsize
      let w ← ukFreeIfpages A { r.2 with mem := copy r.2.mem r.1 ptr n } ptr
      return (r.1, w)

/-- The alignment that is used and the padding in front of the block. -/
def memalignLayout (align : BitVec 64) : BitVec 64 × BitVec 64 :=
  if PAGE_SIZE < align then (align, PAGE_SIZE)
  else if align = PAGE_SIZE then (align, 0)
  else if align < METADATA_IFPAGES_SIZE_POW2 then (METADATA_IFPAGES_SIZE_POW2, 0)
  else (align, sizeofMetadata)

/-- `*memptr` is only set if there is no error. -/
def ukPosixMemalignIfpages (align size : BitVec 64) : Option (Except Errno (BitVec 64) × World) :=
  if (align - 1) &&& align ≠ 0 ∨ align % 8 ≠ 0 then some (.error .EINVAL, w)
  else if size = 0 then some (.error .EINVAL, w)
  else
    let l := memalignLayout align
    let realsize := size + l.2 + l.1
    if realsize < size then some (.error .EINVAL, w)
    else
      let numPages := sizeToNumPages realsize
      let r := ukPalloc A w numPages
      if r.1 = 0 then some (.error .ENOMEM, r.2)
      else
        let memptr := alignUp (r.1 + sizeofMetadata) l.1
        do
          let metadata ← ukGetMetadata memptr
          if metadata < r.1 then none
          else
            return (.ok memptr, { r.2 with mem := writeMetadata r.2.mem metadata ⟨size, numPages, r.1⟩ })

end

section
variable {m m' : Memory} {a x : BitVec 64} {d : MetadataIfpages}

private theorem writeMetadata_other (h : ¬ (x - a).toNat < 24) : writeMetadata m a d x = m x := by
  unfold writeMetadata
  rw [store64_other (by bv_omega), store64_other (by bv_omega), store64_other (by bv_omega)]

private theorem readMetadata_congr (h : ∀ i : BitVec 64, i.toNat < 24 → m (a + i) = m' (a + i)) :
    readMetadata m a = readMetadata m' a := by
  unfold readMetadata
  have h8 : load64 m (a + 8) = load64 m' (a + 8) := by
    refine load64_congr fun i hi => ?_
    rw [show a + 8 + i = a + (8 + i) by bv_omega]
    exact h _ (by bv_omega)
  have h16 : load64 m (a + 16) = load64 m' (a + 16) := by
    refine load64_congr fun i hi => ?_
    rw [show a + 16 + i = a + (16 + i) by bv_omega]
    exact h _ (by bv_omega)
  rw [load64_congr fun i hi => h i (by omega), h8, h16]

private theorem readMetadata_writeMetadata : readMetadata (writeMetadata m a d) a = d := by
  unfold readMetadata writeMetadata
  have h1 : load64 (store64 (store64 (store64 m a d.size) (a + 8) d.numPages) (a + 16) d.base) a = d.size := by
    rw [load64_store64_other (fun i hi => by bv_omega), load64_store64_other (fun i hi => by bv_omega),
        load64_store64]
  have h2 : load64 (store64 (store64 (store64 m a d.size) (a + 8) d.numPages) (a + 16) d.base) (a + 8) =
    d.numPages := by
    rw [load64_store64_other (fun i hi => by bv_omega), load64_store64]
  rw [h1, h2, load64_store64]

end

open BitVec Runs

def Pages.Has (r : Pages) (x : BitVec 64) : Prop :=
  r.base.toNat ≤ x.toNat ∧ x.toNat < r.base.toNat + r.num.toNat * 4096

def Pages.Disjoint (r s : Pages) : Prop := ∀ x, r.Has x → ¬ s.Has x

structure Pages.Ok (r : Pages) : Prop where
  base_ne : r.base ≠ 0
  aligned : 4096 ∣ r.base.toNat
  fits : r.base.toNat + r.num.toNat * 4096 ≤ 2 ^ 64

/-- What the heap relies on: the pages of `palloc` are whole, in the address space and not in use, and neither
`palloc` nor `pfree` writes to pages in use. -/
structure PageAllocator.Sound (A : PageAllocator) : Prop where
  pages_ok (w : World) (num : BitVec 64) : (A.palloc w num).1 ≠ 0 → Pages.Ok ⟨(A.palloc w num).1, num⟩
  fresh (w : World) (num : BitVec 64) (r : Pages) :
    (A.palloc w num).1 ≠ 0 → r ∈ w.held → Pages.Disjoint ⟨(A.palloc w num).1, num⟩ r
  palloc_frame (w : World) (num : BitVec 64) (r : Pages) (x : BitVec 64) :
    r ∈ w.held → r.Has x → (A.palloc w num).2 x = w.mem x
  pfree_frame (w : World) (base num : BitVec 64) (r : Pages) (x : BitVec 64) :
    r ∈ w.held.erase ⟨base, num⟩ → r.Has x → A.pfree w base num x = w.mem x

/-- A block of the heap, with the pages that were obtained for it. -/
structure Block where
  ptr : BitVec 64
  size : BitVec 64
  pages : Pages
  deriving DecidableEq

/-- The block and its record lie in its pages, and the record says which pages these are. -/
structure Live (w : World) (b : Block) : Prop where
  held : b.pages ∈ w.held
  ok : b.pages.Ok
  inside : b.ptr.toNat + b.size.toNat ≤ b.pages.base.toNat + b.pages.num.toNat * 4096
  record : ∃ a, ukGetMetadata b.ptr = some a ∧ readMetadata w.mem a = ⟨b.size, b.pages.num, b.pages.base⟩ ∧
    b.pages.base.toNat ≤ a.toNat ∧ a.toNat + 24 ≤ b.ptr.toNat

section
variable {w w' : World} {b : Block} {r s : Pages} {x : BitVec 64}

private theorem Pages.Disjoint.symm (h : r.Disjoint s) : s.Disjoint r := fun x hs hr => h x hr hs

private theorem Pages.Disjoint.ne (h : r.Disjoint s) (hn : r.num ≠ 0) : r ≠ s := by
  rintro rfl
  refine h r.base ?_ ?_
  all_goals
    unfold Pages.Has
    have : 0 < r.num.toNat := Nat.pos_of_ne_zero fun h0 => hn (eq_of_toNat_eq h0)
    omega

private theorem Live.num_ne (h : Live w b) : b.pages.num ≠ 0 := by
  obtain ⟨a, -, -, h1, h2⟩ := h.record
  have := h.inside
  intro h0
  rw [h0] at this
  simp only [ofNat_eq_ofNat, toNat_ofNat] at this
  omega

private theorem Live.ptr_ne (h : Live w b) : b.ptr ≠ 0 := by
  obtain ⟨a, -, -, -, h2⟩ := h.record
  intro h0
  rw [h0] at h2
  simp at h2

private theorem Live.frame (h : Live w b) (hh : b.pages ∈ w'.held)
    (hm : ∀ x, b.pages.Has x → ¬ (x - b.ptr).toNat < b.size.toNat → w'.mem x = w.mem x) : Live w' b := by
  refine ⟨hh, h.ok, h.inside, ?_⟩
  obtain ⟨a, ha, hd, h1, h2⟩ := h.record
  refine ⟨a, ha, ?_, h1, h2⟩
  rw [← hd]
  have hin := h.inside
  have hfit := h.ok.fits
  refine readMetadata_congr fun i hi => hm _ ?_ ?_
  · have : (a + i).toNat = a.toNat + i.toNat := by bv_omega
    unfold Pages.Has
    omega
  · bv_omega

private theorem live_writeMetadata {p size a : BitVec 64} (hr : r ∈ w.held) (hok : r.Ok)
    (hin : p.toNat + size.toNat ≤ r.base.toNat + r.num.toNat * 4096) (ha : ukGetMetadata p = some a)
    (h1 : r.base.toNat ≤ a.toNat) (h2 : a.toNat + 24 ≤ p.toNat) :
    Live { w with mem := writeMetadata w.mem a ⟨size, r.num, r.base⟩ } ⟨p, size, r⟩ :=
  ⟨hr, hok, hin, a, ha, readMetadata_writeMetadata, h1, h2⟩

private theorem writeMetadata_outside {m : Memory} {d : MetadataIfpages} {a : BitVec 64} (hok : r.Ok)
    (h1 : r.base.toNat ≤ a.toNat) (h2 : a.toNat + 24 ≤ r.base.toNat + r.num.toNat * 4096) (hx : ¬ r.Has x) :
    writeMetadata m a d x = m x := by
  refine writeMetadata_other ?_
  have hfit := hok.fits
  unfold Pages.Has at hx
  intro h
  have : x.toNat = a.toNat + (x - a).toNat := by bv_omega
  omega

end

/-- The sums for which rounding up to pages wraps to 0. -/
def Wraps (n : Nat) : Prop := 2 ^ 64 - 4096 < n ∧ n < 2 ^ 64

section
variable {x p base : BitVec 64}

private theorem pageSize_toNat : PAGE_SIZE.toNat = 2 ^ 12 := rfl

private theorem sizeToNumPages_toNat (h : ¬ Wraps x.toNat) : (sizeToNumPages x).toNat = (x.toNat + 4095) / 4096 := by
  unfold Wraps at h
  unfold sizeToNumPages
  rw [toNat_udiv, alignUp_toNat x (by omega) pageSize_toNat (by omega), pageSize_toNat]
  omega

private theorem sizeToNumPages_wraps (h : Wraps x.toNat) : sizeToNumPages x = 0 := by
  have hs : (x + PAGE_SIZE - 1).toNat = x.toNat + 4095 - 2 ^ 64 := by
    unfold Wraps at h
    unfold PAGE_SIZE
    bv_omega
  have h0 : (alignUp x PAGE_SIZE).toNat = 0 := by
    rw [alignUp_eq, alignDown_toNat _ (by omega) pageSize_toNat]
    omega
  apply eq_of_toNat_eq
  unfold sizeToNumPages
  rw [toNat_udiv, h0]
  rfl

private theorem getMetadata_eq (h : 4128 ≤ p.toNat) :
    ∃ a, ukGetMetadata p = some a ∧ a.toNat = if p.toNat % 4096 = 0 then p.toNat - 4096
    else p.toNat / 4096 * 4096 := by
  have hd : (alignDown p PAGE_SIZE).toNat = p.toNat / 4096 * 4096 :=
    alignDown_toNat p (by omega) pageSize_toNat
  have hlt : ¬ p < PAGE_SIZE + METADATA_IFPAGES_SIZE_POW2 := by
    unfold PAGE_SIZE METADATA_IFPAGES_SIZE_POW2
    bv_omega
  refine ⟨_, by unfold ukGetMetadata; rw [if_neg hlt], ?_⟩
  by_cases he : alignDown p PAGE_SIZE = p
  · have hm : p.toNat % 4096 = 0 := by
      rw [he] at hd
      omega
    rw [if_pos he, if_pos hm, he]
    unfold PAGE_SIZE
    bv_omega
  · have hm : p.toNat % 4096 ≠ 0 := by
      intro h0
      refine he (eq_of_toNat_eq ?_)
      omega
    rw [if_neg he, if_neg hm, hd]

/-- The pointer of a block aligned to `2 ^ k` in pages at `base`: the room in front of it holds the record, and there
is enough room behind it. -/
private theorem alignUp_block {align : BitVec 64} {k n size padding : Nat} (hk : k < 64) (h5 : 5 ≤ k)
    (ha : align.toNat = 2 ^ k) (hb : 4096 ∣ base.toNat) (hb0 : base ≠ 0) (hfit : base.toNat + n * 4096 ≤ 2 ^ 64)
    (hn : size + padding + 2 ^ k ≤ n * 4096) (hs : size ≠ 0) (hp : 12 < k → padding = 4096) :
    ∃ a, ukGetMetadata (alignUp (base + sizeofMetadata) align) = some a ∧ base.toNat ≤ a.toNat ∧
      a.toNat + 24 ≤ (alignUp (base + sizeofMetadata) align).toNat ∧
      (alignUp (base + sizeofMetadata) align).toNat + size ≤ base.toNat + n * 4096 ∧
      2 ^ k ∣ (alignUp (base + sizeofMetadata) align).toNat := by
  have hpos : 4096 ≤ base.toNat := by
    have : base.toNat ≠ 0 := fun h => hb0 (eq_of_toNat_eq h)
    omega
  have h32 : 2 ^ 5 ≤ 2 ^ k := Nat.pow_le_pow_right (by omega) h5
  have hsum : (base + sizeofMetadata).toNat = base.toNat + 24 := by
    unfold sizeofMetadata
    bv_omega
  have hroom : base.toNat + 24 + (2 ^ k - 1) < 2 ^ 64 := by
    by_cases h12 : 12 < k
    · omega
    · obtain rfl | h11 := Nat.eq_or_lt_of_le (Nat.not_lt.1 h12)
      · omega
      · have : 2 ^ k ≤ 2 ^ 11 := Nat.pow_le_pow_right (by omega) (by omega)
        omega
  have hup := alignUp_toNat (base + sizeofMetadata) hk ha (by rw [hsum]; exact hroom)
  rw [hsum] at hup
  generalize hq : alignUp (base + sizeofMetadata) align = q at hup ⊢
  have hdvd : 2 ^ k ∣ q.toNat := hup ▸ Nat.dvd_mul_left _ _
  have hle : q.toNat ≤ base.toNat + 24 + (2 ^ k - 1) := by
    rw [hup]
    exact Nat.div_mul_le_self _ _
  have hge : base.toNat + 24 ≤ q.toNat := by
    have := Nat.lt_div_mul_add (a := base.toNat + 24 + (2 ^ k - 1)) (b := 2 ^ k) (by omega)
    omega
  by_cases h12 : 12 < k
  · have hpage : 4096 ∣ q.toNat := by
      have : 2 ^ 12 ∣ 2 ^ k := Nat.pow_dvd_pow 2 (by omega)
      exact Nat.dvd_trans this hdvd
    obtain ⟨a, hget, hav⟩ := getMetadata_eq (p := q) (by omega)
    rw [if_pos (by omega)] at hav
    exact ⟨a, hget, by omega, by omega, by omega, hdvd⟩
  · have hk12 : 2 ^ k ≤ 2 ^ 12 := Nat.pow_le_pow_right (by omega) (by omega)
    have hbk : 2 ^ k ∣ base.toNat := Nat.dvd_trans (Nat.pow_dvd_pow 2 (by omega : k ≤ 12)) hb
    have hq' : q.toNat = base.toNat + 2 ^ k := by
      obtain ⟨c, hc⟩ := hdvd
      obtain ⟨d, hd⟩ := hbk
      have hlt : d < c := by
        by_contra hcd
        have := Nat.mul_le_mul_left (2 ^ k) (Nat.le_of_not_lt hcd)
        omega
      have hlt' : c < d + 2 := by
        by_contra hcd
        have := Nat.mul_le_mul_left (2 ^ k) (Nat.le_of_not_lt hcd)
        rw [Nat.mul_add] at this
        omega
      have hc' : c = d + 1 := by omega
      rw [hc, hd, hc', Nat.mul_add, Nat.mul_one]
    obtain ⟨a, hget, hav⟩ := getMetadata_eq (p := q) (by omega)
    have hab : a.toNat = base.toNat := by
      rw [hav]
      split <;> omega
    exact ⟨a, hget, by omega, by omega, by omega, hdvd⟩

end

/-- A call that fails: no page in use is written or given back. -/
structure Fails (w w' : World) : Prop where
  held : w'.held = w.held
  frame : ∀ r ∈ w.held, ∀ x, r.Has x → w'.mem x = w.mem x
  calls : w'.calls = w.calls ∨ ∃ n ≠ 0, w'.calls = w.calls ++ [.palloc n]

/-- A call that makes the block `b` in fresh pages. -/
structure Obtains (w w' : World) (b : Block) : Prop where
  held : w'.held = b.pages :: w.held
  live : Live w' b
  fresh : ∀ r ∈ w.held, b.pages.Disjoint r
  frame : ∀ r ∈ w.held, ∀ x, r.Has x → w'.mem x = w.mem x
  calls : ∃ n ≠ 0, w'.calls = w.calls ++ [.palloc n]

section
variable {A : PageAllocator} {w : World} {size align : BitVec 64} {b : Block} {num : BitVec 64}

private theorem fails_refl (w : World) : Fails w w := ⟨rfl, fun _ _ _ _ => rfl, .inl rfl⟩

private theorem fails_ukPalloc (hA : A.Sound) (hnum : num ≠ 0) (h : (ukPalloc A w num).1 = 0) :
    Fails w (ukPalloc A w num).2 := by
  refine ⟨if_pos h, fun r hr x hx => hA.palloc_frame w num r x hr hx, .inr ⟨num, hnum, rfl⟩⟩

private theorem obtains_ukPalloc (hA : A.Sound) {p a : BitVec 64} (hnum : num ≠ 0)
    (h : (ukPalloc A w num).1 ≠ 0) (ha : ukGetMetadata p = some a) (h1 : (ukPalloc A w num).1.toNat ≤ a.toNat)
    (h2 : a.toNat + 24 ≤ p.toNat) (hin : p.toNat + size.toNat ≤ (ukPalloc A w num).1.toNat + num.toNat * 4096) :
    Obtains w { (ukPalloc A w num).2 with
      mem := writeMetadata (ukPalloc A w num).2.mem a ⟨size, num, (ukPalloc A w num).1⟩ }
      ⟨p, size, ⟨(ukPalloc A w num).1, num⟩⟩ := by
  have hok : Pages.Ok ⟨(ukPalloc A w num).1, num⟩ := hA.pages_ok w num h
  have hheld : (ukPalloc A w num).2.held = ⟨(ukPalloc A w num).1, num⟩ :: w.held := if_neg h
  have hfresh : ∀ r ∈ w.held, Pages.Disjoint ⟨(ukPalloc A w num).1, num⟩ r := fun r hr => hA.fresh w num r h hr
  refine ⟨hheld, live_writeMetadata (by rw [hheld]; exact List.mem_cons_self) hok hin ha h1 h2, hfresh, ?_,
    num, hnum, rfl⟩
  intro r hr x hx
  have hout : ¬ Pages.Has ⟨(ukPalloc A w num).1, num⟩ x := fun hx' => hfresh r hr x hx' hx
  exact (writeMetadata_outside hok h1 (by dsimp only; omega) hout).trans (hA.palloc_frame w num r x hr hx)

private theorem sizeToNumPages_ne {x : BitVec 64} (h : ¬ Wraps x.toNat) (hx : x ≠ 0) : sizeToNumPages x ≠ 0 := by
  intro h0
  have := sizeToNumPages_toNat h
  rw [h0] at this
  have hx0 : x.toNat ≠ 0 := fun h => hx (eq_of_toNat_eq h)
  simp only [ofNat_eq_ofNat, toNat_ofNat] at this
  omega

/-- Unless the size wraps, `uk_malloc_ifpages` fails and changes nothing, or obtains pages for the block. -/
theorem mallocIfpages_spec (hA : A.Sound) (w : World) (size : BitVec 64) (h : ¬ Wraps (32 + size.toNat)) :
    (ukMallocIfpages A w size).1 = 0 ∧ Fails w (ukMallocIfpages A w size).2 ∨ (ukMallocIfpages A w size).1 ≠ 0 ∧
      ∃ pages, Obtains w (ukMallocIfpages A w size).2 ⟨(ukMallocIfpages A w size).1, size, pages⟩ := by
  unfold ukMallocIfpages
  by_cases hsize : size = 0 ∨ METADATA_IFPAGES_SIZE_POW2 + size < size
  · rw [if_pos hsize]
    exact .inl ⟨rfl, fails_refl w⟩
  · rw [if_neg hsize]
    obtain ⟨hs0, hover⟩ := not_or.1 hsize
    have hsum : (METADATA_IFPAGES_SIZE_POW2 + size).toNat = 32 + size.toNat := by
      unfold METADATA_IFPAGES_SIZE_POW2 at hover ⊢
      bv_omega
    rw [← hsum] at h
    have hnum : sizeToNumPages (METADATA_IFPAGES_SIZE_POW2 + size) ≠ 0 := by
      refine sizeToNumPages_ne h fun h0 => ?_
      rw [h0] at hsum
      simp at hsum
      omega
    have hpages := sizeToNumPages_toNat h
    generalize sizeToNumPages (METADATA_IFPAGES_SIZE_POW2 + size) = num at hnum hpages ⊢
    by_cases hp : (ukPalloc A w num).1 = 0
    · rw [if_pos hp]
      exact .inl ⟨hp, fails_ukPalloc hA hnum hp⟩
    · rw [if_neg hp]
      have hok : Pages.Ok ⟨(ukPalloc A w num).1, num⟩ := hA.pages_ok w num hp
      have hdvd := hok.aligned
      have hpos : (ukPalloc A w num).1.toNat ≠ 0 := fun h0 => hp (eq_of_toNat_eq h0)
      dsimp only at hdvd
      have hptr : ((ukPalloc A w num).1 + METADATA_IFPAGES_SIZE_POW2).toNat = (ukPalloc A w num).1.toNat + 32 := by
        bv_omega
      obtain ⟨a, ha, hav⟩ := getMetadata_eq (p := (ukPalloc A w num).1 + METADATA_IFPAGES_SIZE_POW2) (by omega)
      rw [if_neg (by omega)] at hav
      have hab : a = (ukPalloc A w num).1 := eq_of_toNat_eq (by omega)
      subst hab
      dsimp only
      refine .inr ⟨fun h0 => ?_, _, obtains_ukPalloc hA hnum hp ha (by omega) (by omega) (by omega)⟩
      rw [h0] at hptr
      simp at hptr

private theorem mallocIfpages_wraps (A : PageAllocator) (w : World) (h : Wraps (32 + size.toNat)) :
    PageCall.palloc 0 ∈ (ukMallocIfpages A w size).2.calls := by
  have hsum : (METADATA_IFPAGES_SIZE_POW2 + size).toNat = 32 + size.toNat := by
    unfold Wraps at h
    unfold METADATA_IFPAGES_SIZE_POW2
    bv_omega
  have hsize : ¬ (size = 0 ∨ METADATA_IFPAGES_SIZE_POW2 + size < size) := by
    unfold Wraps at h
    bv_omega
  unfold ukMallocIfpages
  rw [if_neg hsize, sizeToNumPages_wraps (by rw [hsum]; exact h)]
  by_cases hp : (ukPalloc A w 0).1 = 0
  · rw [if_pos hp]
    exact List.mem_append_right _ (List.mem_singleton.2 rfl)
  · rw [if_neg hp]
    exact List.mem_append_right _ (List.mem_singleton.2 rfl)

/-- The alignments that `uk_posix_memalign_ifpages` accepts. -/
def ValidAlign (align : BitVec 64) : Prop := (align - 1) &&& align = 0 ∧ align % 8 = 0

/-- The alignment is rounded to a power of two of at least 32, and the padding is at most a page. -/
theorem memalignLayout_spec (h : ValidAlign align) :
    ∃ k, 5 ≤ k ∧ k < 64 ∧ (memalignLayout align).1.toNat = 2 ^ k ∧ (memalignLayout align).2.toNat ≤ 4096 ∧
      (12 < k → (memalignLayout align).2.toNat = 4096) ∧ (align ≠ 0 → align.toNat ∣ 2 ^ k) := by
  obtain ⟨h1, h8⟩ := h
  unfold memalignLayout
  by_cases hlt : align < METADATA_IFPAGES_SIZE_POW2
  · have hp : ¬ PAGE_SIZE < align ∧ align ≠ PAGE_SIZE := by
      unfold METADATA_IFPAGES_SIZE_POW2 at hlt
      unfold PAGE_SIZE
      bv_omega
    rw [if_neg hp.1, if_neg hp.2, if_pos hlt]
    refine ⟨5, by omega, by omega, rfl, by decide, by omega, fun h0 => ?_⟩
    have : align = 8 ∨ align = 16 := by
      unfold METADATA_IFPAGES_SIZE_POW2 at hlt
      have h24 : align ≠ 24 := by
        rintro rfl
        exact absurd h1 (by decide)
      have h8' : align.toNat % 8 = 0 := by simpa using congrArg BitVec.toNat h8
      bv_omega
    rcases this with rfl | rfl <;> decide
  · have h32 : 32 ≤ align.toNat := by
      unfold METADATA_IFPAGES_SIZE_POW2 at hlt
      bv_omega
    have hpow : align.toNat.isPowerOfTwo := by
      refine (Nat.and_sub_one_eq_zero_iff_isPowerOfTwo (by omega)).1 ?_
      have := congrArg BitVec.toNat h1
      rw [toNat_and, show (align - 1).toNat = align.toNat - 1 by bv_omega, Nat.and_comm] at this
      exact this
    obtain ⟨k, hk⟩ := hpow
    have hk64 : k < 64 := by
      have := align.isLt
      rw [hk] at this
      exact (Nat.pow_lt_pow_iff_right (by omega)).1 this
    have h5 : 5 ≤ k := by
      exact (Nat.pow_le_pow_iff_right (by omega : 1 < 2)).1 (by omega : 2 ^ 5 ≤ 2 ^ k)
    have hdvd : align ≠ 0 → align.toNat ∣ 2 ^ k := fun _ => hk ▸ Nat.dvd_refl _
    have h12 : 12 < k → PAGE_SIZE < align := by
      intro h
      have : 2 ^ 13 ≤ 2 ^ k := Nat.pow_le_pow_right (by omega) h
      unfold PAGE_SIZE
      bv_omega
    by_cases hp : PAGE_SIZE < align
    · rw [if_pos hp]
      exact ⟨k, h5, hk64, hk, Nat.le_refl 4096, fun _ => rfl, hdvd⟩
    · rw [if_neg hp]
      by_cases he : align = PAGE_SIZE
      · rw [if_pos he]
        exact ⟨k, h5, hk64, hk, Nat.zero_le 4096, fun h => absurd (h12 h) hp, hdvd⟩
      · rw [if_neg he, if_neg hlt]
        exact ⟨k, h5, hk64, hk, show 24 ≤ 4096 by omega, fun h => absurd (h12 h) hp, hdvd⟩

/-- The bytes `uk_posix_memalign_ifpages` needs for a block. -/
def memalignBytes (align size : BitVec 64) : Nat :=
  size.toNat + (memalignLayout align).2.toNat + (memalignLayout align).1.toNat

private theorem memalign_realsize (h : ValidAlign align)
    (hover : ¬ size + (memalignLayout align).2 + (memalignLayout align).1 < size) :
    (size + (memalignLayout align).2 + (memalignLayout align).1).toNat = memalignBytes align size := by
  obtain ⟨k, -, hk, ha, hpad, -, -⟩ := memalignLayout_spec h
  have : 2 ^ k ≤ 2 ^ 63 := Nat.pow_le_pow_right (by omega) (by omega)
  unfold memalignBytes
  bv_omega

/-- As `mallocIfpages_spec`, for a block at a multiple of `align`. -/
theorem memalignIfpages_spec (hA : A.Sound) (w : World) (align size : BitVec 64)
    (h : ValidAlign align → size ≠ 0 → ¬ Wraps (memalignBytes align size)) :
    (∃ e w', ukPosixMemalignIfpages A w align size = some (.error e, w') ∧ Fails w w') ∨
    ∃ p w' pages, ukPosixMemalignIfpages A w align size = some (.ok p, w') ∧ Obtains w w' ⟨p, size, pages⟩ ∧
      (align ≠ 0 → align.toNat ∣ p.toNat) := by
  unfold ukPosixMemalignIfpages
  by_cases hv : (align - 1) &&& align ≠ 0 ∨ align % 8 ≠ 0
  · rw [if_pos hv]
    exact .inl ⟨_, w, rfl, fails_refl w⟩
  rw [if_neg hv]
  have hvalid : ValidAlign align := ⟨not_not.1 (not_or.1 hv).1, not_not.1 (not_or.1 hv).2⟩
  by_cases hs : size = 0
  · rw [if_pos hs]
    exact .inl ⟨_, w, rfl, fails_refl w⟩
  rw [if_neg hs]
  dsimp only
  by_cases hover : size + (memalignLayout align).2 + (memalignLayout align).1 < size
  · rw [if_pos hover]
    exact .inl ⟨_, w, rfl, fails_refl w⟩
  rw [if_neg hover]
  have hsum := memalign_realsize hvalid hover
  have hwrap := h hvalid hs
  rw [← hsum] at hwrap
  have hs0 : size.toNat ≠ 0 := fun h0 => hs (eq_of_toNat_eq h0)
  have hpages := sizeToNumPages_toNat hwrap
  have hnum : sizeToNumPages (size + (memalignLayout align).2 + (memalignLayout align).1) ≠ 0 := by
    refine sizeToNumPages_ne hwrap fun h0 => ?_
    rw [h0] at hsum
    unfold memalignBytes at hsum
    simp at hsum
    omega
  rw [hsum] at hpages
  generalize sizeToNumPages (size + (memalignLayout align).2 + (memalignLayout align).1) = num at hnum hpages ⊢
  by_cases hp : (ukPalloc A w num).1 = 0
  · rw [if_pos hp]
    exact .inl ⟨_, _, rfl, fails_ukPalloc hA hnum hp⟩
  rw [if_neg hp]
  have hok : Pages.Ok ⟨(ukPalloc A w num).1, num⟩ := hA.pages_ok w num hp
  obtain ⟨k, h5, hk, hl, -, hpad, hdvd⟩ := memalignLayout_spec hvalid
  have hroom : size.toNat + (memalignLayout align).2.toNat + 2 ^ k ≤ num.toNat * 4096 := by
    unfold memalignBytes at hpages
    omega
  obtain ⟨a, ha, h1, h2, hin, hal⟩ := alignUp_block hk h5 hl hok.aligned hok.base_ne hok.fits hroom hs0 hpad
  dsimp only at ha h1 h2 hin hal
  have hge : ¬ a < (ukPalloc A w num).1 := fun hlt => absurd (lt_def.1 hlt) (by omega)
  rw [ha]
  simp only [bind, Option.bind, if_neg hge]
  exact .inr ⟨_, _, _, rfl, obtains_ukPalloc hA hnum hp ha h1 h2 hin, fun h0 => Nat.dvd_trans (hdvd h0) hal⟩

private theorem memalignIfpages_wraps (A : PageAllocator) (w : World) (hv : ValidAlign align)
    (hs : size ≠ 0) (h : Wraps (memalignBytes align size)) {r : Except Errno (BitVec 64) × World}
    (hr : ukPosixMemalignIfpages A w align size = some r) : PageCall.palloc 0 ∈ r.2.calls := by
  have hvalid : ¬ ((align - 1) &&& align ≠ 0 ∨ align % 8 ≠ 0) := not_or.2 ⟨not_not.2 hv.1, not_not.2 hv.2⟩
  have hover : ¬ size + (memalignLayout align).2 + (memalignLayout align).1 < size := by
    unfold Wraps memalignBytes at h
    bv_omega
  have hcalls : PageCall.palloc 0 ∈ (ukPalloc A w 0).2.calls := List.mem_append_right _ (List.mem_singleton.2 rfl)
  unfold ukPosixMemalignIfpages at hr
  rw [if_neg hvalid, if_neg hs] at hr
  rw [if_neg hover, sizeToNumPages_wraps (by rw [memalign_realsize hv hover]; exact h)] at hr
  by_cases hp : (ukPalloc A w 0).1 = 0
  · rw [if_pos hp] at hr
    cases hr
    exact hcalls
  · rw [if_neg hp] at hr
    simp only [bind, Option.bind] at hr
    split at hr
    · cases hr
    · dsimp only at hr
      split at hr
      · cases hr
      · cases hr
        exact hcalls

/-- The header in front of a live block leads back to its pages. -/
theorem freeIfpages_spec (h : Live w b) : ukFreeIfpages A w b.ptr = some (ukPfree A w b.pages.base b.pages.num) := by
  obtain ⟨a, ha, hd, -, -⟩ := h.record
  have hok : ¬ (b.pages.base = 0 ∨ b.pages.num = 0) := not_or.2 ⟨h.ok.base_ne, h.num_ne⟩
  unfold ukFreeIfpages
  rw [if_neg h.ptr_ne, ha]
  simp only [bind, Option.bind, hd, if_neg hok]

/-- A live block reaches to the end of its pages. -/
theorem getmallocsize_spec (h : Live w b) :
    ∃ n, ukGetmallocsize w.mem b.ptr = some n ∧
    n.toNat + b.ptr.toNat = b.pages.base.toNat + b.pages.num.toNat * 4096 := by
  obtain ⟨a, ha, hd, h1, h2⟩ := h.record
  have hin := h.inside
  have hfit := h.ok.fits
  refine ⟨b.pages.base + b.pages.num * PAGE_SIZE - b.ptr, ?_, ?_⟩
  · unfold ukGetmallocsize
    rw [ha]
    simp only [bind, Option.bind, pure, hd]
  · have hn : b.pages.num.toNat * 4096 < 2 ^ 64 := by
      have : b.pages.base.toNat ≠ 0 := fun h0 => h.ok.base_ne (eq_of_toNat_eq h0)
      omega
    have hmul : (b.pages.num * PAGE_SIZE).toNat = b.pages.num.toNat * 4096 := by
      exact Nat.mod_eq_of_lt hn
    rw [toNat_sub, toNat_add]
    omega

end

open List

structure Heap where
  w : World
  blocks : List Block

/-- An operation on a block that is not in the heap does nothing. -/
inductive Op where
  | malloc (size : BitVec 64)
  | memalign (align size : BitVec 64)
  | free (b : Block)
  | realloc (b : Block) (size : BitVec 64)
  | write (b : Block) (data : Memory)

def World.newPages (w : World) : Pages := w.held.headD ⟨0, 0⟩

def World.writeBlock (w : World) (b : Block) (data : Memory) : World :=
  { w with mem := fun x => if (x - b.ptr).toNat < b.size.toNat then data x else w.mem x }

variable (A : PageAllocator)

/-- A call that fails an assertion does not return. -/
def Heap.step (h : Heap) : Op → Heap
  | .malloc size =>
    let r := ukMallocIfpages A h.w size
    if r.1 = 0 then { h with w := r.2 } else ⟨r.2, ⟨r.1, size, r.2.newPages⟩ :: h.blocks⟩
  | .memalign align size =>
    match ukPosixMemalignIfpages A h.w align size with
    | none => h
    | some (.error _, w) => { h with w := w }
    | some (.ok p, w) => ⟨w, ⟨p, size, w.newPages⟩ :: h.blocks⟩
  | .free b =>
    if b ∈ h.blocks then
      match ukFreeIfpages A h.w b.ptr with
      | none => h
      | some w => ⟨w, h.blocks.erase b⟩
    else h
  | .realloc b size =>
    if b ∈ h.blocks then
      match ukReallocIfpages A h.w b.ptr size with
      | none => h
      | some (p, w) =>
        if size = 0 then ⟨w, h.blocks.erase b⟩
        else if p = 0 then { h with w := w }
        else ⟨w, ⟨p, size, w.newPages⟩ :: h.blocks.erase b⟩
    else h
  | .write b data => if b ∈ h.blocks then { h with w := h.w.writeBlock b data } else h

def World.AsksPages (w : World) : Prop := PageCall.palloc 0 ∉ w.calls

/-- A new block lies in the pages that were obtained for it. -/
def NewBlock (w w' : World) (p size : BitVec 64) : Prop :=
  ∃ pages, w'.held = pages :: w.held ∧ Live w' ⟨p, size, pages⟩

/-- `uk_realloc_ifpages` fails and leaves the block `b` alone, or it gives the pages of `b` back and returns a block
with the first bytes of `b`; the block of 0 bytes is 0. -/
def ReallocOk (w w' : World) (b : Block) (p size : BitVec 64) : Prop :=
  (p = 0 ∧ size ≠ 0 ∧ w'.held = w.held ∧ Live w' b ∧ ∀ x, b.pages.Has x → w'.mem x = w.mem x) ∨
  w'.calls.getLast? = some (.pfree b.pages.base b.pages.num) ∧
    (size = 0 ∧ p = 0 ∧ w'.held = w.held.erase b.pages ∨
      ∃ pages, w'.held = (pages :: w.held).erase b.pages ∧ Live w' ⟨p, size, pages⟩ ∧
        ∀ i : BitVec 64, i.toNat < min b.size.toNat size.toNat → w'.mem (p + i) = w.mem (b.ptr + i))

def CallOk (h : Heap) : Op → Prop
  | .malloc size =>
    let r := ukMallocIfpages A h.w size
    r.2.AsksPages ∧ (r.1 = 0 ∧ r.2.held = h.w.held ∨ r.1 ≠ 0 ∧ NewBlock h.w r.2 r.1 size)
  | .memalign align size =>
    match ukPosixMemalignIfpages A h.w align size with
    | none => False
    | some (.error _, w) => w.AsksPages ∧ w.held = h.w.held
    | some (.ok p, w) => w.AsksPages ∧ (align ≠ 0 → align.toNat ∣ p.toNat) ∧ NewBlock h.w w p size
  | .free b => b ∈ h.blocks → ∃ w, ukFreeIfpages A h.w b.ptr = some w ∧
      w.calls = h.w.calls ++ [.pfree b.pages.base b.pages.num] ∧ w.held = h.w.held.erase b.pages
  | .realloc b size => b ∈ h.blocks → ∃ p w, ukReallocIfpages A h.w b.ptr size = some (p, w) ∧
      w.AsksPages ∧ ReallocOk h.w w b p size
  | .write .. => True

def NoWrap (h : Heap) : Op → Prop
  | .malloc size => ¬ Wraps (32 + size.toNat)
  | .memalign align size => ValidAlign align → size ≠ 0 → ¬ Wraps (memalignBytes align size)
  | .realloc b size => b ∈ h.blocks → ¬ Wraps (32 + size.toNat)
  | _ => True

structure Inv (h : Heap) : Prop where
  live : ∀ b ∈ h.blocks, Live h.w b
  apart : h.blocks.Pairwise fun b c => b.pages.Disjoint c.pages
  asks : h.w.AsksPages

section
variable {A : PageAllocator} {w w' : World} {b : Block} {bs : List Block} {size : BitVec 64}

private theorem asks_append (h : w.AsksPages) {c : PageCall} (hc : c ≠ .palloc 0) (hw : w'.calls = w.calls ++ [c]) :
    w'.AsksPages := by
  unfold World.AsksPages
  rw [hw, mem_append, mem_singleton]
  rintro (h0 | h0)
  · exact h h0
  · exact hc h0.symm

private theorem Fails.asks (hf : Fails w w') (h : w.AsksPages) : w'.AsksPages := by
  rcases hf.calls with hc | ⟨n, hn, hc⟩
  · unfold World.AsksPages
    rw [hc]
    exact h
  · exact asks_append h (fun h0 => hn (PageCall.palloc.inj h0)) hc

private theorem Obtains.asks (ho : Obtains w w' b) (h : w.AsksPages) : w'.AsksPages := by
  obtain ⟨n, hn, hc⟩ := ho.calls
  exact asks_append h (fun h0 => hn (PageCall.palloc.inj h0)) hc

private theorem Inv.fails (h : Inv ⟨w, bs⟩) (hf : Fails w w') : Inv ⟨w', bs⟩ := by
  refine ⟨fun b hb => ?_, h.apart, hf.asks h.asks⟩
  have hl := h.live b hb
  exact hl.frame (by rw [hf.held]; exact hl.held) fun x hx _ => hf.frame _ hl.held x hx

private theorem Inv.obtains (h : Inv ⟨w, bs⟩) (ho : Obtains w w' b) : Inv ⟨w', b :: bs⟩ := by
  refine ⟨fun c hc => ?_, pairwise_cons.2 ⟨fun c hc => ho.fresh _ (h.live c hc).held, h.apart⟩, ho.asks h.asks⟩
  rcases mem_cons.1 hc with rfl | hc
  · exact ho.live
  · have hl := h.live c hc
    exact hl.frame (by rw [ho.held]; exact mem_cons_of_mem _ hl.held) fun x hx _ => ho.frame _ hl.held x hx

private theorem Block.has_of_offset (h : Live w b) {x : BitVec 64} (hx : (x - b.ptr).toNat < b.size.toNat) :
    b.pages.Has x := by
  obtain ⟨a, -, -, h1, h2⟩ := h.record
  have hin := h.inside
  have hfit := h.ok.fits
  have : x.toNat = b.ptr.toNat + (x - b.ptr).toNat := by bv_omega
  unfold Pages.Has
  omega

instance : Std.Symm fun b c : Block => b.pages.Disjoint c.pages := ⟨fun _ _ h => h.symm⟩

private theorem Inv.write (h : Inv ⟨w, bs⟩) (hb : b ∈ bs) (hheld : w'.held = w.held) (hcalls : w'.calls = w.calls)
    (hm : ∀ x, ¬ (x - b.ptr).toNat < b.size.toNat → w'.mem x = w.mem x) : Inv ⟨w', bs⟩ := by
  refine ⟨fun c hc => ?_, h.apart, ?_⟩
  · have hl := h.live c hc
    refine hl.frame (by rw [hheld]; exact hl.held) fun x hx hnot => hm x fun hin => ?_
    -- the block that is written is `c` itself or has other pages
    by_cases hcb : c = b
    · subst hcb
      exact hnot hin
    · exact h.apart.forall hc hb hcb x hx (Block.has_of_offset (h.live b hb) hin)
  · unfold World.AsksPages
    rw [hcalls]
    exact h.asks

private theorem Inv.nodup (h : Inv ⟨w, bs⟩) : bs.Nodup := by
  refine List.Pairwise.imp_of_mem (fun {a b} ha hb hab => ?_) h.apart
  rintro rfl
  exact hab.ne (h.live a ha).num_ne rfl

private theorem Inv.pfree (hA : A.Sound) (h : Inv ⟨w, bs⟩) (hb : b ∈ bs) :
    Inv ⟨ukPfree A w b.pages.base b.pages.num, bs.erase b⟩ := by
  refine ⟨fun c hc => ?_, h.apart.sublist (erase_sublist), ?_⟩
  · obtain ⟨hcb, hc⟩ := h.nodup.mem_erase_iff.1 hc
    have hl := h.live c hc
    have hne : c.pages ≠ b.pages := (h.apart.forall hc hb hcb).ne hl.num_ne
    have hheld : c.pages ∈ w.held.erase b.pages := (mem_erase_of_ne hne).2 hl.held
    exact hl.frame hheld fun x hx _ => hA.pfree_frame w _ _ _ x hheld hx
  · exact asks_append h.asks (by simp) rfl

/-- The block is moved to new pages with its contents, or the call fails and nothing changes. -/
theorem reallocIfpages_spec (hA : A.Sound) (h : Inv ⟨w, bs⟩) (hb : b ∈ bs) (hs : size ≠ 0)
    (hw : ¬ Wraps (32 + size.toNat)) :
    (∃ w', ukReallocIfpages A w b.ptr size = some (0, w') ∧ Fails w w') ∨
    ∃ p w' pages, ukReallocIfpages A w b.ptr size = some (p, w') ∧ p ≠ 0 ∧ Inv ⟨w', ⟨p, size, pages⟩ :: bs.erase b⟩ ∧
      w'.held = pages :: w.held.erase b.pages ∧ pages ≠ b.pages ∧
      w'.calls.getLast? = some (.pfree b.pages.base b.pages.num) ∧
      ∀ i : BitVec 64, i.toNat < min b.size.toNat size.toNat → w'.mem (p + i) = w.mem (b.ptr + i) := by
  have hl := h.live b hb
  unfold ukReallocIfpages
  rw [if_neg hl.ptr_ne, if_neg hs]
  rcases mallocIfpages_spec hA w size hw with ⟨h0, hf⟩ | ⟨h0, pages, ho⟩
  · left
    rw [if_pos h0]
    exact ⟨_, congrArg some (Prod.ext h0 rfl), hf⟩
  · right
    rw [if_neg h0]
    generalize hr : ukMallocIfpages A w size = r at h0 ho ⊢
    obtain ⟨p, w1⟩ := r
    have h1 : Inv ⟨w1, ⟨p, size, pages⟩ :: bs⟩ := h.obtains ho
    obtain ⟨n, hn, hroom⟩ := getmallocsize_spec (h1.live b (mem_cons_of_mem _ hb))
    rw [hn]
    simp only [bind, Option.bind]
    generalize hk : (if size < n then size else n) = k
    have hks : k.toNat = min size.toNat n.toNat := by
      subst hk
      split <;> rename_i hlt <;> rw [BitVec.lt_def] at hlt <;> omega
    -- the copy stays inside of the new block
    have h2 : Inv ⟨{ w1 with mem := copy w1.mem p b.ptr k }, ⟨p, size, pages⟩ :: bs⟩ := by
      refine h1.write mem_cons_self rfl rfl fun x hx => copy_other fun hlt => hx ?_
      dsimp only
      omega
    have hb2 := mem_cons_of_mem (⟨p, size, pages⟩ : Block) hb
    rw [freeIfpages_spec (h2.live b hb2)]
    have hne : pages ≠ b.pages := (ho.fresh _ hl.held).ne ho.live.num_ne
    have hheld : (pages :: w.held).erase b.pages = pages :: w.held.erase b.pages :=
      erase_cons_tail (by simpa using hne)
    have hbne : (⟨p, size, pages⟩ : Block) ≠ b := fun h => hne (congrArg Block.pages h)
    have h3 := h2.pfree hA hb2
    rw [erase_cons_tail (by simpa using hbne)] at h3
    refine ⟨p, _, pages, rfl, h0, h3, ?_, hne, List.getLast?_concat, ?_⟩
    · exact (congrArg (List.erase · b.pages) ho.held).trans hheld
    · intro i hi
      have hin := hl.inside
      have hnew := h3.live _ mem_cons_self
      have hmem : Pages.Has pages (p + i) := by
        refine Block.has_of_offset hnew ?_
        rw [show p + i - p = i by bv_omega]
        exact Nat.lt_of_lt_of_le hi (Nat.min_le_right _ _)
      have hold : b.pages.Has (b.ptr + i) := by
        refine Block.has_of_offset hl ?_
        rw [show b.ptr + i - b.ptr = i by bv_omega]
        exact Nat.lt_of_lt_of_le hi (Nat.min_le_left _ _)
      calc A.pfree _ b.pages.base b.pages.num (p + i)
          = copy w1.mem p b.ptr k (p + i) := by
            refine hA.pfree_frame { w1 with mem := copy w1.mem p b.ptr k } _ _ pages _ ?_ hmem
            exact hnew.held
        _ = w1.mem (b.ptr + i) := copy_same (by omega)
        _ = w.mem (b.ptr + i) := ho.frame _ hl.held _ hold

private theorem newPages_cons {r : Pages} {l : List Pages} (h : w.held = r :: l) : w.newPages = r := by
  unfold World.newPages
  rw [h]
  rfl

variable {h : Heap} {ptr : BitVec 64}

section
variable (hA : A.Sound) (hi : Inv h)
include hA hi

private theorem callOk_malloc (hw : ¬ Wraps (32 + size.toNat)) :
    CallOk A h (.malloc size) ∧ Inv (h.step A (.malloc size)) := by
  simp only [Heap.step]
  rcases mallocIfpages_spec hA h.w size hw with ⟨h0, hf⟩ | ⟨h0, pages, ho⟩
  · rw [if_pos h0]
    exact ⟨⟨hf.asks hi.asks, .inl ⟨h0, hf.held⟩⟩, hi.fails hf⟩
  · rw [if_neg h0, newPages_cons ho.held]
    exact ⟨⟨ho.asks hi.asks, .inr ⟨h0, pages, ho.held, ho.live⟩⟩, hi.obtains ho⟩

private theorem callOk_memalign {align : BitVec 64} (hw : NoWrap h (.memalign align size)) :
    CallOk A h (.memalign align size) ∧ Inv (h.step A (.memalign align size)) := by
  simp only [CallOk, Heap.step]
  rcases memalignIfpages_spec hA h.w align size hw with ⟨e, w, he, hf⟩ | ⟨p, w, pages, he, ho, hd⟩
  · rw [he]
    exact ⟨⟨hf.asks hi.asks, hf.held⟩, hi.fails hf⟩
  · rw [he]
    dsimp only
    rw [newPages_cons ho.held]
    exact ⟨⟨ho.asks hi.asks, hd, pages, ho.held, ho.live⟩, hi.obtains ho⟩

private theorem callOk_free (b : Block) : CallOk A h (.free b) ∧ Inv (h.step A (.free b)) := by
  simp only [CallOk, Heap.step]
  split
  next hb =>
    rw [freeIfpages_spec (hi.live b hb)]
    exact ⟨fun _ => ⟨_, rfl, rfl, rfl⟩, hi.pfree hA hb⟩
  next hb =>
    exact ⟨fun hb' => absurd hb' hb, hi⟩

private theorem callOk_realloc (hw : NoWrap h (.realloc b size)) :
    CallOk A h (.realloc b size) ∧ Inv (h.step A (.realloc b size)) := by
  simp only [CallOk, Heap.step]
  split
  next hb =>
    have hl := hi.live b hb
    by_cases hs : size = 0
    · have he : ukReallocIfpages A h.w b.ptr size = some (0, ukPfree A h.w b.pages.base b.pages.num) := by
        unfold ukReallocIfpages
        rw [if_neg hl.ptr_ne, if_pos hs, freeIfpages_spec hl]
        rfl
      rw [he]
      dsimp only
      rw [if_pos hs]
      have hi' := hi.pfree hA hb
      exact ⟨fun _ => ⟨_, _, rfl, hi'.asks, .inr ⟨List.getLast?_concat, .inl ⟨hs, rfl, rfl⟩⟩⟩, hi'⟩
    · rcases reallocIfpages_spec hA hi hb hs (hw hb)
        with ⟨w, he, hf⟩ | ⟨p, w, pages, he, hp, hi', hheld, hne, hlast, hbytes⟩
      · rw [he]
        dsimp only
        rw [if_neg hs]
        have hi' := hi.fails hf
        exact ⟨fun _ => ⟨_, _, rfl, hi'.asks, .inl ⟨rfl, hs, hf.held, hi'.live b hb,
          fun x hx => hf.frame _ hl.held x hx⟩⟩, hi'⟩
      · rw [he]
        dsimp only
        rw [if_neg hs, if_neg hp, newPages_cons hheld]
        have herase : (pages :: h.w.held).erase b.pages = pages :: h.w.held.erase b.pages :=
          erase_cons_tail (by simpa using hne)
        exact ⟨fun _ => ⟨_, _, rfl, hi'.asks, .inr ⟨hlast, .inr ⟨pages, hheld.trans herase.symm,
          hi'.live _ mem_cons_self, hbytes⟩⟩⟩, hi'⟩
  next hb =>
    exact ⟨fun hb' => absurd hb' hb, hi⟩

private theorem callOk_of_noWrap (op : Op) (hw : NoWrap h op) : CallOk A h op ∧ Inv (h.step A op) := by
  cases op with
  | malloc size => exact callOk_malloc hA hi hw
  | memalign align size => exact callOk_memalign hA hi hw
  | free b => exact callOk_free hA hi b
  | realloc b size => exact callOk_realloc hA hi hw
  | write b data =>
    refine ⟨trivial, ?_⟩
    simp only [Heap.step]
    split
    next hb =>
      exact hi.write hb rfl rfl fun x hx => if_neg hx
    next =>
      exact hi

end

private theorem freeIfpages_calls (hf : ukFreeIfpages A w ptr = some w') : w.calls ⊆ w'.calls := by
  unfold ukFreeIfpages at hf
  split at hf
  next =>
    cases hf
    exact List.Subset.refl _
  next =>
    obtain ⟨a, -, hf⟩ := Option.bind_eq_some_iff.1 hf
    dsimp only at hf
    split at hf
    · cases hf
    · cases hf
      exact subset_append_left _ _

private theorem reallocIfpages_wraps {p : BitVec 64} (hp : ptr ≠ 0) (hw : Wraps (32 + size.toNat))
    (hr : ukReallocIfpages A w ptr size = some (p, w')) : PageCall.palloc 0 ∈ w'.calls := by
  have hs : size ≠ 0 := by
    rintro rfl
    unfold Wraps at hw
    simp at hw
  have hm := mallocIfpages_wraps A w hw
  unfold ukReallocIfpages at hr
  rw [if_neg hp, if_neg hs] at hr
  by_cases h0 : (ukMallocIfpages A w size).1 = 0
  · rw [if_pos h0] at hr
    rw [Option.some.inj hr] at hm
    exact hm
  · rw [if_neg h0] at hr
    obtain ⟨n, -, hr⟩ := Option.bind_eq_some_iff.1 hr
    obtain ⟨w2, hf, hr⟩ := Option.bind_eq_some_iff.1 hr
    cases hr
    exact freeIfpages_calls hf hm

private theorem noWrap_of_callOk (hi : Inv h) {op : Op} (hc : CallOk A h op) : NoWrap h op := by
  cases op with
  | malloc size => exact fun hw => hc.1 (mallocIfpages_wraps A h.w hw)
  | memalign align size =>
    intro hv hs hw
    simp only [CallOk] at hc
    split at hc
    · exact hc
    · rename_i heq
      exact hc.1 (memalignIfpages_wraps A h.w hv hs hw heq)
    · rename_i heq
      exact hc.1 (memalignIfpages_wraps A h.w hv hs hw heq)
  | free b => trivial
  | realloc b size =>
    intro hb hw
    obtain ⟨p, w, he, hasks, -⟩ := hc hb
    exact hasks (reallocIfpages_wraps (hi.live b hb).ptr_ne hw he)
  | write b data => trivial

end

def Heap.init (mem : Memory) (held : List Pages) : Heap := ⟨⟨mem, held, []⟩, []⟩

/-- A heap without blocks satisfies the invariant. -/
theorem inv_init (mem : Memory) (held : List Pages) : Inv (Heap.init mem held) :=
  ⟨fun _ hb => absurd hb not_mem_nil, List.Pairwise.nil, not_mem_nil⟩

/-- In a run of the heap over any page allocator, every call does what is expected exactly if no call wraps. -/
theorem heap_run_iff (hA : A.Sound) (mem : Memory) (held : List Pages) (ops : List Op) :
    Meets (Heap.step A) (CallOk A) (Heap.init mem held) ops ↔ Meets (Heap.step A) NoWrap (Heap.init mem held) ops :=
  meets_congr (I := Inv)
    (fun _ op hi => ⟨noWrap_of_callOk hi, fun h => (callOk_of_noWrap hA hi op h).1⟩)
    (fun _ op hi h => (callOk_of_noWrap hA hi op h).2) (inv_init mem held)

/-- A page allocator with one run of pages, at 65536. -/
def onePage : PageAllocator where
  palloc w num := (if w.held = [] ∧ num = 1 then 65536 else 0, w.mem)
  pfree w _ _ := w.mem

private theorem onePage_sound : onePage.Sound where
  pages_ok w num h := by
    unfold onePage at h ⊢
    dsimp only at h ⊢
    split at h
    · rename_i hc
      rw [if_pos hc, hc.2]
      exact ⟨by decide, by decide, by decide⟩
    · exact absurd rfl h
  fresh w num r h hr := by
    unfold onePage at h
    dsimp only at h
    split at h
    · rename_i hc
      rw [hc.1] at hr
      exact absurd hr not_mem_nil
    · exact absurd rfl h
  palloc_frame _ _ _ _ _ _ := rfl
  pfree_frame _ _ _ _ _ _ _ := rfl

theorem heap_run_malloc : (Heap.step onePage (Heap.init (fun _ => 0) []) (.malloc 100)).blocks =
    [⟨65568, 100, ⟨65536, 1⟩⟩] ∧
    Meets (Heap.step onePage) (CallOk onePage) (Heap.init (fun _ => 0) [])
    [.malloc 100, .free ⟨65568, 100, ⟨65536, 1⟩⟩] :=
  ⟨by decide, (heap_run_iff onePage onePage_sound (fun _ => 0) [] _).2
    ⟨show ¬ Wraps 132 by unfold Wraps; omega, trivial, trivial⟩⟩

/-- A request for `2 ^ 64 - 33` bytes asks for 0 pages. -/
theorem heap_zero_pages : ¬ Meets (Heap.step onePage) (CallOk onePage) (Heap.init (fun _ => 0) [])
    [.malloc 0xFFFFFFFFFFFFFFDF] :=
  fun h => noWrap_of_callOk (A := onePage) (inv_init (fun _ => 0) []) h.1
    (show Wraps 0xFFFFFFFFFFFFFFFF by unfold Wraps; omega)

end Unikraft.Alloc
