import Unikraft.Lib.Links

/-!
# The split virtqueue and its descriptors

The driver owns the descriptors and the available ring, the device the used ring; indices are taken modulo the size of
the ring, a power of two. Each descriptor is in the free list or in the chain of one buffer in flight (`Sound`): a new
buffer gets the front of the free list, and the chain of a buffer that is taken back is found by the flag `NEXT`.
Memory barriers are left out.
-/

namespace Unikraft.Virtio

inductive Errno
  | EINVAL | ENOSPC | ENOMSG
  deriving DecidableEq

def VRING_DESC_F_NEXT : BitVec 16 := 1
def VRING_DESC_F_WRITE : BitVec 16 := 2
def VRING_USED_F_NO_NOTIFY : BitVec 16 := 1
def VRING_AVAIL_F_NO_INTERRUPT : BitVec 16 := 1

def VIRTQUEUE_MAX_SIZE : Nat := 32768

structure VringDesc where
  addr : BitVec 64
  len : BitVec 32
  flags : BitVec 16
  next : Nat
  deriving DecidableEq

structure VringUsedElem where
  id : BitVec 32
  len : BitVec 32
  deriving DecidableEq

structure UkSglistSeg where
  ssPaddr : BitVec 64
  ssLen : BitVec 64
  deriving DecidableEq

/-- `struct virtqueue_desc_info`; the cookie is a pointer that may be `NULL`. -/
structure VirtqueueDescInfo (γ : Type) where
  cookie : Option γ
  descCount : BitVec 16

/-- `struct virtqueue_vring` with its `struct vring` of `2 ^ order` descriptors. `usedEvent` and `availEvent` are the
words behind the available and the used ring. -/
structure VirtqueueVring (γ : Type) where
  order : Fin 16
  desc : Nat → VringDesc
  availFlags : BitVec 16
  availIdx : BitVec 16
  availRing : Nat → Nat
  usedEvent : BitVec 16
  usedFlags : BitVec 16
  usedIdx : BitVec 16
  usedRing : Nat → VringUsedElem
  availEvent : BitVec 16
  descAvail : BitVec 16
  headFreeDesc : Nat
  lastUsedDescIdx : BitVec 16
  usesEventIdx : Bool
  lastNotifiedIdx : BitVec 16
  vqInfo : Nat → VirtqueueDescInfo γ
  vqNotifyHost : Bool

variable {γ : Type}

namespace VirtqueueVring

def num (vrq : VirtqueueVring γ) : Nat := 2 ^ vrq.order.val

def slot (vrq : VirtqueueVring γ) (idx : BitVec 16) : Nat := idx.toNat &&& (vrq.num - 1)

end VirtqueueVring

def virtqueueCreate (order : Fin 16) (usesEventIdx vqNotifyHost : Bool) : VirtqueueVring γ where
  order := order
  desc i :=
    ⟨0, 0, 0, if i < 2 ^ order.val - 1 then i + 1 else if i = 2 ^ order.val - 1 then VIRTQUEUE_MAX_SIZE else 0⟩
  availFlags := 0
  availIdx := 0
  availRing _ := 0
  usedEvent := 0
  usedFlags := 0
  usedIdx := 0
  usedRing _ := ⟨0, 0⟩
  availEvent := 0
  descAvail := BitVec.ofNat 16 (2 ^ order.val)
  headFreeDesc := 0
  lastUsedDescIdx := 0
  usesEventIdx := usesEventIdx
  lastNotifiedIdx := 0
  vqInfo _ := ⟨none, 0⟩
  vqNotifyHost := vqNotifyHost

variable (vrq : VirtqueueVring γ)

def virtqueueHasdata : Bool := vrq.lastUsedDescIdx != vrq.usedIdx

def virtqueueIsFull : Bool := vrq.descAvail == 0

def virtqueueIntrDisable : VirtqueueVring γ :=
  if vrq.usesEventIdx then { vrq with usedEvent := vrq.lastUsedDescIdx - BitVec.ofNat 16 vrq.num - 1 }
  else { vrq with availFlags := vrq.availFlags ||| VRING_AVAIL_F_NO_INTERRUPT }

def virtqueueIntrArm : VirtqueueVring γ :=
  if vrq.usesEventIdx then { vrq with usedEvent := vrq.lastUsedDescIdx + 0 }
  else { vrq with availFlags := vrq.availFlags &&& ~~~ VRING_AVAIL_F_NO_INTERRUPT }

def virtqueueIntrEnable : VirtqueueVring γ × Bool :=
  if virtqueueHasdata vrq then (vrq, false)
  else
    let vrq := virtqueueIntrArm vrq
    if virtqueueHasdata vrq then (virtqueueIntrDisable vrq, false) else (vrq, true)

def vringNeedEvent (eventIdx newIdx oldIdx : BitVec 16) : Bool := newIdx - eventIdx - 1 < newIdx - oldIdx

def virtqueueNotifyEnabled : Bool :=
  if vrq.usesEventIdx then vringNeedEvent vrq.availEvent vrq.availIdx vrq.lastNotifiedIdx
  else vrq.usedFlags &&& VRING_USED_F_NO_NOTIFY == 0

def virtqueueHostNotify : VirtqueueVring γ × Bool :=
  if vrq.vqNotifyHost && virtqueueNotifyEnabled vrq then ({ vrq with lastNotifiedIdx := vrq.availIdx }, true)
  else (vrq, false)

def virtqueueRingUpdateAvail (idx : Nat) : VirtqueueVring γ :=
  { vrq with
    availRing := Function.update vrq.availRing (vrq.slot vrq.availIdx) idx
    availIdx := vrq.availIdx + 1 }

def descFlags (write next : Bool) : BitVec 16 :=
  (if write then VRING_DESC_F_WRITE else 0) ||| (if next then VRING_DESC_F_NEXT else 0)

def VringDesc.fill (d : VringDesc) (seg : UkSglistSeg) (write next : Bool) : VringDesc :=
  { d with addr := seg.ssPaddr, len := seg.ssLen.setWidth 32, flags := descFlags write next }

/-- The loop of `virtqueue_buffer_enqueue_segments` after `i` rounds: the descriptors and `idx`. -/
def enqueueLoop (sg : Nat → UkSglistSeg) (readBufs totalDesc : Nat) (desc : Nat → VringDesc) (head : Nat) :
    Nat → (Nat → VringDesc) × Nat
  | 0 => (desc, head)
  | i + 1 =>
    let (desc, idx) := enqueueLoop sg readBufs totalDesc desc head i
    (Function.update desc idx ((desc idx).fill (sg i) (decide (readBufs ≤ i)) (decide (i < totalDesc - 1))),
      (desc idx).next)

def virtqueueBufferEnqueueSegments (head : Nat) (sg : Nat → UkSglistSeg)
    (readBufs writeBufs : BitVec 16) : VirtqueueVring γ × Nat :=
  let totalDesc := readBufs.toNat + writeBufs.toNat
  let (desc, idx) := enqueueLoop sg readBufs.toNat totalDesc vrq.desc head totalDesc
  ({ vrq with desc := desc }, idx)

/-- `virtqueue_buffer_enqueue`. The cookie is not `NULL`. -/
def virtqueueBufferEnqueue (cookie : γ) (sg : Nat → UkSglistSeg)
    (readBufs writeBufs : BitVec 16) : VirtqueueVring γ × Except Errno Nat :=
  let totalDesc := readBufs.toNat + writeBufs.toNat
  if totalDesc < 1 ∨ vrq.num < totalDesc then (vrq, .error .EINVAL)
  else if vrq.descAvail.toNat < totalDesc then (vrq, .error .ENOSPC)
  else
    let headIdx := vrq.headFreeDesc
    let vrq := { vrq with vqInfo := Function.update vrq.vqInfo headIdx ⟨some cookie, BitVec.ofNat 16 totalDesc⟩ }
    let (vrq, idx) := virtqueueBufferEnqueueSegments vrq headIdx sg readBufs writeBufs
    let vrq := { vrq with headFreeDesc := idx, descAvail := vrq.descAvail - BitVec.ofNat 16 totalDesc }
    let vrq := virtqueueRingUpdateAvail vrq headIdx
    (vrq, .ok vrq.descAvail.toNat)

def VringDesc.hasNext (d : VringDesc) : Bool := d.flags &&& VRING_DESC_F_NEXT != 0

/-- The loop of `virtqueue_detach_desc` from a descriptor on: the last descriptor of the chain and the count. A chain
that is longer than the ring does not end. -/
def detachLoop (desc : Nat → VringDesc) : Nat → Nat → BitVec 16 → Option (Nat × BitVec 16)
  | 0, _, _ => none
  | fuel + 1, idx, descCount =>
    if (desc idx).hasNext then detachLoop desc fuel (desc idx).next (descCount - 1) else some (idx, descCount)

/-- `virtqueue_detach_desc`, which does not return if the chain does not end or if its length is not the one noted. -/
def virtqueueDetachDesc (headIdx : Nat) : Option (VirtqueueVring γ) :=
  let info := vrq.vqInfo headIdx
  match detachLoop vrq.desc vrq.num headIdx (info.descCount - 1) with
  | none => none
  | some (idx, descCount) =>
    if descCount ≠ 0 then none
    else some
      { vrq with
        descAvail := vrq.descAvail + info.descCount
        vqInfo := Function.update vrq.vqInfo headIdx { info with descCount := descCount }
        desc := Function.update vrq.desc idx { vrq.desc idx with next := vrq.headFreeDesc }
        headFreeDesc := headIdx }

/-- What `virtqueue_buffer_dequeue` returns: the cookie, the length, and the number of descriptors in use. -/
structure Dequeued (γ : Type) where
  cookie : Option γ
  len : BitVec 32
  inUse : Nat

def virtqueueBufferDequeue : Option (VirtqueueVring γ × Except Errno (Dequeued γ)) :=
  if !virtqueueHasdata vrq then some (vrq, .error .ENOMSG)
  else
    let elem := vrq.usedRing (vrq.slot vrq.lastUsedDescIdx)
    let vrq := { vrq with lastUsedDescIdx := vrq.lastUsedDescIdx + 1 }
    let headIdx := (elem.id.setWidth 16).toNat
    let cookie := (vrq.vqInfo headIdx).cookie
    match virtqueueDetachDesc vrq headIdx with
    | none => none
    | some vrq =>
      let vrq := { vrq with vqInfo := Function.update vrq.vqInfo headIdx { vrq.vqInfo headIdx with cookie := none } }
      some (vrq, .ok ⟨cookie, elem.len, vrq.num - vrq.descAvail.toNat⟩)

open Function (update_of_ne update_self)
open List

/-- A buffer in flight. The first `readBufs` segments are for the device to read, the others for it to write. -/
structure Buffer (γ : Type) where
  head : Nat
  cookie : γ
  segs : List UkSglistSeg
  readBufs : Nat

structure Segment where
  addr : BitVec 64
  len : Nat
  writable : Bool
  deriving DecidableEq

variable (d : VringDesc)

def VringDesc.segment : Segment := ⟨d.addr, d.len.toNat, d.flags &&& VRING_DESC_F_WRITE != 0⟩

def Buffer.segments (b : Buffer γ) : List Segment :=
  b.segs.mapIdx fun i seg => ⟨seg.ssPaddr, seg.ssLen.toNat, decide (b.readBufs ≤ i)⟩

def chainFrom (desc : Nat → VringDesc) : Nat → Nat → Option (List Nat)
  | 0, _ => none
  | fuel + 1, idx =>
    if (desc idx).hasNext then (chainFrom desc fuel (desc idx).next).map (idx :: ·) else some [idx]

namespace VirtqueueVring

def next (i : Nat) : Nat := (vrq.desc i).next

def free : List Nat := List.iterate vrq.next vrq.headFreeDesc vrq.descAvail.toNat

def chain (b : Buffer γ) : List Nat := List.iterate vrq.next b.head b.segs.length

def Carries (b : Buffer γ) : Prop :=
  ∀ i (h : i < b.segs.length), vrq.desc (vrq.next^[i] b.head) =
    (vrq.desc (vrq.next^[i] b.head)).fill b.segs[i] (decide (b.readBufs ≤ i)) (decide (i + 1 < b.segs.length))

def view (head : Nat) : Option (List Segment) :=
  (chainFrom vrq.desc vrq.num head).map (List.map fun i => (vrq.desc i).segment)

theorem num_pos : 0 < vrq.num := Nat.two_pow_pos _

theorem num_le : vrq.num ≤ 32768 :=
  Nat.pow_le_pow_right (n := 2) (by decide) (Nat.le_of_lt_succ vrq.order.isLt)

theorem slot_eq (idx : BitVec 16) : vrq.slot idx = idx.toNat % 2 ^ vrq.order.val :=
  Nat.and_two_pow_sub_one_eq_mod ..

@[simp] theorem length_free : vrq.free.length = vrq.descAvail.toNat := by
  simp [free]

@[simp] theorem length_chain (b : Buffer γ) : (vrq.chain b).length = b.segs.length := by
  simp [chain]

private theorem chain_of_eqOn {vrq vrq' : VirtqueueVring γ} {b : Buffer γ}
    (h : ∀ i ∈ vrq.chain b, vrq'.desc i = vrq.desc i) :
    vrq'.chain b = vrq.chain b ∧ (vrq.Carries b → vrq'.Carries b) := by
  have hnext : ∀ i ∈ vrq.chain b, vrq'.next i = vrq.next i := fun i hi => congrArg VringDesc.next (h i hi)
  obtain ⟨hm, hl⟩ := Links.iterate_eq_of_eqOn hnext
  refine ⟨hl, fun hc i hi => ?_⟩
  rw [hm i hi.le, h _ (mem_iterate.2 ⟨i, hi, rfl⟩)]
  exact hc i hi

end VirtqueueVring

variable (seg : UkSglistSeg)

@[simp] theorem VringDesc.fill_next (write next : Bool) : (d.fill seg write next).next = d.next := rfl

@[simp] theorem hasNext_fill (write next : Bool) : (d.fill seg write next).hasNext = next := by
  simp only [VringDesc.hasNext, VringDesc.fill]
  cases write <;> cases next <;> rfl

private theorem segment_fill (write next : Bool) :
    (d.fill seg write next).segment = ⟨seg.ssPaddr, seg.ssLen.toNat % 2 ^ 32, write⟩ := by
  simp only [VringDesc.segment, VringDesc.fill, BitVec.toNat_setWidth, Segment.mk.injEq, true_and]
  cases write <;> cases next <;> rfl

variable {desc : Nat → VringDesc}

section
variable {sg : Nat → UkSglistSeg} {readBufs totalDesc : Nat} {head : Nat}

@[simp] theorem enqueueLoop_next (i j : Nat) :
    ((enqueueLoop sg readBufs totalDesc desc head i).1 j).next = (desc j).next := by
  induction i with
  | zero => rfl
  | succ i ih =>
    simp only [enqueueLoop]
    by_cases hj : j = (enqueueLoop sg readBufs totalDesc desc head i).2
    · subst hj
      rw [update_self, VringDesc.fill_next, ih]
    · rw [update_of_ne hj, ih]

private theorem enqueueLoop_idx (i : Nat) :
    (enqueueLoop sg readBufs totalDesc desc head i).2 = (fun j => (desc j).next)^[i] head := by
  induction i with
  | zero => rfl
  | succ i ih =>
    rw [Function.iterate_succ_apply', ← ih]
    exact enqueueLoop_next i _

private theorem enqueueLoop_of_not_mem {i j : Nat} (h : j ∉ List.iterate (fun j => (desc j).next) head i) :
    (enqueueLoop sg readBufs totalDesc desc head i).1 j = desc j := by
  induction i with
  | zero => rfl
  | succ i ih =>
    have hj : j ≠ (enqueueLoop sg readBufs totalDesc desc head i).2 := by
      rintro rfl
      exact h (mem_iterate.2 ⟨i, Nat.lt_succ_self i, enqueueLoop_idx i⟩)
    simp only [enqueueLoop, update_of_ne hj]
    apply ih
    intro hi
    obtain ⟨m, hm, he⟩ := mem_iterate.1 hi
    exact h (mem_iterate.2 ⟨m, by omega, he⟩)

private theorem enqueueLoop_of_lt {i m : Nat} (hn : (List.iterate (fun j => (desc j).next) head i).Nodup)
    (hm : m < i) :
    (enqueueLoop sg readBufs totalDesc desc head i).1 ((fun j => (desc j).next)^[m] head) =
      (desc ((fun j => (desc j).next)^[m] head)).fill (sg m) (decide (readBufs ≤ m))
      (decide (m < totalDesc - 1)) := by
  induction i with
  | zero => cases hm
  | succ i ih =>
    have hni : (List.iterate (fun j => (desc j).next) head i).Nodup := by
      rw [iterate_add] at hn
      exact (nodup_append.1 hn).1
    have hnot : (fun j => (desc j).next)^[i] head ∉ List.iterate (fun j => (desc j).next) head i := by
      intro hi
      obtain ⟨j, hj, he⟩ := mem_iterate.1 hi
      have := Links.iterate_inj hn (by omega) (by omega) he
      omega
    simp only [enqueueLoop, enqueueLoop_idx i]
    by_cases he : m = i
    · subst he
      rw [update_self, enqueueLoop_of_not_mem hnot]
    · rw [update_of_ne, ih hni (by omega)]
      intro hj
      exact he (Links.iterate_inj hn (by omega) (by omega) hj)

end

section
variable {n idx fuel : Nat}

private theorem chain_tail (h : ∀ i ≤ n + 1, (desc ((fun j => (desc j).next)^[i] idx)).hasNext = decide (i < n + 1)) :
    ∀ i ≤ n, (desc ((fun j => (desc j).next)^[i] (desc idx).next)).hasNext = decide (i < n) := by
  intro i hi
  have := h (i + 1) (by omega)
  simpa using this

/-- By induction on the number of links: a walk of `n` links ends before the fuel does. -/
private theorem chainFrom_eq (h : ∀ i ≤ n, (desc ((fun j => (desc j).next)^[i] idx)).hasNext = decide (i < n))
    (hf : n < fuel) : chainFrom desc fuel idx = some (List.iterate (fun j => (desc j).next) idx (n + 1)) := by
  induction n generalizing idx fuel with
  | zero =>
    obtain ⟨fuel, rfl⟩ := Nat.exists_eq_succ_of_ne_zero (by omega : fuel ≠ 0)
    have h0 : (desc idx).hasNext = false := h 0 le_rfl
    simp [chainFrom, h0]
  | succ n ih =>
    obtain ⟨fuel, rfl⟩ := Nat.exists_eq_succ_of_ne_zero (by omega : fuel ≠ 0)
    have h0 : (desc idx).hasNext = true := by simpa using h 0 (by omega)
    rw [chainFrom, if_pos h0, ih (chain_tail h) (by omega)]
    rfl

private theorem detachLoop_eq {c : BitVec 16}
    (h : ∀ i ≤ n, (desc ((fun j => (desc j).next)^[i] idx)).hasNext = decide (i < n)) (hf : n < fuel) :
    detachLoop desc fuel idx c = some ((fun j => (desc j).next)^[n] idx, c - BitVec.ofNat 16 n) := by
  induction n generalizing idx fuel c with
  | zero =>
    obtain ⟨fuel, rfl⟩ := Nat.exists_eq_succ_of_ne_zero (by omega : fuel ≠ 0)
    have h0 : (desc idx).hasNext = false := h 0 le_rfl
    simp [detachLoop, h0]
  | succ n ih =>
    obtain ⟨fuel, rfl⟩ := Nat.exists_eq_succ_of_ne_zero (by omega : fuel ≠ 0)
    have h0 : (desc idx).hasNext = true := by simpa using h 0 (by omega)
    have hc : c - 1 - BitVec.ofNat 16 n = c - BitVec.ofNat 16 (n + 1) := by
      rw [BitVec.sub_sub, Nat.add_comm n 1, BitVec.ofNat_add]
      rfl
    rw [detachLoop, if_pos h0, ih (chain_tail h) (by omega), hc]
    rfl

end

namespace VirtqueueVring

variable {vrq : VirtqueueVring γ} {b : Buffer γ}

private theorem Carries.hasNext (h : vrq.Carries b) {i : Nat} (hi : i < b.segs.length) :
    (vrq.desc (vrq.next^[i] b.head)).hasNext = decide (i + 1 < b.segs.length) := by
  rw [h i hi, hasNext_fill]

private theorem Carries.chainFrom_eq (h : vrq.Carries b) (hpos : b.segs ≠ []) (hle : b.segs.length ≤ vrq.num) :
    chainFrom vrq.desc vrq.num b.head = some (vrq.chain b) := by
  obtain ⟨n, hn⟩ := Nat.exists_eq_succ_of_ne_zero (mt length_eq_zero_iff.1 hpos)
  have hnext : ∀ i ≤ n, (vrq.desc (vrq.next^[i] b.head)).hasNext = decide (i < n) := by
    intro i hi
    rw [h.hasNext (by omega)]
    exact decide_eq_decide.2 (by omega)
  rw [Virtio.chainFrom_eq hnext (by omega), chain, hn]
  rfl

theorem Carries.segments (h : vrq.Carries b) : (vrq.chain b).map (fun i => (vrq.desc i).segment) =
    b.segs.mapIdx fun i seg => ⟨seg.ssPaddr, seg.ssLen.toNat % 2 ^ 32, decide (b.readBufs ≤ i)⟩ := by
  apply ext_getElem
  · simp
  · intro i h1 h2
    have hi : i < b.segs.length := by simpa using h2
    simp only [getElem_map, chain, getElem_iterate, getElem_mapIdx]
    rw [h i hi, segment_fill]

end VirtqueueVring

open Function (update update_idem)
open VirtqueueVring

variable {vrq : VirtqueueVring γ} {inflight : List (Buffer γ)} {b : Buffer γ}

/-- The descriptors are split between the free list and the chains of the buffers in flight, and the chains are those
of the buffers. -/
structure Sound (vrq : VirtqueueVring γ) (inflight : List (Buffer γ)) : Prop where
  split : (vrq.free ++ (inflight.map vrq.chain).flatten).Perm (List.range vrq.num)
  ends : vrq.next^[vrq.descAvail.toNat] vrq.headFreeDesc = VIRTQUEUE_MAX_SIZE
  carries : ∀ b ∈ inflight, vrq.Carries b
  info : ∀ b ∈ inflight, vrq.vqInfo b.head = ⟨some b.cookie, BitVec.ofNat 16 b.segs.length⟩
  pos : ∀ b ∈ inflight, b.segs ≠ []

namespace Sound

variable (h : Sound vrq inflight)
include h

private theorem nodup : (vrq.free ++ (inflight.map vrq.chain).flatten).Nodup :=
  h.split.nodup_iff.2 nodup_range

private theorem not_mem_free (hb : b ∈ inflight) {i : Nat} (hi : i ∈ vrq.chain b) : i ∉ vrq.free := by
  intro hf
  exact disjoint_of_nodup_append h.nodup hf (mem_flatten.2 ⟨_, mem_map_of_mem hb, hi⟩)

private theorem head_mem (hb : b ∈ inflight) : b.head ∈ vrq.chain b :=
  mem_iterate.2 ⟨0, length_pos_iff.2 (h.pos b hb), rfl⟩

theorem head_lt (hb : b ∈ inflight) : b.head < vrq.num := by
  apply mem_range.1
  apply h.split.subset
  exact mem_append_right _ (mem_flatten.2 ⟨_, mem_map_of_mem hb, h.head_mem hb⟩)

/-- Each buffer in flight has at least one descriptor. -/
theorem length_inflight : vrq.descAvail.toNat + inflight.length ≤ vrq.num := by
  have hlen := h.split.length_eq
  have hle : inflight.length ≤ ((inflight.map vrq.chain).flatten).length := by
    have hpos := h.pos
    clear h hlen
    induction inflight with
    | nil => simp
    | cons b l ih =>
      have hb := length_pos_iff.2 (hpos b (mem_cons_self ..))
      have hl := ih fun c hc => hpos c (mem_cons_of_mem _ hc)
      simp only [map_cons, flatten_cons, length_append, length_cons, length_chain]
      omega
  rw [length_append, length_free, length_range] at hlen
  omega

/-- Buffers in flight have different heads. -/
theorem heads_nodup : (inflight.map Buffer.head).Nodup := by
  have hdisj := (nodup_flatten.1 (nodup_append.1 h.nodup).2.1).2
  rw [pairwise_map] at hdisj
  refine pairwise_map.2 (hdisj.imp_of_mem ?_)
  intro a b ha hb hab he
  exact hab (h.head_mem ha) (he ▸ h.head_mem hb)

private theorem length_chain_le (hb : b ∈ inflight) : b.segs.length ≤ vrq.num := by
  have hsub : (vrq.chain b).Sublist (inflight.map vrq.chain).flatten :=
    sublist_flatten_of_mem (mem_map_of_mem hb)
  have hlen := h.split.length_eq
  have hle := hsub.length_le
  rw [length_chain] at hle
  rw [length_append, length_range] at hlen
  omega

/-- From its head on, the descriptors of a buffer are chained. -/
theorem chainFrom_eq (hb : b ∈ inflight) : chainFrom vrq.desc vrq.num b.head = some (vrq.chain b) :=
  (h.carries b hb).chainFrom_eq (h.pos b hb) (h.length_chain_le hb)

end Sound

private theorem create_iterate (order : Fin 16) (usesEventIdx vqNotifyHost : Bool) {i : Nat}
    (hi : i < 2 ^ order.val) :
    (virtqueueCreate order usesEventIdx vqNotifyHost : VirtqueueVring γ).next^[i] 0 = i := by
  induction i with
  | zero => rfl
  | succ i ih =>
    rw [Function.iterate_succ_apply', ih (by omega)]
    exact if_pos (by omega)

theorem sound_create (order : Fin 16) (usesEventIdx vqNotifyHost : Bool) :
    Sound (virtqueueCreate order usesEventIdx vqNotifyHost : VirtqueueVring γ) [] := by
  have hpos := Nat.two_pow_pos order.val
  have havail : (virtqueueCreate order usesEventIdx vqNotifyHost : VirtqueueVring γ).descAvail.toNat =
    2 ^ order.val := by
    have hle := (virtqueueCreate order usesEventIdx vqNotifyHost : VirtqueueVring γ).num_le
    exact Nat.mod_eq_of_lt (Nat.lt_of_le_of_lt hle (by decide))
  refine ⟨?_, ?_, nofun, nofun, nofun⟩
  · rw [free, havail, ← range_map_iterate, map_nil, flatten_nil, append_nil]
    refine .of_eq ?_
    conv_rhs => rw [← map_id (List.range _)]
    apply map_congr_left
    intro i hi
    exact create_iterate order _ _ (mem_range.1 hi)
  · obtain ⟨n, hn⟩ := Nat.exists_eq_succ_of_ne_zero hpos.ne'
    rw [havail, hn, Function.iterate_succ_apply']
    have hlast := create_iterate (γ := γ) order usesEventIdx vqNotifyHost (by omega : n < 2 ^ order.val)
    rw [show (virtqueueCreate order usesEventIdx vqNotifyHost : VirtqueueVring γ).headFreeDesc = 0 from rfl, hlast]
    simp [VirtqueueVring.next, virtqueueCreate, hn]

def VirtqueueVring.newBuffer (vrq : VirtqueueVring γ) (cookie : γ) (sg : Nat → UkSglistSeg)
    (readBufs writeBufs : BitVec 16) : Buffer γ :=
  ⟨vrq.headFreeDesc, cookie, (List.range (readBufs.toNat + writeBufs.toNat)).map sg, readBufs.toNat⟩

def VirtqueueVring.enqueued (vrq : VirtqueueVring γ) (cookie : γ) (sg : Nat → UkSglistSeg)
    (readBufs writeBufs : BitVec 16) : VirtqueueVring γ :=
  let n := readBufs.toNat + writeBufs.toNat
  { vrq with
    vqInfo := update vrq.vqInfo vrq.headFreeDesc ⟨some cookie, BitVec.ofNat 16 n⟩
    desc := (enqueueLoop sg readBufs.toNat n vrq.desc vrq.headFreeDesc n).1
    headFreeDesc := vrq.next^[n] vrq.headFreeDesc
    descAvail := vrq.descAvail - BitVec.ofNat 16 n
    availRing := update vrq.availRing (vrq.slot vrq.availIdx) vrq.headFreeDesc
    availIdx := vrq.availIdx + 1 }

/-- An enqueue is refused for its length or for lack of descriptors, or takes a chain. -/
theorem enqueue_cases (vrq : VirtqueueVring γ) (cookie : γ) (sg : Nat → UkSglistSeg)
    (readBufs writeBufs : BitVec 16) :
    ((readBufs.toNat + writeBufs.toNat < 1 ∨ vrq.num < readBufs.toNat + writeBufs.toNat) ∧
      virtqueueBufferEnqueue vrq cookie sg readBufs writeBufs = (vrq, .error .EINVAL)) ∨
    (readBufs.toNat + writeBufs.toNat ≤ vrq.num ∧ vrq.descAvail.toNat < readBufs.toNat + writeBufs.toNat ∧
      virtqueueBufferEnqueue vrq cookie sg readBufs writeBufs = (vrq, .error .ENOSPC)) ∨
    (1 ≤ readBufs.toNat + writeBufs.toNat ∧ readBufs.toNat + writeBufs.toNat ≤ vrq.num ∧
      readBufs.toNat + writeBufs.toNat ≤ vrq.descAvail.toNat ∧
      virtqueueBufferEnqueue vrq cookie sg readBufs writeBufs = (vrq.enqueued cookie sg readBufs writeBufs,
        .ok (vrq.enqueued cookie sg readBufs writeBufs).descAvail.toNat)) := by
  unfold virtqueueBufferEnqueue
  by_cases h1 : readBufs.toNat + writeBufs.toNat < 1 ∨ vrq.num < readBufs.toNat + writeBufs.toNat
  · exact .inl ⟨h1, if_pos h1⟩
  · by_cases h2 : vrq.descAvail.toNat < readBufs.toNat + writeBufs.toNat
    · refine .inr (.inl ⟨by omega, h2, ?_⟩)
      simp only [if_neg h1, if_pos h2]
    · refine .inr (.inr ⟨by omega, by omega, by omega, ?_⟩)
      simp only [if_neg h1, if_neg h2]
      have hidx : (enqueueLoop sg readBufs.toNat (readBufs.toNat + writeBufs.toNat) vrq.desc vrq.headFreeDesc
          (readBufs.toNat + writeBufs.toNat)).2 = vrq.next^[readBufs.toNat + writeBufs.toNat] vrq.headFreeDesc :=
        enqueueLoop_idx _
      simp only [virtqueueBufferEnqueueSegments, hidx]
      rfl

section
variable {cookie : γ} {sg : Nat → UkSglistSeg} {readBufs writeBufs : BitVec 16}

@[simp] theorem length_newBuffer :
    (vrq.newBuffer cookie sg readBufs writeBufs).segs.length = readBufs.toNat + writeBufs.toNat := by
  simp [newBuffer]

private theorem enqueued_next (vrq : VirtqueueVring γ) :
    (vrq.enqueued cookie sg readBufs writeBufs).next = vrq.next := by
  funext j
  exact enqueueLoop_next _ j

private theorem enqueued_chain (vrq : VirtqueueVring γ) :
    (vrq.enqueued cookie sg readBufs writeBufs).chain = vrq.chain := by
  funext c
  rw [chain, enqueued_next]
  rfl

private theorem free_eq_chain (cookie : γ) (sg : Nat → UkSglistSeg)
    (hle : readBufs.toNat + writeBufs.toNat ≤ vrq.descAvail.toNat) :
    vrq.free = vrq.chain (vrq.newBuffer cookie sg readBufs writeBufs) ++
      (vrq.enqueued cookie sg readBufs writeBufs).free := by
  obtain ⟨m, hm⟩ := Nat.exists_eq_add_of_le hle
  have hsub : (vrq.descAvail - BitVec.ofNat 16 (readBufs.toNat + writeBufs.toNat)).toNat = m := by
    rw [BitVec.toNat_sub, BitVec.toNat_ofNat]
    omega
  have hrest : (vrq.enqueued cookie sg readBufs writeBufs).free =
      List.iterate vrq.next (vrq.next^[readBufs.toNat + writeBufs.toNat] vrq.headFreeDesc) m := by
    rw [free, enqueued_next]
    exact congrArg _ hsub
  rw [free, hm, iterate_add, hrest, chain, length_newBuffer]
  rfl

private theorem carries_new (hn : (vrq.chain (vrq.newBuffer cookie sg readBufs writeBufs)).Nodup) :
    (vrq.enqueued cookie sg readBufs writeBufs).Carries (vrq.newBuffer cookie sg readBufs writeBufs) := by
  intro i hi
  rw [length_newBuffer] at hi
  rw [chain, length_newBuffer] at hn
  have hfill : (vrq.enqueued cookie sg readBufs writeBufs).desc (vrq.next^[i] vrq.headFreeDesc) = _ :=
    enqueueLoop_of_lt hn hi
  have hlt : decide (i < readBufs.toNat + writeBufs.toNat - 1) = decide (i + 1 < readBufs.toNat + writeBufs.toNat) :=
    decide_eq_decide.2 (by omega)
  rw [enqueued_next, length_newBuffer]
  simp only [newBuffer, getElem_map, getElem_range]
  rw [hfill, hlt]
  rfl

/-- An enqueue keeps the descriptors of the buffers apart. -/
theorem Sound.enqueued (h : Sound vrq inflight) (cookie : γ) (sg : Nat → UkSglistSeg)
    (h1 : 1 ≤ readBufs.toNat + writeBufs.toNat) (hle : readBufs.toNat + writeBufs.toNat ≤ vrq.descAvail.toNat) :
    Sound (vrq.enqueued cookie sg readBufs writeBufs) (inflight ++ [vrq.newBuffer cookie sg readBufs writeBufs]) := by
  have hfree := free_eq_chain cookie sg hle
  have hsub (i : Nat) (hi : i ∈ vrq.chain (vrq.newBuffer cookie sg readBufs writeBufs)) : i ∈ vrq.free := by
    rw [hfree]
    exact mem_append_left _ hi
  have hhead : vrq.headFreeDesc ∈ vrq.free := by
    refine hsub _ (mem_iterate.2 ⟨0, ?_, rfl⟩)
    rwa [length_newBuffer]
  have hold (c : Buffer γ) (hc : c ∈ inflight) (i : Nat) (hi : i ∈ vrq.chain c) :
      (vrq.enqueued cookie sg readBufs writeBufs).desc i = vrq.desc i := by
    apply enqueueLoop_of_not_mem
    intro hmem
    apply h.not_mem_free hc hi
    apply hsub
    rwa [chain, length_newBuffer]
  refine ⟨?_, ?_, ?_, ?_, ?_⟩
  · refine .trans ?_ h.split
    simp only [enqueued_chain, hfree, map_append, map_cons, map_nil, flatten_append,
      flatten_cons, flatten_nil, append_nil]
    grind
  · have hends := h.ends
    have havail : vrq.descAvail.toNat = (vrq.enqueued cookie sg readBufs writeBufs).descAvail.toNat +
        (readBufs.toNat + writeBufs.toNat) := by
      have := congrArg List.length hfree
      rw [length_append, length_free, length_free, length_chain,
        length_newBuffer] at this
      omega
    rw [havail, Function.iterate_add_apply] at hends
    rwa [enqueued_next]
  · intro c hc
    rcases mem_append.1 hc with hc | hc
    · exact (chain_of_eqOn (hold c hc)).2 (h.carries c hc)
    · obtain rfl := mem_singleton.1 hc
      refine carries_new ?_
      have := h.nodup
      rw [hfree, append_assoc] at this
      exact (nodup_append.1 this).1
  · intro c hc
    rcases mem_append.1 hc with hc | hc
    · have hne : c.head ≠ vrq.headFreeDesc := by
        intro he
        exact h.not_mem_free hc (h.head_mem hc) (he ▸ hhead)
      exact (update_of_ne hne _ _).trans (h.info c hc)
    · obtain rfl := mem_singleton.1 hc
      rw [length_newBuffer]
      exact update_self ..
  · intro c hc
    rcases mem_append.1 hc with hc | hc
    · exact h.pos c hc
    · obtain rfl := mem_singleton.1 hc
      rw [← length_pos_iff, length_newBuffer]
      exact h1

end

def VirtqueueVring.dequeued (vrq : VirtqueueVring γ) (b : Buffer γ) : VirtqueueVring γ :=
  { vrq with
    lastUsedDescIdx := vrq.lastUsedDescIdx + 1
    descAvail := vrq.descAvail + BitVec.ofNat 16 b.segs.length
    vqInfo := update vrq.vqInfo b.head ⟨none, 0⟩
    desc := update vrq.desc (vrq.next^[b.segs.length - 1] b.head)
      { vrq.desc (vrq.next^[b.segs.length - 1] b.head) with next := vrq.headFreeDesc }
    headFreeDesc := b.head }

def VringUsedElem.head (elem : VringUsedElem) : Nat := (elem.id.setWidth 16).toNat

def VirtqueueVring.front (vrq : VirtqueueVring γ) : VringUsedElem := vrq.usedRing (vrq.slot vrq.lastUsedDescIdx)

theorem dequeue_empty (h : virtqueueHasdata vrq = false) :
    virtqueueBufferDequeue vrq = some (vrq, .error .ENOMSG) := by
  simp [virtqueueBufferDequeue, h]

/-- A dequeue returns the cookie of the buffer and its length. -/
theorem Sound.dequeue_eq (h : Sound vrq inflight) (hb : b ∈ inflight) (hd : virtqueueHasdata vrq = true)
    (hf : vrq.front.head = b.head) : virtqueueBufferDequeue vrq = some (vrq.dequeued b,
      .ok ⟨some b.cookie, vrq.front.len, vrq.num - (vrq.dequeued b).descAvail.toNat⟩) := by
  obtain ⟨n, hn⟩ := Nat.exists_eq_succ_of_ne_zero (mt length_eq_zero_iff.1 (h.pos b hb))
  have hnext : ∀ i ≤ n, (vrq.desc (vrq.next^[i] b.head)).hasNext = decide (i < n) := by
    intro i hi
    rw [(h.carries b hb).hasNext (by omega)]
    exact decide_eq_decide.2 (by omega)
  have hle := h.length_chain_le hb
  have hloop : detachLoop vrq.desc vrq.num b.head (BitVec.ofNat 16 b.segs.length - 1) =
      some (vrq.next^[b.segs.length - 1] b.head, 0) := by
    have hzero : BitVec.ofNat 16 (n + 1) - 1 - BitVec.ofNat 16 n = 0 := by
      rw [BitVec.ofNat_add, BitVec.sub_sub, BitVec.add_comm 1]
      exact BitVec.sub_self _
    rw [detachLoop_eq hnext (by omega), hn, hzero]
    rfl
  have hinfo := h.info b hb
  have hdetach : virtqueueDetachDesc { vrq with lastUsedDescIdx := vrq.lastUsedDescIdx + 1 } b.head = some
      { vrq.dequeued b with vqInfo := update vrq.vqInfo b.head ⟨some b.cookie, 0⟩ } := by
    simp only [virtqueueDetachDesc, hinfo]
    rw [show num { vrq with lastUsedDescIdx := vrq.lastUsedDescIdx + 1 } = vrq.num from rfl, hloop]
    rfl
  have hhead : ((vrq.usedRing (vrq.slot vrq.lastUsedDescIdx)).id.setWidth 16).toNat = b.head := hf
  simp only [virtqueueBufferDequeue, hd, hhead, hdetach, hinfo, update_idem, update_self]
  rfl

private theorem dequeued_next (vrq : VirtqueueVring γ) (b : Buffer γ) :
    (vrq.dequeued b).next = update vrq.next (vrq.next^[b.segs.length - 1] b.head) vrq.headFreeDesc := by
  funext j
  by_cases hj : j = vrq.next^[b.segs.length - 1] b.head
  · subst hj
    simp [VirtqueueVring.next, dequeued]
  · simp [VirtqueueVring.next, dequeued, update_of_ne hj]

private theorem dequeued_free (hpos : b.segs ≠ []) (hnd : (vrq.chain b).Nodup)
    (hdisj : ∀ i ∈ vrq.chain b, i ∉ vrq.free) (hle : vrq.descAvail.toNat + b.segs.length ≤ vrq.num) :
    (vrq.dequeued b).free = vrq.chain b ++ vrq.free ∧
    (vrq.dequeued b).next^[(vrq.dequeued b).descAvail.toNat] b.head =
        vrq.next^[vrq.descAvail.toNat] vrq.headFreeDesc := by
  obtain ⟨n, hn⟩ := Nat.exists_eq_succ_of_ne_zero (mt length_eq_zero_iff.1 hpos)
  have hlast : vrq.next^[b.segs.length - 1] b.head ∈ vrq.chain b := mem_iterate.2 ⟨_, by omega, rfl⟩
  have hchain : List.iterate (vrq.dequeued b).next b.head (n + 1) = vrq.chain b ∧
      (vrq.dequeued b).next^[n + 1] b.head = vrq.headFreeDesc := by
    rw [chain, hn] at hnd ⊢
    rw [dequeued_next, hn]
    exact Links.iterate_relink hnd _
  have hfree : ∀ i ∈ vrq.free, (vrq.dequeued b).next i = vrq.next i := by
    intro i hi
    rw [dequeued_next]
    apply update_of_ne
    rintro rfl
    exact hdisj _ hlast hi
  obtain ⟨hmore, hrest⟩ := Links.iterate_eq_of_eqOn hfree
  have havail : (vrq.dequeued b).descAvail.toNat = (n + 1) + vrq.descAvail.toNat := by
    have hnum := vrq.num_le
    rw [dequeued, BitVec.toNat_add, BitVec.toNat_ofNat]
    omega
  constructor
  · rw [free, havail, iterate_add]
    rw [show (vrq.dequeued b).headFreeDesc = b.head from rfl, hchain.1, hchain.2, hrest]
    rfl
  · rw [havail, Nat.add_comm, Function.iterate_add_apply, hchain.2, hmore _ le_rfl]

/-- A dequeue gives the descriptors of the buffer back. -/
theorem Sound.dequeued (h : Sound vrq inflight) {l1 l2 : List (Buffer γ)} (he : inflight = l1 ++ b :: l2) :
    Sound (vrq.dequeued b) (l1 ++ l2) := by
  have hb : b ∈ inflight := by simp [he]
  have hsub : ∀ c ∈ l1 ++ l2, c ∈ inflight := by
    intro c hc
    rw [he]
    grind
  have hsplit : (vrq.chain b ++ vrq.free ++ ((l1 ++ l2).map vrq.chain).flatten).Perm (List.range vrq.num) := by
    refine .trans ?_ h.split
    simp only [he, map_append, map_cons, flatten_append, flatten_cons]
    grind
  have hnd := hsplit.nodup_iff.2 nodup_range
  have hle : vrq.descAvail.toNat + b.segs.length ≤ vrq.num := by
    have hlen := hsplit.length_eq
    simp only [length_append, length_chain, length_free, length_range] at hlen
    omega
  obtain ⟨hfree, hends⟩ := dequeued_free (h.pos b hb) (nodup_append.1 (nodup_append.1 hnd).1).1
    (fun i hi => h.not_mem_free hb hi) hle
  have hapart (c : Buffer γ) (hc : c ∈ l1 ++ l2) (i : Nat) (hi : i ∈ vrq.chain c) (j : Nat) (hj : j ∈ vrq.chain b) :
      i ≠ j := by
    rintro rfl
    rw [append_assoc] at hnd
    exact disjoint_of_nodup_append hnd hj
      (mem_append_right _ (mem_flatten.2 ⟨_, mem_map_of_mem hc, hi⟩))
  -- Only the last descriptor of the chain is written.
  have hkept (c : Buffer γ) (hc : c ∈ l1 ++ l2) :
      (vrq.dequeued b).chain c = vrq.chain c ∧ (vrq.Carries c → (vrq.dequeued b).Carries c) := by
    apply chain_of_eqOn
    intro i hi
    have hpos := length_pos_iff.2 (h.pos b hb)
    exact update_of_ne (hapart c hc i hi _ (mem_iterate.2 ⟨_, by omega, rfl⟩)) _ _
  refine ⟨?_, hends.trans h.ends, fun c hc => (hkept c hc).2 (h.carries c (hsub c hc)), ?_,
    fun c hc => h.pos c (hsub c hc)⟩
  · have hmap : (l1 ++ l2).map (vrq.dequeued b).chain = (l1 ++ l2).map vrq.chain :=
      map_congr_left fun c hc => (hkept c hc).1
    rw [hfree, hmap]
    exact hsplit
  · intro c hc
    have hne : c.head ≠ b.head := hapart c hc _ (h.head_mem (hsub c hc)) _ (h.head_mem hb)
    exact (update_of_ne hne _ _).trans (h.info c (hsub c hc))

end Unikraft.Virtio
