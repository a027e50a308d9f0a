import Mathlib.Data.List.Perm.Basic
import Unikraft.Lib.Circular
import Unikraft.Lib.Runs
import Unikraft.Virtio.Ring

/-!
# The virtqueue between driver and device

The driver enqueues and dequeues buffers, the device takes heads from the available ring in order, and puts each into
the used ring once, in any order. The lists at the end of the state are history. The device writes into `avail_event`
the index at which it wants to be notified. `virtqueue_host_notify` compares it with the available index and with that
at the last notification: if these are a multiple of `2 ^ 16` buffers apart, nothing lies between them.
-/

namespace Unikraft.Virtio

open List RingIndex

variable {γ : Type}

/-- A virtqueue with its device. `lastAvail` is the index up to which the device has read the available ring, and
`held` are the heads it has not put into the used ring yet. -/
structure Queue (γ : Type) where
  vrq : VirtqueueVring γ
  lastAvail : BitVec 16
  held : List Nat
  enqueued : List (Buffer γ)
  inflight : List (Buffer γ)
  seen : List (Nat × Option (List Segment))
  completed : List Nat
  returned : List (Nat × Option γ)

def Queue.init (order : Fin 16) (usesEventIdx vqNotifyHost : Bool) : Queue γ :=
  ⟨virtqueueCreate order usesEventIdx vqNotifyHost, 0, [], [], [], [], [], []⟩

inductive Op (γ : Type)
  | enqueue (cookie : γ) (sg : Nat → UkSglistSeg) (readBufs writeBufs : BitVec 16)
  | dequeue
  | hostNotify
  | intrDisable
  | intrArm
  | fetch
  /-- The device puts one of the heads it holds into the used ring. -/
  | complete (i : Nat) (len : BitVec 32)
  | setAvailEvent (e : BitVec 16)
  | setUsedFlags (flags : BitVec 16)

namespace Queue

variable (x : Queue γ)

def enqueue (cookie : γ) (sg : Nat → UkSglistSeg) (readBufs writeBufs : BitVec 16) : Queue γ :=
  match virtqueueBufferEnqueue x.vrq cookie sg readBufs writeBufs with
  | (vrq, .error _) => { x with vrq := vrq }
  | (vrq, .ok _) =>
    { x with
      vrq := vrq
      enqueued := x.enqueued ++ [x.vrq.newBuffer cookie sg readBufs writeBufs]
      inflight := x.inflight ++ [x.vrq.newBuffer cookie sg readBufs writeBufs] }

def dequeue : Queue γ :=
  match virtqueueBufferDequeue x.vrq with
  | none => x
  | some (vrq, .error _) => { x with vrq := vrq }
  | some (vrq, .ok d) =>
    { x with
      vrq := vrq
      inflight := x.inflight.eraseP (·.head == x.vrq.front.head)
      returned := x.returned ++ [(x.vrq.front.head, d.cookie)] }

def fetch : Queue γ :=
  if x.lastAvail = x.vrq.availIdx then x
  else
    let head := x.vrq.availRing (x.vrq.slot x.lastAvail)
    { x with
      lastAvail := x.lastAvail + 1
      held := x.held ++ [head]
      seen := x.seen ++ [(head, x.vrq.view head)] }

def complete (i : Nat) (len : BitVec 32) : Queue γ :=
  match x.held[i]? with
  | none => x
  | some head =>
    { x with
      vrq := { x.vrq with
        usedRing := Function.update x.vrq.usedRing (x.vrq.slot x.vrq.usedIdx) ⟨BitVec.ofNat 32 head, len⟩
        usedIdx := x.vrq.usedIdx + 1 }
      held := x.held.eraseIdx i
      completed := x.completed ++ [head] }

def step : Op γ → Queue γ
  | .enqueue cookie sg readBufs writeBufs => x.enqueue cookie sg readBufs writeBufs
  | .dequeue => x.dequeue
  | .hostNotify => { x with vrq := (virtqueueHostNotify x.vrq).1 }
  | .intrDisable => { x with vrq := virtqueueIntrDisable x.vrq }
  | .intrArm => { x with vrq := virtqueueIntrArm x.vrq }
  | .fetch => x.fetch
  | .complete i len => x.complete i len
  | .setAvailEvent e => { x with vrq := { x.vrq with availEvent := e } }
  | .setUsedFlags flags => { x with vrq := { x.vrq with usedFlags := flags } }

def pending : List Nat := between x.vrq.availRing x.vrq.order.val x.lastAvail x.vrq.availIdx

def used : List Nat :=
  (between x.vrq.usedRing x.vrq.order.val x.vrq.lastUsedDescIdx x.vrq.usedIdx).map VringUsedElem.head

end Queue

def Buffer.receipt (b : Buffer γ) : Nat × Option γ := (b.head, some b.cookie)

/-- The descriptors, the cookies and what the device sees are as they should be. -/
structure Conserved (x : Queue γ) : Prop where
  /-- Each descriptor is in the free list or in one of the chains, once. -/
  split : (x.vrq.free ++ (x.inflight.map x.vrq.chain).flatten).Perm (List.range x.vrq.num)
  ends : x.vrq.next^[x.vrq.descAvail.toNat] x.vrq.headFreeDesc = VIRTQUEUE_MAX_SIZE
  /-- Following the flags one finds the chain, with the segments of the buffer. -/
  chains : ∀ b ∈ x.inflight, chainFrom x.vrq.desc x.vrq.num b.head = some (x.vrq.chain b)
  segments : ∀ b ∈ x.inflight, x.vrq.view b.head = some b.segments
  returns : (virtqueueBufferDequeue x.vrq).isSome = true
  /-- Each buffer that was enqueued is in flight or was returned, once, with its head and cookie. -/
  cookies : (x.returned ++ x.inflight.map Buffer.receipt).Perm (x.enqueued.map Buffer.receipt)
  order : x.seen.map Prod.fst ++ x.pending = x.enqueued.map Buffer.head
  seen : x.seen = (x.enqueued.take x.seen.length).map fun b => (b.head, some b.segments)

/-- Enqueueing fails with `-ENOSPC` exactly if there are not enough free descriptors, and then changes nothing. -/
def EnqueueOk (x : Queue γ) : Op γ → Prop
  | .enqueue cookie sg readBufs writeBufs =>
    ((virtqueueBufferEnqueue x.vrq cookie sg readBufs writeBufs).2 = .error .ENOSPC ↔
      x.vrq.free.length < readBufs.toNat + writeBufs.toNat) ∧
    ((virtqueueBufferEnqueue x.vrq cookie sg readBufs writeBufs).2 = .error .ENOSPC →
      x.step (.enqueue cookie sg readBufs writeBufs) = x)
  | _ => True

/-- At most as many descriptors are asked for as the ring has, and the lengths of the segments have 32 bits. -/
def BufferFits (x : Queue γ) : Op γ → Prop
  | .enqueue _ sg readBufs writeBufs => readBufs.toNat + writeBufs.toNat ≤ x.vrq.num ∧
    (readBufs.toNat + writeBufs.toNat ≤ x.vrq.free.length →
      ∀ i < readBufs.toNat + writeBufs.toNat, (sg i).ssLen.toNat < 2 ^ 32)
  | _ => True

/-- The segments of the buffer as the device sees them: with 32 bits of their lengths. -/
def Buffer.shown (b : Buffer γ) : List Segment :=
  b.segs.mapIdx fun i seg => ⟨seg.ssPaddr, seg.ssLen.toNat % 2 ^ 32, decide (b.readBufs ≤ i)⟩

/-- Where the buffers are, as lists of heads: waiting for the device, held by it, waiting for the driver. -/
structure Ledger (pending held used : List Nat) (inflight enqueued : List (Buffer γ))
    (seen : List (Nat × Option (List Segment))) (completed : List Nat) (returned : List (Nat × Option γ)) : Prop where
  heads : (pending ++ held ++ used).Perm (inflight.map Buffer.head)
  cookies : (returned ++ inflight.map Buffer.receipt).Perm (enqueued.map Buffer.receipt)
  known : ∀ b ∈ inflight, b ∈ enqueued
  order : seen.map Prod.fst ++ pending = enqueued.map Buffer.head
  unseen : ∀ b ∈ enqueued.drop seen.length, b ∈ inflight
  seen : seen = (enqueued.take seen.length).map fun b => (b.head, some b.shown)
  done : returned.map Prod.fst ++ used = completed

namespace Ledger

variable {pending held used completed : List Nat} {inflight enqueued : List (Buffer γ)}
  {seen : List (Nat × Option (List Segment))} {returned : List (Nat × Option γ)} {b : Buffer γ} {head : Nat}

section
variable (h : Ledger pending held used inflight enqueued seen completed returned)
include h

private theorem length_seen : seen.length + pending.length = enqueued.length := by
  have := congrArg List.length h.order
  simpa using this

private theorem pending_eq : pending = (enqueued.drop seen.length).map Buffer.head := by
  have := congrArg (List.drop seen.length) h.order
  rwa [drop_left' (length_map ..), ← map_drop] at this

private theorem push (b : Buffer γ) : Ledger (pending ++ [b.head]) held used (inflight ++ [b])
    (enqueued ++ [b]) seen completed returned := by
  have hlen : seen.length ≤ enqueued.length := by
    have := h.length_seen
    omega
  refine ⟨?_, ?_, ?_, ?_, ?_, ?_, h.done⟩
  · rw [map_append]
    refine .trans ?_ (h.heads.append_right _)
    grind
  · rw [map_append, map_append, ← append_assoc]
    exact h.cookies.append_right _
  · intro c hc
    rcases mem_append.1 hc with hc | hc
    · exact mem_append_left _ (h.known c hc)
    · exact mem_append_right _ hc
  · rw [← append_assoc, h.order, map_append, map_singleton]
  · intro c hc
    rw [drop_append_of_le_length hlen] at hc
    rcases mem_append.1 hc with hc | hc
    · exact mem_append_left _ (h.unseen c hc)
    · exact mem_append_right _ hc
  · rw [take_append_of_le_length hlen]
    exact h.seen

end

private theorem fetch (h : Ledger (head :: pending) held used inflight enqueued seen completed returned)
    {view : Option (List Segment)} (hv : ∀ b ∈ inflight, b.head = head → view = some b.shown) :
    Ledger pending (held ++ [head]) used inflight enqueued (seen ++ [(head, view)]) completed returned := by
  have hp := h.pending_eq
  obtain ⟨b, rest, hd⟩ : ∃ b rest, enqueued.drop seen.length = b :: rest := by
    cases hd : enqueued.drop seen.length with
    | nil => simp [hd] at hp
    | cons b rest => exact ⟨b, rest, rfl⟩
  have hlt : seen.length < enqueued.length := by
    have := h.length_seen
    simp only [length_cons] at this
    omega
  have hrest : enqueued.drop (seen.length + 1) = rest := by
    rw [← drop_drop, hd]
    rfl
  rw [hd, map_cons] at hp
  obtain ⟨rfl, hp⟩ := List.cons.inj hp
  have hb : b ∈ inflight := h.unseen b (by rw [hd]; exact mem_cons_self ..)
  refine ⟨?_, h.cookies, h.known, ?_, ?_, ?_, h.done⟩
  · refine .trans ?_ h.heads
    grind
  · rw [← h.order, map_append, append_assoc]
    rfl
  · intro c hc
    rw [length_append, length_singleton, hrest] at hc
    apply h.unseen
    rw [hd]
    exact mem_cons_of_mem _ hc
  · have hget : enqueued[seen.length] = b := by
      have := drop_eq_getElem_cons hlt
      rw [hd] at this
      exact (List.cons.inj this).1.symm
    rw [length_append, length_singleton, take_succ_eq_append_getElem hlt, map_append, ← h.seen,
      hget, hv b hb rfl]
    rfl

private theorem complete (h : Ledger pending held used inflight enqueued seen completed returned) {i : Nat}
    (hi : held[i]? = some head) :
    Ledger pending (held.eraseIdx i) (used ++ [head]) inflight enqueued seen (completed ++ [head]) returned := by
  obtain ⟨hlt, hget⟩ := List.getElem?_eq_some_iff.1 hi
  have hperm : (head :: held.eraseIdx i).Perm held := by
    rw [← hget]
    exact getElem_cons_eraseIdx_perm hlt
  refine ⟨?_, h.cookies, h.known, h.order, h.unseen, h.seen, ?_⟩
  · refine .trans ?_ h.heads
    grind
  · rw [← append_assoc, h.done]

private theorem pop (h : Ledger pending held (b.head :: used) inflight enqueued seen completed returned)
    (hnd : (inflight.map Buffer.head).Nodup) {l1 l2 : List (Buffer γ)} (he : inflight = l1 ++ b :: l2) :
    Ledger pending held used (l1 ++ l2) enqueued seen completed (returned ++ [b.receipt]) := by
  subst he
  refine ⟨?_, ?_, ?_, h.order, ?_, h.seen, ?_⟩
  · have hp := h.heads
    simp only [map_append, map_cons] at hp ⊢
    have hcons : (b.head :: (pending ++ held ++ used)).Perm
      (b.head :: (l1.map Buffer.head ++ l2.map Buffer.head)) := by
      refine .trans ?_ (hp.trans ?_)
      · grind
      · grind
    exact hcons.cons_inv
  · refine .trans ?_ h.cookies
    rw [map_append, map_append, map_cons, append_assoc, singleton_append]
    exact perm_middle.symm.append_left _
  · intro c hc
    apply h.known
    grind
  · intro c hc
    have hmem := h.unseen c hc
    -- The buffer that is dequeued is not waiting for the device.
    have hne : c ≠ b := by
      rintro rfl
      have hpend : c.head ∈ pending := by
        rw [h.pending_eq]
        exact mem_map_of_mem hc
      have := h.heads.nodup_iff.2 hnd
      rw [append_assoc] at this
      exact disjoint_of_nodup_append this hpend (mem_append_right _ (mem_cons_self ..))
    grind
  · rw [← h.done, map_append, append_assoc]
    rfl

end Ledger

structure Inv (x : Queue γ) : Prop where
  sound : Sound x.vrq x.inflight
  ledger : Ledger x.pending x.held x.used x.inflight x.enqueued x.seen x.completed x.returned

section
variable {x : Queue γ}

theorem inv_init (order : Fin 16) (usesEventIdx vqNotifyHost : Bool) :
    Inv (Queue.init order usesEventIdx vqNotifyHost : Queue γ) := by
  have hpending : (Queue.init order usesEventIdx vqNotifyHost : Queue γ).pending = [] := between_self
  have hused : (Queue.init order usesEventIdx vqNotifyHost : Queue γ).used = [] := congrArg _ between_self
  refine ⟨sound_create order usesEventIdx vqNotifyHost, ?_⟩
  rw [hpending, hused]
  exact ⟨.refl _, .refl _, nofun, rfl, nofun, rfl, rfl⟩

namespace Inv

variable (h : Inv x)
include h

/-- Every buffer in flight is pending, held by the device, or used. -/
theorem length_heads : x.pending.length + x.held.length + x.used.length = x.inflight.length := by
  have := h.ledger.heads.length_eq
  simpa [Nat.add_assoc] using this

private theorem view_eq {b : Buffer γ} (hb : b ∈ x.inflight) : x.vrq.view b.head = some b.shown := by
  rw [VirtqueueVring.view, h.sound.chainFrom_eq hb]
  exact congrArg some (h.sound.carries b hb).segments

private theorem of_signals (availFlags usedEvent usedFlags availEvent lastNotifiedIdx : BitVec 16) :
    Inv { x with vrq := { x.vrq with
      availFlags := availFlags, usedEvent := usedEvent, usedFlags := usedFlags, availEvent := availEvent,
      lastNotifiedIdx := lastNotifiedIdx } } :=
  ⟨⟨h.sound.split, h.sound.ends, h.sound.carries, h.sound.info, h.sound.pos⟩, h.ledger⟩

private theorem enqueue (cookie : γ) (sg : Nat → UkSglistSeg) (readBufs writeBufs : BitVec 16) :
    Inv (x.enqueue cookie sg readBufs writeBufs) := by
  unfold Queue.enqueue
  obtain ⟨-, heq⟩ | ⟨-, -, heq⟩ | ⟨h1, -, hle, heq⟩ := enqueue_cases x.vrq cookie sg readBufs writeBufs
  · rw [heq]
    exact h
  · rw [heq]
    exact h
  · have hlen := h.length_heads
    have hroom := h.sound.length_inflight
    rw [Queue.pending, length_between] at hlen
    have hpend : Queue.pending { x with vrq := x.vrq.enqueued cookie sg readBufs writeBufs } =
        x.pending ++ [x.vrq.headFreeDesc] := by
      have hlt : (x.vrq.availIdx - x.lastAvail).toNat < x.vrq.num := by omega
      simp only [Queue.pending, VirtqueueVring.enqueued, VirtqueueVring.slot_eq]
      exact between_push _ x.vrq.order.isLt hlt _
    rw [heq]
    refine ⟨h.sound.enqueued cookie sg h1 hle, ?_⟩
    have hpush := h.ledger.push (x.vrq.newBuffer cookie sg readBufs writeBufs)
    rw [show (x.vrq.newBuffer cookie sg readBufs writeBufs).head = x.vrq.headFreeDesc from rfl, ← hpend] at hpush
    exact hpush

private theorem fetch : Inv x.fetch := by
  unfold Queue.fetch
  by_cases he : x.lastAvail = x.vrq.availIdx
  · rwa [if_pos he]
  · rw [if_neg he]
    have hpop : x.pending = x.vrq.availRing (x.vrq.slot x.lastAvail) ::
        Queue.pending { x with lastAvail := x.lastAvail + 1 } := by
      rw [VirtqueueVring.slot_eq]
      exact between_pop _ x.vrq.order.isLt.le (Ne.symm he)
    have hledger := h.ledger
    rw [hpop] at hledger
    refine ⟨h.sound, hledger.fetch ?_⟩
    intro b hb hhead
    rw [← hhead]
    exact h.view_eq hb

private theorem complete (i : Nat) (len : BitVec 32) : Inv (x.complete i len) := by
  unfold Queue.complete
  cases hi : x.held[i]? with
  | none => exact h
  | some head =>
    obtain ⟨b, hb, rfl⟩ : ∃ b ∈ x.inflight, b.head = head := by
      have hmem : head ∈ x.pending ++ x.held ++ x.used := by
        grind
      exact mem_map.1 (h.ledger.heads.subset hmem)
    have hlt := h.sound.head_lt hb
    have hnum := x.vrq.num_le
    have hlen := h.length_heads
    have hheld := (List.getElem?_eq_some_iff.1 hi).1
    have hroom := h.sound.length_inflight
    rw [Queue.used, length_map, length_between] at hlen
    have hused : (between (Function.update x.vrq.usedRing (x.vrq.slot x.vrq.usedIdx) ⟨BitVec.ofNat 32 b.head, len⟩)
        x.vrq.order.val x.vrq.lastUsedDescIdx (x.vrq.usedIdx + 1)).map VringUsedElem.head = x.used ++ [b.head] := by
      have hslot : (x.vrq.usedIdx - x.vrq.lastUsedDescIdx).toNat < x.vrq.num := by omega
      have hhead : VringUsedElem.head ⟨BitVec.ofNat 32 b.head, len⟩ = b.head := by
        simp only [VringUsedElem.head, BitVec.toNat_setWidth, BitVec.toNat_ofNat]
        omega
      have hpush := congrArg (List.map VringUsedElem.head)
        (between_push x.vrq.usedRing x.vrq.order.isLt hslot ⟨BitVec.ofNat 32 b.head, len⟩)
      rwa [map_append, map_singleton, hhead, ← VirtqueueVring.slot_eq] at hpush
    refine ⟨⟨h.sound.split, h.sound.ends, h.sound.carries, h.sound.info, h.sound.pos⟩, ?_⟩
    have hledger := h.ledger.complete hi
    rw [← hused] at hledger
    exact hledger

/-- The driver takes the buffer of the oldest used entry out. -/
theorem dequeue_eq (hd : virtqueueHasdata x.vrq = true) : ∃ b l1 l2, x.inflight = l1 ++ b :: l2 ∧
    x.used = b.head :: Queue.used { x with vrq := x.vrq.dequeued b } ∧
    virtqueueBufferDequeue x.vrq = some (x.vrq.dequeued b,
      .ok ⟨some b.cookie, x.vrq.front.len, x.vrq.num - (x.vrq.dequeued b).descAvail.toNat⟩) ∧
    x.dequeue = { x with
      vrq := x.vrq.dequeued b, inflight := l1 ++ l2, returned := x.returned ++ [b.receipt] } := by
  have hne : x.vrq.usedIdx ≠ x.vrq.lastUsedDescIdx := by
    rintro he
    simp [virtqueueHasdata, he] at hd
  have hpop (c : Buffer γ) : x.used = x.vrq.front.head :: Queue.used { x with vrq := x.vrq.dequeued c } := by
    rw [Queue.used, between_pop _ x.vrq.order.isLt.le hne, VirtqueueVring.front, VirtqueueVring.slot_eq]
    rfl
  obtain ⟨c, hc, hhead⟩ : ∃ c ∈ x.inflight, c.head = x.vrq.front.head := by
    apply mem_map.1
    apply h.ledger.heads.subset
    have hmem : x.vrq.front.head ∈ x.used := by
      rw [Queue.used, between_pop _ x.vrq.order.isLt.le hne, VirtqueueVring.front, VirtqueueVring.slot_eq]
      exact mem_cons_self ..
    exact mem_append_right _ hmem
  obtain ⟨b, l1, l2, -, hb, hsplit, herase⟩ :=
    exists_of_eraseP (p := (·.head == x.vrq.front.head)) hc (beq_iff_eq.2 hhead)
  have hfront : x.vrq.front.head = b.head := (beq_iff_eq.1 hb).symm
  have heq := h.sound.dequeue_eq (b := b) (by simp [hsplit]) hd hfront
  refine ⟨b, l1, l2, hsplit, hfront ▸ hpop b, heq, ?_⟩
  simp only [Queue.dequeue, heq, herase]
  rw [hfront]
  rfl

private theorem dequeue : Inv x.dequeue := by
  cases hd : virtqueueHasdata x.vrq with
  | false =>
    simp only [Queue.dequeue, dequeue_empty hd]
    exact h
  | true =>
    obtain ⟨b, l1, l2, hsplit, hused, -, heq⟩ := h.dequeue_eq hd
    have hledger := h.ledger
    rw [hused] at hledger
    rw [heq]
    exact ⟨h.sound.dequeued hsplit, hledger.pop h.sound.heads_nodup hsplit⟩

/-- Every operation keeps the invariant. -/
theorem step (op : Op γ) : Inv (x.step op) := by
  cases op with
  | enqueue cookie sg readBufs writeBufs => exact h.enqueue cookie sg readBufs writeBufs
  | dequeue => exact h.dequeue
  | fetch => exact h.fetch
  | complete i len => exact h.complete i len
  | hostNotify =>
    simp only [Queue.step, virtqueueHostNotify]
    split
    · exact h.of_signals ..
    · exact h
  | intrDisable =>
    simp only [Queue.step, virtqueueIntrDisable]
    split <;> exact h.of_signals ..
  | intrArm =>
    simp only [Queue.step, virtqueueIntrArm]
    split <;> exact h.of_signals ..
  | setAvailEvent e | setUsedFlags e => exact h.of_signals ..

end Inv

def Buffer.Fits (b : Buffer γ) : Prop := ∀ seg ∈ b.segs, seg.ssLen.toNat < 2 ^ 32

theorem shown_eq_segments_iff (b : Buffer γ) : b.shown = b.segments ↔ b.Fits := by
  constructor
  · intro h seg hseg
    obtain ⟨i, hi, rfl⟩ := getElem_of_mem hseg
    have hget := congrArg (·[i]?) h
    simp only [Buffer.shown, Buffer.segments, List.getElem?_mapIdx, List.getElem?_eq_getElem hi, Option.map_some,
      Option.some.injEq, Segment.mk.injEq, true_and, and_true] at hget
    rw [← hget]
    exact Nat.mod_lt _ (by decide)
  · intro h
    apply ext_getElem
    · simp [Buffer.shown, Buffer.segments]
    · intro i h1 h2
      have hi : i < b.segs.length := by simpa [Buffer.segments] using h2
      simp only [Buffer.shown, Buffer.segments, getElem_mapIdx]
      rw [Nat.mod_eq_of_lt (h _ (getElem_mem hi))]

private theorem Inv.conserved (h : Inv x) (hfit : ∀ b ∈ x.enqueued, b.Fits) : Conserved x := by
  refine ⟨h.sound.split, h.sound.ends, fun b hb => h.sound.chainFrom_eq hb, ?_, ?_, h.ledger.cookies, h.ledger.order,
      ?_⟩
  · intro b hb
    rw [h.view_eq hb, (shown_eq_segments_iff b).2 (hfit b (h.ledger.known b hb))]
  · cases hd : virtqueueHasdata x.vrq with
    | false => rw [dequeue_empty hd]; rfl
    | true =>
      obtain ⟨b, l1, l2, -, -, heq, -⟩ := h.dequeue_eq hd
      rw [heq]
      rfl
  · conv_lhs => rw [h.ledger.seen]
    apply map_congr_left
    intro b hb
    rw [(shown_eq_segments_iff b).2 (hfit b (mem_of_mem_take hb))]

section
variable {cookie : γ} {sg : Nat → UkSglistSeg} {readBufs writeBufs : BitVec 16}

theorem fits_newBuffer_iff (vrq : VirtqueueVring γ) : (vrq.newBuffer cookie sg readBufs writeBufs).Fits ↔
    ∀ i < readBufs.toNat + writeBufs.toNat, (sg i).ssLen.toNat < 2 ^ 32 := by
  simp [Buffer.Fits, VirtqueueVring.newBuffer]

/-- The error of an enqueue is right exactly if not more descriptors are asked for than the ring has. -/
theorem enqueueOk_iff (h : Inv x) :
    EnqueueOk x (.enqueue cookie sg readBufs writeBufs) ↔ readBufs.toNat + writeBufs.toNat ≤ x.vrq.num := by
  have hle := h.sound.length_inflight
  simp only [EnqueueOk, Queue.step, Queue.enqueue, VirtqueueVring.length_free]
  obtain ⟨hn, heq⟩ | ⟨hn, hlt, heq⟩ | ⟨h1, hn, hfree, heq⟩ :=
    enqueue_cases x.vrq cookie sg readBufs writeBufs
  · simp only [heq, Except.error.injEq, reduceCtorEq, false_iff, false_imp_iff, and_true]
    omega
  · simp only [heq, hlt, hn, implies_true, and_self]
  · simp only [heq, reduceCtorEq, false_iff, false_imp_iff, and_true]
    omega

private theorem enqueue_accepted (h1 : 1 ≤ readBufs.toNat + writeBufs.toNat)
    (hn : readBufs.toNat + writeBufs.toNat ≤ x.vrq.num)
    (hfree : readBufs.toNat + writeBufs.toNat ≤ x.vrq.free.length) :
    (x.step (.enqueue cookie sg readBufs writeBufs)).inflight =
      x.inflight ++ [x.vrq.newBuffer cookie sg readBufs writeBufs] := by
  rw [VirtqueueVring.length_free] at hfree
  obtain ⟨hn', -⟩ | ⟨-, hlt, -⟩ | ⟨-, -, -, heq⟩ := enqueue_cases x.vrq cookie sg readBufs writeBufs
  · omega
  · omega
  · simp only [Queue.step, Queue.enqueue, heq]

end

private theorem fits_step (hfit : ∀ b ∈ x.enqueued, b.Fits) {op : Op γ} (hop : BufferFits x op) :
    ∀ b ∈ (x.step op).enqueued, b.Fits := by
  cases op with
  | enqueue cookie sg readBufs writeBufs =>
    simp only [Queue.step, Queue.enqueue]
    obtain ⟨-, heq⟩ | ⟨-, -, heq⟩ | ⟨-, -, hfree, heq⟩ := enqueue_cases x.vrq cookie sg readBufs writeBufs
    · rwa [heq]
    · rwa [heq]
    · rw [heq]
      intro b hb
      rcases mem_append.1 hb with hb | hb
      · exact hfit b hb
      · obtain rfl := mem_singleton.1 hb
        exact (fits_newBuffer_iff x.vrq).2 (hop.2 (by rwa [VirtqueueVring.length_free]))
  | dequeue =>
    simp only [Queue.step, Queue.dequeue]
    split <;> exact hfit
  | fetch =>
    simp only [Queue.step, Queue.fetch]
    split <;> exact hfit
  | complete i len =>
    simp only [Queue.step, Queue.complete]
    split <;> exact hfit
  | hostNotify | intrDisable | intrArm | setAvailEvent | setUsedFlags => exact hfit

/-- Everything is conserved, and enqueueing fails as it should, exactly if no call asks for more descriptors than the
ring has and no segment is longer than a descriptor can say. -/
theorem descriptors_conserved_iff (order : Fin 16) (usesEventIdx vqNotifyHost : Bool) (ops : List (Op γ)) :
    (Runs.Always Queue.step Conserved (Queue.init order usesEventIdx vqNotifyHost) ops ∧
      Runs.Meets Queue.step EnqueueOk (Queue.init order usesEventIdx vqNotifyHost) ops) ↔
    Runs.Meets Queue.step BufferFits (Queue.init order usesEventIdx vqNotifyHost) ops := by
  have hinit := inv_init (γ := γ) order usesEventIdx vqNotifyHost
  constructor
  · rintro ⟨ha, hm⟩
    refine (hm.with_invariant (fun _ op h _ => h.step op) hinit).of_always ?_ ha
    rintro x op - ⟨hok, hinv⟩ hnext
    cases op with
    | enqueue cookie sg readBufs writeBufs =>
      have hn := (enqueueOk_iff hinv).1 hok
      refine ⟨hn, fun hfree => ?_⟩
      by_cases h₁ : 1 ≤ readBufs.toNat + writeBufs.toNat
      swap
      · omega
      -- The device sees the buffer as it is, so its lengths have 32 bits.
      have hmem : x.vrq.newBuffer cookie sg readBufs writeBufs ∈
          (x.step (.enqueue cookie sg readBufs writeBufs)).inflight := by
        rw [enqueue_accepted h₁ hn hfree]
        exact mem_append_right _ (mem_singleton_self _)
      have hview := (hinv.step _).view_eq hmem
      rw [hnext.segments _ hmem] at hview
      exact (fits_newBuffer_iff x.vrq).1 ((shown_eq_segments_iff _).1 (Option.some.inj hview).symm)
    | dequeue | hostNotify | intrDisable | intrArm | fetch | complete | setAvailEvent | setUsedFlags => trivial
  · intro hm
    constructor
    · exact hm.always (I := fun x => Inv x ∧ ∀ b ∈ x.enqueued, b.Fits)
        (fun _ op h hop => ⟨h.1.step op, fits_step h.2 hop⟩) (fun _ h => h.1.conserved h.2) ⟨hinit, nofun⟩
    · refine (hm.with_invariant (fun _ op h _ => h.step op) hinit).imp ?_
      rintro x op ⟨hop, hinv⟩
      cases op with
      | enqueue => exact (enqueueOk_iff hinv).2 hop.1
      | dequeue | hostNotify | intrDisable | intrArm | fetch | complete | setAvailEvent | setUsedFlags => trivial

/-- A segment of 4 GiB is shown to the device as an empty one. -/
theorem not_descriptors_conserved : ¬ (Runs.Always Queue.step Conserved (Queue.init 0 false true)
        [Op.enqueue (7 : Nat) (fun _ => ⟨0x1000, 0x100000000⟩) 0 1] ∧
      Runs.Meets Queue.step EnqueueOk (Queue.init 0 false true)
        [Op.enqueue (7 : Nat) (fun _ => ⟨0x1000, 0x100000000⟩) 0 1]) := by
  rintro ⟨ha, -⟩
  have hview := ha.last.segments ⟨0, 7, [⟨0x1000, 0x100000000⟩], 0⟩ (mem_singleton_self _)
  revert hview
  decide

end

open Queue Runs

variable {γ : Type}

structure Notices (γ : Type) where
  q : Queue γ
  prev : BitVec 16
  since : Nat

def Notices.init (order : Fin 16) : Notices γ := ⟨Queue.init order true true, 0, 0⟩

variable (x : Notices γ)

def noticeStep (op : Op γ) : Notices γ :=
  let q := x.q.step op
  match op with
  | .hostNotify => ⟨q, x.q.vrq.availIdx, if (virtqueueHostNotify x.q.vrq).2 then 0 else x.since⟩
  | .enqueue .. => ⟨q, x.prev, if q.vrq.availIdx = x.q.vrq.availIdx then x.since else x.since + 1⟩
  | _ => { x with q := q }

/-- Each buffer that is enqueued is followed by a call of `virtqueue_host_notify` before the next. -/
def Paced : Op γ → Prop
  | .enqueue .. => x.q.vrq.availIdx = x.prev
  | _ => True

def Passes (old new e : BitVec 16) : Prop := (e - old).toNat < (new - old).toNat

/-- The device is notified if the available index has passed `avail_event` since the previous call. -/
def Notifies : Op γ → Prop
  | .hostNotify => Passes x.prev x.q.vrq.availIdx x.q.vrq.availEvent → (virtqueueHostNotify x.q.vrq).2 = true
  | _ => True

/-- After a buffer whose index the device waits for, the number of buffers since the last notification is not a
multiple of `2 ^ 16`. -/
def NotifySafe : Op γ → Prop
  | .hostNotify => x.q.vrq.availIdx ≠ x.prev → x.q.vrq.availEvent = x.prev → ¬ 65536 ∣ x.since
  | _ => True

/-- What the words for notifications are after a step of the queue. -/
structure SameNotices (vrq vrq' : VirtqueueVring γ) : Prop where
  usesEventIdx : vrq'.usesEventIdx = vrq.usesEventIdx
  vqNotifyHost : vrq'.vqNotifyHost = vrq.vqNotifyHost
  availIdx : vrq'.availIdx = vrq.availIdx
  lastNotifiedIdx : vrq'.lastNotifiedIdx = vrq.lastNotifiedIdx

structure NoticeInv (x : Notices γ) : Prop where
  inv : Inv x.q
  usesEventIdx : x.q.vrq.usesEventIdx = true
  vqNotifyHost : x.q.vrq.vqNotifyHost = true
  moved : x.q.vrq.availIdx = x.prev ∨ x.q.vrq.availIdx = x.prev + 1
  since : x.q.vrq.lastNotifiedIdx = x.q.vrq.availIdx - BitVec.ofNat 16 x.since

section
variable {x : Notices γ}

/-- Only enqueueing and `virtqueue_host_notify` have to do with notifications. -/
private theorem step_sameNotices {q : Queue γ} (h : Inv q) {op : Op γ}
    (hop : ∀ cookie sg readBufs writeBufs, op ≠ .enqueue cookie sg readBufs writeBufs) (hn : op ≠ .hostNotify) :
    SameNotices q.vrq (q.step op).vrq := by
  cases op with
  | enqueue cookie sg readBufs writeBufs => exact absurd rfl (hop cookie sg readBufs writeBufs)
  | hostNotify => exact absurd rfl hn
  | dequeue =>
    cases hd : virtqueueHasdata q.vrq with
    | false =>
      simp only [step, dequeue, dequeue_empty hd]
      exact ⟨rfl, rfl, rfl, rfl⟩
    | true =>
      obtain ⟨b, l1, l2, -, -, -, heq⟩ := h.dequeue_eq hd
      simp only [step, heq]
      exact ⟨rfl, rfl, rfl, rfl⟩
  | fetch | complete | intrDisable | intrArm =>
    simp only [step, fetch, complete, virtqueueIntrDisable, virtqueueIntrArm]
    split <;> exact ⟨rfl, rfl, rfl, rfl⟩
  | setAvailEvent | setUsedFlags => exact ⟨rfl, rfl, rfl, rfl⟩

theorem noticeInv_init (order : Fin 16) : NoticeInv (Notices.init order : Notices γ) :=
  ⟨inv_init order true true, rfl, rfl, .inl rfl, show (0 : BitVec 16) = 0 - BitVec.ofNat 16 0 by decide⟩

private theorem noticeInv_hostNotify (h : NoticeInv x) : NoticeInv (noticeStep x .hostNotify) := by
  refine ⟨h.inv.step .hostNotify, ?_, ?_, ?_, ?_⟩
  all_goals
    simp only [noticeStep, step, virtqueueHostNotify]
    split
  · exact h.usesEventIdx
  · exact h.usesEventIdx
  · exact h.vqNotifyHost
  · exact h.vqNotifyHost
  · exact .inl rfl
  · exact .inl rfl
  · simp
  · simpa using h.since

private theorem noticeInv_enqueue (h : NoticeInv x) {cookie : γ} {sg : Nat → UkSglistSeg}
    {readBufs writeBufs : BitVec 16}
    (hp : x.q.vrq.availIdx = x.prev) : NoticeInv (noticeStep x (.enqueue cookie sg readBufs writeBufs)) := by
  have hinv := h.inv.step (.enqueue cookie sg readBufs writeBufs)
  obtain ⟨-, heq⟩ | ⟨-, -, heq⟩ | ⟨-, -, -, heq⟩ := enqueue_cases x.q.vrq cookie sg readBufs writeBufs
  · have hsame : noticeStep x (.enqueue cookie sg readBufs writeBufs) = x := by
      simp [noticeStep, step, enqueue, heq]
    rwa [hsame]
  · have hsame : noticeStep x (.enqueue cookie sg readBufs writeBufs) = x := by
      simp [noticeStep, step, enqueue, heq]
    rwa [hsame]
  · have hvrq : (x.q.step (.enqueue cookie sg readBufs writeBufs)).vrq =
      x.q.vrq.enqueued cookie sg readBufs writeBufs := by
      simp only [step, enqueue, heq]
    have hne : (x.q.vrq.enqueued cookie sg readBufs writeBufs).availIdx ≠ x.q.vrq.availIdx := by
      intro he
      have hone : x.q.vrq.availIdx + 1 = x.q.vrq.availIdx := he
      simp at hone
    refine ⟨hinv, ?_, ?_, ?_, ?_⟩
    · rw [noticeStep, hvrq]
      exact h.usesEventIdx
    · rw [noticeStep, hvrq]
      exact h.vqNotifyHost
    · rw [noticeStep, hvrq, ← hp]
      exact .inr rfl
    · simp only [noticeStep, hvrq, if_neg hne]
      rw [show (x.q.vrq.enqueued cookie sg readBufs writeBufs).lastNotifiedIdx = x.q.vrq.lastNotifiedIdx from rfl,
        show (x.q.vrq.enqueued cookie sg readBufs writeBufs).availIdx = x.q.vrq.availIdx + 1 from rfl, h.since,
        BitVec.ofNat_add]
      bv_omega

private theorem noticeInv_step (h : NoticeInv x) (op : Op γ) (hop : Paced x op) : NoticeInv (noticeStep x op) := by
  have hrest (hn : op ≠ .hostNotify) (he : ∀ cookie sg readBufs writeBufs, op ≠ .enqueue cookie sg readBufs writeBufs)
      (heq : noticeStep x op = { x with q := x.q.step op }) : NoticeInv (noticeStep x op) := by
    have hs := step_sameNotices h.inv he hn
    rw [heq]
    exact ⟨h.inv.step op, hs.usesEventIdx.trans h.usesEventIdx, hs.vqNotifyHost.trans h.vqNotifyHost,
      by simpa only [hs.availIdx] using h.moved, by simpa only [hs.availIdx, hs.lastNotifiedIdx] using h.since⟩
  cases op with
  | hostNotify => exact noticeInv_hostNotify h
  | enqueue => exact noticeInv_enqueue h hop
  | dequeue | intrDisable | intrArm | fetch | complete | setAvailEvent | setUsedFlags => exact hrest nofun nofun rfl

private theorem hostNotify_snd (vrq : VirtqueueVring γ) :
    (virtqueueHostNotify vrq).2 = (vrq.vqNotifyHost && virtqueueNotifyEnabled vrq) := by
  unfold virtqueueHostNotify
  cases vrq.vqNotifyHost && virtqueueNotifyEnabled vrq <;> rfl

theorem passes_iff (h : NoticeInv x) (e : BitVec 16) : Passes x.prev x.q.vrq.availIdx e ↔
    x.q.vrq.availIdx ≠ x.prev ∧ e = x.prev := by
  unfold Passes
  rcases h.moved with hm | hm
  · simp [hm]
  · have hone : (x.prev + 1 - x.prev).toNat = 1 := by
      rw [BitVec.add_comm, BitVec.add_sub_cancel]
      rfl
    rw [hm, hone]
    constructor
    · bv_omega
    · rintro ⟨-, rfl⟩
      simp

/-- The device is notified of the buffer it waits for exactly if `NotifySafe` holds: the number of buffers is counted
modulo `2 ^ 16`. -/
theorem notifies_iff (h : NoticeInv x) (op : Op γ) : Notifies x op ↔ NotifySafe x op := by
  cases op with
  | hostNotify =>
    simp only [Notifies, NotifySafe, passes_iff h, and_imp]
    refine forall_congr' fun hne => forall_congr' fun he => ?_
    have hm := h.moved.resolve_left hne
    -- The index of the buffer is the one before the available index.
    have hzero : x.q.vrq.availIdx - x.q.vrq.availEvent - 1 = 0 := by
      bv_omega
    have hsince : x.q.vrq.availIdx - x.q.vrq.lastNotifiedIdx = BitVec.ofNat 16 x.since := by
      rw [h.since]
      bv_omega
    have hkick : (virtqueueHostNotify x.q.vrq).2 = decide ((0 : BitVec 16) < BitVec.ofNat 16 x.since) := by
      rw [← hsince, ← hzero, hostNotify_snd, h.vqNotifyHost, virtqueueNotifyEnabled, h.usesEventIdx]
      rfl
    rw [hkick, decide_eq_true_iff, BitVec.lt_def, BitVec.toNat_ofNat, Nat.dvd_iff_mod_eq_zero]
    exact Nat.pos_iff_ne_zero
  | enqueue | dequeue | intrDisable | intrArm | fetch | complete | setAvailEvent | setUsedFlags => exact Iff.rfl

/-- If the driver calls `virtqueue_host_notify` after each buffer, the device is notified whenever it is to be,
exactly if the calls are safe. -/
theorem notified_run_iff (order : Fin 16) (ops : List (Op γ)) (hp : Meets noticeStep Paced (Notices.init order) ops) :
    Meets noticeStep Notifies (Notices.init order) ops ↔
      Meets noticeStep NotifySafe (Notices.init order) ops := by
  have hinv := hp.with_invariant (I := NoticeInv) (fun _ op h hop => noticeInv_step h op hop) (noticeInv_init order)
  constructor
  · intro hn
    exact (hn.and hinv).imp fun _ op h => (notifies_iff h.2.2 op).1 h.1
  · intro hs
    exact (hs.and hinv).imp fun _ op h => (notifies_iff h.2.2 op).2 h.1

end

def oneSegment : Op Nat := .enqueue 7 (fun _ => ⟨0x1000, 1⟩) 0 1

theorem notified_first : Meets noticeStep Notifies (Notices.init 0) [oneSegment, .hostNotify] := by
  refine (notified_run_iff 0 [oneSegment, .hostNotify] ⟨rfl, trivial, trivial⟩).2 ⟨trivial, fun _ _ => ?_, trivial⟩
  decide

/-! ### A missed notification

A device that never writes `avail_event` waits for the index 0. It is notified of the first buffer, and should be
again of the one after `2 ^ 16` buffers. -/

def round : List (Op Nat) := [oneSegment, .hostNotify, .fetch, .complete 0 0, .dequeue]

/-- The indices of the queue and how many heads the device holds, in a run in which `avail_event` is 0 and the device
was notified of the first buffer only. -/
structure At (x : Notices Nat) (avail prev lastAvail used lastUsed : BitVec 16) (held : Nat) : Prop where
  inv : NoticeInv x
  availIdx : x.q.vrq.availIdx = avail
  prev : x.prev = prev
  lastAvail : x.q.lastAvail = lastAvail
  usedIdx : x.q.vrq.usedIdx = used
  lastUsedDescIdx : x.q.vrq.lastUsedDescIdx = lastUsed
  held : x.q.held.length = held
  availEvent : x.q.vrq.availEvent = 0
  lastNotifiedIdx : x.q.vrq.lastNotifiedIdx = 1

section
variable {x : Notices Nat} {i avail prev lastAvail used lastUsed : BitVec 16} {held : Nat}

private theorem At.enqueue (h : At x i i i i i 0) : At (noticeStep x oneSegment) (i + 1) i i i i 0 := by
  have hinv := noticeInv_step h.inv oneSegment (h.availIdx.trans h.prev.symm)
  have hfree : x.q.vrq.num = x.q.vrq.descAvail.toNat := by
    have hlen := h.inv.inv.length_heads
    have hpending : x.q.pending = [] := between_eq_nil.2 (h.availIdx.trans h.lastAvail.symm)
    have hused : x.q.used = [] := congrArg _ (between_eq_nil.2 (h.usedIdx.trans h.lastUsedDescIdx.symm))
    rw [hpending, hused, h.held] at hlen
    have hsplit := h.inv.inv.sound.split.length_eq
    rw [List.eq_nil_of_length_eq_zero hlen.symm] at hsplit
    simpa using hsplit.symm
  have hpos := x.q.vrq.num_pos
  obtain ⟨hn, -⟩ | ⟨-, hn, -⟩ | ⟨-, -, -, heq⟩ := enqueue_cases x.q.vrq 7 (fun _ => ⟨0x1000, 1⟩) 0 1
  · simp at hn
    omega
  · simp at hn
    omega
  · have hstep : x.q.step oneSegment =
        { x.q with
          vrq := x.q.vrq.enqueued 7 (fun _ => ⟨0x1000, 1⟩) 0 1
          enqueued := x.q.enqueued ++ [x.q.vrq.newBuffer 7 (fun _ => ⟨0x1000, 1⟩) 0 1]
          inflight := x.q.inflight ++ [x.q.vrq.newBuffer 7 (fun _ => ⟨0x1000, 1⟩) 0 1] } := by
      simp only [oneSegment, Queue.step, Queue.enqueue, heq]
    refine ⟨hinv, ?_, h.prev, ?_, ?_, ?_, ?_, ?_, ?_⟩ <;> simp only [noticeStep, oneSegment] at hstep ⊢ <;> rw [hstep]
    · exact congrArg (· + 1) h.availIdx
    · exact h.lastAvail
    · exact h.usedIdx
    · exact h.lastUsedDescIdx
    · exact h.held
    · exact h.availEvent
    · exact h.lastNotifiedIdx

private theorem At.hostNotify_eq (h : At x (i + 1) i lastAvail used lastUsed held) :
    virtqueueHostNotify x.q.vrq = (x.q.vrq, false) := by
  have hneed : virtqueueNotifyEnabled x.q.vrq = false := by
    rw [virtqueueNotifyEnabled, h.inv.usesEventIdx, h.availIdx, h.availEvent, h.lastNotifiedIdx]
    simp [vringNeedEvent]
  simp [virtqueueHostNotify, hneed]

private theorem At.hostNotify (h : At x (i + 1) i lastAvail used lastUsed held) :
    At (noticeStep x .hostNotify) (i + 1) (i + 1) lastAvail used lastUsed held := by
  have hinv := noticeInv_step h.inv .hostNotify trivial
  have hstep : noticeStep x .hostNotify = { x with prev := x.q.vrq.availIdx } := by
    simp [noticeStep, step, h.hostNotify_eq]
  rw [hstep] at hinv ⊢
  exact ⟨hinv, h.availIdx, h.availIdx, h.lastAvail, h.usedIdx, h.lastUsedDescIdx, h.held, h.availEvent,
    h.lastNotifiedIdx⟩

private theorem At.fetch (h : At x (i + 1) prev i used lastUsed 0) : At (noticeStep x .fetch)
    (i + 1) prev (i + 1) used lastUsed 1 := by
  have hinv := noticeInv_step h.inv .fetch trivial
  have hne : x.q.lastAvail ≠ x.q.vrq.availIdx := by
    rw [h.lastAvail, h.availIdx]
    simp
  simp only [noticeStep, Queue.step, Queue.fetch, if_neg hne] at hinv ⊢
  refine ⟨hinv, h.availIdx, h.prev, congrArg (· + 1) h.lastAvail, h.usedIdx, h.lastUsedDescIdx, ?_, h.availEvent,
    h.lastNotifiedIdx⟩
  rw [List.length_append, h.held]
  rfl

private theorem At.complete (h : At x avail prev lastAvail i lastUsed 1) :
    At (noticeStep x (.complete 0 0)) avail prev lastAvail (i + 1) lastUsed 0 := by
  have hinv := noticeInv_step h.inv (.complete 0 0) trivial
  obtain ⟨head, hhead⟩ := List.length_eq_one_iff.1 h.held
  have hget : x.q.held[0]? = some head := by
    rw [hhead]
    rfl
  simp only [noticeStep, Queue.step, Queue.complete, hget] at hinv ⊢
  refine ⟨hinv, h.availIdx, h.prev, h.lastAvail, congrArg (· + 1) h.usedIdx, h.lastUsedDescIdx, ?_, h.availEvent,
    h.lastNotifiedIdx⟩
  rw [hhead]
  rfl

private theorem At.dequeue (h : At x avail prev lastAvail (i + 1) i held) :
    At (noticeStep x .dequeue) avail prev lastAvail (i + 1) (i + 1) held := by
  have hinv := noticeInv_step h.inv .dequeue trivial
  have hd : virtqueueHasdata x.q.vrq = true := by
    rw [virtqueueHasdata, h.lastUsedDescIdx, h.usedIdx]
    simp
  obtain ⟨b, l1, l2, -, -, -, heq⟩ := h.inv.inv.dequeue_eq hd
  simp only [noticeStep, step, heq] at hinv ⊢
  exact ⟨hinv, h.availIdx, h.prev, h.lastAvail, h.usedIdx, congrArg (· + 1) h.lastUsedDescIdx, h.held, h.availEvent,
    h.lastNotifiedIdx⟩

private theorem At.round (h : At x i i i i i 0) :
    At (run noticeStep x round) (i + 1) (i + 1) (i + 1) (i + 1) (i + 1) 0 ∧ Meets noticeStep Paced x round :=
  ⟨h.enqueue.hostNotify.fetch.complete.dequeue, h.availIdx.trans h.prev.symm, trivial, trivial, trivial, trivial,
      trivial⟩

end

def rounds (n : Nat) : List (Op Nat) := (List.replicate n round).flatten

private theorem rounds_succ (n : Nat) : rounds (n + 1) = rounds n ++ round := by
  rw [rounds, List.replicate_succ', List.flatten_append]
  rfl

private theorem at_rounds (n : Nat) : (∃ i, i = BitVec.ofNat 16 (n + 1) ∧
      At (run noticeStep (Notices.init 0) (rounds (n + 1))) i i i i i 0) ∧
      Meets noticeStep Paced (Notices.init 0) (rounds (n + 1)) := by
  induction n with
  | zero =>
    have hpaced : Meets noticeStep Paced (Notices.init 0) (rounds 1) :=
      ⟨rfl, trivial, trivial, trivial, trivial, trivial⟩
    have hinv := hpaced.invariant (I := NoticeInv) (fun _ op h hop => noticeInv_step h op hop) (noticeInv_init 0)
    exact ⟨⟨_, rfl, hinv, rfl, rfl, rfl, rfl, rfl, rfl, rfl, rfl⟩, hpaced⟩
  | succ n ih =>
    obtain ⟨⟨i, hi, hat⟩, hpaced⟩ := ih
    rw [rounds_succ (n + 1), run_append, meets_append]
    refine ⟨⟨i + 1, ?_, hat.round.1⟩, hpaced, hat.round.2⟩
    rw [hi]
    exact (BitVec.ofNat_add (n + 1) 1).symm

private theorem missed_after {n : Nat} (hn : BitVec.ofNat 16 (n + 1) = 0) :
    Meets noticeStep Paced (Notices.init 0) (rounds (n + 1) ++ [oneSegment, .hostNotify]) ∧
      ¬ Meets noticeStep Notifies (Notices.init 0) (rounds (n + 1) ++ [oneSegment, .hostNotify]) := by
  obtain ⟨⟨i, hi, hat⟩, hpaced⟩ := at_rounds n
  obtain rfl : i = 0 := hi.trans hn
  constructor
  · exact meets_append.2 ⟨hpaced, hat.availIdx.trans hat.prev.symm, trivial, trivial⟩
  · intro hm
    have hafter := hat.enqueue
    have hkick := (meets_append.1 hm).2.2.1
    simp only [Notifies, hafter.hostNotify_eq, hafter.availIdx, hafter.prev, hafter.availEvent] at hkick
    have hpass : Passes 0 (0 + 1) 0 := by
      unfold Passes
      decide
    cases hkick hpass

/-- The notification for the buffer after `2 ^ 16` buffers is missed. -/
theorem not_notified_run : Meets noticeStep Paced (Notices.init 0) (rounds 65536 ++ [oneSegment, .hostNotify]) ∧
      ¬ Meets noticeStep Notifies (Notices.init 0) (rounds 65536 ++ [oneSegment, .hostNotify]) :=
  missed_after (n := 65535) rfl

end Unikraft.Virtio
