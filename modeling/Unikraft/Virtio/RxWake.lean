import Unikraft.Virtio.Queue

/-!
# The receive path as interleaved steps

The device publishes used entries and then looks whether it has to raise an interrupt. The handler masks the
interrupts of the queue and posts the semaphore of the dispatcher, whose `virtio_vsockdev_rx_work` polls the queue
until it has enabled the interrupts on an empty queue. Each party moves one statement at a time, in any order. While
the dispatcher waits, the handler is about to post the semaphore, or interrupts are enabled and each used entry has
one that is raised or due (`Covered`).
-/

namespace Unikraft.Virtio

variable {γ : Type} {vrq : VirtqueueVring γ}

/-- Interrupts are enabled for the entry after the last one the driver has dequeued. -/
def IntrArmed (vrq : VirtqueueVring γ) : Prop :=
  if vrq.usesEventIdx then vrq.usedEvent = vrq.lastUsedDescIdx else vrq.availFlags &&& VRING_AVAIL_F_NO_INTERRUPT = 0

/-- Does the device have to raise an interrupt, after `since` used entries without a decision? This is
`vring_need_event`, with their number in place of a difference of indices, which would wrap around. -/
def irqDue (vrq : VirtqueueVring γ) (since : Nat) : Bool :=
  if vrq.usesEventIdx then decide ((vrq.usedIdx - vrq.usedEvent - 1).toNat < since)
  else decide (0 < since) && vrq.availFlags &&& VRING_AVAIL_F_NO_INTERRUPT == 0

theorem intrArmed_intrArm (vrq : VirtqueueVring γ) : IntrArmed (virtqueueIntrArm vrq) := by
  unfold virtqueueIntrArm
  split
  · rename_i hev
    simp [IntrArmed, hev]
  · rename_i hev
    rw [IntrArmed, if_neg hev]
    rw [BitVec.and_assoc, show ~~~ VRING_AVAIL_F_NO_INTERRUPT &&& VRING_AVAIL_F_NO_INTERRUPT = 0#16 by decide,
      BitVec.and_zero]
    rfl

private theorem hasdata_intrArm (vrq : VirtqueueVring γ) :
    virtqueueHasdata (virtqueueIntrArm vrq) = virtqueueHasdata vrq := by
  unfold virtqueueIntrArm
  split <;> rfl

private theorem intrEnable_empty (h : virtqueueHasdata vrq = false) :
    virtqueueIntrEnable vrq = (virtqueueIntrArm vrq, true) := by
  simp [virtqueueIntrEnable, hasdata_intrArm, h]

theorem hasdata_eq_false_iff : virtqueueHasdata vrq = false ↔ vrq.lastUsedDescIdx = vrq.usedIdx := by
  simp [virtqueueHasdata]

/-- The next entry after an empty queue makes the device raise an interrupt, and so do all that follow until it
has. -/
theorem irqDue_publish {usedRing : Nat → VringUsedElem} {since : Nat} (ha : IntrArmed vrq)
    (h : virtqueueHasdata vrq = false ∨ irqDue vrq since = true) :
    irqDue { vrq with usedRing := usedRing, usedIdx := vrq.usedIdx + 1 } (since + 1) = true := by
  rw [hasdata_eq_false_iff] at h
  unfold IntrArmed at ha
  unfold irqDue at h ⊢
  cases hev : vrq.usesEventIdx with
  | false =>
    rw [hev, if_neg Bool.false_ne_true] at ha
    simp [ha]
  | true =>
    rw [hev, if_pos rfl] at ha h
    simp only [↓reduceIte, ha, decide_eq_true_eq] at h ⊢
    bv_omega

/-- The part of `struct uk_netbuf` the receive path reads. -/
structure UkNetbuf where
  len : BitVec 16

/-- A call of `virtio_vsockdev_work_rx`: the packets done in this batch, and whether it is the second try. -/
structure Call where
  done : Nat
  retry : Bool

/-- The calls of `virtqueue_intr_enable`: the two of `virtio_vsockdev_recv`, with whether there is a packet, and the
one of `virtio_vsockdev_rx_intr_enable`. -/
inductive Site
  | recv (w : Call) (pkt : Bool)
  | again (w : Call) (pkt : Bool)
  | rxIntrEnable

inductive Pc
  | down
  | disable
  | clearBits
  | batch (done : Nat)
  /-- `virtio_vsockdev_rxq_dequeue`, the first or the second one of `virtio_vsockdev_recv`. -/
  | dequeue (w : Call) (again : Bool)
  | fillup (w : Call) (again pkt : Bool) (i n : Nat)
  | notify (w : Call) (again pkt : Bool) (i : Nat)
  | testUsr (w : Call) (pkt : Bool)
  /-- `virtqueue_intr_enable`: the first look at the queue, the write, the second look, and back. -/
  | look (s : Site)
  | arm (s : Site)
  | relook (s : Site)
  | disarm (s : Site)
  | handle (w : Call) (pkt : Bool)
  /-- `virtio_vsockdev_rx_intr_enable` before and after `virtqueue_intr_enable`. -/
  | testEn
  | setUsr
  | setEn

inductive Irq
  | idle
  | hasdata
  | disable
  | clearEn
  | up
  deriving DecidableEq

/-- The receive queue with its device, the interrupt line, the handler and the dispatcher. `fresh` is the number of
used entries since the last decision about an interrupt, and `usrEn` and `en` are the bits of `intr_enabled`. -/
structure Rx where
  q : Queue UkNetbuf
  fresh : Nat
  line : Bool
  irq : Irq
  usrEn : Bool
  en : Bool
  events : Nat
  pc : Pc

/-- What comes from outside in a step of the dispatcher: a buffer with its segments, if one can be allocated and
described, and whether handling a packet fails, and if so for lack of memory. -/
structure Outside where
  buf : Option (UkNetbuf × (Nat → UkSglistSeg) × BitVec 16)
  failed : Option Bool

inductive Act
  /-- The device takes a buffer, publishes one, writes its words, or decides about an interrupt. -/
  | fetch
  | publish (i : Nat) (len : BitVec 32)
  | setAvailEvent (e : BitVec 16)
  | setUsedFlags (flags : BitVec 16)
  | decide
  | otherIrq
  | handler
  | dispatcher (o : Outside)

def workBatchSize : Nat := 128

/-- What `virtio_vsockdev_work_rx` returns: an error, with whether it is `-ENOMEM`, 0 or 1. -/
inductive WorkResult
  | failed (enomem : Bool)
  | empty
  | done

def Call.next (w : Call) : WorkResult → Pc
  | .failed enomem =>
    if w.retry then .batch w.done else if enomem then .dequeue { w with retry := true } false else .testEn
  | .empty => if w.retry then .batch (w.done + 1) else .testEn
  | .done => .batch (w.done + 1)

def Call.received (w : Call) (pkt : Bool) : Pc := if pkt then .handle w true else w.next .empty

/-- Where `virtqueue_intr_enable` returns to, with whether interrupts are enabled. -/
def Site.back (s : Site) (enabled : Bool) : Pc :=
  match s with
  | .recv w pkt => if enabled || pkt then w.received pkt else .dequeue w true
  | .again w pkt => .handle w pkt
  | .rxIntrEnable => if enabled then .setEn else .batch 0

namespace Rx

variable (x : Rx)

def hasdata : Bool := virtqueueHasdata x.q.vrq

def filled (w : Call) (again pkt : Bool) : Pc := if again then .look (.again w pkt) else .testUsr w pkt

/-- `virtio_vsockdev_rxq_dequeue`. It does not return if the dequeue does not, or if there is no buffer. -/
def rxqDequeue (w : Call) (again : Bool) : Rx :=
  match virtqueueBufferDequeue x.q.vrq with
  | none => x
  | some (_, .error _) => { x with q := x.q.step .dequeue, pc := .fillup w again false 0 0 }
  | some (_, .ok d) =>
    match d.cookie with
    | none => x
    | some buf =>
      if buf.len.toNat < d.len.toNat then { x with q := x.q.step .dequeue, pc := w.next (.failed false) }
      else { x with q := x.q.step .dequeue, pc := .fillup w again true 0 (x.q.vrq.num - d.inUse) }

/-- A round of the loop of `virtio_vsockdev_rxq_fillup`, with `virtio_vsockdev_rxq_enqueue`. -/
def rxqFillup (o : Outside) (w : Call) (again pkt : Bool) (i n : Nat) : Rx :=
  if i < n then
    match o.buf with
    | none => { x with pc := .notify w again pkt i }
    | some (buf, sg, nseg) =>
      if virtqueueIsFull x.q.vrq then { x with pc := .notify w again pkt i }
      else
        match (virtqueueBufferEnqueue x.q.vrq buf sg 0 nseg).2 with
        | .error _ => { x with q := x.q.step (.enqueue buf sg 0 nseg), pc := .notify w again pkt i }
        | .ok _ => { x with q := x.q.step (.enqueue buf sg 0 nseg), pc := .fillup w again pkt (i + 1) n }
  else { x with pc := .notify w again pkt i }

def dispatcher (o : Outside) : Rx :=
  match x.pc with
  | .down => if x.events = 0 then x else { x with events := 0, pc := .disable }
  | .disable => { x with q := x.q.step .intrDisable, pc := .clearBits }
  | .clearBits => { x with usrEn := false, en := false, pc := .batch 0 }
  | .batch done =>
    if done < workBatchSize then { x with pc := .dequeue ⟨done, false⟩ false } else { x with pc := .testEn }
  | .dequeue w again => x.rxqDequeue w again
  | .fillup w again pkt i n => x.rxqFillup o w again pkt i n
  | .notify w again pkt i =>
    if i = 0 then { x with pc := filled w again pkt }
    else { x with q := x.q.step .hostNotify, pc := filled w again pkt }
  | .testUsr w pkt => { x with pc := if x.usrEn then .look (.recv w pkt) else w.received pkt }
  | .look s => { x with pc := if x.hasdata then s.back false else .arm s }
  | .arm s => { x with q := x.q.step .intrArm, pc := .relook s }
  | .relook s => { x with pc := if x.hasdata then .disarm s else s.back true }
  | .disarm s => { x with q := x.q.step .intrDisable, pc := s.back false }
  | .handle w pkt =>
    -- `UK_ASSERT(pkt)`
    if pkt then { x with pc := w.next (match o.failed with | none => .done | some enomem => .failed enomem) } else x
  | .testEn => { x with pc := if x.en then .down else .setUsr }
  | .setUsr => { x with usrEn := true, en := false, pc := .look .rxIntrEnable }
  | .setEn => { x with en := true, pc := .down }

/-- A step of the interrupt handler: `virtqueue_ring_interrupt` and `virtio_vsockdev_recv_event`. -/
def handler : Rx :=
  match x.irq with
  | .idle => if x.line then { x with line := false, irq := .hasdata } else x
  | .hasdata => { x with irq := if x.hasdata then .disable else .idle }
  | .disable => { x with q := x.q.step .intrDisable, irq := .clearEn }
  | .clearEn => { x with en := false, irq := .up }
  | .up => { x with events := x.events + 1, irq := .idle }

def wantsIrq : Bool := irqDue x.q.vrq x.fresh

def publish (i : Nat) (len : BitVec 32) : Rx :=
  if i < x.q.held.length then { x with q := x.q.step (.complete i len), fresh := x.fresh + 1 } else x

def step : Act → Rx
  | .fetch => { x with q := x.q.step .fetch }
  | .publish i len => x.publish i len
  | .setAvailEvent e => { x with q := x.q.step (.setAvailEvent e) }
  | .setUsedFlags flags => { x with q := x.q.step (.setUsedFlags flags) }
  | .decide => { x with line := x.line || x.wantsIrq, fresh := 0 }
  | .otherIrq => { x with line := true }
  | .handler => x.handler
  | .dispatcher o => x.dispatcher o

/-- The queue after `virtio_vsockdev_setup_queues` has put buffers into it, up to the first that fails. -/
def setup (order : Fin 16) (usesEventIdx : Bool) (bufs : List (UkNetbuf × (Nat → UkSglistSeg) × BitVec 16)) :
    Queue UkNetbuf :=
  Runs.run (fun q b => q.step (.enqueue b.1 b.2.1 0 b.2.2)) (Queue.init order usesEventIdx true) bufs

/-- The state after `virtio_vsockdev_start`, which runs `virtio_vsockdev_rx_intr_enable` before the device starts. The
dispatcher already waits. -/
def init (order : Fin 16) (usesEventIdx : Bool) (bufs : List (UkNetbuf × (Nat → UkSglistSeg) × BitVec 16)) : Rx :=
  let q := setup order usesEventIdx bufs
  let r := virtqueueIntrEnable q.vrq
  ⟨{ q with vrq := r.1 }, 0, false, .idle, true, r.2, 0, .down⟩

end Rx

open RingIndex

def Pc.Free : Pc → Prop
  | .down | .setEn | .relook .rxIntrEnable => False
  | _ => True

/-- After a packet the worker starts a batch, takes the next packet, or looks at the interrupts. -/
theorem Call.next_cases (w : Call) (r : WorkResult) :
    (∃ done, w.next r = .batch done) ∨ (∃ w', w.next r = .dequeue w' false) ∨ w.next r = .testEn := by
  cases r with
  | failed enomem =>
    simp only [next]
    split
    · exact .inl ⟨_, rfl⟩
    · split
      · exact .inr (.inl ⟨_, rfl⟩)
      · exact .inr (.inr rfl)
  | empty =>
    simp only [next]
    split
    · exact .inl ⟨_, rfl⟩
    · exact .inr (.inr rfl)
  | done => exact .inl ⟨_, rfl⟩

private theorem Call.next_free (w : Call) (r : WorkResult) : (w.next r).Free := by
  obtain ⟨done, h⟩ | ⟨w', h⟩ | h := w.next_cases r
  all_goals
    rw [h]
    trivial

private theorem Call.received_free (w : Call) (pkt : Bool) : (w.received pkt).Free := by
  cases pkt with
  | false => exact w.next_free .empty
  | true => trivial

/-- `virtqueue_intr_enable` leaves the loop only when it has enabled the interrupts, and for
`virtio_vsockdev_rx_intr_enable`. -/
private theorem Site.back_free {s : Site} {enabled : Bool} (h : s = .rxIntrEnable → enabled = false) :
    (s.back enabled).Free := by
  cases s with
  | recv w pkt =>
    simp only [back]
    split
    · exact w.received_free pkt
    · trivial
  | again w pkt => trivial
  | rxIntrEnable =>
    rw [h rfl]
    trivial

namespace Rx

def Waking (x : Rx) : Prop := 0 < x.events ∨ x.irq = .disable ∨ x.irq = .clearEn ∨ x.irq = .up

def Watched (x : Rx) : Prop := x.Waking ∨ IntrArmed x.q.vrq

/-- An interrupt is raised, or the handler has not looked at the queue yet, or the device will raise one. -/
def Noticed (x : Rx) : Prop := x.line = true ∨ x.irq = .hasdata ∨ x.wantsIrq = true

def Covered (x : Rx) : Prop := x.Waking ∨ IntrArmed x.q.vrq ∧ (x.hasdata = false ∨ x.Noticed)

def AtPc (x : Rx) : Prop :=
  match x.pc with
  | .down => x.Covered
  | .setEn => x.Covered ∧ x.en = false
  | .relook .rxIntrEnable => x.Watched ∧ x.en = false
  | .disable | .clearBits => True
  | _ => x.en = false

structure Invariant (x : Rx) : Prop where
  inv : Inv x.q
  atPc : x.AtPc

/-- The dispatcher waits, the semaphore is zero, and no interrupt is raised, handled or due. -/
structure Quiet (x : Rx) : Prop where
  pc : x.pc = .down
  events : x.events = 0
  line : x.line = false
  irq : x.irq = .idle
  due : x.wantsIrq = false

/-- The used ring is empty, the driver has got all that the device has put into it, and interrupts are enabled for the
next entry. -/
structure Ready (x : Rx) : Prop where
  used : x.q.used = []
  returned : x.q.returned.map Prod.fst = x.q.completed
  enabled : if x.q.vrq.usesEventIdx then x.q.vrq.usedEvent = x.q.vrq.usedIdx
    else x.q.vrq.availFlags &&& VRING_AVAIL_F_NO_INTERRUPT = 0

variable {x y : Rx}

private theorem Invariant.ready (h : x.Invariant) (hq : x.Quiet) : x.Ready := by
  have hc : x.Covered := by
    have := h.atPc
    rwa [AtPc, hq.pc] at this
  rcases hc with hw | ⟨ha, hd⟩
  · simp [Waking, hq.events, hq.irq] at hw
  · have hidx : x.q.vrq.lastUsedDescIdx = x.q.vrq.usedIdx := by
      rcases hd with hd | hn
      · exact hasdata_eq_false_iff.1 hd
      · simp [Noticed, hq.line, hq.irq, hq.due] at hn
    have hused : x.q.used = [] := by rw [Queue.used, hidx, between_self, List.map_nil]
    refine ⟨hused, ?_, ?_⟩
    · simpa [hused] using h.inv.ledger.done
    · simpa only [IntrArmed, hidx] using ha

structure Steady (x y : Rx) : Prop where
  inv : Inv y.q
  pc : y.pc = x.pc
  en : x.en = false → y.en = false
  watched : x.Watched → y.Watched
  covered : x.Covered → y.Covered

private theorem Invariant.steady (h : x.Invariant) (hs : Steady x y) : y.Invariant := by
  refine ⟨hs.inv, ?_⟩
  have hat := h.atPc
  unfold AtPc at hat ⊢
  rw [hs.pc]
  split at hat
  · exact hs.covered hat
  · exact ⟨hs.covered hat.1, hs.en hat.2⟩
  · exact ⟨hs.watched hat.1, hs.en hat.2⟩
  · trivial
  · trivial
  · simpa using hs.en hat

private theorem Steady.of_queue {q : Queue UkNetbuf} (hi : Inv q) (ha : IntrArmed x.q.vrq → IntrArmed q.vrq)
    (hd : x.hasdata = { x with q := q }.hasdata) (hw : x.wantsIrq = { x with q := q }.wantsIrq) :
    Steady x { x with q := q } := by
  refine ⟨hi, rfl, id, Or.imp id ha, Or.imp id (And.imp ha ?_)⟩
  rw [Noticed, hd, hw]
  exact id

private theorem steady_fetch (h : Inv x.q) : Steady x (x.step .fetch) := by
  have hinv := h.step .fetch
  simp only [step, Queue.step, Queue.fetch] at hinv ⊢
  split
  · exact ⟨h, rfl, id, id, id⟩
  · rename_i hne
    rw [if_neg hne] at hinv
    exact .of_queue hinv id rfl rfl

private theorem steady_publish (h : Inv x.q) (i : Nat) (len : BitVec 32) : Steady x (x.step (.publish i len)) := by
  simp only [step, publish]
  split
  · rename_i hi
    have hinv := h.step (.complete i len)
    have hvrq : ∃ usedRing, (x.q.step (.complete i len)).vrq =
        { x.q.vrq with usedRing := usedRing, usedIdx := x.q.vrq.usedIdx + 1 } := by
      simp only [Queue.step, Queue.complete, List.getElem?_eq_getElem hi]
      exact ⟨_, rfl⟩
    obtain ⟨usedRing, hvrq⟩ := hvrq
    generalize x.q.step (.complete i len) = q at hinv hvrq
    have ha : IntrArmed x.q.vrq → IntrArmed q.vrq := by
      rw [hvrq]
      exact id
    have hdue : IntrArmed x.q.vrq → x.hasdata = false ∨ x.wantsIrq = true → irqDue q.vrq (x.fresh + 1) = true := by
      rw [hvrq]
      exact irqDue_publish
    refine ⟨hinv, rfl, id, Or.imp id ha, ?_⟩
    rintro (hw | ⟨harm, hd⟩)
    · exact .inl hw
    · refine .inr ⟨ha harm, .inr ?_⟩
      rcases hd with hd | hl | hq | hn
      · exact .inr (.inr (hdue harm (.inl hd)))
      · exact .inl hl
      · exact .inr (.inl hq)
      · exact .inr (.inr (hdue harm (.inr hn)))
  · exact ⟨h, rfl, id, id, id⟩

private theorem steady_decide (h : Inv x.q) : Steady x (x.step .decide) := by
  refine ⟨h, rfl, id, id, Or.imp id (And.imp_right (Or.imp_right ?_))⟩
  rintro (hl | hq | hn)
  · exact .inl (by simp [step, hl])
  · exact .inr (.inl hq)
  · exact .inl (by simp [step, hn])

private theorem Steady.of_waking (hi : Inv y.q) (hpc : y.pc = x.pc) (hen : x.en = false → y.en = false)
    (hw : y.Waking) :
    Steady x y :=
  ⟨hi, hpc, hen, fun _ => .inl hw, fun _ => .inl hw⟩

private theorem steady_handler (h : Inv x.q) : Steady x (x.step .handler) := by
  simp only [step, handler]
  split
  case h_1 hirq =>
    have hev : x.Waking → 0 < x.events := by simp [Waking, hirq]
    split
    · refine ⟨h, rfl, id, Or.imp_left fun hw => .inl (hev hw), ?_⟩
      exact Or.imp (fun hw => .inl (hev hw)) (And.imp_right fun _ => .inr (.inr (.inl rfl)))
    · exact ⟨h, rfl, id, id, id⟩
  case h_2 hirq =>
    have hev : x.Waking → 0 < x.events := by simp [Waking, hirq]
    cases hd : x.hasdata with
    | true => exact .of_waking h rfl id (.inr (.inl rfl))
    | false =>
      refine ⟨h, rfl, id, Or.imp_left fun hw => .inl (hev hw), ?_⟩
      exact Or.imp (fun hw => .inl (hev hw)) (And.imp_right fun _ => .inl hd)
  case h_3 => exact .of_waking (h.step .intrDisable) rfl id (.inr (.inr (.inl rfl)))
  case h_4 => exact .of_waking h rfl (fun _ => rfl) (.inr (.inr (.inr rfl)))
  case h_5 => exact .of_waking h rfl id (.inl (Nat.succ_pos _))

private theorem steady_step (h : Inv x.q) {a : Act} (ha : ∀ o, a ≠ .dispatcher o) : Steady x (x.step a) := by
  cases a with
  | fetch => exact steady_fetch h
  | publish i len => exact steady_publish h i len
  | setAvailEvent e => exact .of_queue (h.step (.setAvailEvent e)) id rfl rfl
  | setUsedFlags flags => exact .of_queue (h.step (.setUsedFlags flags)) id rfl rfl
  | decide => exact steady_decide h
  | otherIrq => exact ⟨h, rfl, id, id, Or.imp id (And.imp_right fun _ => .inr (.inl rfl))⟩
  | handler => exact steady_handler h
  | dispatcher o => exact absurd rfl (ha o)

private theorem filled_free (w : Call) (again pkt : Bool) : (filled w again pkt).Free := by
  cases again <;> trivial

private theorem Invariant.of_free (hi : Inv x.q) (hpc : x.pc.Free) (he : x.en = false) : x.Invariant := by
  refine ⟨hi, ?_⟩
  unfold AtPc
  split
  case h_1 hp | h_2 hp | h_3 hp =>
    rw [hp] at hpc
    exact hpc.elim
  case h_4 | h_5 => trivial
  case h_6 => exact he

section
variable (h : x.Invariant)
include h

private theorem invariant_rxqDequeue (he : x.en = false) (w : Call) (again : Bool) :
    (x.rxqDequeue w again).Invariant := by
  unfold rxqDequeue
  split
  · exact h
  · exact .of_free (h.inv.step .dequeue) trivial he
  · split
    · exact h
    · split
      · exact .of_free (h.inv.step .dequeue) (w.next_free (.failed false)) he
      · exact .of_free (h.inv.step .dequeue) trivial he

private theorem invariant_rxqFillup (he : x.en = false) (o : Outside) (w : Call) (again pkt : Bool)
    (i n : Nat) : (x.rxqFillup o w again pkt i n).Invariant := by
  unfold rxqFillup
  split
  · split
    · exact .of_free h.inv trivial he
    · rename_i buf sg nseg _
      have hinv := h.inv.step (.enqueue buf sg 0 nseg)
      split
      · exact .of_free h.inv trivial he
      · split <;> exact .of_free hinv trivial he
  · exact .of_free h.inv trivial he

private theorem invariant_dispatcher (o : Outside) : (x.step (.dispatcher o)).Invariant := by
  have hat := h.atPc
  unfold AtPc at hat
  simp only [step, dispatcher]
  cases hpc : x.pc with rw [hpc] at hat
  | down =>
    dsimp only
    split
    · exact h
    · exact ⟨h.inv, trivial⟩
  | disable => exact ⟨h.inv.step .intrDisable, trivial⟩
  | clearBits | setUsr => exact .of_free h.inv trivial rfl
  | batch done =>
    dsimp only
    split <;> exact .of_free h.inv trivial hat
  | dequeue w again => exact invariant_rxqDequeue h hat w again
  | fillup w again pkt i n => exact invariant_rxqFillup h hat o w again pkt i n
  | notify w again pkt i =>
    dsimp only
    split
    · exact .of_free h.inv (filled_free w again pkt) hat
    · exact .of_free (h.inv.step .hostNotify) (filled_free w again pkt) hat
  | testUsr w pkt =>
    refine .of_free h.inv ?_ hat
    dsimp only
    split
    · trivial
    · exact w.received_free pkt
  | look s =>
    refine .of_free h.inv ?_ hat
    dsimp only
    split
    · exact s.back_free fun _ => rfl
    · trivial
  | arm s =>
    have ha : IntrArmed (x.q.step .intrArm).vrq := intrArmed_intrArm x.q.vrq
    cases s with
    | recv | again => exact .of_free (h.inv.step .intrArm) trivial hat
    | rxIntrEnable => exact ⟨h.inv.step .intrArm, .inr ha, hat⟩
  | relook s =>
    cases hd : x.hasdata with
    | true =>
      have he : x.en = false := by
        cases s with
        | recv | again => exact hat
        | rxIntrEnable => exact hat.2
      exact .of_free h.inv trivial he
    | false =>
      cases s with
      | recv w pkt =>
        have hback : ((Site.recv w pkt).back true).Free := Site.back_free nofun
        exact .of_free h.inv hback hat
      | again w pkt => exact .of_free h.inv trivial hat
      | rxIntrEnable =>
        -- Nothing has come before the interrupts were enabled.
        exact ⟨h.inv, hat.1.imp_right fun ha => ⟨ha, .inl hd⟩, hat.2⟩
  | disarm s => exact .of_free (h.inv.step .intrDisable) (s.back_free fun _ => rfl) hat
  | handle w pkt =>
    dsimp only
    split
    · exact .of_free h.inv (w.next_free _) hat
    · exact h
  | testEn =>
    rw [hat]
    exact .of_free h.inv trivial rfl
  | setEn => exact ⟨h.inv, hat.1⟩

/-- Every step of the device, the handler and the worker keeps the invariant. -/
theorem Invariant.step (a : Act) : (x.step a).Invariant := by
  cases a with
  | dispatcher o => exact invariant_dispatcher h o
  | fetch | publish | setAvailEvent | setUsedFlags | decide | otherIrq | handler =>
    exact h.steady (steady_step h.inv (by simp))

end

private theorem hasdata_enqueue (q : Queue UkNetbuf) (buf : UkNetbuf) (sg : Nat → UkSglistSeg) (nseg : BitVec 16) :
    virtqueueHasdata (q.step (.enqueue buf sg 0 nseg)).vrq = virtqueueHasdata q.vrq := by
  obtain ⟨-, heq⟩ | ⟨-, -, heq⟩ | ⟨-, -, -, heq⟩ := enqueue_cases q.vrq buf sg 0 nseg
  · simp only [Queue.step, Queue.enqueue, heq]
  · simp only [Queue.step, Queue.enqueue, heq]
  · simp only [Queue.step, Queue.enqueue, heq]
    rfl

/-- A queue that was filled satisfies the invariant. -/
theorem invariant_init (order : Fin 16) (usesEventIdx : Bool)
    (bufs : List (UkNetbuf × (Nat → UkSglistSeg) × BitVec 16)) : (init order usesEventIdx bufs).Invariant := by
  have hsetup : Inv (setup order usesEventIdx bufs) ∧ virtqueueHasdata (setup order usesEventIdx bufs).vrq = false :=
    Runs.run_invariant (I := fun q => Inv q ∧ virtqueueHasdata q.vrq = false)
      (fun q b h => ⟨h.1.step _, (hasdata_enqueue q b.1 b.2.1 b.2.2).trans h.2⟩)
      ⟨inv_init order usesEventIdx true, rfl⟩ bufs
  obtain ⟨hinv, hd⟩ := hsetup
  unfold init
  generalize setup order usesEventIdx bufs = q at hinv hd
  simp only [intrEnable_empty hd]
  refine ⟨hinv.step .intrArm, .inr ⟨intrArmed_intrArm q.vrq, .inl ?_⟩⟩
  exact (hasdata_intrArm q.vrq).trans hd

/-- While the dispatcher waits and nothing is under way that would wake it, there is nothing for it to do, and the
next used entry raises an interrupt. -/
theorem ready_of_quiet (order : Fin 16) (usesEventIdx : Bool)
    (bufs : List (UkNetbuf × (Nat → UkSglistSeg) × BitVec 16)) (acts : List Act)
    (hq : (Runs.run step (init order usesEventIdx bufs) acts).Quiet) :
    (Runs.run step (init order usesEventIdx bufs) acts).Ready :=
  (Runs.run_invariant (fun _ a h => h.step a) (invariant_init order usesEventIdx bufs) acts).ready hq

def smallBuffer : UkNetbuf × (Nat → UkSglistSeg) × BitVec 16 := (⟨16⟩, fun _ => ⟨0, 16⟩, 1)

def onePacket : List Act :=
  .fetch :: .publish 0 8 :: .decide :: List.replicate 5 .handler ++
    List.replicate 21 (.dispatcher ⟨some smallBuffer, none⟩)

theorem ready_after_onePacket : (Runs.run step (init 0 true [smallBuffer]) onePacket).q.completed = [0] ∧
    (Runs.run step (init 0 true [smallBuffer]) onePacket).Ready :=
  ⟨rfl, ready_of_quiet 0 true [smallBuffer] onePacket ⟨rfl, rfl, rfl, rfl, rfl⟩⟩

end Rx

end Unikraft.Virtio
