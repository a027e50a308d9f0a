import Unikraft.Virtio.RxWake
import Unikraft.Virtio.Net.Recv

/-!
# No wakeup of the network dispatcher is lost

The device publishes used entries and then decides about an interrupt. The handler disables the interrupts of the
queue, clears `VTNET_INTR_EN` and posts the semaphore of the dispatcher. `uknetdev_input` ends only after a second
look at the queue with interrupts enabled: from there on an interrupt is raised or due for whatever comes, or the
handler is about to post (`Covered`). `virtio_net_rx_intr_enable` sets `VTNET_INTR_EN` after it has enabled the
interrupts. If the handler has run in between, the bit stays set and the assertion of `virtio_netdev_recv` fails.
-/

namespace Unikraft.Virtio.Net

open NetRx Runs

/-- Where lwIP's thread is in `virtio_net_rx_intr_enable` and the `virtqueue_intr_enable` it calls. -/
inductive EnablePc
  | test
  | setUsr
  | look
  | arm
  | relook
  | disarm
  | setEn
  deriving DecidableEq

/-- The receive path, the interrupt line, the handler and the semaphore. `since` is the number of used entries since
the last decision about an interrupt, `en` the bit `VTNET_INTR_EN`, and `entry` says that `virtio_netdev_recv` is at
its assertion. While `enable` is a point of `virtio_net_rx_intr_enable`, lwIP's thread runs; threads are scheduled
cooperatively, so the dispatcher does not. -/
structure NetWake where
  rx : NetRx
  since : Nat
  line : Bool
  irq : Irq
  en : Bool
  events : Nat
  entry : Bool
  assertFailed : Bool
  enable : Option EnablePc

inductive WakeAct
  /-- The device takes a buffer, publishes one, writes its words, or decides about an interrupt. -/
  | fetch
  | publish (i : Nat) (len : BitVec 32) (hdr : VirtioNetHdr)
  | setAvailEvent (e : BitVec 16)
  | setUsedFlags (flags : BitVec 16)
  | decide
  | otherIrq
  | handler
  /-- The dispatcher, or before it lwIP's thread. -/
  | dispatcher (o : NetOutside)

namespace NetWake

variable (vndev : VirtioNetDevice) (virtToPhys : BitVec 64 → BitVec 64)

def wantsIrq (x : NetWake) : Bool := irqDue x.rx.q.vrq x.since

def publish (x : NetWake) (i : Nat) (len : BitVec 32) (hdr : VirtioNetHdr) : NetWake :=
  let rx := x.rx.step vndev virtToPhys (.publish i len hdr)
  { x with rx := rx, since := if rx.q.vrq.usedIdx = x.rx.q.vrq.usedIdx then x.since else x.since + 1 }

def handler (x : NetWake) : NetWake :=
  match x.irq with
  | .idle => if x.line then { x with line := false, irq := .hasdata } else x
  | .hasdata => { x with irq := if x.rx.hasdata then .disable else .idle }
  | .disable => { x with rx := { x.rx with q := x.rx.q.step .intrDisable }, irq := .clearEn }
  | .clearEn => { x with en := false, irq := .up }
  | .up => { x with events := x.events + 1, irq := .idle }

/-- The initial poll of `uknetdev_updown`, if there was data in the queue. -/
def poll (x : NetWake) : NetWake := { x with rx := x.rx.begin, entry := true, enable := none }

def rxIntrEnable (x : NetWake) : EnablePc → NetWake
  | .test => { x with enable := if x.en then none else some .setUsr }
  | .setUsr => { x with rx := { x.rx with usrEn := true }, en := false, enable := some .look }
  | .look => if x.rx.hasdata then x.poll else { x with enable := some .arm }
  | .arm => { x with rx := { x.rx with q := x.rx.q.step .intrArm }, enable := some .relook }
  | .relook => { x with enable := some (if x.rx.hasdata then .disarm else .setEn) }
  | .disarm => { x with rx := { x.rx with q := x.rx.q.step .intrDisable } }.poll
  | .setEn => { x with en := true, enable := none }

def runDispatcher (x : NetWake) (o : NetOutside) : NetWake :=
  if x.entry then if x.en then { x with assertFailed := true } else { x with entry := false }
  else
    match x.rx.pc with
    | .idle =>
      if x.events = 0 then x else { x with events := 0, rx := x.rx.step vndev virtToPhys .call, entry := true }
    | .input =>
      let rx := x.rx.step vndev virtToPhys (.driver o)
      -- If there is more, `virtio_netdev_recv` is called again.
      { x with rx := rx, entry := decide (rx.pc = .dequeue false) }
    | _ => { x with rx := x.rx.step vndev virtToPhys (.driver o) }

def dispatcher (x : NetWake) (o : NetOutside) : NetWake :=
  if x.assertFailed || x.rx.failed then x
  else
    match x.enable with
    | some p => x.rxIntrEnable p
    | none => x.runDispatcher vndev virtToPhys o

def step (x : NetWake) : WakeAct → NetWake
  | .fetch => { x with rx := x.rx.step vndev virtToPhys .fetch }
  | .publish i len hdr => x.publish vndev virtToPhys i len hdr
  | .setAvailEvent e => { x with rx := x.rx.step vndev virtToPhys (.setAvailEvent e) }
  | .setUsedFlags flags => { x with rx := x.rx.step vndev virtToPhys (.setUsedFlags flags) }
  | .decide => { x with line := x.line || x.wantsIrq, since := 0 }
  | .otherIrq => { x with line := true }
  | .handler => x.handler
  | .dispatcher o => x.dispatcher vndev virtToPhys o

/-- `virtio_net_start` for a queue that has been set up. After it lwIP calls `virtio_net_rx_intr_enable`. -/
def start (rx : NetRx) : NetWake :=
  ⟨{ rx with q := { rx.q with vrq := virtqueueIntrDisable rx.q.vrq } }, 0, false, .idle, false, 0, false, false,
      some .test⟩

def Started (x : NetWake) : Prop :=
  ∃ order usesEventIdx acts, NetAct.call ∉ acts ∧
    (run (NetRx.step vndev virtToPhys) (NetRx.init vndev order usesEventIdx false) acts).pc = .idle ∧
    x = start (run (NetRx.step vndev virtToPhys) (NetRx.init vndev order usesEventIdx false) acts)

def noError (x : NetWake) : WakeAct → Bool
  | .dispatcher _ =>
    match x.rx.pc with
    | .dequeue _ => !(x.rx.hasdata && rxLenInvalid vndev x.rx.q.vrq.front.len)
    | _ => true
  | _ => true

/-- When `virtio_net_rx_intr_enable` sets `VTNET_INTR_EN`, the handler has not cleared it before. -/
def enableSafe (x : NetWake) : WakeAct → Bool
  | .dispatcher _ => x.enable ≠ some .setEn || x.events = 0 && x.irq ≠ .up
  | _ => true

/-- Interrupts are enabled, the dispatcher waits, the semaphore is zero, and no interrupt is raised, handled or
due. -/
structure Quiet (x : NetWake) : Prop where
  enable : x.enable = none
  pc : x.rx.pc = .idle
  events : x.events = 0
  line : x.line = false
  irq : x.irq = .idle
  due : x.wantsIrq = false

/-- The used ring is empty, and the device has to raise an interrupt for the next entry. -/
structure Ready (x : NetWake) : Prop where
  used : x.rx.q.used = []
  next : ∀ i len hdr, (x.step vndev virtToPhys (.publish i len hdr)).rx.q.vrq.usedIdx ≠ x.rx.q.vrq.usedIdx →
    (x.step vndev virtToPhys (.publish i len hdr)).wantsIrq = true

/-- The semaphore has been posted, or the handler is about to post it. -/
def Waking (x : NetWake) : Prop := 0 < x.events ∨ x.irq = .disable ∨ x.irq = .clearEn ∨ x.irq = .up

def Watched (x : NetWake) : Prop := x.Waking ∨ IntrArmed x.rx.q.vrq

/-- An interrupt is raised, or the handler has not looked at the queue yet, or the device will raise one. -/
def Noticed (x : NetWake) : Prop := x.line = true ∨ x.irq = .hasdata ∨ x.wantsIrq = true

def Covered (x : NetWake) : Prop := x.Waking ∨ IntrArmed x.rx.q.vrq ∧ (x.rx.hasdata = false ∨ x.Noticed)

def InRound (rx : NetRx) (again : Bool) : Prop :=
  rx.status.success = (again || !rx.pkt.isEmpty) ∧ rx.status.more = false

def AtPc (x : NetWake) : Prop :=
  match x.rx.pc with
  | .idle => x.Covered
  | .dequeue _ | .merge _ _ => x.rx.status.more = false
  | .request (.recv again) _ _ | .post (.recv again) _ _ _ _ | .notify (.recv again) _ => InRound x.rx again
  | .request .setup _ _ | .post .setup _ _ _ _ | .notify .setup _ => False
  | .testUsr => InRound x.rx false
  | .look again | .arm again | .disarm again => InRound x.rx again
  | .relook again => InRound x.rx again ∧ x.Watched
  | .ret => x.rx.status.success = false ∨ x.rx.status.more = false → x.Covered
  | .input => x.rx.status.more = false → x.Covered

def AtEnable (x : NetWake) : EnablePc → Prop
  | .test | .setUsr => True
  | .look | .arm | .disarm => x.rx.usrEn = true
  | .relook => x.rx.usrEn = true ∧ x.Watched
  | .setEn => x.rx.usrEn = true ∧ x.Covered

structure Invariant (x : NetWake) : Prop where
  error : x.rx.error = false
  /-- The bit is set only as long as the semaphore was never posted. -/
  en : x.en = true → x.enable = none ∧ x.rx.pc = .idle ∧ x.events = 0 ∧ x.irq ≠ .up ∧ x.entry = false
  assertion : x.assertFailed = false
  enabling : ∀ p, x.enable = some p → x.rx.pc = .idle ∧ x.entry = false ∧ x.AtEnable p
  running : x.enable = none → x.rx.usrEn = true ∧ x.AtPc

variable {vndev : VirtioNetDevice} {virtToPhys : BitVec 64 → BitVec 64} {x y : NetWake}

variable (vndev virtToPhys) in
/-- A publication is refused, or adds one used entry. -/
theorem publish_cases (rx : NetRx) (i : Nat) (len : BitVec 32) (hdr : VirtioNetHdr) :
    (rx.step vndev virtToPhys (.publish i len hdr)).q = rx.q ∨
      ∃ usedRing, (rx.step vndev virtToPhys (.publish i len hdr)).q.vrq =
      { rx.q.vrq with usedRing := usedRing, usedIdx := rx.q.vrq.usedIdx + 1 } := by
  unfold NetRx.step
  split
  · exact .inl rfl
  · dsimp only
    unfold NetRx.publish
    split
    · exact .inl rfl
    · split
      · exact .inl rfl
      · dsimp only [Queue.step]
        unfold Queue.complete
        split
        · exact .inl rfl
        · exact .inr ⟨_, rfl⟩

private theorem succ_ne_self (u : BitVec 16) : u + 1 ≠ u := by
  bv_omega

private theorem Invariant.ready (h : x.Invariant) (hq : x.Quiet) : x.Ready vndev virtToPhys := by
  have hc : x.Covered := by
    have := (h.running hq.enable).2
    rwa [AtPc, hq.pc] at this
  rcases hc with hw | ⟨ha, hd⟩
  · simp [Waking, hq.events, hq.irq] at hw
  · have hempty : x.rx.hasdata = false := hd.resolve_right (by simp [Noticed, hq.line, hq.irq, hq.due])
    refine ⟨?_, fun i len hdr hne => ?_⟩
    · rw [Queue.used, hasdata_eq_false_iff.1 hempty, RingIndex.between_self, List.map_nil]
    · rcases publish_cases vndev virtToPhys x.rx i len hdr with hq' | ⟨usedRing, hvrq⟩
      · exact absurd (congrArg (fun q => q.vrq.usedIdx) hq') hne
      · unfold wantsIrq
        simp only [step, publish] at hne ⊢
        rw [if_neg hne, hvrq]
        exact irqDue_publish ha (.inl hempty)

/-! ### The device and the handler -/

structure Steady (x y : NetWake) : Prop where
  driver : y.rx.pc = x.rx.pc ∧ y.rx.status = x.rx.status ∧ y.rx.pkt = x.rx.pkt ∧ y.rx.usrEn = x.rx.usrEn ∧
    y.rx.error = x.rx.error
  entry : y.entry = x.entry ∧ y.assertFailed = x.assertFailed ∧ y.enable = x.enable
  en : y.en = true → x.en = true ∧ (x.events = 0 → x.irq ≠ .up → y.events = 0 ∧ y.irq ≠ .up)
  watched : x.Watched → y.Watched
  covered : x.Covered → y.Covered

private theorem Invariant.steady (h : x.Invariant) (hs : Steady x y) : y.Invariant := by
  obtain ⟨hpc, hstatus, hpkt, husr, herr⟩ := hs.driver
  obtain ⟨hent, hass, hen⟩ := hs.entry
  refine ⟨herr.trans h.error, fun he => ?_, hass.trans h.assertion, fun p hp => ?_, fun hnone => ?_⟩
  · obtain ⟨hxe, hkeep⟩ := hs.en he
    obtain ⟨hnone, hidle, hev, hup, hentry⟩ := h.en hxe
    obtain ⟨hev', hup'⟩ := hkeep hev hup
    exact ⟨hen.trans hnone, hpc.trans hidle, hev', hup', hent.trans hentry⟩
  · obtain ⟨hidle, hentry, hat⟩ := h.enabling p (hen.symm.trans hp)
    refine ⟨hpc.trans hidle, hent.trans hentry, ?_⟩
    cases p with
    | test | setUsr => trivial
    | look | arm | disarm => exact husr.trans hat
    | relook => exact ⟨husr.trans hat.1, hs.watched hat.2⟩
    | setEn => exact ⟨husr.trans hat.1, hs.covered hat.2⟩
  · obtain ⟨husr', hat⟩ := h.running (hen.symm.trans hnone)
    refine ⟨husr.trans husr', ?_⟩
    unfold AtPc InRound at hat ⊢
    rw [hpc, hstatus, hpkt]
    split at hat
    case h_1 => exact hs.covered hat
    case h_14 => exact ⟨hat.1, hs.watched hat.2⟩
    case h_15 | h_16 => exact fun hd => hs.covered (hat hd)
    all_goals exact hat

private theorem Steady.of_queue {rx : NetRx}
    (hdriver : rx.pc = x.rx.pc ∧ rx.status = x.rx.status ∧ rx.pkt = x.rx.pkt ∧ rx.usrEn = x.rx.usrEn ∧
      rx.error = x.rx.error) (ha : IntrArmed x.rx.q.vrq → IntrArmed rx.q.vrq) (hd : rx.hasdata = x.rx.hasdata)
    (hw : irqDue rx.q.vrq x.since = irqDue x.rx.q.vrq x.since) : Steady x { x with rx := rx } := by
  refine ⟨hdriver, ⟨rfl, rfl, rfl⟩, fun he => ⟨he, And.intro⟩, Or.imp id ha, Or.imp id (And.imp ha ?_)⟩
  unfold Noticed wantsIrq
  rw [hd, hw]
  exact id

private theorem steady_fetch : Steady x (x.step vndev virtToPhys .fetch) := by
  simp only [step, NetRx.step]
  split
  · exact .of_queue ⟨rfl, rfl, rfl, rfl, rfl⟩ id rfl rfl
  · have hvrq : (x.rx.q.step .fetch).vrq = x.rx.q.vrq := by
      simp only [Queue.step, Queue.fetch]
      split <;> rfl
    refine .of_queue ⟨rfl, rfl, rfl, rfl, rfl⟩ ?_ ?_ ?_
    · rw [hvrq]
      exact id
    · unfold NetRx.hasdata
      rw [hvrq]
    · rw [hvrq]

variable (vndev virtToPhys) in
private theorem step_publish_driver (rx : NetRx) (i : Nat) (len : BitVec 32) (hdr : VirtioNetHdr) :
    let rx' := rx.step vndev virtToPhys (.publish i len hdr)
    rx'.pc = rx.pc ∧ rx'.status = rx.status ∧ rx'.pkt = rx.pkt ∧ rx'.usrEn = rx.usrEn ∧ rx'.error = rx.error := by
  simp only [NetRx.step]
  split
  · exact ⟨rfl, rfl, rfl, rfl, rfl⟩
  · unfold NetRx.publish
    split
    · exact ⟨rfl, rfl, rfl, rfl, rfl⟩
    · split <;> exact ⟨rfl, rfl, rfl, rfl, rfl⟩

private theorem steady_publish (i : Nat) (len : BitVec 32) (hdr : VirtioNetHdr) :
    Steady x (x.step vndev virtToPhys (.publish i len hdr)) := by
  simp only [step, publish]
  have hdriver := step_publish_driver vndev virtToPhys x.rx i len hdr
  have hcases := publish_cases vndev virtToPhys x.rx i len hdr
  generalize x.rx.step vndev virtToPhys (.publish i len hdr) = rx at hdriver hcases
  rcases hcases with hq | ⟨usedRing, hvrq⟩
  · rw [if_pos (by rw [hq])]
    refine .of_queue hdriver ?_ ?_ ?_
    · rw [hq]
      exact id
    · unfold hasdata
      rw [hq]
    · rw [hq]
  · rw [if_neg (by rw [hvrq]; exact succ_ne_self _)]
    have ha : IntrArmed x.rx.q.vrq → IntrArmed rx.q.vrq := by
      rw [hvrq]
      exact id
    refine ⟨hdriver, ⟨rfl, rfl, rfl⟩, fun he => ⟨he, And.intro⟩, Or.imp id ha, ?_⟩
    rintro (hw | ⟨harm, hd⟩)
    · exact .inl hw
    · refine .inr ⟨ha harm, .inr ?_⟩
      have hdue : x.rx.hasdata = false ∨ x.wantsIrq = true → irqDue rx.q.vrq (x.since + 1) = true := by
        rw [hvrq]
        exact irqDue_publish harm
      rcases hd with hd | hl | hi | hn
      · exact .inr (.inr (hdue (.inl hd)))
      · exact .inl hl
      · exact .inr (.inl hi)
      · exact .inr (.inr (hdue (.inr hn)))

private theorem steady_setWord {a : WakeAct} (ha : (∃ e, a = .setAvailEvent e) ∨ ∃ flags, a = .setUsedFlags flags) :
    Steady x (x.step vndev virtToPhys a) := by
  rcases ha with ⟨e, rfl⟩ | ⟨flags, rfl⟩
  all_goals
    simp only [step, NetRx.step]
    split <;> exact .of_queue ⟨rfl, rfl, rfl, rfl, rfl⟩ id rfl rfl

private theorem steady_decide : Steady x (x.step vndev virtToPhys .decide) := by
  refine ⟨⟨rfl, rfl, rfl, rfl, rfl⟩, ⟨rfl, rfl, rfl⟩, fun he => ⟨he, And.intro⟩, id,
      Or.imp id (And.imp_right (Or.imp_right ?_))⟩
  rintro (hl | hi | hn)
  · exact .inl (by simp [step, hl])
  · exact .inr (.inl hi)
  · exact .inl (by simp [step, hn])

private theorem steady_otherIrq : Steady x (x.step vndev virtToPhys .otherIrq) :=
  ⟨⟨rfl, rfl, rfl, rfl, rfl⟩, ⟨rfl, rfl, rfl⟩, fun he => ⟨he, And.intro⟩, id,
      Or.imp id (And.imp_right fun _ => .inr (.inl rfl))⟩

private theorem steady_handler : Steady x (x.step vndev virtToPhys .handler) := by
  have hwaking : ∀ {y : NetWake}, y.Waking → (x.Watched → y.Watched) ∧ (x.Covered → y.Covered) :=
    fun hw => ⟨fun _ => .inl hw, fun _ => .inl hw⟩
  simp only [step, handler]
  split
  case h_1 hirq =>
    have hev : x.Waking → 0 < x.events := by simp [Waking, hirq]
    split
    · refine ⟨⟨rfl, rfl, rfl, rfl, rfl⟩, ⟨rfl, rfl, rfl⟩, fun he => ⟨he, fun h1 _ => ⟨h1, nofun⟩⟩,
          Or.imp_left fun hw => .inl (hev hw), ?_⟩
      exact Or.imp (fun hw => .inl (hev hw)) (And.imp_right fun _ => .inr (.inr (.inl rfl)))
    · exact ⟨⟨rfl, rfl, rfl, rfl, rfl⟩, ⟨rfl, rfl, rfl⟩, fun he => ⟨he, And.intro⟩, id, id⟩
  case h_2 hirq =>
    have hev : x.Waking → 0 < x.events := by simp [Waking, hirq]
    cases hd : x.rx.hasdata with
    | true =>
      obtain ⟨h1, h2⟩ := hwaking (y := { x with irq := .disable }) (.inr (.inl rfl))
      exact ⟨⟨rfl, rfl, rfl, rfl, rfl⟩, ⟨rfl, rfl, rfl⟩, fun he => ⟨he, fun h _ => ⟨h, nofun⟩⟩, h1, h2⟩
    | false =>
      refine ⟨⟨rfl, rfl, rfl, rfl, rfl⟩, ⟨rfl, rfl, rfl⟩, fun he => ⟨he, fun h _ => ⟨h, nofun⟩⟩,
          Or.imp_left fun hw => .inl (hev hw), ?_⟩
      exact Or.imp (fun hw => .inl (hev hw)) (And.imp_right fun _ => .inl hd)
  case h_3 =>
    obtain ⟨h1, h2⟩ := hwaking (y := { x with rx := { x.rx with q := x.rx.q.step .intrDisable }, irq := .clearEn })
      (.inr (.inr (.inl rfl)))
    exact ⟨⟨rfl, rfl, rfl, rfl, rfl⟩, ⟨rfl, rfl, rfl⟩, fun he => ⟨he, fun h _ => ⟨h, nofun⟩⟩, h1, h2⟩
  case h_4 =>
    obtain ⟨h1, h2⟩ := hwaking (y := { x with en := false, irq := .up }) (.inr (.inr (.inr rfl)))
    exact ⟨⟨rfl, rfl, rfl, rfl, rfl⟩, ⟨rfl, rfl, rfl⟩, nofun, h1, h2⟩
  case h_5 hirq =>
    obtain ⟨h1, h2⟩ := hwaking (y := { x with events := x.events + 1, irq := .idle }) (.inl (Nat.succ_pos _))
    exact ⟨⟨rfl, rfl, rfl, rfl, rfl⟩, ⟨rfl, rfl, rfl⟩, fun he => ⟨he, fun _ hup => absurd hirq hup⟩, h1, h2⟩

section
variable {rx : NetRx} {o : NetOutside}

/-- What a step of the driver has to leave behind; the semaphore and the handler are as they were. -/
structure Drives (x : NetWake) (rx : NetRx) : Prop where
  usr : rx.usrEn = true
  error : rx.error = false
  atPc : AtPc { x with rx := rx }

private theorem dequeue_ok {γ : Type} {vrq vrq' : VirtqueueVring γ} {d : Dequeued γ}
    (h : virtqueueBufferDequeue vrq = some (vrq', .ok d)) :
    virtqueueHasdata vrq = true ∧ d.len = vrq.front.len := by
  unfold virtqueueBufferDequeue at h
  cases hd : virtqueueHasdata vrq with
  | false => simp [hd] at h
  | true =>
    refine ⟨rfl, ?_⟩
    simp only [hd, Bool.not_true, Bool.false_eq_true, if_false] at h
    split at h
    · cases h
    · obtain ⟨-, rfl⟩ := h
      rfl

private theorem drives_fillup (husr : rx.usrEn = true) (herr : rx.error = false) (hmore : rx.status.more = false)
    (again : Bool) (num : Nat) :
    Drives x (rx.fillup vndev again num) :=
  ⟨husr, herr, rfl, hmore⟩

variable {again : Bool}

private theorem Drives.stay (husr : rx.usrEn = true) (herr : rx.error = false) (hmore : rx.status.more = false)
    (hpc : rx.pc = .dequeue again ∨ ∃ n, rx.pc = .merge again n) : Drives x rx := by
  refine ⟨husr, herr, ?_⟩
  rcases hpc with hpc | ⟨n, hpc⟩ <;> rwa [AtPc, hpc]

variable (vndev virtToPhys) in
private theorem rxqEnqueue_driver (rx : NetRx) (buf : Nat) : let rx' := (rx.rxqEnqueue vndev virtToPhys buf).1
    rx'.status = rx.status ∧ rx'.pkt = rx.pkt ∧ rx'.usrEn = rx.usrEn ∧ rx'.error = rx.error := by
  unfold rxqEnqueue
  split
  · exact ⟨rfl, rfl, rfl, rfl⟩
  · split
    · exact ⟨rfl, rfl, rfl, rfl⟩
    · dsimp only
      split <;> exact ⟨rfl, rfl, rfl, rfl⟩

private theorem drives_back (husr : rx.usrEn = true) (herr : rx.error = false) {more : Bool}
    (hround : InRound rx again)
    (hcov : more = false → Covered { x with rx := rx }) : Drives x (rx.back again more) := by
  obtain ⟨hsucc, hmore⟩ := hround
  unfold back
  cases again with
  | true =>
    refine ⟨husr, herr, ?_⟩
    rintro (hd | hd)
    · change rx.status.success = false at hd
      rw [hsucc] at hd
      cases hd
    · exact hcov hd
  | false =>
    cases hp : rx.pkt.isEmpty with
    | true =>
      cases more with
      | true => exact ⟨husr, herr, hmore⟩
      | false => exact ⟨husr, herr, fun _ => hcov rfl⟩
    | false =>
      refine ⟨husr, herr, ?_⟩
      rintro (hd | hd)
      · change rx.status.success = false at hd
        rw [hsucc, hp] at hd
        cases hd
      · exact hcov hd

section
variable (husr : x.rx.usrEn = true) (herr : x.rx.error = false)
include husr herr

private theorem drives_rxqDequeue (hmore : x.rx.status.more = false)
    (hpc : x.rx.pc = .dequeue again) (hok : (x.rx.hasdata && rxLenInvalid vndev x.rx.q.vrq.front.len) = false) :
    Drives x (x.rx.rxqDequeue vndev again) := by
  unfold rxqDequeue
  split
  · exact .stay husr herr hmore (.inl hpc)
  · refine drives_fillup ?_ ?_ ?_ again 0 <;> assumption
  · rename_i d hd
    obtain ⟨hdata, hlen⟩ := dequeue_ok hd
    have hvalid : rxLenInvalid vndev d.len = false := by
      rw [hlen]
      rw [hasdata, hdata, Bool.true_and] at hok
      exact hok
    split
    · exact .stay husr herr hmore (.inl hpc)
    · simp only [hvalid, Bool.false_eq_true, if_false]
      split
      · exact .stay husr herr hmore (.inl hpc)
      · split
        · exact ⟨husr, herr, hmore⟩
        · refine drives_fillup ?_ ?_ ?_ again _ <;> assumption

private theorem drives_rxqMerge (hmore : x.rx.status.more = false) {n : Nat}
    (hpc : x.rx.pc = .merge again n) : Drives x (x.rx.rxqMerge vndev again n) := by
  unfold rxqMerge
  split
  · exact .stay husr herr hmore (.inr ⟨n, hpc⟩)
  · refine drives_fillup ?_ ?_ ?_ again 0 <;> assumption
  · split
    · exact .stay husr herr hmore (.inr ⟨n, hpc⟩)
    · dsimp only
      split
      · exact .stay husr herr hmore (.inr ⟨n, hpc⟩)
      · split
        · exact ⟨husr, herr, hmore⟩
        · refine drives_fillup ?_ ?_ ?_ again _ <;> assumption

private theorem drives_rxRequest (hround : InRound x.rx again) (nbDesc filled : Nat) :
    Drives x (x.rx.rxRequest vndev o (.recv again) nbDesc filled) := by
  unfold rxRequest
  split <;> exact ⟨husr, herr, hround⟩

private theorem drives_rxPost (hround : InRound x.rx again) (nbDesc filled : Nat)
    (bufs : List Nat) (short : Bool) :
    Drives x (x.rx.rxPost vndev virtToPhys (.recv again) nbDesc filled bufs short) := by
  unfold rxPost
  split
  · split <;> exact ⟨husr, herr, hround⟩
  · rename_i buf rest
    obtain ⟨hstatus, hpkt, husr', herr'⟩ := rxqEnqueue_driver vndev virtToPhys x.rx buf
    have hround' : InRound (x.rx.rxqEnqueue vndev virtToPhys buf).1 again := by
      rw [InRound, hstatus, hpkt]
      exact hround
    split
    all_goals
      rename_i rx heq
      rw [heq] at husr' herr' hround'
      exact ⟨husr'.trans husr, herr'.trans herr, hround'⟩

private theorem drives_afterRecv (hcov : x.rx.status.success = false ∨ x.rx.status.more = false → x.Covered) :
    Drives x x.rx.afterRecv := by
  cases hs : x.rx.status.success with
  | false =>
    have hret : x.rx.afterRecv = { x.rx with pc := .idle } := by simp [afterRecv, herr, hs]
    rw [hret]
    exact ⟨husr, herr, hcov (.inl hs)⟩
  | true =>
    have hret : x.rx.afterRecv = { x.rx with pc := .input } := by simp [afterRecv, herr, hs]
    rw [hret]
    exact ⟨husr, herr, fun hd => hcov (.inr hd)⟩

private theorem drives_input (hpc : x.rx.pc = .input)
    (hcov : x.rx.status.more = false → x.Covered) (taken : Bool) : Drives x (x.rx.input taken) := by
  unfold input
  split
  · refine ⟨husr, herr, ?_⟩
    simp only [hpc]
    exact hcov
  · cases taken
    all_goals
      simp only [Bool.false_eq_true, if_false, if_true]
      split
      · exact ⟨husr, rfl, rfl⟩
      · next hm => exact ⟨husr, herr, hcov (Bool.eq_false_iff.2 hm)⟩

end

section
variable (h : x.Invariant) (hnone : x.enable = none)
include h hnone

private theorem drives_driver (hok : x.noError vndev (.dispatcher o) = true) (hidle : x.rx.pc ≠ .idle) :
    Drives x (x.rx.driver vndev virtToPhys o) := by
  obtain ⟨husr, hat⟩ := h.running hnone
  have herr := h.error
  unfold AtPc at hat
  unfold driver
  cases hpc : x.rx.pc with rw [hpc] at hat
  | idle => exact absurd hpc hidle
  | dequeue again =>
    simp only [noError, hpc, Bool.not_eq_true'] at hok
    exact drives_rxqDequeue husr herr hat hpc hok
  | merge again n => exact drives_rxqMerge husr herr hat hpc
  | request site nbDesc filled =>
    cases site with
    | setup => exact hat.elim
    | recv again => exact drives_rxRequest husr herr hat nbDesc filled
  | post site nbDesc filled bufs short =>
    cases site with
    | setup => exact hat.elim
    | recv again => exact drives_rxPost husr herr hat nbDesc filled bufs short
  | notify site filled =>
    cases site with
    | setup => exact hat.elim
    | recv again => cases again <;> exact ⟨husr, herr, hat⟩
  | testUsr =>
    rw [if_pos husr]
    exact ⟨husr, herr, hat⟩
  | look again =>
    dsimp only
    split
    · exact drives_back husr herr hat nofun
    · exact ⟨husr, herr, hat⟩
  | arm again => exact ⟨husr, herr, hat, .inr (intrArmed_intrArm x.rx.q.vrq)⟩
  | relook again =>
    cases hd : x.rx.hasdata with
    | true => exact ⟨husr, herr, hat.1⟩
    | false =>
      -- Nothing has come before the interrupts were enabled.
      exact drives_back husr herr hat.1 fun _ => hat.2.imp_right fun ha => ⟨ha, .inl hd⟩
  | disarm again =>
    refine drives_back ?_ ?_ ?_ nofun
    · exact husr
    · exact herr
    · exact hat
  | ret => exact drives_afterRecv husr herr hat
  | input => exact drives_input husr herr hpc hat o.taken

private theorem drives_step (hok : x.noError vndev (.dispatcher o) = true) (hidle : x.rx.pc ≠ .idle) :
    Drives x (x.rx.step vndev virtToPhys (.driver o)) := by
  unfold NetRx.step
  split
  · obtain ⟨husr, hat⟩ := h.running hnone
    exact ⟨husr, h.error, hat⟩
  · exact drives_driver h hnone hok hidle

theorem Drives.invariant (hd : Drives x rx) (hidle : x.rx.pc ≠ .idle) (entry : Bool) :
    Invariant { x with rx := rx, entry := entry } := by
  refine ⟨hd.error, fun he => absurd (h.en he).2.1 hidle, h.assertion, fun p hp => ?_, fun _ => ⟨hd.usr, hd.atPc⟩⟩
  cases hnone.symm.trans hp

private theorem Invariant.runDispatcher (hfailed : x.rx.failed = false)
    (hok : x.noError vndev (.dispatcher o) = true) :
    (x.runDispatcher vndev virtToPhys o).Invariant := by
  obtain ⟨husr, hat⟩ := h.running hnone
  unfold NetWake.runDispatcher
  split
  · next hentry =>
    -- The bit is clear, since the semaphore was posted.
    split
    · next he =>
      rw [(h.en he).2.2.2.2] at hentry
      cases hentry
    · next he => exact ⟨h.error, fun he' => absurd he' he, h.assertion, fun p hp => (by cases hnone.symm.trans hp),
          h.running⟩
  next hentry =>
  split
  · next hpc =>
    split
    · exact h
    · next hev =>
      have hcall : x.rx.step vndev virtToPhys .call = x.rx.begin := by simp [NetRx.step, hfailed, hpc]
      rw [hcall]
      refine ⟨rfl, fun he => absurd (h.en he).2.2.1 hev, h.assertion, fun p hp => ?_, fun _ => ⟨husr, rfl⟩⟩
      cases hnone.symm.trans hp
  · next hpc =>
    have hidle : x.rx.pc ≠ .idle := by
      rw [hpc]
      nofun
    exact (drives_step h hnone hok hidle).invariant h hnone hidle _
  · next hidle _ => exact (drives_step h hnone hok hidle).invariant h hnone hidle _

end

/-- The bit is not set, and there is data for `uknetdev_input`. -/
private theorem invariant_poll (husr : x.rx.usrEn = true) (hen : x.en = false) (hass : x.assertFailed = false) :
    x.poll.Invariant :=
  ⟨rfl, fun he => absurd (hen.symm.trans he) Bool.false_ne_true, hass, fun _ hp => (by cases hp),
      fun _ => ⟨husr, rfl⟩⟩

/-- A step of `virtio_net_rx_intr_enable` that does not yet return. -/
private theorem Invariant.enabling_to (h : x.Invariant) {p : EnablePc} (hp : x.enable = some p) (q : EnablePc)
    (rx : NetRx)
    (hpc : rx.pc = x.rx.pc) (herr : rx.error = x.rx.error) (hat : AtEnable { x with rx := rx, enable := some q } q) :
    Invariant { x with rx := rx, enable := some q } := by
  obtain ⟨hidle, hentry, -⟩ := h.enabling p hp
  refine ⟨herr.trans h.error, fun he => ?_, h.assertion, fun q' hq => ?_, fun hnone => (by cases hnone)⟩
  · cases (h.en he).1.symm.trans hp
  · cases hq
    exact ⟨hpc.trans hidle, hentry, hat⟩

private theorem Invariant.rxIntrEnable (h : x.Invariant) {p : EnablePc} (hp : x.enable = some p)
    (hsafe : x.enableSafe (.dispatcher o) = true) : (x.rxIntrEnable p).Invariant := by
  have hen : x.en = false := by
    refine Bool.eq_false_iff.2 fun he => ?_
    cases (h.en he).1.symm.trans hp
  obtain ⟨hidle, hentry, hat⟩ := h.enabling p hp
  cases p with
  | test =>
    have hclear : x.rxIntrEnable .test = { x with enable := some .setUsr } := by
      simp only [NetWake.rxIntrEnable, hen, Bool.false_eq_true, if_false]
    rw [hclear]
    exact h.enabling_to hp .setUsr x.rx rfl rfl trivial
  | setUsr =>
    have hclear : x.rxIntrEnable .setUsr = { x with rx := { x.rx with usrEn := true }, enable := some .look } := by
      simp only [NetWake.rxIntrEnable, ← hen]
    rw [hclear]
    exact h.enabling_to hp .look _ rfl rfl rfl
  | look =>
    dsimp only [NetWake.rxIntrEnable]
    split
    · exact invariant_poll hat hen h.assertion
    · exact h.enabling_to hp .arm x.rx rfl rfl hat
  | arm => exact h.enabling_to hp .relook _ rfl rfl ⟨hat, .inr (intrArmed_intrArm x.rx.q.vrq)⟩
  | relook =>
    dsimp only [NetWake.rxIntrEnable]
    cases hd : x.rx.hasdata with
    | true => exact h.enabling_to hp .disarm x.rx rfl rfl hat.1
    | false => exact h.enabling_to hp .setEn x.rx rfl rfl ⟨hat.1, hat.2.imp_right fun ha => ⟨ha, .inl hd⟩⟩
  | disarm =>
    refine invariant_poll ?_ ?_ ?_
    · exact hat
    · exact hen
    · exact h.assertion
  | setEn =>
    simp only [enableSafe, hp, ne_eq, not_true_eq_false, decide_false, Bool.false_or, Bool.and_eq_true,
      decide_eq_true_eq] at hsafe
    refine ⟨h.error, fun _ => ⟨rfl, hidle, hsafe.1, hsafe.2, hentry⟩, h.assertion, fun _ hq => (by cases hq),
        fun _ => ⟨hat.1, ?_⟩⟩
    simp only [NetWake.rxIntrEnable, AtPc, hidle]
    exact hat.2

private theorem Invariant.dispatcher (h : x.Invariant) (hok : x.noError vndev (.dispatcher o) = true)
    (hsafe : x.enableSafe (.dispatcher o) = true) : (x.step vndev virtToPhys (.dispatcher o)).Invariant := by
  simp only [NetWake.step, NetWake.dispatcher]
  split
  · exact h
  next hfail =>
  have hfailed : x.rx.failed = false := by
    rw [h.assertion, Bool.false_or] at hfail
    exact Bool.eq_false_iff.2 hfail
  cases hp : x.enable with
  | some p => exact h.rxIntrEnable hp hsafe
  | none => exact h.runDispatcher hp hfailed hok

/-- Every step keeps the invariant, if the handler does not run before the bit is set. -/
theorem Invariant.step (h : x.Invariant) {a : WakeAct} (hok : x.noError vndev a = true)
    (hsafe : x.enableSafe a = true) :
    (x.step vndev virtToPhys a).Invariant := by
  cases a with
  | fetch => exact h.steady steady_fetch
  | publish i len hdr => exact h.steady (steady_publish i len hdr)
  | setAvailEvent e => exact h.steady (steady_setWord (.inl ⟨e, rfl⟩))
  | setUsedFlags flags => exact h.steady (steady_setWord (.inr ⟨flags, rfl⟩))
  | decide => exact h.steady steady_decide
  | otherIrq => exact h.steady steady_otherIrq
  | handler => exact h.steady steady_handler
  | dispatcher o => exact h.dispatcher hok hsafe

structure SetUp (rx : NetRx) : Prop where
  error : rx.error = false
  pc : rx.pc = .idle ∨ (∃ n filled, rx.pc = .request .setup n filled) ∨
    (∃ n filled bufs short, rx.pc = .post .setup n filled bufs short) ∨
    ∃ filled, rx.pc = .notify .setup filled

private theorem SetUp.driver (h : SetUp rx) : SetUp (rx.driver vndev virtToPhys o) := by
  obtain ⟨herr, hpc⟩ := h
  unfold NetRx.driver
  rcases hpc with hpc | ⟨n, filled, hpc⟩ | ⟨n, filled, bufs, short, hpc⟩ | ⟨filled, hpc⟩
  · rw [hpc]
    exact ⟨herr, .inl hpc⟩
  · rw [hpc]
    dsimp only
    unfold rxRequest
    split
    · exact ⟨herr, .inr (.inr (.inl ⟨_, _, _, _, rfl⟩))⟩
    · exact ⟨herr, .inr (.inr (.inr ⟨_, rfl⟩))⟩
  · rw [hpc]
    dsimp only
    unfold rxPost
    split
    · split
      · exact ⟨herr, .inr (.inr (.inr ⟨_, rfl⟩))⟩
      · exact ⟨herr, .inr (.inl ⟨_, _, rfl⟩)⟩
    · rename_i buf rest
      obtain ⟨-, -, -, herr'⟩ := rxqEnqueue_driver vndev virtToPhys rx buf
      split
      · rename_i rx' heq
        rw [heq] at herr'
        exact ⟨herr'.trans herr, .inr (.inr (.inl ⟨_, _, _, _, rfl⟩))⟩
      · rename_i rx' heq
        rw [heq] at herr'
        exact ⟨herr'.trans herr, .inr (.inr (.inr ⟨_, rfl⟩))⟩
  · rw [hpc]
    exact ⟨herr, .inl rfl⟩

/-- Filling the ring keeps the state of the set-up. -/
theorem SetUp.step (h : SetUp rx) {a : NetAct} (ha : a ≠ .call) : SetUp (rx.step vndev virtToPhys a) := by
  cases a with
  | publish i len hdr =>
    obtain ⟨hpc, -, -, -, herr⟩ := step_publish_driver vndev virtToPhys rx i len hdr
    exact ⟨herr.trans h.error, hpc ▸ h.pc⟩
  | call => exact absurd rfl ha
  | driver o =>
    unfold NetRx.step
    split
    · exact h
    · exact h.driver
  | fetch | setAvailEvent | setUsedFlags =>
    unfold NetRx.step
    split
    · exact h
    · exact ⟨h.error, h.pc⟩

/-- A queue that was set up and is not in use satisfies the invariant. -/
theorem Started.invariant (h : x.Started vndev virtToPhys) : x.Invariant := by
  obtain ⟨order, usesEventIdx, acts, hcall, hidle, rfl⟩ := h
  have hsetup : SetUp (run (NetRx.step vndev virtToPhys) (NetRx.init vndev order usesEventIdx false) acts) := by
    have hinit : SetUp (NetRx.init vndev order usesEventIdx false) := ⟨rfl, .inr (.inl ⟨_, _, rfl⟩)⟩
    clear hidle
    generalize NetRx.init vndev order usesEventIdx false = rx at hinit
    induction acts generalizing rx with
    | nil => exact hinit
    | cons a acts ih =>
      rw [List.mem_cons, not_or] at hcall
      exact ih hcall.2 _ (hinit.step (Ne.symm hcall.1))
  refine ⟨hsetup.error, fun he => (by cases he), rfl, fun p hp => ?_, fun hnone => (by cases hnone)⟩
  cases hp
  exact ⟨hidle, rfl, trivial⟩

/-- Without receive errors, and if the handler does not run just before `virtio_net_rx_intr_enable` sets its bit,
interrupts are off whenever `virtio_netdev_recv` is called; and while the dispatcher waits and nothing is under way
that would wake it, there is nothing to do and the next used entry raises an interrupt. -/
theorem net_no_lost_wakeup {acts : List WakeAct} (h : x.Started vndev virtToPhys)
    (hok : Meets (step vndev virtToPhys) (fun x a => x.noError vndev a = true ∧ x.enableSafe a = true) x acts) :
    Always (step vndev virtToPhys) (fun x => x.assertFailed = false ∧ (x.Quiet → x.Ready vndev virtToPhys)) x acts :=
  hok.always (fun _ _ h hok => h.step hok.1 hok.2) (fun _ h => ⟨h.assertion, h.ready⟩) h.invariant

end

def setupTwo : List NetAct := List.replicate 6 (.driver ⟨[pageBuffer, pageBuffer], true⟩)

def twoBuffers : NetWake := start (run (NetRx.step modernDevice id) (NetRx.init modernDevice 1 true false) setupTwo)

private theorem twoBuffers_started : twoBuffers.Started modernDevice id := by
  have hcall : NetAct.call ∉ setupTwo := fun h => NetAct.noConfusion (List.eq_of_mem_replicate h)
  have hidle : (run (NetRx.step modernDevice id) (NetRx.init modernDevice 1 true false) setupTwo).pc = .idle := by
    decide +kernel
  exact ⟨1, true, setupTwo, hcall, hidle, rfl⟩

def runs (n : Nat) : List WakeAct := List.replicate n (.dispatcher ⟨[pageBuffer], true⟩)

def frame : List WakeAct := [.publish 0 100 ⟨true, false, 0, 0, 1⟩, .decide] ++ List.replicate 5 .handler

/-- Interrupts are enabled. A frame arrives, wakes the dispatcher and is handed to lwIP; in the meantime a second one
arrives, after which the dispatcher waits again. -/
theorem net_no_lost_wakeup_frames :
    Always (step modernDevice id) (fun x => x.assertFailed = false ∧ (x.Quiet → x.Ready modernDevice id)) twoBuffers
      ([.fetch, .fetch] ++ runs 6 ++ frame ++ runs 10 ++ frame ++ runs 40) :=
  net_no_lost_wakeup twoBuffers_started (by decide +kernel)

/-- A frame arrives and the handler runs between the enabling of the interrupts and the setting of the bit. -/
theorem not_net_no_lost_wakeup : ¬∀ (x : NetWake) (acts : List WakeAct), x.Started modernDevice id →
    Meets (step modernDevice id) (fun x a => x.noError modernDevice a = true) x acts →
    Always (step modernDevice id) (fun x => x.assertFailed = false ∧ (x.Quiet → x.Ready modernDevice id)) x acts := by
  intro h
  have hbad :=
    (h twoBuffers ([.fetch, .fetch] ++ runs 5 ++ frame ++ runs 3) twoBuffers_started (by decide +kernel)).last
  have hfails : (run (step modernDevice id) twoBuffers ([.fetch, .fetch] ++ runs 5 ++ frame ++ runs 3)).assertFailed =
    true := by
    decide +kernel
  exact absurd (hbad.1.symm.trans hfails) Bool.false_ne_true

end NetWake

end Unikraft.Virtio.Net
