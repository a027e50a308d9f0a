import Unikraft.Vsock.World

/-!
# What the functions of the layer can do

One case lemma for every function that changes the state: either nothing but driver activity happened (`Quiet`), or
the socket the function works on has the value the lemma gives. `Handled pkt v v'` lists what the handlers of
`virtio_vsockdev_work_rx` make of the socket `v` the packet `pkt` is dispatched to. The invariants of the following
files are derived from these lemmas and never unfold the functions again.
-/

namespace Unikraft.Vsock

open UkVsockState VirtioVsock World

/-- Only driver activity and port probing lie between the two states: outcomes were used up, ports tried and packets
transmitted, none of them the answer to a connection request. -/
def World.Quiet (w w' : World) : Prop :=
  ∃ n l p, w' = { w with tick := n, sent := w.sent ++ l, portAllocNext := p } ∧ ∀ x ∈ l, x.answers = none

namespace World.Quiet

variable {w w' w'' : World}

theorem refl (w : World) : w.Quiet w := ⟨w.tick, [], w.portAllocNext, by simp, by simp⟩

theorem trans (h : w.Quiet w') (h' : w'.Quiet w'') : w.Quiet w'' := by
  obtain ⟨n, l, p, rfl, hl⟩ := h
  obtain ⟨n', l', p', rfl, hl'⟩ := h'
  refine ⟨n', l ++ l', p', by simp, ?_⟩
  intro x hx
  rcases List.mem_append.1 hx with hx | hx
  · exact hl x hx
  · exact hl' x hx

theorem of_modify {s : SockId} {f : VirtioVsock → VirtioVsock} (h : (w.modify s f).Quiet w') :
    ∃ w1, w.Quiet w1 ∧ w' = w1.modify s f := by
  obtain ⟨n, l, p, rfl, hl⟩ := h
  exact ⟨{ w with tick := n, sent := w.sent ++ l, portAllocNext := p }, ⟨n, l, p, rfl, hl⟩, rfl⟩

end World.Quiet

structure World.Calm (w w' : World) : Prop where
  sock_eq : w'.sock = w.sock
  cid_eq : w'.cid = w.cid
  live_eq : w'.live = w.live
  next_eq : w'.next = w.next
  sockets_eq : w'.sockets = w.sockets
  rbFault_eq : w'.rbFault = w.rbFault
  env_eq : w'.env = w.env

variable (w : World)

theorem World.Calm.refl : w.Calm w := ⟨rfl, rfl, rfl, rfl, rfl, rfl, rfl⟩

theorem World.Calm.trans {w w' w'' : World} (h : w.Calm w') (h' : w'.Calm w'') : w.Calm w'' where
  sock_eq := h'.sock_eq.trans h.sock_eq
  cid_eq := h'.cid_eq.trans h.cid_eq
  live_eq := h'.live_eq.trans h.live_eq
  next_eq := h'.next_eq.trans h.next_eq
  sockets_eq := h'.sockets_eq.trans h.sockets_eq
  rbFault_eq := h'.rbFault_eq.trans h.rbFault_eq
  env_eq := h'.env_eq.trans h.env_eq

theorem World.Calm.of_modify {w w' : World} {s : SockId} {f : VirtioVsock → VirtioVsock}
    (h : (w.modify s f).Calm w') : ∃ w1, w.Calm w1 ∧ w' = w1.modify s f := by
  refine ⟨{ w' with sock := w.sock }, ⟨rfl, h.cid_eq, h.live_eq, h.next_eq, h.sockets_eq, h.rbFault_eq, h.env_eq⟩, ?_⟩
  have hs := h.sock_eq
  cases w'
  simp only at hs
  simp only [hs, modify]

theorem World.Quiet.calm {w w' : World} (h : w.Quiet w') : w.Calm w' := by
  obtain ⟨n, l, p, rfl, -⟩ := h
  exact ⟨rfl, rfl, rfl, rfl, rfl, rfl, rfl⟩

def World.All (I : SockId → VirtioVsock → Prop) (w : World) : Prop := ∀ t, I t (w.sock t)

theorem quiet_advance : w.Quiet w.advance := ⟨w.tick + 1, [], w.portAllocNext, by simp [advance], by simp⟩

/-- The errors of a transmission that waits for room in the ring. -/
def Errno.OfXmit (e : Errno) : Prop := e = .ENOMEM ∨ e = .EINVAL ∨ e = .EFBIG

private theorem xmitErr_ofXmit (e : XmitErr) : e.errno.OfXmit := by
  cases e <;> simp [XmitErr.errno, Errno.OfXmit]

variable (hdr : VirtioVsockHdr)

/-- A packet is sent, or there is no memory or no room for it. -/
theorem xmitHdr_cases (a : Option Nat) :
    (∃ n, xmitHdr w hdr a = ({ w with tick := n, sent := w.sent ++ [⟨⟨hdr, []⟩, a⟩] }, .ok ())) ∨
    ∃ n e, e.OfXmit ∧ (∃ k < 2, w.env (w.tick + k) ≠ Outcome.good) ∧
      xmitHdr w hdr a = ({ w with tick := n }, .error e) := by
  cases ha : w.outcome.alloc with
  | false =>
    right
    refine ⟨w.tick + 1, .ENOMEM, .inl rfl, ⟨0, by decide, ?_⟩, by simp [xmitHdr, ukMalloc, ha, advance]⟩
    intro h
    rw [outcome, show w.env w.tick = _ from h] at ha
    cases ha
  | true =>
    cases hx : w.advance.outcome.xmit with
    | none =>
      left
      exact ⟨w.tick + 1 + 1, by simp only [xmitHdr, ukMalloc, ha, virtioVsockdevXmitRetry, hx]; rfl⟩
    | some e =>
      right
      refine ⟨w.tick + 1 + 1, e.errno, xmitErr_ofXmit e, ⟨1, by decide, ?_⟩,
        by simp only [xmitHdr, ukMalloc, ha, virtioVsockdevXmitRetry, hx]; rfl⟩
      intro h
      simp [outcome, advance, h, Outcome.good] at hx

theorem xmitHdr_quiet : w.Quiet (xmitHdr w hdr none).1 := by
  rcases xmitHdr_cases w hdr none with ⟨n, h⟩ | ⟨n, e, -, -, h⟩
  · rw [h]; exact ⟨n, _, _, rfl, by simp⟩
  · rw [h]; exact ⟨n, [], w.portAllocNext, by simp, by simp⟩

theorem xmitHdr_calm (a : Option Nat) : w.Calm (xmitHdr w hdr a).1 := by
  rcases xmitHdr_cases w hdr a with ⟨n, h⟩ | ⟨n, e, -, -, h⟩
  · rw [h]; exact ⟨rfl, rfl, rfl, rfl, rfl, rfl, rfl⟩
  · rw [h]; exact ⟨rfl, rfl, rfl, rfl, rfl, rfl, rfl⟩

variable (s : SockId)

theorem rejectConn_calm (acc : AcceptEntry) : w.Calm (virtioVsockdevRejectConn w s acc) :=
  xmitHdr_calm w _ _

theorem creditRequest_quiet : w.Quiet (virtioVsockWorkCreditRequest w s).1 :=
  xmitHdr_quiet w _

theorem reset_quiet : w.Quiet (virtioVsockReset w s).1 := xmitHdr_quiet w _

theorem shutdown_quiet (rx tx : Bool) : w.Quiet (virtioVsockShutdown w s rx tx).1 :=
  xmitHdr_quiet w _

/-- The driver can transmit data: memory is available and the ring takes the packet at once. -/
def World.XmitReady : Prop :=
  w.outcome.alloc = true ∧ w.advance.outcome.ringFull = false ∧ w.advance.outcome.xmit = none

private theorem quiet_xmit (pkt : Packet) :
    w.Quiet { w.advance.advance with sent := w.advance.sent ++ [⟨pkt, none⟩] } :=
  ⟨w.tick + 1 + 1, [⟨pkt, none⟩], _, rfl, by simp⟩

/-- A send transmits what fits into the window of the peer, or fails and sends nothing. -/
theorem send_cases (buf : List UInt8) : (buf.length = 0 ∧ virtioVsockSend w s buf = (w, .ok 0)) ∨
    (buf.length ≠ 0 ∧ (w.sock s).peerRxFree = 0 ∧ virtioVsockSend w s buf = (w, .error .EAGAIN)) ∨
    (buf.length ≠ 0 ∧ (w.sock s).peerRxFree ≠ 0 ∧ ∃ w1 e, w.Quiet w1 ∧ w1.sent = w.sent ∧
      ((e.OfXmit ∨ e = .EAGAIN) ∧ ¬ w.XmitReady ∨
        e = .ASSERT ∧ 65535 < sizeofHdr + min (w.sock s).peerRxFree.toNat buf.length % 65536) ∧
      virtioVsockSend w s buf = (w1, .error e)) ∨
    (buf.length ≠ 0 ∧ (w.sock s).peerRxFree ≠ 0 ∧ w.XmitReady ∧ ∃ w1 pkt n, w.Quiet w1 ∧
      n ≠ 0 ∧ n = min (w.sock s).peerRxFree.toNat buf.length ∧
      (pkt = ⟨(w.sock s).hdr (w.sock s).localAddr.cid OP_RW 0 (BitVec.ofNat 32 n), buf.take (n % 65536)⟩ ∧
        sizeofHdr + n % 65536 ≤ 65535) ∧
      w1.sent = w.sent ++ [⟨pkt, none⟩] ∧ virtioVsockSend w s buf =
        (w1.modify s fun v => { v with txCount := v.txCount + BitVec.ofNat 32 n }, .ok n)) := by
  by_cases hb : buf.length = 0
  · left
    exact ⟨hb, by simp [virtioVsockSend, hb]⟩
  by_cases hf : (w.sock s).peerRxFree = 0
  · right; left
    exact ⟨hb, hf, by simp [virtioVsockSend, hb, hf]⟩
  have hf' : (w.sock s).peerRxFree.toNat ≠ 0 := fun h => hf (BitVec.eq_of_toNat_eq h)
  have hm : min (w.sock s).peerRxFree.toNat buf.length ≠ 0 := by omega
  right; right
  unfold virtioVsockSend
  simp only [hb, hm, if_false, ukMalloc]
  cases ha : w.outcome.alloc with
  | false =>
    exact .inl ⟨hb, hf, _, _, quiet_advance w, rfl, .inl ⟨.inl (.inl rfl), fun h => nomatch ha.symm.trans h.1⟩, rfl⟩
  | true =>
    by_cases hl : 65535 < sizeofHdr + min (w.sock s).peerRxFree.toNat buf.length % 65536
    · exact .inl ⟨hb, hf, w.advance, .ASSERT, quiet_advance w, rfl, .inr ⟨rfl, hl⟩, if_pos hl⟩
    simp only [hl, if_false, virtioVsockdevXmit]
    cases hr : w.advance.outcome.ringFull with
    | true =>
      exact .inl ⟨hb, hf, _, _, (quiet_advance w).trans (quiet_advance _), rfl,
        .inl ⟨.inr rfl, fun h => nomatch hr.symm.trans h.2.1⟩, rfl⟩
    | false =>
      simp only [Bool.false_eq_true, if_false, virtioVsockdevXmitRetry]
      cases hx : w.advance.outcome.xmit with
      | some e =>
        exact .inl ⟨hb, hf, _, _, (quiet_advance w).trans (quiet_advance _), rfl,
          .inl ⟨.inl (xmitErr_ofXmit e), fun h => nomatch hx.symm.trans h.2.2⟩, rfl⟩
      | none =>
        exact .inr ⟨hb, hf, ⟨ha, hr, hx⟩, _, _, _, quiet_xmit w _, hm, rfl, ⟨rfl, Nat.not_lt.1 hl⟩, rfl, rfl⟩

def UkVsockState.inTable : UkVsockState → Bool
  | .BOUND | .LISTENING | .WAIT_CONNECT | .OPEN => true
  | .READY | .CLOSED => false

variable (v : VirtioVsock)

/-- Write `v` to the socket `s`, and take it out of the table when its state asks for that. -/
def World.settle : World :=
  if (w.sock s).state.inTable && !v.state.inTable then (w.rbRemove s).modify s fun _ => v
  else w.modify s fun _ => v

theorem World.settle_of_keep {w : World} {s : SockId} {v : VirtioVsock}
    (h : (w.sock s).state.inTable = true → v.state.inTable = true) : w.settle s v = w.modify s fun _ => v := by
  unfold settle
  cases h1 : (w.sock s).state.inTable <;> simp_all

theorem World.settle_of_leave {w : World} {s : SockId} {v : VirtioVsock} (h : (w.sock s).state.inTable = true)
    (hv : v.state.inTable = false) : w.settle s v = (w.rbRemove s).modify s fun _ => v := by
  simp [settle, h, hv]

theorem World.settle_sock_self : (w.settle s v).sock s = v := by
  unfold settle; split <;> simp

theorem World.settle_of_ne {s t : SockId} (v : VirtioVsock) (h : t ≠ s) : (w.settle s v).sock t = w.sock t := by
  unfold settle
  split
  · rw [modify_of_ne _ _ h]; rfl
  · rw [modify_of_ne _ _ h]

theorem World.settle_mem {w : World} {s t : SockId} {v : VirtioVsock} (hm : t ∈ w.sockets)
    (h : t = s → (w.sock s).state.inTable = true → v.state.inTable = true) : t ∈ (w.settle s v).sockets := by
  unfold settle
  split
  · rename_i hb
    rw [Bool.and_eq_true, Bool.not_eq_true'] at hb
    refine (List.mem_erase_of_ne fun hts => ?_).2 hm
    rw [h hts hb.1] at hb
    cases hb.2
  · exact hm

def VirtioVsock.closed : VirtioVsock :=
  if v.state = .WAIT_CONNECT then v.markClosed else v.drainAcceptQueue.markClosed

@[simp] theorem VirtioVsock.closed_state : v.closed.state = .CLOSED := by
  unfold closed; split <;> rfl

private theorem xmit_if (b : Bool) (hdr : VirtioVsockHdr) :
    ∃ w1, w.Quiet w1 ∧ ((if b = true then xmitHdr w hdr none else (w, .ok ())) = (w1, .ok ()) ∨
      ∃ e, e.OfXmit ∧ (∃ i, w.env i ≠ Outcome.good) ∧
        (if b = true then xmitHdr w hdr none else (w, .ok ())) = (w1, .error e)) := by
  cases b with
  | false => exact ⟨w, World.Quiet.refl w, .inl rfl⟩
  | true =>
    have hq := xmitHdr_quiet w hdr
    rcases xmitHdr_cases w hdr none with ⟨n, h⟩ | ⟨n, e, he, ⟨k, -, hk⟩, h⟩
    · rw [h] at hq
      exact ⟨_, hq, .inl (by simpa using h)⟩
    · rw [h] at hq
      exact ⟨_, hq, .inr ⟨e, he, ⟨_, hk⟩, by simpa using h⟩⟩

private theorem settle_of_drain {s : SockId} (h : (w.sock s).state ≠ .WAIT_CONNECT)
    (ht : (w.sock s).state.inTable = true) :
    ((w.modify s VirtioVsock.drainAcceptQueue).rbRemove s).modify s VirtioVsock.markClosed =
      w.settle s (w.sock s).closed := by
  rw [World.settle_of_leave ht (by simp [UkVsockState.inTable])]
  simp [World.modify, World.rbRemove, VirtioVsock.closed, h]

private theorem settle_of_wait {s : SockId} (h : (w.sock s).state = .WAIT_CONNECT) :
    (w.rbRemove s).modify s VirtioVsock.markClosed = w.settle s (w.sock s).closed := by
  rw [settle_of_leave (by simp [h, inTable]) (by simp [inTable])]
  simp [World.modify, World.rbRemove, VirtioVsock.closed, h]

/-- A close fails in its transmission, or the socket leaves the table. -/
theorem close_cases (f : Bool) :
    ∃ w1, w.Quiet w1 ∧ ((∃ e, e.OfXmit ∧ (∃ i, w.env i ≠ Outcome.good) ∧ ukVsockClose w s f = (w1, .error e)) ∨
        ((w.sock s).state.inTable = false ∧ ukVsockClose w s f = (w1, .ok ())) ∨
        ((w.sock s).state.inTable = true ∧ ukVsockClose w s f = (w1.settle s (w.sock s).closed, .ok ()))) := by
  obtain ⟨w1, hq, h | ⟨e, he, henv, h⟩⟩ := xmit_if w f ((w.sock s).hdr (w.sock s).localAddr.cid OP_RST 0 0)
  · have hv : w1.sock s = w.sock s := by rw [hq.calm.sock_eq]
    cases hst : (w.sock s).state with
    | READY | CLOSED =>
      refine ⟨w1, hq, .inr (.inl ⟨rfl, ?_⟩)⟩
      simp only [ukVsockClose, virtioVsockReset, h, hv, hst]
    | BOUND | LISTENING =>
      refine ⟨w1, hq, .inr (.inr ⟨rfl, ?_⟩)⟩
      simp only [ukVsockClose, virtioVsockReset, h, hv, hst]
      rw [settle_of_drain w1 (by simp [hv, hst]) (by simp [hv, hst, inTable]), hv]
    | OPEN =>
      -- Without a reset the peer is told, and the socket stays as it is when that fails.
      obtain ⟨w2, hq2, h2 | ⟨e, he, henv, h2⟩⟩ :=
        xmit_if w1 (!f) ((w1.sock s).hdr (w1.sock s).localAddr.cid OP_SHUTDOWN (shutdownFlags true true) 0)
      · have hv2 : w2.sock s = w.sock s := by rw [hq2.calm.sock_eq, hv]
        rw [hv] at h2
        refine ⟨w2, hq.trans hq2, .inr (.inr ⟨rfl, ?_⟩)⟩
        simp only [ukVsockClose, virtioVsockReset, virtioVsockShutdown, h, hv, hst, h2]
        rw [settle_of_drain w2 (by simp [hv2, hst]) (by simp [hv2, hst, inTable]), hv2]
      · rw [hv] at h2
        rw [hq.calm.env_eq] at henv
        refine ⟨w2, hq.trans hq2, .inl ⟨e, he, henv, ?_⟩⟩
        simp only [ukVsockClose, virtioVsockReset, virtioVsockShutdown, h, hv, hst, h2]
    | WAIT_CONNECT =>
      obtain ⟨w2, hq2, h2 | ⟨e, he, henv, h2⟩⟩ :=
        xmit_if w1 (!f) ((w1.sock s).hdr (w1.sock s).localAddr.cid OP_RST 0 0)
      · have hv2 : w2.sock s = w.sock s := by rw [hq2.calm.sock_eq, hv]
        rw [hv] at h2
        refine ⟨w2, hq.trans hq2, .inr (.inr ⟨rfl, ?_⟩)⟩
        simp only [ukVsockClose, virtioVsockReset, h, hv, hst, h2]
        rw [settle_of_wait w2 (by simp [hv2, hst]), hv2]
      · rw [hv] at h2
        rw [hq.calm.env_eq] at henv
        refine ⟨w2, hq.trans hq2, .inl ⟨e, he, henv, ?_⟩⟩
        simp only [ukVsockClose, virtioVsockReset, h, hv, hst, h2]
  · refine ⟨w1, hq, .inl ⟨e, he, henv, ?_⟩⟩
    simp only [ukVsockClose, virtioVsockReset, h]

/-- Memory for the next packet is available, and its transmission does not fail. -/
def World.Transmits : Prop := (w.env w.tick).alloc = true ∧ (w.env (w.tick + 1)).xmit = none

theorem xmitHdr_ok_iff (a : Option Nat) : (xmitHdr w hdr a).2 = .ok () ↔ w.Transmits := by
  unfold World.Transmits xmitHdr
  dsimp only [ukMalloc, outcome]
  cases (w.env w.tick).alloc with
  | false => simp
  | true =>
    simp only [virtioVsockdevXmitRetry, true_and]
    show _ ↔ w.advance.outcome.xmit = none
    cases w.advance.outcome.xmit <;> simp

/-- A close of a connection succeeds exactly if its reset can be sent. -/
theorem close_ok_iff :
    (ukVsockClose w s false).2 = .ok () ↔
    ((w.sock s).state = .OPEN ∨ (w.sock s).state = .WAIT_CONNECT → w.Transmits) := by
  cases hs : (w.sock s).state with
  | READY | CLOSED | BOUND | LISTENING => simp [ukVsockClose, hs]
  | OPEN =>
    have hx : (virtioVsockShutdown w s true true).2 = .ok () ↔ w.Transmits := xmitHdr_ok_iff w _ none
    rw [← hx]
    cases hr : virtioVsockShutdown w s true true with
    | mk w1 r => cases r <;> simp [ukVsockClose, hs, hr]
  | WAIT_CONNECT =>
    have hx : (virtioVsockReset w s).2 = .ok () ↔ w.Transmits := xmitHdr_ok_iff w _ none
    rw [← hx]
    cases hr : virtioVsockReset w s with
    | mk w1 r => cases r <;> simp [ukVsockClose, hs, hr]

/-- A socket after the credit fields of a packet for it have been stored, if they are. -/
def VirtioVsock.credited (hdr : VirtioVsockHdr) : VirtioVsock :=
  if storesCredit hdr then v.credit hdr else v

def VirtioVsock.enqueue (entry : AcceptEntry) : VirtioVsock :=
  { v with
    acceptQueue := v.acceptQueue ++ [entry]
    acceptQueueLength := v.acceptQueueLength + 1 }.eventSet EPOLLIN

def VirtioVsockHdr.entry (hdr : VirtioVsockHdr) (req : Nat) : AcceptEntry :=
  ⟨⟨hdr.srcCid.setWidth 32, hdr.srcPort⟩, hdr.bufAlloc, hdr.fwdCnt, req⟩

def VirtioVsock.refused : VirtioVsock := { v.resetEvents with soError := some .ECONNREFUSED }

/-- Does a `SHUTDOWN` packet say that its sender does not receive any more? -/
def VirtioVsockHdr.shutRx (hdr : VirtioVsockHdr) : Bool := hdr.flags &&& SHUTDOWN_F_RECEIVE != 0

/-- Does a `SHUTDOWN` packet say that its sender does not send any more? -/
def VirtioVsockHdr.shutTx (hdr : VirtioVsockHdr) : Bool := hdr.flags &&& SHUTDOWN_F_SEND != 0

inductive Handled (pkt : Packet) (v : VirtioVsock) : VirtioVsock → Prop
  | same : Handled pkt v v
  | request (req : Nat) (ho : pkt.hdr.op = OP_REQUEST) (hs : v.state = .LISTENING)
      (hl : v.acceptQueueLength < v.acceptQueueLimit) : Handled pkt v (v.enqueue (pkt.hdr.entry req))
  | response (ho : pkt.hdr.op = OP_RESPONSE) (hs : v.state = .WAIT_CONNECT) :
      Handled pkt v ({ v with state := .OPEN }.eventSet EPOLLOUT)
  | badResponse (ho : pkt.hdr.op = OP_RESPONSE) (hs : v.state = .BOUND ∨ v.state = .OPEN) : Handled pkt v v.closed
  | resetEvents (ho : pkt.hdr.op = OP_RST) (hs : v.state = .READY ∨ v.state = .BOUND ∨ v.state = .CLOSED) :
      Handled pkt v v.resetEvents
  | refused (ho : pkt.hdr.op = OP_RST) (hs : v.state = .WAIT_CONNECT) : Handled pkt v v.refused
  | resetWait (ho : pkt.hdr.op = OP_RST) (hs : v.state = .WAIT_CONNECT) :
      Handled pkt v { v.refused with state := .READY }
  | resetOpen (ho : pkt.hdr.op = OP_RST) (hs : v.state = .OPEN) :
      Handled pkt v { v.resetEvents with state := .READY }
  | shutdown (ho : pkt.hdr.op = OP_SHUTDOWN) (hs : v.state = .OPEN) :
      Handled pkt v (v.shutdownBy pkt.hdr.shutRx pkt.hdr.shutTx)
  | shutdownClose (ho : pkt.hdr.op = OP_SHUTDOWN) (hs : v.state = .OPEN)
      (hb : (v.shutdownBy pkt.hdr.shutRx pkt.hdr.shutTx).rxShutdown = true ∧
        (v.shutdownBy pkt.hdr.shutRx pkt.hdr.shutTx).txShutdown = true) :
      Handled pkt v (v.shutdownBy pkt.hdr.shutRx pkt.hdr.shutTx).closed
  | payload (rx : UkVsockBuffer) (ho : pkt.hdr.op = OP_RW) (hs : v.state = .OPEN)
      (ha : ukVsockBufferAppend v.rx [pkt.payload] = .ok rx) :
      Handled pkt v ({ v with rx := rx }.eventSet EPOLLIN)

theorem World.settle_self (w : World) (s : SockId) : w.settle s (w.sock s) = w := by
  rw [settle_of_keep id]
  simp [modify]

variable {w : World} {s : SockId} {pkt : Packet} {hdr : VirtioVsockHdr}

private theorem World.settle_modify {f : VirtioVsock → VirtioVsock} {v : VirtioVsock}
    (h : (f (w.sock s)).state = (w.sock s).state) : (w.modify s f).settle s v = w.settle s v := by
  unfold settle
  rw [modify_self, h]
  split <;> simp [modify, rbRemove]

@[simp] theorem VirtioVsock.credited_state (hdr : VirtioVsockHdr) : (v.credited hdr).state = v.state := by
  unfold credited credit notifyWritable
  split
  · dsimp only; split <;> rfl
  · rfl

theorem VirtioVsock.credited_request (h : hdr.op = OP_REQUEST) : v.credited hdr = v := by
  simp [credited, storesCredit, h]

theorem VirtioVsock.credited_shutdown (h : hdr.op = OP_SHUTDOWN) : v.credited hdr = v := by
  simp [credited, storesCredit, h, OP_SHUTDOWN, val]

theorem World.modify_credited (w : World) (s : SockId) (h : ∀ v : VirtioVsock, v.credited hdr = v) :
    w.modify s (·.credited hdr) = w := by
  simp [modify, h]

@[simp] theorem VirtioVsock.resetEvents_state : v.resetEvents.state = v.state := rfl

@[simp] theorem VirtioVsock.shutdownBy_state (rx tx : Bool) : (v.shutdownBy rx tx).state = v.state := by
  cases rx <;> cases tx <;> rfl

private theorem connResponse_handled (ho : pkt.hdr.op = OP_RESPONSE) (hl : (w.sock s).state ≠ .LISTENING) :
    ∃ w1 v', w.Quiet w1 ∧ Handled pkt (w.sock s) v' ∧ (ukVsockConnResponse w s).1 = w1.settle s v' := by
  by_cases hs : (w.sock s).state = .WAIT_CONNECT
  · refine ⟨w, _, World.Quiet.refl w, .response ho hs, ?_⟩
    rw [settle_of_keep fun _ => rfl]
    simp [ukVsockConnResponse, hs, World.modify]
  · obtain ⟨w1, hq, ⟨e, -, -, h⟩ | ⟨-, h⟩ | ⟨ht, h⟩⟩ := close_cases w s true
    · refine ⟨w1, _, hq, .same, ?_⟩
      rw [← hq.calm.sock_eq, settle_self]
      simp [ukVsockConnResponse, hs, h]
    · refine ⟨w1, _, hq, .same, ?_⟩
      rw [← hq.calm.sock_eq, settle_self]
      simp [ukVsockConnResponse, hs, h]
    · refine ⟨w1, _, hq, .badResponse ho ?_, by simp [ukVsockConnResponse, hs, h]⟩
      cases hst : (w.sock s).state <;> simp_all [UkVsockState.inTable]

private theorem connReset_handled (ho : pkt.hdr.op = OP_RST) (hl : (w.sock s).state ≠ .LISTENING) :
    ∃ w1 v', w.Quiet w1 ∧ Handled pkt (w.sock s) v' ∧ (ukVsockConnReset w s).1 = w1.settle s v' := by
  cases hs : (w.sock s).state with
  | LISTENING => exact absurd hs hl
  | READY | BOUND | CLOSED =>
    refine ⟨w, _, World.Quiet.refl w, .resetEvents ho (by simp [hs]), ?_⟩
    rw [settle_of_keep (by exact id)]
    simp [ukVsockConnReset, hs, World.modify]
  | OPEN =>
    refine ⟨w, _, World.Quiet.refl w, .resetOpen ho hs, ?_⟩
    rw [settle_of_leave (by simp [hs, UkVsockState.inTable]) rfl]
    simp [ukVsockConnReset, hs, World.modify, World.rbRemove]
  | WAIT_CONNECT =>
    have hm : (w.modify s VirtioVsock.resetEvents).modify s (fun v => { v with soError := some .ECONNREFUSED }) =
        w.modify s VirtioVsock.refused := by
      simp [World.modify, VirtioVsock.refused]
    have hst : ((w.modify s VirtioVsock.resetEvents).sock s).state = .WAIT_CONNECT := by
      rw [modify_self]; exact hs
    have hq := reset_quiet (w.modify s VirtioVsock.refused) s
    cases hr : virtioVsockReset (w.modify s VirtioVsock.refused) s with
    | mk w1 r =>
      rw [hr] at hq
      obtain ⟨w2, hq2, rfl⟩ := hq.of_modify
      have hv : w2.sock s = w.sock s := by rw [hq2.calm.sock_eq]
      cases r with
      | error e =>
        refine ⟨w2, _, hq2, .refused ho hs, ?_⟩
        rw [settle_of_keep (by rw [hv]; exact id)]
        simp only [ukVsockConnReset, hst, hm, hr]
        simp [World.modify, hv]
      | ok u =>
        refine ⟨w2, _, hq2, .resetWait ho hs, ?_⟩
        rw [settle_of_leave (by simp [hv, hs, UkVsockState.inTable]) rfl]
        simp only [ukVsockConnReset, hst, hm, hr]
        simp [World.modify, World.rbRemove, hv]

/-- A shutdown is for an open socket, which it may close. -/
theorem shutdown_cases (w : World) (s : SockId) (rx tx : Bool) :
    ∃ w1, w.Quiet w1 ∧ ((w.sock s).state ≠ .OPEN ∧ (ukVsockConnShutdown w s rx tx).1 = w1 ∨ (w.sock s).state = .OPEN ∧
      ((ukVsockConnShutdown w s rx tx).1 = w1.settle s ((w.sock s).shutdownBy rx tx) ∨
        ((w.sock s).shutdownBy rx tx).rxShutdown = true ∧ ((w.sock s).shutdownBy rx tx).txShutdown = true ∧
          (ukVsockConnShutdown w s rx tx).1 = w1.settle s ((w.sock s).shutdownBy rx tx).closed)) := by
  by_cases hs : (w.sock s).state = .OPEN
  swap
  · exact ⟨w, World.Quiet.refl w, .inl ⟨hs, by simp [ukVsockConnShutdown, hs]⟩⟩
  have hkeep (w1 : World) (h1 : w.Quiet w1) : w1.modify s (fun v => v.shutdownBy rx tx) =
      w1.settle s ((w.sock s).shutdownBy rx tx) := by
    rw [← h1.calm.sock_eq, settle_of_keep (by simp)]
    simp [World.modify]
  by_cases hb : ((w.sock s).shutdownBy rx tx).rxShutdown = true ∧ ((w.sock s).shutdownBy rx tx).txShutdown = true
  · have hcl : ukVsockConnShutdown w s rx tx = ukVsockClose (w.modify s fun v => v.shutdownBy rx tx) s false := by
      simp [ukVsockConnShutdown, hs, hb.1, hb.2]
    rw [hcl]
    obtain ⟨w1, hq, ⟨e, -, -, h⟩ | ⟨-, h⟩ | ⟨-, h⟩⟩ :=
      close_cases (w.modify s fun v => v.shutdownBy rx tx) s false
    all_goals
      obtain ⟨w2, hq2, rfl⟩ := hq.of_modify
      refine ⟨w2, hq2, .inr ⟨hs, ?_⟩⟩
      rw [h]
    · exact .inl (hkeep w2 hq2)
    · exact .inl (hkeep w2 hq2)
    · refine .inr ⟨hb.1, hb.2, ?_⟩
      rw [settle_modify (by simp), modify_self]
  · refine ⟨w, World.Quiet.refl w, .inr ⟨hs, .inl ?_⟩⟩
    rw [← hkeep w (World.Quiet.refl w)]
    have hb' : (((w.sock s).shutdownBy rx tx).rxShutdown && ((w.sock s).shutdownBy rx tx).txShutdown) = false := by
      simpa using hb
    simp [ukVsockConnShutdown, hs, hb']

private theorem rxHandler_handled (pkt : Packet) (hl : (w.sock s).state ≠ .LISTENING) :
    ∃ w1 v', w.Quiet w1 ∧ Handled pkt (w.sock s) v' ∧ (rxHandler w s pkt).1 = w1.settle s v' := by
  have hsame (w1 : World) (hq : w.Quiet w1) : ∃ w2 v', w.Quiet w2 ∧ Handled pkt (w.sock s) v' ∧ w1 = w2.settle s v' :=
    ⟨w1, _, hq, .same, by rw [← hq.calm.sock_eq, settle_self]⟩
  unfold rxHandler
  by_cases h1 : pkt.hdr.op = OP_REQUEST
  · rw [if_pos h1]
    exact hsame w (World.Quiet.refl w)
  rw [if_neg h1]
  by_cases h2 : pkt.hdr.op = OP_RESPONSE
  · rw [if_pos h2]
    exact connResponse_handled h2 hl
  rw [if_neg h2]
  by_cases h3 : pkt.hdr.op = OP_RST
  · rw [if_pos h3]
    exact connReset_handled h3 hl
  rw [if_neg h3]
  by_cases h4 : pkt.hdr.op = OP_SHUTDOWN
  · rw [if_pos h4]
    obtain ⟨w1, hq, ⟨-, h⟩ | ⟨hs, h | ⟨hr, ht, h⟩⟩⟩ := shutdown_cases w s
      pkt.hdr.shutRx pkt.hdr.shutTx
    · exact (hsame w1 hq).imp fun w2 h2 => h2.imp fun v' h3 => ⟨h3.1, h3.2.1, h.trans h3.2.2⟩
    · exact ⟨w1, _, hq, .shutdown h4 hs, h⟩
    · exact ⟨w1, _, hq, .shutdownClose h4 hs ⟨hr, ht⟩, h⟩
  rw [if_neg h4]
  by_cases h5 : pkt.hdr.op = OP_RW
  · rw [if_pos h5]
    by_cases hs : (w.sock s).state = .OPEN
    · cases ha : ukVsockBufferAppend (w.sock s).rx [pkt.payload] with
      | error e => simpa [ukVsockRxPayload, hs, ha] using hsame w (World.Quiet.refl w)
      | ok rx =>
        refine ⟨w, _, World.Quiet.refl w, .payload rx h5 hs ha, ?_⟩
        rw [settle_of_keep (by exact id)]
        simp [ukVsockRxPayload, hs, ha, World.modify]
    · simpa [ukVsockRxPayload, hs] using hsame w (World.Quiet.refl w)
  rw [if_neg h5]
  split
  · exact hsame _ (creditRequest_quiet w s)
  · exact hsame w (World.Quiet.refl w)

/-- The state once a connection request has been noted and memory for its entry was asked for. -/
def World.noted (w : World) (s : SockId) (hdr : VirtioVsockHdr) : World :=
  { w with requests := w.requests ++ [(s, hdr)], tick := w.tick + 1 }

private theorem World.calm_noted (w : World) (s : SockId) (hdr : VirtioVsockHdr) : w.Calm (w.noted s hdr) :=
  ⟨rfl, rfl, rfl, rfl, rfl, rfl, rfl⟩

/-- A request is dropped, rejected, or queued. -/
theorem request_cases (hdr : VirtioVsockHdr) (hs : (w.sock s).state = .LISTENING) :
    (w.outcome.alloc = false ∧ (virtioVsockdevWorkConnRequest w s hdr).1 = w.noted s hdr) ∨
    ((w.sock s).acceptQueueLimit ≤ (w.sock s).acceptQueueLength ∧ (virtioVsockdevWorkConnRequest w s hdr).1 =
      virtioVsockdevRejectConn (w.noted s hdr) s (hdr.entry w.requests.length)) ∨
    ((w.sock s).acceptQueueLength < (w.sock s).acceptQueueLimit ∧ (virtioVsockdevWorkConnRequest w s hdr).1 =
      (w.noted s hdr).modify s (·.enqueue (hdr.entry w.requests.length))) := by
  unfold virtioVsockdevWorkConnRequest
  dsimp only [ukMalloc, outcome]
  cases ha : (w.env w.tick).alloc with
  | false => exact .inl ⟨rfl, rfl⟩
  | true =>
    refine .inr ?_
    by_cases hl : (w.sock s).acceptQueueLimit ≤ (w.sock s).acceptQueueLength
    · refine .inl ⟨hl, ?_⟩
      simp only [ukVsockConnRequest, advance, hs, hl, ne_eq, not_true_eq_false, if_false, if_true]
      rfl
    · refine .inr ⟨by omega, ?_⟩
      simp only [ukVsockConnRequest, advance, hs, hl, ne_eq, not_true_eq_false, if_false]
      rfl

private theorem workConnRequest_handled (ho : pkt.hdr.op = OP_REQUEST) (hs : (w.sock s).state = .LISTENING) :
    ∃ w1 v', w.Calm w1 ∧ Handled pkt (w.sock s) v' ∧ (virtioVsockdevWorkConnRequest w s pkt.hdr).1 =
    w1.settle s v' := by
  have hn := w.calm_noted s pkt.hdr
  rcases request_cases pkt.hdr hs with ⟨-, h⟩ | ⟨-, h⟩ | ⟨hl, h⟩
  · exact ⟨_, _, hn, .same, h.trans (settle_self (w.noted s pkt.hdr) s).symm⟩
  · have hr := hn.trans (rejectConn_calm (w.noted s pkt.hdr) s (pkt.hdr.entry w.requests.length))
    refine ⟨_, _, hr, .same, h.trans ?_⟩
    rw [← hr.sock_eq]
    exact (settle_self _ s).symm
  · refine ⟨_, _, hn, .request w.requests.length ho hs hl, h.trans ?_⟩
    rw [settle_of_keep (by exact id)]
    rfl

theorem workRx_of_target (ht : rxTarget w pkt = some s) :
    virtioVsockdevWorkRx w pkt = if (w.sock s).state = .LISTENING then
        if pkt.hdr.op = OP_REQUEST then virtioVsockdevWorkConnRequest (w.modify s (·.credited pkt.hdr)) s pkt.hdr
        else (w.modify s (·.credited pkt.hdr), .ok ()) else rxHandler (w.modify s (·.credited pkt.hdr)) s pkt := by
  have hc : (if storesCredit pkt.hdr then w.modify s (·.credit pkt.hdr) else w) =
    w.modify s (·.credited pkt.hdr) := by
    unfold credited
    split
    · rfl
    · simp [World.modify]
  simp only [virtioVsockdevWorkRx, ht, hc, modify_self, credited_state]

theorem workRx_of_request (ht : rxTarget w pkt = some s) (hs : (w.sock s).state = .LISTENING)
    (ho : pkt.hdr.op = OP_REQUEST) : virtioVsockdevWorkRx w pkt = virtioVsockdevWorkConnRequest w s pkt.hdr := by
  have hid := w.modify_credited s (·.credited_request ho)
  rw [workRx_of_target ht, if_pos hs, if_pos ho, hid]

/-- A packet is dropped, or handled for the socket it is for. -/
theorem workRx_cases (w : World) (pkt : Packet) :
    (rxTarget w pkt = none ∧ (virtioVsockdevWorkRx w pkt).1 = w) ∨ ∃ s w1 v', rxTarget w pkt = some s ∧ w.Calm w1 ∧
      (¬ (pkt.hdr.op = OP_REQUEST ∧ (w.sock s).state = .LISTENING) → w.Quiet w1) ∧
      Handled pkt ((w.sock s).credited pkt.hdr) v' ∧ (virtioVsockdevWorkRx w pkt).1 = w1.settle s v' := by
  cases ht : rxTarget w pkt with
  | none => exact .inl ⟨rfl, by simp [virtioVsockdevWorkRx, ht]⟩
  | some s =>
    refine .inr ⟨s, ?_⟩
    rw [workRx_of_target ht]
    split
    · rename_i hs
      split
      · rename_i ho
        have hid := w.modify_credited s (·.credited_request ho)
        obtain ⟨w1, v', hc', hh, h⟩ := workConnRequest_handled ho hs
        rw [credited_request _ ho, hid]
        exact ⟨w1, v', rfl, hc', fun hn => absurd ⟨ho, hs⟩ hn, hh, h⟩
      · refine ⟨w, _, rfl, World.Calm.refl w, fun _ => World.Quiet.refl w, .same, ?_⟩
        rw [settle_of_keep (by simp)]
        rfl
    · rename_i hs
      obtain ⟨w1, v', hq, hh, h⟩ := rxHandler_handled (w := w.modify s (·.credited pkt.hdr)) (s := s) pkt
        (by simpa using hs)
      obtain ⟨w2, hq2, rfl⟩ := hq.of_modify
      rw [modify_self] at hh
      refine ⟨w2, v', rfl, hq2.calm, fun _ => hq2, hh, ?_⟩
      rw [h, settle_modify (by simp)]

end Unikraft.Vsock
