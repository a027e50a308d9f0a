import Unikraft.Vsock.Connect

/-!
# Read and write readiness

`EPOLLIN` is meant to be set exactly if `recvfrom` or `accept` would not return `-EAGAIN`. But shutting down the
receiving direction or closing the socket does not set it, and a read that empties the buffer clears it; it is set for
an empty payload, stays when an `accept` fails, and is not cleared in `listen`. `EPOLLOUT` is meant to be set if the
connection is open and the peer has room, and not when a send would fail for lack of credit. But an accepted socket
starts without it, a send that uses up the window leaves it set, an empty buffer clears it, and a `RESPONSE` always
sets it.
-/

namespace Unikraft.Vsock

open PollEvents Runs VirtioVsock

/-- The event `EPOLLIN` tells what `recvfrom` and `accept` would do. -/
structure ReadReady (w : World) (s : SockId) : Prop where
  recv : ∀ e ∈ (w.sock s).posixSock, (w.sock s).state = .OPEN ∨ (w.sock s).state = .CLOSED → ∀ len, len ≠ 0 →
    ((vsockRecvfrom w s len false).2 ≠ .error .EAGAIN ↔ e.epollIn = true)
  accept : ∀ e ∈ (w.sock s).posixSock, (w.sock s).state = .LISTENING →
    ((vsockAccept4 w s false none).2 ≠ .error .EAGAIN ↔ e.epollIn = true)

def VirtioVsock.readable (v : VirtioVsock) : Bool :=
  if v.state = .LISTENING then !v.acceptQueue.isEmpty else decide (v.rx.count ≠ 0) || v.rxShutdown

def VirtioVsock.ReadOk (v : VirtioVsock) : Prop := ∀ e ∈ v.posixSock, e.epollIn = v.readable

variable {w : World} {s : SockId}

/-- A read would block exactly if the socket is not readable. -/
theorem recvfrom_eagain_iff {len : Nat} (hl : len ≠ 0) (hs : (w.sock s).state = .OPEN ∨ (w.sock s).state = .CLOSED) :
    (vsockRecvfrom w s len false).2 = .error .EAGAIN ↔ (w.sock s).readable = false := by
  have hlen := bufferRead_length (w.sock s).rx len
  have hnl : (w.sock s).state ≠ .LISTENING := by rcases hs with hs | hs <;> simp [hs]
  have hg : ¬ ((w.sock s).state ≠ .OPEN ∧ (w.sock s).state ≠ .CLOSED) := by rcases hs with hs | hs <;> simp [hs]
  unfold vsockRecvfrom readable
  rw [if_neg (by simp), if_neg hg, if_neg hnl]
  by_cases he : (ukVsockBufferRead (w.sock s).rx len).length = 0 ∧ (w.sock s).rxShutdown = false
  · rw [if_pos he]
    have : (w.sock s).rx.count = 0 := by omega
    simp [this, he.2]
  · rw [if_neg he]
    have hc : (w.sock s).rx.count ≠ 0 ∨ (w.sock s).rxShutdown = true := by
      by_cases hc : (w.sock s).rx.count = 0
      · exact .inr (by simpa [hlen, hc] using he)
      · exact .inl hc
    rcases hc with hc | hc <;> simp [hc]

/-- An accept would block exactly if the socket is not readable. -/
theorem accept_eagain_iff (hs : (w.sock s).state = .LISTENING) :
    (vsockAccept4 w s false none).2 = .error .EAGAIN ↔ (w.sock s).readable = false := by
  unfold vsockAccept4 readable
  rw [if_neg (by simp), if_neg (by simp [hs]), if_pos hs]
  cases hq : (w.sock s).acceptQueue with
  | nil => simp
  | cons entry queue =>
    rcases accept_cases (w.modify s (·.popped queue)) s entry with ⟨w1, e, -, -, hx, h⟩ | ⟨n, h⟩
    · simp only [popped] at h
      simp only [h]
      rcases hx with rfl | rfl | rfl <;> simp
    · simp only [popped] at h
      simp only [h]
      simp

private theorem VirtioVsock.ReadOk.readReady (h : (w.sock s).ReadOk) : ReadReady w s := by
  refine ⟨fun e he hs len hl => ?_, fun e he hs => ?_⟩
  · rw [Ne, recvfrom_eagain_iff hl hs, h e he, Bool.not_eq_false]
  · rw [Ne, accept_eagain_iff hs, h e he, Bool.not_eq_false]

def ReadSafe (w : World) : Op → Prop
  | .rx pkt => ∀ s, rxTarget w pkt = some s →
      (pkt.hdr.op = OP_SHUTDOWN ∧ (w.sock s).state = .OPEN ∧ pkt.hdr.shutTx = true) ∨
      (pkt.hdr.op = OP_RESPONSE ∧ ((w.sock s).state = .BOUND ∨ (w.sock s).state = .OPEN)) ∨
      (pkt.hdr.op = OP_RW ∧ (w.sock s).state = .OPEN ∧ pkt.payload = []) → (w.sock s).readable = true
  | .shutdown s how => (w.sock s).state = .OPEN → ∀ rx, shutHow how = some (rx, true) → (w.sock s).readable = true
  | .term => ∀ s, w.live s = true → (w.sock s).termCloses = true → (w.sock s).readable = true
  | .read s iov => (w.sock s).rxShutdown = true → iov.sum < (w.sock s).rx.count
  | .recvfrom s len _ => (w.sock s).rxShutdown = true → len < (w.sock s).rx.count
  | .listen s _ => (w.sock s).state = .READY ∨ (w.sock s).state = .BOUND → (w.sock s).readable = false
  | .accept s _ _ => (w.sock s).acceptQueue.length = 1 → ∀ k < 4, w.env (w.tick + k) = Outcome.good
  | _ => True

section
variable {v v' : VirtioVsock}

section
variable (h : v.ReadOk)
include h

private theorem VirtioVsock.ReadOk.map (f : PollEvents → PollEvents) (hp : v'.posixSock = v.posixSock.map f)
    (hf : ∀ e, e.epollIn = v.readable → (f e).epollIn = v'.readable) : v'.ReadOk := by
  unfold VirtioVsock.ReadOk
  rw [hp, Option.forall_mem_map]
  intro e he
  exact hf e (h e he)

private theorem VirtioVsock.ReadOk.frame (f : PollEvents → PollEvents) (hp : v'.posixSock = v.posixSock.map f)
    (hf : ∀ e, (f e).epollIn = e.epollIn) (hs : v'.state = .LISTENING ↔ v.state = .LISTENING)
    (hq : v'.acceptQueue = v.acceptQueue) (hx : v'.rx.count = v.rx.count) (hr : v'.rxShutdown = v.rxShutdown) :
    v'.ReadOk := by
  have hread : v'.readable = v.readable := by simp [readable, hs, hq, hx, hr]
  refine h.map f hp fun e he => ?_
  rw [hf, he, hread]

private theorem VirtioVsock.ReadOk.closed (hr : v.readable = true) : v.closed.ReadOk := by
  refine h.map (fun e => (e.clear EPOLLOUT).or EPOLLHUP) (by rw [closed_eq]) fun e he => ?_
  rw [hr] at he
  simp [closed_eq, VirtioVsock.readable, PollEvents.or, PollEvents.clear, EPOLLOUT, EPOLLHUP, he]

private theorem VirtioVsock.ReadOk.shutdownBy (hs : v.state = .OPEN) (rx : Bool) {tx : Bool}
    (hr : tx = true → v.readable = true) : (v.shutdownBy rx tx).ReadOk ∧
      ((v.shutdownBy rx tx).rxShutdown = true → (v.shutdownBy rx tx).readable = true) := by
  have hread : (v.shutdownBy rx tx).readable = v.readable := by
    cases tx with
    | false => simp [VirtioVsock.readable, shutdownBy_eq]
    | true =>
      rw [hr rfl]
      simp [VirtioVsock.readable, shutdownBy_eq, hs]
  refine ⟨?_, fun h => by simp [VirtioVsock.readable, h, hs]⟩
  refine h.map (fun e => (if rx then e.clear EPOLLOUT else e).or (if tx then EPOLLRDHUP else {}))
    (by rw [shutdownBy_eq]) fun e he => ?_
  rw [hread, ← he]
  cases rx <;> cases tx <;> simp [PollEvents.or, PollEvents.clear, EPOLLOUT, EPOLLRDHUP]

private theorem VirtioVsock.ReadOk.credited (hdr : VirtioVsockHdr) : (v.credited hdr).ReadOk := by
  by_cases hst : storesCredit hdr
  · refine h.frame (fun e => if 0 < hdr.bufAlloc - (v.txCount - hdr.fwdCnt) then e.or EPOLLOUT else e.clear EPOLLOUT)
      ?_ (fun e => ?_) ?_ ?_ ?_ ?_
    · simp [credited_eq, hst]
    · split <;> simp [PollEvents.or, PollEvents.clear, EPOLLOUT]
    all_goals simp [credited_eq]
  · rw [VirtioVsock.credited, if_neg hst]
    exact h

end

@[simp] theorem VirtioVsock.readable_credited (v : VirtioVsock) (hdr : VirtioVsockHdr) :
    (v.credited hdr).readable = v.readable := by
  simp [readable, credited_eq]

private theorem VirtioVsock.ReadOk.handled {pkt : Packet} (h : v.ReadOk) (hh : Handled pkt v v')
    (hsafe : (pkt.hdr.op = OP_SHUTDOWN ∧ v.state = .OPEN ∧ pkt.hdr.shutTx = true) ∨
      (pkt.hdr.op = OP_RESPONSE ∧ (v.state = .BOUND ∨ v.state = .OPEN)) ∨
      (pkt.hdr.op = OP_RW ∧ v.state = .OPEN ∧ pkt.payload = []) → v.readable = true) : v'.ReadOk := by
  have hreset (v' : VirtioVsock) (hp : v'.posixSock = v.resetEvents.posixSock)
      (hs : v'.state = .LISTENING ↔ v.state = .LISTENING) (hq : v'.acceptQueue = v.acceptQueue) (hx : v'.rx = v.rx)
      (hr : v'.rxShutdown = v.rxShutdown) : v'.ReadOk :=
    h.frame (fun e => (e.clear EPOLLOUT).or ((EPOLLERR.or EPOLLHUP).or EPOLLRDHUP))
      (hp.trans (by rw [resetEvents_eq]))
      (fun e => by simp [PollEvents.or, PollEvents.clear, EPOLLOUT, EPOLLERR, EPOLLHUP, EPOLLRDHUP]) hs hq
      (by rw [hx]) hr
  cases hh with
  | same => exact h
  | request req ho hs hl =>
    refine h.map (·.or EPOLLIN) rfl fun e _ => ?_
    simp [VirtioVsock.readable, VirtioVsock.enqueue, VirtioVsock.eventSet, PollEvents.or, EPOLLIN, hs]
  | response ho hs =>
    exact h.frame (·.or EPOLLOUT) rfl (fun e => by simp [PollEvents.or, EPOLLOUT])
      (by simp [VirtioVsock.eventSet, hs]) rfl rfl rfl
  | badResponse ho hs => exact h.closed (hsafe (.inr (.inl ⟨ho, hs⟩)))
  | resetEvents | refused => exact hreset _ rfl Iff.rfl rfl rfl rfl
  | resetWait ho hs | resetOpen ho hs => exact hreset _ rfl (by simp [hs]) rfl rfl rfl
  | shutdown ho hs => exact (h.shutdownBy hs _ fun ht => hsafe (.inl ⟨ho, hs, ht⟩)).1
  | shutdownClose ho hs hb =>
    obtain ⟨hok, hr⟩ := h.shutdownBy hs pkt.hdr.shutRx fun ht => hsafe (.inl ⟨ho, hs, ht⟩)
    exact hok.closed (hr hb.1)
  | payload rx ho hs ha =>
    -- The handler sets the event whatever the payload is.
    refine h.map (·.or EPOLLIN) rfl fun e _ => ?_
    have hcount := count_append ha
    have hread : rx.count ≠ 0 ∨ v.rxShutdown = true := by
      by_cases hp : pkt.payload = []
      · have hv := hsafe (.inr (.inr ⟨ho, hs, hp⟩))
        simpa [VirtioVsock.readable, hs, hcount, hp] using hv
      · have := List.length_pos_of_ne_nil hp
        exact .inl (by simp only [hcount, List.flatten_singleton]; omega)
    simpa [VirtioVsock.readable, VirtioVsock.eventSet, PollEvents.or, EPOLLIN, hs] using hread

private theorem VirtioVsock.ReadOk.readBytes (h : v.ReadOk) (hs : v.state = .OPEN ∨ v.state = .CLOSED) {n : Nat}
    (hn : v.rxShutdown = true → n < v.rx.count) : (v.readBytes n).clearIfEmpty.ReadOk := by
  have hnl : v.state ≠ .LISTENING := by rcases hs with hs | hs <;> simp [hs]
  have hcount : (v.readBytes n).rx.count = v.rx.count - n := rfl
  have hread : (v.readBytes n).clearIfEmpty.readable = (decide (v.rx.count - n ≠ 0) || v.rxShutdown) := by
    rw [clearIfEmpty_eq]
    exact if_neg hnl
  refine h.map (fun e => if v.rx.count - n = 0 then e.clear EPOLLIN else e) ?_ fun e he => ?_
  · rw [clearIfEmpty_eq]
    simp only [hcount]
    split <;> simp [VirtioVsock.readBytes]
  · rw [hread]
    by_cases h0 : v.rx.count - n = 0
    · have hr : v.rxShutdown = false := by
        cases hr : v.rxShutdown with
        | false => rfl
        | true => have := hn hr; omega
      simp [h0, hr, clear, EPOLLIN]
    · have hc : v.rx.count ≠ 0 := by omega
      simp [h0, he, readable, hnl, hc]

private theorem VirtioVsock.ReadOk.rename (h : v.ReadOk) (hs : v.state ≠ .LISTENING) (hs' : v'.state ≠ .LISTENING)
    (hp : v'.posixSock = v.posixSock) (hq : v'.acceptQueue = v.acceptQueue) (hx : v'.rx = v.rx)
    (hr : v'.rxShutdown = v.rxShutdown) : v'.ReadOk :=
  h.frame id (by simp [hp]) (fun _ => rfl) (by simp [hs, hs']) hq (by rw [hx]) hr

private theorem VirtioVsock.ReadOk.listening (h : v.ReadOk) (hq : v.acceptQueue = []) (hr : v.readable = false)
    (backlog : Int) : (v.listening backlog).ReadOk := by
  refine h.map id (by simp [VirtioVsock.listening]) fun e he => ?_
  rw [hr] at he
  simp [VirtioVsock.readable, VirtioVsock.listening, hq, he]

variable {op : Op}

private theorem VirtioVsock.ReadOk.change (h : (w.sock s).ReadOk) (hqueue : (w.sock s).QueueOk) (hl : w.live s = true)
    (hsafe : ReadSafe w op) (hop : op ≠ .close s) (hch : Change w op s (w.sock s) v') : v'.ReadOk := by
  cases hch with
  | rx ht hh =>
    refine (h.credited _).handled hh fun hc => ?_
    rw [credited_state] at hc
    rw [readable_credited]
    exact hsafe s ht hc
  | term hc => exact h.closed (hsafe s hl hc)
  | close => exact absurd rfl hop
  | @shutdown _ _ _ rx tx hh hs =>
    have hr : tx = true → (w.sock s).readable = true := by
      rintro rfl
      exact hsafe hs rx hh
    exact (h.shutdownBy hs rx hr).1
  | @shutdownClose _ _ _ rx tx hh hs hb =>
    have hr : tx = true → (w.sock s).readable = true := by
      rintro rfl
      exact hsafe hs rx hh
    exact (h.shutdownBy hs rx hr).1.closed ((h.shutdownBy hs rx hr).2 hb.1)
  | getsockopt => exact h.frame id (by simp) (fun _ => rfl) Iff.rfl rfl rfl rfl
  | write | sendto => exact h.frame id (by simp [sentBytes]) (fun _ => rfl) Iff.rfl rfl rfl rfl
  | writeEmpty | sendtoEmpty =>
    exact h.frame (·.clear EPOLLOUT) rfl (fun e => by simp [clear, EPOLLOUT]) Iff.rfl rfl rfl rfl
  | read hs hn hle => exact h.readBytes hs fun hr => Nat.lt_of_le_of_lt hle (hsafe hr)
  | recvfrom hs hn h0 =>
    refine h.readBytes hs fun hr => ?_
    have := hsafe hr
    omega
  | bind hs | connectPortless hs | connectUndone hs =>
    exact h.rename (by simp [hs]) (by simp [hs, bound, portless]) rfl rfl rfl rfl
  | listen hs =>
    rcases hs with hs | hs
    · exact h.listening (hqueue.idle (by simp [hs])) (hsafe (.inr hs)) _
    · exact h.frame id (by simp [VirtioVsock.listening]) (fun _ => rfl)
        (by simp [VirtioVsock.listening, hs]) rfl rfl rfl
  | @bindListen _ _ _ port hs =>
    have hb : ((w.sock s).bound ⟨w.cid, port⟩).ReadOk := h.rename (by simp [hs]) (by simp [bound]) rfl rfl rfl rfl
    refine hb.listening (hqueue.idle (by simp [hs])) ?_ _
    have hr := hsafe (.inl hs)
    rw [readable, if_neg (by simp [hs])] at hr
    exact (if_neg (by simp [bound])).trans hr
  | connect hs =>
    exact h.rename (by rcases hs with hs | hs <;> simp [hs]) (by simp [connecting]) rfl rfl rfl rfl
  | @acceptFailed _ _ _ _ entry queue hs hq he =>
    refine h.map id (by simp [popped]) fun e' he' => ?_
    -- A call that takes the last entry and then fails leaves the event set.
    have hne : queue ≠ [] := by
      rintro rfl
      obtain ⟨k, hk, hbad⟩ := he
      exact hbad (hsafe (by simp [hq]) k hk)
    have hne' : queue.isEmpty = false := by simpa using hne
    simpa [readable, popped, hs, hq, hne'] using he'
  | @accept _ _ _ _ entry queue hs hq =>
    refine h.map (fun e => if queue = [] then e.clear EPOLLIN else e) ?_ fun e he => ?_
    · rw [poppedClear_eq]
      split <;> simp
    · by_cases hne : queue = []
      · simp [poppedClear_eq, readable, hne, clear, EPOLLIN, hs]
      · simp [poppedClear_eq, readable, hne, hs, he, hq]

private theorem Born.readOk (h : Born w op v) : v.ReadOk := by
  cases h with
  | socket ty => simp [VirtioVsock.ReadOk, readable, VirtioVsock.init, ukVsockBufferInit]
  | accept hs hq =>
    simp [VirtioVsock.ReadOk, readable, acceptedOpen, accepted, VirtioVsock.init,
      ukVsockBufferInit]

end

/-- In a run without the steps that forget the event, it is exact in every state. -/
theorem readReady_of_run (cid : BitVec 32) (env : Nat → Outcome) (ops : List Op)
    (h : Meets step ReadSafe (World.init cid env) ops) (s : SockId)
    (hl : (run step (World.init cid env) ops).live s = true) :
    ReadReady (run step (World.init cid env) ops) s := by
  have hinv : (run step (World.init cid env) ops).Fresh ∧
      (run step (World.init cid env) ops).All (fun _ v => v.QueueOk) ∧
      (run step (World.init cid env) ops).AllLive VirtioVsock.ReadOk := by
    refine h.invariant (I := fun w => w.Fresh ∧ w.All (fun _ v => v.QueueOk) ∧ w.AllLive VirtioVsock.ReadOk) ?_ ?_
    · intro w op ⟨hf, hq, hr⟩ hop
      exact ⟨step_fresh hf op, hf.queueOk_step hq op,
          hr.step hf (fun t v hl hne hch => (hr t hl).change (hq t) hl hop hne hch)
        fun v hb => hb.readOk⟩
    · exact ⟨fresh_init cid env, queueOk_init cid env, fun t ht => by simp [World.init] at ht⟩
  exact (hinv.2.2 s hl).readReady

/-- The server reads a part of what the peer has sent before it stopped sending. -/
theorem readReady_served :
    let ops :=
  serveOne ++ [.rx (peerPacket OP_RW 100 0 [1, 2, 3]), .rx (peerShutdown SHUTDOWN_F_SEND), .recvfrom 1 2 false]
    Meets step ReadSafe (World.init 3 fun _ => .good) ops ∧
      ReadReady (run step (World.init 3 fun _ => .good) ops) 1 := by
  intro ops
  have h : Meets step ReadSafe (World.init 3 fun _ => .good) ops := by
    refine ⟨trivial, trivial, fun _ => by decide, fun s _ hc => ?_, fun _ _ _ => rfl, fun s _ hc => ?_,
        fun s ht _ => ?_,
      fun _ => by decide, trivial⟩
    · rcases hc with ⟨h, -⟩ | ⟨h, -⟩ | ⟨h, -⟩ <;> exact absurd h (by decide)
    · rcases hc with ⟨h, -⟩ | ⟨h, -⟩ | ⟨-, -, h⟩ <;> exact absurd h (by decide)
    · obtain rfl : s = 1 := Option.some.inj (ht.symm.trans rfl)
      decide
  exact ⟨h, readReady_of_run _ _ _ h 1 (by decide)⟩

/-- The peer stops sending, the end of the stream can be read, and the event is not set. -/
theorem not_readReady_of_run : ¬ ∀ (cid : BitVec 32) (env : Nat → Outcome) (ops : List Op) (s : SockId),
      (run step (World.init cid env) ops).live s = true → ReadReady (run step (World.init cid env) ops) s := by
  intro h
  have hr := (h 3 (fun _ => .good) (serveOne ++ [.rx (peerShutdown SHUTDOWN_F_SEND)]) 1 (by decide)).recv _ rfl
    (by decide) 1 (by decide)
  revert hr
  decide

/-- The event `EPOLLOUT` tells whether data can be sent. A driver without failures returns `-EAGAIN` only for lack of
credit. -/
structure WriteReady (w : World) (s : SockId) : Prop where
  sendto : ∀ e ∈ (w.sock s).posixSock, e.epollOut = true → ∀ b,
    (vsockSendto { w with env := fun _ => .good } s [b] false 0).2 ≠ .error .EAGAIN
  event : ∀ e ∈ (w.sock s).posixSock, (w.sock s).state = .OPEN → (w.sock s).txShutdown = false →
    (w.sock s).peerRxFree ≠ 0 → e.epollOut = true

def VirtioVsock.Sendable (v : VirtioVsock) : Prop := v.state = .CLOSED ∨ v.txShutdown = true ∨ v.peerRxFree ≠ 0

/-- The event level is right for the contents of the socket. -/
structure VirtioVsock.WriteFits (v : VirtioVsock) (e : PollEvents) : Prop where
  sendable : e.epollOut = true → v.Sendable
  event : v.state = .OPEN → v.txShutdown = false → v.peerRxFree ≠ 0 → e.epollOut = true

def VirtioVsock.WriteOk (v : VirtioVsock) : Prop := ∀ e ∈ v.posixSock, v.WriteFits e

private theorem sendto_ne_eagain (h : (w.sock s).Sendable) (b : UInt8) :
    (vsockSendto { w with env := fun _ => .good } s [b] false 0).2 ≠ .error .EAGAIN := by
  unfold vsockSendto
  by_cases hc : (w.sock s).state = .CLOSED ∨ (w.sock s).txShutdown = true
  · rw [if_pos hc]
    simp
  · rw [if_neg hc]
    have hf : (w.sock s).peerRxFree ≠ 0 := by
      rcases h with h | h | h
      · exact absurd (.inl h) hc
      · exact absurd (.inr h) hc
      · exact h
    have hpos : 0 < (w.sock s).peerRxFree.toNat := Nat.pos_of_ne_zero fun h0 => hf (BitVec.eq_of_toNat_eq h0)
    have hm : min (w.sock s).peerRxFree.toNat 1 = 1 := by omega
    simp [virtioVsockSend, hm, ukMalloc, World.outcome, Outcome.good, sizeofHdr, virtioVsockdevXmit,
      virtioVsockdevXmitRetry, World.advance]

private theorem VirtioVsock.WriteOk.writeReady (h : (w.sock s).WriteOk) : WriteReady w s :=
  ⟨fun e he ho b => sendto_ne_eagain ((h e he).sendable ho) b, fun e he => (h e he).event⟩

def WriteSafe (w : World) : Op → Prop
  | .accept s _ _ => ∀ entry ∈ (w.sock s).acceptQueue.head?, entry.peerBufAlloc - (0 - entry.peerFwdCount) = 0
  | .write s iov => (w.sock s).txShutdown = false → (w.sock s).peerRxFree ≠ 0 →
      [] ∉ iov ∧ iov.flatten.length < (w.sock s).peerRxFree.toNat
  | .sendto s buf _ _ => (w.sock s).txShutdown = false → (w.sock s).peerRxFree ≠ 0 →
      buf ≠ [] ∧ buf.length < (w.sock s).peerRxFree.toNat
  | .rx pkt => ∀ s, rxTarget w pkt = some s → pkt.hdr.op = OP_RESPONSE → (w.sock s).state = .WAIT_CONNECT →
      (w.sock s).txShutdown = true ∨ pkt.hdr.bufAlloc - ((w.sock s).txCount - pkt.hdr.fwdCnt) ≠ 0
  | _ => True

section
variable {v v' : VirtioVsock} {op : Op}

section
variable (h : v.WriteOk)
include h

section
variable (f : PollEvents → PollEvents) (hp : v'.posixSock = v.posixSock.map f)
include f hp

private theorem VirtioVsock.WriteOk.map (hf : ∀ e, v.WriteFits e → v'.WriteFits (f e)) : v'.WriteOk := by
  unfold VirtioVsock.WriteOk
  rw [hp, Option.forall_mem_map]
  exact fun e he => hf e (h e he)

private theorem VirtioVsock.WriteOk.frame (hf : ∀ e, (f e).epollOut = e.epollOut)
    (ho : v'.state = .OPEN → v.state = .OPEN)
    (hc : v.state = .CLOSED → v'.state = .CLOSED) (ht : v'.txShutdown = v.txShutdown)
    (hw : v'.peerRxFree = v.peerRxFree) : v'.WriteOk := by
  refine h.map f hp fun e he => ⟨fun hout => ?_, fun ho' ht' hw' => ?_⟩
  · rw [hf] at hout
    rcases he.sendable hout with h | h | h
    · exact .inl (hc h)
    · exact .inr (.inl (ht.trans h))
    · exact .inr (.inr (by rwa [hw]))
  · rw [hf]
    exact he.event (ho ho') (ht.symm.trans ht') (by rwa [hw] at hw')

private theorem VirtioVsock.WriteOk.clear (hf : ∀ e, (f e).epollOut = false)
    (hn : v'.state ≠ .OPEN ∨ v'.txShutdown = true ∨ v'.peerRxFree = 0) :
    v'.WriteOk := by
  refine h.map f hp fun e _ => ⟨fun hout => ?_, fun ho ht hw => ?_⟩
  · rw [hf] at hout
    cases hout
  · rcases hn with hn | hn | hn
    · exact absurd ho hn
    · rw [ht] at hn
      cases hn
    · exact absurd hn hw

end

private theorem VirtioVsock.WriteOk.closed : v.closed.WriteOk :=
  h.clear (fun e => (e.clear EPOLLOUT).or EPOLLHUP) (by rw [closed_eq])
    (fun e => by simp [PollEvents.or, PollEvents.clear, EPOLLOUT, EPOLLHUP]) (.inl (by simp))

private theorem VirtioVsock.WriteOk.shutdownBy (rx tx : Bool) : (v.shutdownBy rx tx).WriteOk := by
  have hp : (v.shutdownBy rx tx).posixSock = v.posixSock.map fun e =>
      (if rx then e.clear EPOLLOUT else e).or (if tx then EPOLLRDHUP else {}) := by rw [shutdownBy_eq]
  cases rx with
  | true =>
    exact h.clear _ hp (fun e => by cases tx <;> simp [PollEvents.or, PollEvents.clear, EPOLLOUT, EPOLLRDHUP])
      (.inr (.inl (by simp [shutdownBy_eq])))
  | false =>
    exact h.frame _ hp (fun e => by cases tx <;> simp [PollEvents.or, EPOLLRDHUP]) (by simp) (by simp)
      (by simp [shutdownBy_eq]) (by simp [shutdownBy_eq, peerRxFree])

private theorem VirtioVsock.WriteOk.credited (hdr : VirtioVsockHdr) : (v.credited hdr).WriteOk := by
  by_cases hst : storesCredit hdr
  · have hfree : (v.credited hdr).peerRxFree = hdr.bufAlloc - (v.txCount - hdr.fwdCnt) := by
      simp [credited_eq, peerRxFree, hst]
    refine h.map (fun e => if 0 < hdr.bufAlloc - (v.txCount - hdr.fwdCnt) then e.or EPOLLOUT else e.clear EPOLLOUT)
      (by simp [credited_eq, hst]) fun e _ => ?_
    split
    next hpos =>
      refine ⟨fun _ => .inr (.inr ?_), fun _ _ _ => by simp [PollEvents.or, EPOLLOUT]⟩
      rw [hfree]
      intro h0
      rw [h0] at hpos
      exact absurd hpos (by decide)
    next hpos =>
      refine ⟨fun ho => by simp [PollEvents.clear, EPOLLOUT] at ho, fun _ _ hw => absurd ?_ hpos⟩
      rw [hfree] at hw
      exact (BitVec.pos_iff_ne_zero _).2 hw
  · rw [VirtioVsock.credited, if_neg hst]
    exact h

end

private theorem VirtioVsock.WriteOk.handled {pkt : Packet} (h : v.WriteOk) (hh : Handled pkt v v')
    (hsafe : pkt.hdr.op = OP_RESPONSE → v.state = .WAIT_CONNECT → v.txShutdown = true ∨ v.peerRxFree ≠ 0) :
    v'.WriteOk := by
  have hreset (v' : VirtioVsock) (hp : v'.posixSock = v.resetEvents.posixSock) (hs : v'.state ≠ .OPEN) : v'.WriteOk :=
    h.clear (fun e => (e.clear EPOLLOUT).or ((EPOLLERR.or EPOLLHUP).or EPOLLRDHUP))
      (hp.trans (by rw [resetEvents_eq]))
      (fun e => by simp [PollEvents.or, PollEvents.clear, EPOLLOUT, EPOLLERR, EPOLLHUP, EPOLLRDHUP]) (.inl hs)
  cases hh with
  | same => exact h
  | request | payload => exact h.frame (·.or EPOLLIN) rfl (fun e => by simp [PollEvents.or, EPOLLIN]) id id rfl rfl
  | response ho hs =>
    exact h.map (·.or EPOLLOUT) rfl fun e _ =>
      ⟨fun _ => .inr (hsafe ho hs), fun _ _ _ => by simp [PollEvents.or, EPOLLOUT]⟩
  | badResponse => exact h.closed
  | resetEvents ho hs => exact hreset _ rfl (by rcases hs with hs | hs | hs <;> simp [hs])
  | refused ho hs => exact hreset _ rfl (by simp [refused, hs])
  | resetWait | resetOpen => exact hreset _ rfl (by simp)
  | shutdown => exact h.shutdownBy _ _
  | shutdownClose => exact (h.shutdownBy _ _).closed

private theorem VirtioVsock.WriteOk.sentBytes (h : v.WriteOk) {n : Nat} (hn : n ≤ v.peerRxFree.toNat)
    (hlt : v.txShutdown = false → v.peerRxFree ≠ 0 → n < v.peerRxFree.toNat) : (v.sentBytes n).WriteOk := by
  have hfree := v.peerRxFree_sentBytes hn
  refine h.map id (by simp [VirtioVsock.sentBytes]) fun e he => ⟨fun ho => ?_, fun ho ht hw => ?_⟩
  · rcases he.sendable ho with hc | ht | hw
    · exact .inl hc
    · exact .inr (.inl ht)
    · cases ht : v.txShutdown with
      | true => exact .inr (.inl ht)
      | false =>
        refine .inr (.inr fun h0 => ?_)
        have := hlt ht hw
        rw [h0] at hfree
        simp only [BitVec.ofNat_eq_ofNat, BitVec.toNat_ofNat, Nat.zero_mod] at hfree
        omega
  · refine he.event ho ht fun h0 => hw (BitVec.eq_of_toNat_eq ?_)
    rw [hfree, h0]
    simp

private theorem VirtioVsock.WriteOk.clearIn (h : v.WriteOk) (c : Prop) [Decidable c]
    (hp : v'.posixSock = if c then v.posixSock.map (·.clear EPOLLIN) else v.posixSock) (ho : v'.state = v.state)
    (ht : v'.txShutdown = v.txShutdown) (hw : v'.peerRxFree = v.peerRxFree) : v'.WriteOk := by
  refine h.frame (fun e => if c then e.clear EPOLLIN else e) ?_ (fun e => ?_) (by simp [ho]) (by simp [ho]) ht hw
  · rw [hp]
    split <;> simp
  · split <;> simp [PollEvents.clear, EPOLLIN]

private theorem VirtioVsock.WriteOk.rename (h : v.WriteOk) (hs : v.state ≠ .CLOSED) (hs' : v'.state ≠ .OPEN)
    (hp : v'.posixSock = v.posixSock) (ht : v'.txShutdown = v.txShutdown) (hw : v'.peerRxFree = v.peerRxFree) :
    v'.WriteOk :=
  h.frame id (by simp [hp]) (fun _ => rfl) (fun ho => absurd ho hs') (fun hc => absurd hc hs) ht hw

private theorem VirtioVsock.WriteOk.change (h : (w.sock s).WriteOk) (hsafe : WriteSafe w op)
    (hch : Change w op s (w.sock s) v') : v'.WriteOk := by
  cases hch with
  | @rx pkt _ _ _ ht hh =>
    refine (h.credited _).handled hh fun ho hs => ?_
    have hst : storesCredit pkt.hdr = true := by rw [storesCredit, ho]; rfl
    rw [credited_state] at hs
    simp only [credited_eq, peerRxFree, hst, if_true]
    exact hsafe s ht ho hs
  | term | close => exact h.closed
  | shutdown => exact h.shutdownBy _ _
  | shutdownClose => exact (h.shutdownBy _ _).closed
  | getsockopt => exact h.frame id (by simp) (fun _ => rfl) id id rfl rfl
  | write hs hn hl =>
    exact h.sentBytes hn fun ht hw => Nat.lt_of_le_of_lt hl (hsafe ht hw).2
  | @writeEmpty _ _ _ n hs hn hl he =>
    refine h.clear (·.clear EPOLLOUT) rfl (fun e => by simp [PollEvents.clear, EPOLLOUT]) ?_
    cases ht : (w.sock s).txShutdown with
    | true => exact .inr (.inl ht)
    | false =>
      by_cases hw : (w.sock s).peerRxFree = 0
      · obtain rfl : n = 0 := by simpa [hw] using hn
        exact .inr (.inr (by rw [sentBytes_zero]; exact hw))
      · exact absurd he (hsafe ht hw).1
  | sendto hs ht hn hl => exact h.sentBytes hn fun ht hw => Nat.lt_of_le_of_lt hl (hsafe ht hw).2
  | sendtoEmpty hs ht =>
    refine h.clear (·.clear EPOLLOUT) rfl (fun e => by simp [PollEvents.clear, EPOLLOUT]) ?_
    by_cases hw : (w.sock s).peerRxFree = 0
    · exact .inr (.inr hw)
    · exact absurd rfl (hsafe ht hw).1
  | @read _ _ _ n | @recvfrom _ _ _ _ n =>
    exact h.clearIn (((w.sock s).readBytes n).rx.count = 0) (by rw [clearIfEmpty_eq]; rfl)
      (by rw [clearIfEmpty_eq]; rfl) (by rw [clearIfEmpty_eq]; rfl)
      (by rw [clearIfEmpty_eq]; rfl)
  | bind hs | bindListen hs | connectPortless hs | connectUndone hs =>
    refine h.rename (by simp [hs]) ?_ rfl rfl rfl
    simp [bound, listening, portless, hs]
  | listen hs | connect hs =>
    exact h.rename (by rcases hs with hs | hs <;> simp [hs]) (by simp [listening, connecting]) rfl rfl rfl
  | acceptFailed => exact h.frame id (by simp [popped]) (fun _ => rfl) id id rfl rfl
  | @accept _ _ _ _ entry queue =>
    exact h.clearIn (queue = []) (by rw [poppedClear_eq]) (by rw [poppedClear_eq])
      (by rw [poppedClear_eq]) (by rw [poppedClear_eq]; rfl)

private theorem Born.writeOk (h : Born w op v) (hsafe : WriteSafe w op) : v.WriteOk := by
  cases h with
  | socket ty =>
    intro e he
    obtain rfl : e = {} := by simpa using he.symm
    exact ⟨fun ho => (by cases ho), fun ho => (by cases ho)⟩
  | @accept s _ _ entry queue hs hq =>
    intro e he
    obtain rfl : e = {} := by simpa [acceptedOpen] using he.symm
    exact ⟨fun ho => (by cases ho), fun _ _ hw => absurd (hsafe entry (by rw [hq]; rfl)) hw⟩

end

/-- In a run without the steps that forget the event, it is right in every state. -/
theorem writeReady_of_run (cid : BitVec 32) (env : Nat → Outcome) (ops : List Op)
    (h : Meets step WriteSafe (World.init cid env) ops) (s : SockId) :
    WriteReady (run step (World.init cid env) ops) s := by
  have hinv := h.invariant (I := fun w => w.Fresh ∧ w.All fun _ v => v.WriteOk)
    (fun w op hi hop => ⟨step_fresh hi.1 op, hi.2.step hi.1 (fun t v hch => (hi.2 t).change hop hch)
      fun v hb => hb.writeOk hop⟩)
    ⟨fresh_init cid env, fun t e he => by cases he⟩
  exact (hinv.2 s).writeReady

theorem writeReady_dial :
    let ops := .socket 1 0 :: dial ++ [.rx (peerPacket OP_RESPONSE 100 0 []), .write 0 [[1, 2, 3]]]
    Meets step WriteSafe (World.init 3 fun _ => .good) ops ∧
      WriteReady (run step (World.init 3 fun _ => .good) ops) 0 := by
  intro ops
  have h : Meets step WriteSafe (World.init 3 fun _ => .good) ops := by
    refine ⟨trivial, trivial, trivial, fun s ht _ _ => ?_, fun _ _ => by decide, trivial⟩
    obtain rfl : s = 0 := Option.some.inj (ht.symm.trans rfl)
    decide
  exact ⟨h, writeReady_of_run _ _ _ h 0⟩

/-- A socket returned by `accept` has a window, and the event is not set. -/
theorem not_writeReady_of_run : ¬ ∀ (cid : BitVec 32) (env : Nat → Outcome) (ops : List Op) (s : SockId),
      WriteReady (run step (World.init cid env) ops) s := by
  intro h
  have he := (h 3 (fun _ => .good) serveOne 1).event _ rfl (by decide) (by decide) (by decide)
  revert he
  decide

end Unikraft.Vsock
