import Unikraft.Vsock.Calls

/-!
# What a step can do to a socket

`Change w op s v v'` lists what the step `op` in state `w` can make of the socket `s` with contents `v`, and by
`step_change` these are all changes: every other socket stays as it is, except that `socket` and `accept` make a new
one. A property of single sockets is an invariant of the layer as soon as all changes keep it and the new sockets have
it.
-/

namespace Unikraft.Vsock

open UkVsockState VirtioVsock World

@[simp] theorem VirtioVsock.clearIfEmpty_state (v : VirtioVsock) : v.clearIfEmpty.state = v.state := by
  unfold clearIfEmpty; split <;> rfl

/-! ### The updates of a socket, field by field -/

namespace VirtioVsock

section
variable (v : VirtioVsock)

theorem closed_eq : v.closed = { v with
      state := .CLOSED
      rxShutdown := true
      txShutdown := true
      acceptQueue := if v.state = .WAIT_CONNECT then v.acceptQueue else []
      acceptQueueLength := if v.state = .WAIT_CONNECT then v.acceptQueueLength else
        drainLoop v.acceptQueue v.acceptQueueLength
      posixSock := v.posixSock.map fun e => (e.clear EPOLLOUT).or EPOLLHUP } := by
  unfold closed
  split <;> simp_all [markClosed, drainAcceptQueue, eventSet, eventClear, Function.comp_def]

theorem credited_eq (hdr : VirtioVsockHdr) : v.credited hdr = { v with
      peerBufAlloc := if storesCredit hdr then hdr.bufAlloc else v.peerBufAlloc
      peerFwdCount := if storesCredit hdr then hdr.fwdCnt else v.peerFwdCount
      posixSock := if storesCredit hdr then
          v.posixSock.map fun e =>
            if 0 < hdr.bufAlloc - (v.txCount - hdr.fwdCnt) then e.or EPOLLOUT else e.clear EPOLLOUT
        else v.posixSock } := by
  unfold credited credit notifyWritable peerRxFree
  split
  · by_cases h : 0#32 < hdr.bufAlloc - (v.txCount - hdr.fwdCnt) <;> simp [h, eventSet, eventClear]
  · rfl

theorem resetEvents_eq : v.resetEvents =
    { v with
      posixSock := v.posixSock.map fun e => (e.clear EPOLLOUT).or ((EPOLLERR.or EPOLLHUP).or EPOLLRDHUP) } := by
  simp [resetEvents, eventSet, eventClear, Function.comp_def]

theorem shutdownBy_eq (peerRx peerTx : Bool) : v.shutdownBy peerRx peerTx = { v with
      txShutdown := v.txShutdown || peerRx
      rxShutdown := v.rxShutdown || peerTx
      posixSock := v.posixSock.map fun e =>
        (if peerRx then e.clear EPOLLOUT else e).or (if peerTx then EPOLLRDHUP else {}) } := by
  cases peerRx <;> cases peerTx <;>
    simp [shutdownBy, eventSet, eventClear, PollEvents.or, Function.comp_def]

theorem clearIfEmpty_eq : v.clearIfEmpty =
    { v with posixSock := if v.rx.count = 0 then v.posixSock.map (·.clear EPOLLIN) else v.posixSock } := by
  by_cases h : v.rx.count = 0 <;> simp [clearIfEmpty, ukVsockBufferIsEmpty, eventClear, h]

theorem poppedClear_eq (queue : List AcceptEntry) : v.poppedClear queue = { v with
      acceptQueue := queue
      acceptQueueLength := v.acceptQueueLength - 1
      posixSock := if queue = [] then v.posixSock.map (·.clear EPOLLIN) else v.posixSock } := by
  by_cases h : queue = [] <;> simp [poppedClear, popped, eventClear, h]

end

end VirtioVsock

inductive Change (w : World) : Op → SockId → VirtioVsock → VirtioVsock → Prop
  | rx {pkt : Packet} {s : SockId} {v v' : VirtioVsock} (ht : rxTarget w pkt = some s)
      (hh : Handled pkt (v.credited pkt.hdr) v') : Change w (.rx pkt) s v v'
  | term {s : SockId} {v : VirtioVsock} (hc : v.termCloses = true) : Change w .term s v v.closed
  | close {s : SockId} {v : VirtioVsock} (hs : v.state.inTable = true) : Change w (.close s) s v v.closed
  | shutdown {s : SockId} {how : Int} {v : VirtioVsock} {rx tx : Bool} (hh : shutHow how = some (rx, tx))
      (hs : v.state = .OPEN) : Change w (.shutdown s how) s v (v.shutdownBy rx tx)
  | shutdownClose {s : SockId} {how : Int} {v : VirtioVsock} {rx tx : Bool} (hh : shutHow how = some (rx, tx))
      (hs : v.state = .OPEN)
      (hb : (v.shutdownBy rx tx).rxShutdown = true ∧ (v.shutdownBy rx tx).txShutdown = true) :
      Change w (.shutdown s how) s v (v.shutdownBy rx tx).closed
  | getsockopt {s : SockId} {level optname : Int} {optlen : Option Nat} {v : VirtioVsock} :
      Change w (.getsockopt s level optname optlen) s v { v with soError := none }
  | write {s : SockId} {iov : List (List UInt8)} {v : VirtioVsock} {n : Nat} (hs : v.state = .OPEN)
      (hn : n ≤ v.peerRxFree.toNat) (hl : n ≤ iov.flatten.length) : Change w (.write s iov) s v (v.sentBytes n)
  | writeEmpty {s : SockId} {iov : List (List UInt8)} {v : VirtioVsock} {n : Nat} (hs : v.state = .OPEN)
      (hn : n ≤ v.peerRxFree.toNat) (hl : n ≤ iov.flatten.length) (he : [] ∈ iov) :
      Change w (.write s iov) s v ((v.sentBytes n).eventClear EPOLLOUT)
  | sendto {s : SockId} {buf : List UInt8} {a : Bool} {l : Nat} {v : VirtioVsock} {n : Nat} (hs : v.state ≠ .CLOSED)
      (ht : v.txShutdown = false) (hn : n ≤ v.peerRxFree.toNat) (hl : n ≤ buf.length) :
      Change w (.sendto s buf a l) s v (v.sentBytes n)
  | sendtoEmpty {s : SockId} {a : Bool} {l : Nat} {v : VirtioVsock} (hs : v.state ≠ .CLOSED)
      (ht : v.txShutdown = false) : Change w (.sendto s [] a l) s v (v.eventClear EPOLLOUT)
  | read {s : SockId} {iov : List Nat} {v : VirtioVsock} {n : Nat} (hs : v.state = .OPEN ∨ v.state = .CLOSED)
      (hn : n ≤ v.rx.count) (hl : n ≤ iov.sum) : Change w (.read s iov) s v (v.readBytes n).clearIfEmpty
  | recvfrom {s : SockId} {len : Nat} {a : Bool} {v : VirtioVsock} {n : Nat}
      (hs : v.state = .OPEN ∨ v.state = .CLOSED)
      (hn : n = min len v.rx.count) (h0 : n ≠ 0 ∨ v.rxShutdown = true) :
      Change w (.recvfrom s len a) s v (v.readBytes n).clearIfEmpty
  | bind {s : SockId} {addr : SockaddrVm} {n : Nat} {v : VirtioVsock} {port : BitVec 32} (hs : v.state = .READY) :
      Change w (.bind s addr n) s v (v.bound ⟨w.cid, port⟩)
  | listen {s : SockId} {backlog : Int} {v : VirtioVsock} (hs : v.state = .BOUND ∨ v.state = .LISTENING) :
      Change w (.listen s backlog) s v (v.listening backlog)
  | bindListen {s : SockId} {backlog : Int} {v : VirtioVsock} {port : BitVec 32} (hs : v.state = .READY) :
      Change w (.listen s backlog) s v ((v.bound ⟨w.cid, port⟩).listening backlog)
  | connectPortless {s : SockId} {addr : SockaddrVm} {n : Nat} {v : VirtioVsock} (hs : v.state = .READY) :
      Change w (.connect s addr n) s v (v.portless w.cid)
  | connectUndone {s : SockId} {addr : SockaddrVm} {n : Nat} {v : VirtioVsock} (hs : v.state = .READY) :
      Change w (.connect s addr n) s v { v with localAddr := .any }
  | connect {s : SockId} {addr : SockaddrVm} {n : Nat} {v : VirtioVsock} {a : UkVsockaddr}
      (hs : v.state = .BOUND ∨ v.state = .READY) : Change w (.connect s addr n) s v (v.connecting a addr.addr)
  | acceptFailed {s : SockId} {addr : Bool} {l : Option Nat} {v : VirtioVsock} {entry : AcceptEntry}
      {queue : List AcceptEntry} (hs : v.state = .LISTENING) (hq : v.acceptQueue = entry :: queue)
      (he : ∃ k < 4, w.env (w.tick + k) ≠ Outcome.good) : Change w (.accept s addr l) s v (v.popped queue)
  | accept {s : SockId} {addr : Bool} {l : Option Nat} {v : VirtioVsock} {entry : AcceptEntry}
      {queue : List AcceptEntry} (hs : v.state = .LISTENING) (hq : v.acceptQueue = entry :: queue) :
      Change w (.accept s addr l) s v (v.poppedClear queue)

inductive Born (w : World) : Op → VirtioVsock → Prop
  | socket {type protocol : Int} (ty : SockType) :
      Born w (.socket type protocol) { VirtioVsock.init ty with posixSock := some {} }
  | accept {s : SockId} {addr : Bool} {l : Option Nat} {entry : AcceptEntry} {queue : List AcceptEntry}
      (hs : (w.sock s).state = .LISTENING) (hq : (w.sock s).acceptQueue = entry :: queue) :
      Born w (.accept s addr l) (acceptedOpen w.cid (w.sock s) entry)

def Op.inserts : Op → Bool
  | .socket _ _ | .bind _ _ _ | .listen _ _ | .connect _ _ _ | .accept _ _ _ => true
  | _ => false

variable {w w₁ w' : World} {op : Op} {s : SockId} {v v' : VirtioVsock}

private theorem Handled.key_eq {pkt : Packet} (h : Handled pkt v v') :
    v'.key = v.key ∧ (v'.state.inTable = true → v.state.inTable = true) := by
  cases h with
  | same | request | resetEvents | refused | payload => exact ⟨rfl, id⟩
  | response ho hs => exact ⟨rfl, fun _ => by rw [hs]; rfl⟩
  | badResponse => simp [closed_eq, key, inTable]
  | resetWait | resetOpen => exact ⟨rfl, fun h => by cases h⟩
  | shutdown => simp [shutdownBy_eq, key]
  | shutdownClose => simp [closed_eq, shutdownBy_eq, key, inTable]

/-- Only bind, connect and accept change the key of a socket or put it into the table. -/
theorem Change.key_eq (h : Change w op s v v')
    (ho : op.inserts = false) : v'.key = v.key ∧ (v'.state.inTable = true → v.state.inTable = true) := by
  cases h with
  | rx ht hh => simpa [credited_eq, key] using hh.key_eq
  | term | close => simp [closed_eq, key, inTable]
  | shutdown => simp [shutdownBy_eq, key]
  | shutdownClose => simp [closed_eq, shutdownBy_eq, key, inTable]
  | getsockopt | write | writeEmpty | sendto | sendtoEmpty => exact ⟨rfl, id⟩
  | read | recvfrom => simp [VirtioVsock.clearIfEmpty_eq, VirtioVsock.key, VirtioVsock.readBytes]
  | bind | listen | bindListen | connectPortless | connectUndone | connect | acceptFailed | accept =>
    simp [Op.inserts] at ho

theorem Change.sock_eq {s' : SockId} (h : Change w op s v v') (ho : op.sock? = some s') : s = s' := by
  cases h <;> simp_all [Op.sock?]

/-! ### Steps that settle a socket -/

def Op.IsRequest (w : World) : Op → Prop
  | .rx pkt => pkt.hdr.op = OP_REQUEST ∧ ∃ s, rxTarget w pkt = some s ∧ (w.sock s).state = .LISTENING
  | _ => False

/-- The step leaves the sockets alone, or settles one of them. -/
def Settles (w : World) (op : Op) (w' : World) : Prop :=
  ∃ w₁, w.Calm w₁ ∧ (¬ op.IsRequest w → w.Quiet w₁) ∧
    (w' = w₁ ∨ ∃ s v, Change w op s (w.sock s) v ∧ w' = w₁.settle s v)

private theorem settles_of_quiet (hq : w.Quiet w₁) : Settles w op w₁ :=
  ⟨w₁, hq.calm, fun _ => hq, .inl rfl⟩

private theorem settles_refl (w : World) (op : Op) : Settles w op w := settles_of_quiet (World.Quiet.refl w)

private theorem settles_modify {f : VirtioVsock → VirtioVsock} (hq : w.Quiet w₁)
    (hch : Change w op s (w.sock s) (f (w.sock s)))
    (hst : (w.sock s).state.inTable = true → (f (w.sock s)).state.inTable = true) :
    Settles w op (w₁.modify s f) := by
  refine ⟨w₁, hq.calm, fun _ => hq, .inr ⟨s, _, hch, ?_⟩⟩
  rw [settle_of_keep (by rw [hq.calm.sock_eq]; exact hst)]
  exact modify_congr (by rw [hq.calm.sock_eq])

section
variable (w s)

private theorem settles_rx (pkt : Packet) : Settles w (.rx pkt) (exec w (.rx pkt)) := by
  rcases workRx_cases w pkt with ⟨-, h⟩ | ⟨s, w₁, v', ht, hc, hq, hh, h⟩
  · simp only [exec, h]
    exact settles_refl w _
  · exact ⟨w₁, hc, fun hn => hq fun hr => hn ⟨hr.1, s, ht, hr.2⟩, .inr ⟨s, v', .rx ht hh, h⟩⟩

private theorem settles_getsockopt (level optname : Int) (optlen : Option Nat) :
    Settles w (.getsockopt s level optname optlen) (exec w (.getsockopt s level optname optlen)) := by
  simp only [exec, vsockGetsockopt]
  split
  · split
    · show Settles w _ (w.modify s fun v => { v with soError := none })
      exact settles_modify (World.Quiet.refl w) .getsockopt (by exact id)
    · exact settles_refl w _
  · exact settles_refl w _

private theorem settles_write (iov : List (List UInt8)) : Settles w (.write s iov) (exec w (.write s iov)) := by
  simp only [exec, vsockWrite]
  by_cases hs : (w.sock s).state = .OPEN
  swap
  · rw [if_pos hs]
    split <;> exact settles_refl w _
  rw [if_neg (by simpa using hs)]
  obtain ⟨w₁, n, hq, hn, hl, h | ⟨he, h⟩⟩ := writeLoop_cases s iov w 0
  · rw [h]
    exact settles_modify hq (.write hs hn hl) (by exact id)
  · rw [h]
    exact settles_modify hq (.writeEmpty hs hn hl he) (by exact id)

private theorem settles_sendto (buf : List UInt8) (a : Bool) (l : Nat) : Settles w (.sendto s buf a l)
    (exec w (.sendto s buf a l)) := by
  simp only [exec, vsockSendto]
  split
  · exact settles_refl w _
  split
  · exact settles_refl w _
  rename_i hg
  obtain ⟨hs, ht⟩ : (w.sock s).state ≠ .CLOSED ∧ (w.sock s).txShutdown = false := by simpa using hg
  rcases send_cases w s buf with ⟨hb, h⟩ | ⟨-, -, h⟩ | ⟨-, -, w₁, e, hq, -, -, h⟩ |
    ⟨hb, -, -, w₁, pkt, n, hq, hn0, hn, -, -, h⟩
  · simp only [h, if_true]
    rw [List.length_eq_zero_iff.1 hb]
    exact settles_modify (World.Quiet.refl w) (.sendtoEmpty hs ht) (by exact id)
  · simp only [h]
    exact settles_refl w _
  · simp only [h]
    exact settles_of_quiet hq
  · simp only [h, hn0, if_false]
    exact settles_modify hq (.sendto hs ht (by omega) (by omega)) (by exact id)

private theorem settles_read (iov : List Nat) : Settles w (.read s iov) (exec w (.read s iov)) := by
  simp only [exec, vsockRead]
  split
  · exact settles_refl w _
  rename_i hg
  have hs := (not_and_or.1 hg).imp not_ne_iff.1 not_ne_iff.1
  obtain ⟨w₁, n, hq, hn, hl, h, -⟩ := readLoop_cases s iov w []
  dsimp only
  rw [h, clearIfEmpty_eq, modify_modify]
  refine settles_modify hq (.read hs hn hl.1) (by rw [clearIfEmpty_state]; exact id)

private theorem settles_recvfrom (len : Nat) (src : Bool) : Settles w (.recvfrom s len src)
    (exec w (.recvfrom s len src)) := by
  simp only [exec, vsockRecvfrom]
  split
  · exact settles_refl w _
  split
  · exact settles_refl w _
  rename_i hg
  have hs := (not_and_or.1 hg).imp not_ne_iff.1 not_ne_iff.1
  have hlen := bufferRead_length (w.sock s).rx len
  generalize hk : (ukVsockBufferRead (w.sock s).rx len).length = k at *
  split
  · exact settles_refl w _
  rename_i he
  have h0 : k ≠ 0 ∨ (w.sock s).rxShutdown = true := by
    by_cases hk0 : k = 0
    · exact .inr (by simpa [hk0] using he)
    · exact .inl hk0
  obtain ⟨w₁, hq, h⟩ := consumeRx_if_pos w s k
  rw [h, clearIfEmpty_eq, modify_modify]
  show Settles w _ (w₁.modify s fun v => (v.readBytes k).clearIfEmpty)
  exact settles_modify hq (.recvfrom hs hlen h0) (by rw [clearIfEmpty_state]; exact id)

private theorem settles_shutdown (how : Int) : Settles w (.shutdown s how) (exec w (.shutdown s how)) := by
  simp only [exec, vsockShutdown]
  cases hh : shutHow how with
  | none => exact settles_refl w _
  | some p =>
    obtain ⟨rx, tx⟩ := p
    dsimp only
    split
    · exact settles_refl w _
    rename_i hs
    replace hs : (w.sock s).state = .OPEN := by simpa using hs
    have hq := shutdown_quiet w s rx tx
    cases hr : virtioVsockShutdown w s rx tx with
    | mk w₁ r =>
      rw [hr] at hq
      cases r with
      | error e => exact settles_of_quiet hq
      | ok u =>
        have hv : w₁.sock s = w.sock s := by rw [hq.calm.sock_eq]
        -- The packet is out; the same directions are then handled as if the peer had sent them.
        obtain ⟨w2, hq2, h⟩ := shutdown_cases w₁ s rx tx
        rw [hv] at h
        have hq' := hq.trans hq2
        refine ⟨w2, hq'.calm, fun _ => hq', ?_⟩
        rcases h with ⟨-, h⟩ | ⟨-, h | ⟨hb, hb', h⟩⟩
        · exact .inl h
        · exact .inr ⟨s, _, .shutdown hh hs, h⟩
        · exact .inr ⟨s, _, .shutdownClose hh hs ⟨hb, hb'⟩, h⟩

end

/-! ### Closing and the transport reset -/

theorem exec_close_cases (w : World) (s : SockId) :
    w.Quiet (exec w (.close s)) ∨ ∃ w₁, Settles w (.close s) w₁ ∧ (w₁.sock s).state.inTable = false ∧
      exec w (.close s) = w₁.free s := by
  simp only [exec, vsockClose, ukVsockDestroy]
  obtain ⟨w₁, hq, ⟨e, -, -, h⟩ | ⟨hs, h⟩ | ⟨hs, h⟩⟩ := close_cases w s false
  · left
    simpa only [h] using hq
  · exact .inr ⟨w₁, settles_of_quiet hq, by rw [hq.calm.sock_eq]; exact hs, by simp only [h]⟩
  · refine .inr ⟨_, ⟨w₁, hq.calm, fun _ => hq, .inr ⟨s, _, .close hs, rfl⟩⟩, ?_, by simp only [h]⟩
    simp [settle_sock_self, inTable]

/-- The rule for the transport reset: what driver activity and closing a socket keep, the loop keeps. -/
theorem termLoop_induction {P : World → Prop} (hquiet : ∀ w w', P w → w.Quiet w' → P w')
    {l : List SockId} (hclose : ∀ w, ∀ s ∈ l, P w → (w.sock s).state.inTable = true → (w.sock s).termCloses = true →
      P (w.settle s (w.sock s).closed)) (w : World) (ret : Except Errno Unit) (h : P w) : P (termLoop l w ret).1 := by
  induction l generalizing w ret with
  | nil => exact h
  | cons s l ih =>
    have hl : s ∈ s :: l := List.mem_cons_self
    replace ih := ih fun w t ht => hclose w t (List.mem_cons_of_mem _ ht)
    unfold termLoop
    split
    · rename_i hc
      obtain ⟨w₁, hq, ⟨e, -, -, h1⟩ | ⟨hs, h1⟩ | ⟨hs, h1⟩⟩ := close_cases w s true
      · simp only [h1]
        exact ih _ _ (hquiet w w₁ h hq)
      · simp only [h1]
        exact ih _ _ (hquiet w w₁ h hq)
      · simp only [h1]
        rw [← hq.calm.sock_eq] at hs hc ⊢
        exact ih _ _ (hclose w₁ s hl (hquiet w w₁ h hq) hs hc)
    · exact ih _ _ h

inductive Ends (w : World) : Op → World → Prop
  | quiet {op : Op} {w' : World} (hq : w.Quiet w') : Ends w op w'
  | settles {op : Op} {w' : World} (ho : op.inserts = false) (ht : op ≠ .term) (h : Settles w op w') : Ends w op w'
  | freed {s : SockId} {w₁ : World} (h : Settles w (.close s) w₁) (hs : (w₁.sock s).state.inTable = false) :
      Ends w (.close s) (w₁.free s)
  | reset : Ends w .term (exec w .term)
  | made {type protocol : Int} {w₁ : World} (ty : SockType) (hq : w.Quiet w₁) :
      Ends w (.socket type protocol) (w₁.newSock { VirtioVsock.init ty with posixSock := some {} })
  | bound {s : SockId} {addr : SockaddrVm} {n : Nat} {w₁ : World} {port : BitVec 32} (hq : w.Quiet w₁)
      (hs : (w.sock s).state = .READY) (hb : vsockBindOther w s port = none) :
      Ends w (.bind s addr n) (w₁.bindSock s port)
  | listening {s : SockId} {backlog : Int} (hs : (w.sock s).state = .BOUND ∨ (w.sock s).state = .LISTENING) :
      Ends w (.listen s backlog) (w.modify s (·.listening backlog))
  | boundListening {s : SockId} {backlog : Int} {w₁ : World} {port : BitVec 32} (hq : w.Quiet w₁)
      (hs : (w.sock s).state = .READY) (hb : vsockBindOther w s port = none) :
      Ends w (.listen s backlog) ((w₁.bindSock s port).modify s (·.listening backlog))
  | portless {s : SockId} {addr : SockaddrVm} {n : Nat} {w₁ : World} (hq : w.Quiet w₁)
      (hs : (w.sock s).state = .READY) : Ends w (.connect s addr n) (w₁.modify s (·.portless w.cid))
  | connected {s : SockId} {addr : SockaddrVm} {n : Nat} {w' : World} (h : ConnectEnd w s addr.addr w') :
      Ends w (.connect s addr n) w'
  | acceptFailed {s : SockId} {addr : Bool} {l : Option Nat} {entry : AcceptEntry} {queue : List AcceptEntry}
      {w₁ : World} (hs : (w.sock s).state = .LISTENING) (hq : (w.sock s).acceptQueue = entry :: queue)
      (hc : w.Calm w₁) (he : ∃ k < 4, w.env (w.tick + k) ≠ Outcome.good) :
      Ends w (.accept s addr l) (w₁.modify s (·.popped queue))
  | accepted {s : SockId} {addr : Bool} {l : Option Nat} {entry : AcceptEntry} {queue : List AcceptEntry} {n : Nat}
      (hs : (w.sock s).state = .LISTENING) (hq : (w.sock s).acceptQueue = entry :: queue) (hn : s ≠ w.next) :
      Ends w (.accept s addr l) (w.accepting s entry queue n)

private theorem exec_ends (w : World) (op : Op) (hacc : ∀ s a l, op = .accept s a l → s ≠ w.next) :
    Ends w op (exec w op) := by
  cases op with
  | socket type protocol =>
    rcases exec_socket_cases w type protocol with hq | ⟨w₁, ty, hq, -, h⟩
    · exact .quiet hq
    · rw [h]
      exact .made ty hq
  | bind s addr n =>
    obtain ⟨w₁, hq, ⟨e, h⟩ | ⟨hs, port, -, hb, h⟩⟩ := vsockBind_cases w s addr n
    · simp only [exec, h]
      exact .quiet hq
    · simp only [exec, h]
      exact .bound hq hs hb
  | listen s backlog =>
    simp only [exec]
    rcases listen_cases w s backlog with ⟨w₁, e, hq, h⟩ | ⟨hs, h⟩ | ⟨hs, w₁, port, hq, -, hb, h⟩
    · rw [h]
      exact .quiet hq
    · rw [h]
      exact .listening hs
    · rw [h]
      exact .boundListening hq hs hb
  | connect s addr n =>
    simp only [exec]
    rcases vsockConnect_cases w s addr n with ⟨w₁, hq, h⟩ | ⟨hs, w₁, hq, h⟩ | ⟨-, -, h⟩
    · rw [h]
      exact .quiet hq
    · rw [h]
      exact .portless hq hs
    · exact .connected h
  | accept s a l =>
    have hn := hacc s a l rfl
    rcases exec_accept_cases w a l hn with h | ⟨entry, queue, hs, hq, ⟨w₁, hc, he, h⟩ | ⟨n, h⟩⟩
    · rw [h]
      exact .quiet (World.Quiet.refl w)
    · rw [h]
      exact .acceptFailed hs hq hc he
    · rw [h]
      exact .accepted hs hq hn
  | shutdown s how => exact .settles rfl nofun (settles_shutdown w s how)
  | close s =>
    rcases exec_close_cases w s with hq | ⟨w₁, h, hs, he⟩
    · exact .quiet hq
    · rw [he]
      exact .freed h hs
  | getsockopt s level optname optlen => exact .settles rfl nofun (settles_getsockopt w s level optname optlen)
  | write s iov => exact .settles rfl nofun (settles_write w s iov)
  | sendto s buf a l => exact .settles rfl nofun (settles_sendto w s buf a l)
  | read s iov => exact .settles rfl nofun (settles_read w s iov)
  | recvfrom s len src => exact .settles rfl nofun (settles_recvfrom w s len src)
  | term => exact .reset
  | rx pkt => exact .settles rfl nofun (settles_rx w pkt)

/-- What a step can do to the world: nothing, if the socket it is for is not live. -/
theorem step_ends (hw : w.Fresh) (op : Op) :
    Ends w op (step w op) ∧ (step w op = w ∨ ∀ s, op.sock? = some s → w.live s = true) := by
  unfold step
  cases hs : op.sock? with
  | none =>
    refine ⟨exec_ends w op ?_, .inr (by simp)⟩
    rintro s a l rfl
    simp [Op.sock?] at hs
  | some s =>
    dsimp only
    split
    · rename_i hl
      refine ⟨exec_ends w op ?_, .inr ?_⟩
      · rintro s' a l rfl
        obtain rfl : s' = s := by simpa [Op.sock?] using hs
        exact Nat.ne_of_lt (hw s' hl)
      · rintro t ⟨⟩
        exact hl
    · exact ⟨.quiet (World.Quiet.refl w), .inl rfl⟩

def ChangedTo (w : World) (op : Op) (w' : World) (t : SockId) : Prop :=
  w'.sock t = w.sock t ∨ Change w op t (w.sock t) (w'.sock t) ∨
    (t = w.next ∧ w.next < w'.next ∧ Born w op (w'.sock t))

private theorem changed_of_calm (h : w.Calm w') (t : SockId) : ChangedTo w op w' t := by
  left
  rw [h.sock_eq]

private theorem changed_of_modify (s : SockId) (f : VirtioVsock → VirtioVsock) (hc : w.Calm w₁)
    (hch : Change w op s (w.sock s) (f (w.sock s))) (hw : w'.sock = (w₁.modify s f).sock) (t : SockId) :
    ChangedTo w op w' t := by
  unfold ChangedTo
  rw [hw]
  by_cases ht : t = s
  · subst ht
    rw [modify_self, hc.sock_eq]
    exact .inr (.inl hch)
  · rw [modify_of_ne _ _ ht, hc.sock_eq]
    exact .inl rfl

private theorem Settles.changedTo (h : Settles w op w') (t : SockId) : ChangedTo w op w' t := by
  obtain ⟨w₁, hc, -, rfl | ⟨s, v, hch, rfl⟩⟩ := h
  · exact changed_of_calm hc t
  · refine changed_of_modify s (fun _ => v) hc hch ?_ t
    unfold settle
    split <;> rfl

private theorem term_changedTo (w : World) (t : SockId) : ChangedTo w .term (exec w .term) t := by
  have h : ∀ t, (exec w .term).sock t = w.sock t ∨
      ((w.sock t).termCloses = true ∧ (exec w .term).sock t = (w.sock t).closed) := by
    refine termLoop_induction (P := fun w' => ∀ t, w'.sock t = w.sock t ∨
      ((w.sock t).termCloses = true ∧ w'.sock t = (w.sock t).closed)) ?_ ?_ w _ (fun _ => .inl rfl)
    · intro w₁ w2 h hq t
      rw [hq.calm.sock_eq]
      exact h t
    · intro w₁ s _ h _ hc t
      by_cases ht : t = s
      · subst ht
        rw [settle_sock_self]
        rcases h t with h | ⟨-, h⟩
        · rw [h] at hc ⊢
          exact .inr ⟨hc, rfl⟩
        · rw [h] at hc
          simp [termCloses] at hc
      · rw [settle_of_ne _ _ ht]
        exact h t
  rcases h t with h | ⟨hc, h⟩
  · exact .inl h
  · rw [ChangedTo, h]
    exact .inr (.inl (.term hc))

private theorem connectEnd_changedTo {addr : SockaddrVm} {n : Nat}
    (h : ConnectEnd w s addr.addr w') (t : SockId) : ChangedTo w (.connect s addr n) w' t := by
  cases h with
  | bound w₁ hq hs =>
    exact changed_of_modify s (fun v => v.connecting v.localAddr addr.addr) hq.calm (.connect (.inl hs)) rfl t
  | boundUndone w₁ hq hs =>
    -- The socket has got its old contents back.
    left
    simp [World.modify, hq.calm.sock_eq]
  | ready w₁ port hq hs =>
    exact changed_of_modify s (fun v => v.connecting ⟨w.cid, port⟩ addr.addr) hq.calm (.connect (.inr hs)) rfl t
  | readyUndone w₁ port hq hs =>
    refine changed_of_modify s (fun v => { v with localAddr := .any }) hq.calm (.connectUndone hs) ?_ t
    simp [World.modify, hq.calm.sock_eq]

private theorem accepting_changedTo {a : Bool} {l : Option Nat} {entry : AcceptEntry}
    {queue : List AcceptEntry} (n : Nat) (hst : (w.sock s).state = .LISTENING)
    (hq : (w.sock s).acceptQueue = entry :: queue) (hs : s ≠ w.next) (t : SockId) :
    ChangedTo w (.accept s a l) (w.accepting s entry queue n) t := by
  by_cases ht : t = w.next
  · subst ht
    refine .inr (.inr ⟨rfl, Nat.lt_succ_self _, ?_⟩)
    rw [accepting_next]
    exact .accept hst hq
  by_cases hts : t = s
  · subst hts
    rw [ChangedTo, accepting_self _ _ _ _ hs]
    exact .inr (.inl (.accept hst hq))
  · exact .inl (accepting_of_ne _ _ _ _ hts ht)

private theorem made_changedTo {type protocol : Int} (ty : SockType) (hq : w.Quiet w₁) (t : SockId) :
    ChangedTo w (.socket type protocol) (w₁.newSock { VirtioVsock.init ty with posixSock := some {} }) t := by
  by_cases ht : t = w.next
  · subst ht
    refine .inr (.inr ⟨rfl, ?_, ?_⟩)
    · rw [← hq.calm.next_eq]
      exact Nat.lt_succ_self _
    · rw [← hq.calm.next_eq, newSock_next]
      exact .socket ty
  · left
    rw [newSock_of_ne _ _ (by rw [hq.calm.next_eq]; exact ht), hq.calm.sock_eq]

/-- What a step can do to a single socket. -/
theorem step_change (hw : w.Fresh) (op : Op) (t : SockId) : ChangedTo w op (step w op) t := by
  have hends := (step_ends hw op).1
  generalize step w op = w' at hends ⊢
  cases hends with
  | quiet hq => exact changed_of_calm hq.calm t
  | settles _ _ h => exact h.changedTo t
  | freed h => exact h.changedTo t
  | reset => exact term_changedTo w t
  | made ty hq => exact made_changedTo ty hq t
  | @bound s _ _ w₁ port hq hs =>
    simp only [bindSock, hq.calm.cid_eq]
    exact changed_of_modify s (·.bound ⟨w.cid, port⟩) hq.calm (.bind hs) rfl t
  | @listening s backlog hs => exact changed_of_modify s (·.listening backlog) (World.Calm.refl w) (.listen hs) rfl t
  | @boundListening s backlog w₁ port hq hs =>
    simp only [bindSock, hq.calm.cid_eq]
    refine changed_of_modify s (fun v => (v.bound ⟨w.cid, port⟩).listening backlog) hq.calm (.bindListen hs) ?_ t
    simp [World.modify]
  | @portless s _ _ _ hq hs => exact changed_of_modify s (·.portless w.cid) hq.calm (.connectPortless hs) rfl t
  | connected h => exact connectEnd_changedTo h t
  | @acceptFailed s _ _ _ queue _ hs hq hc he =>
    exact changed_of_modify s (·.popped queue) hc (.acceptFailed hs hq he) rfl t
  | @accepted _ _ _ _ _ n hs hq hn => exact accepting_changedTo n hs hq hn t

/-! ### The state around the sockets -/

/-- `accept` and the reception of a request by a listening socket answer or note requests; the other steps do not. -/
def Op.Serves (w : World) : Op → Prop
  | .accept _ _ _ => True
  | op => op.IsRequest w

/-- Between the two states no socket came to exist, no connection request was noted and none was answered. -/
structure World.Trails (w w' : World) : Prop where
  env_eq : w'.env = w.env
  next_eq : w'.next = w.next
  live : ∀ t, w'.live t = true → w.live t = true
  requests_eq : w'.requests = w.requests
  sent : ∃ l, w'.sent = w.sent ++ l ∧ ∀ x ∈ l, x.answers = none

private theorem World.Quiet.trails (h : w.Quiet w') : w.Trails w' := by
  obtain ⟨n, l, p, rfl, hl⟩ := h
  exact ⟨rfl, rfl, fun _ => id, rfl, l, rfl, hl⟩

private theorem World.Trails.trans (h : w.Trails w₁) (h' : w₁.Trails w') : w.Trails w' := by
  obtain ⟨l, hl, hx⟩ := h.sent
  obtain ⟨l', hl', hx'⟩ := h'.sent
  refine ⟨h'.env_eq.trans h.env_eq, h'.next_eq.trans h.next_eq, fun t ht => h.live t (h'.live t ht),
    h'.requests_eq.trans h.requests_eq, l ++ l', by rw [hl', hl, List.append_assoc], ?_⟩
  intro x hm
  rcases List.mem_append.1 hm with hm | hm
  · exact hx x hm
  · exact hx' x hm

private theorem World.Trails.of_eq (he : w'.env = w.env) (hn : w'.next = w.next) (hl : w'.live = w.live)
    (hr : w'.requests = w.requests) (hs : w'.sent = w.sent) : w.Trails w' :=
  ⟨he, hn, fun t ht => by rwa [hl] at ht, hr, [], by rw [hs, List.append_nil], by simp⟩

theorem World.trails_settle (w : World) (s : SockId) (v : VirtioVsock) : w.Trails (w.settle s v) := by
  unfold settle
  split <;> exact .of_eq rfl rfl rfl rfl rfl

theorem World.trails_free (w : World) (s : SockId) : w.Trails (w.free s) := by
  refine ⟨rfl, rfl, fun t ht => ?_, rfl, [], by simp [free], by simp⟩
  by_cases hts : t = s
  · simp [free, hts] at ht
  · simpa [free, hts] using ht

theorem World.settle_cid (w : World) (s : SockId) (v : VirtioVsock) : (w.settle s v).cid = w.cid := by
  unfold settle; split <;> rfl

theorem World.settle_live (w : World) (s : SockId) (v : VirtioVsock) : (w.settle s v).live = w.live := by
  unfold settle; split <;> rfl

private theorem Settles.trails (h : Settles w op w') (hr : ¬ op.IsRequest w) : w.Trails w' := by
  obtain ⟨w₁, -, hq, rfl | ⟨s, v, -, rfl⟩⟩ := h
  · exact (hq hr).trails
  · exact (hq hr).trails.trans (w₁.trails_settle s v)

private theorem connectEnd_trails {a : UkVsockaddr} (h : ConnectEnd w s a w') : w.Trails w' := by
  cases h with
  | bound w₁ hq | boundUndone w₁ hq | ready w₁ _ hq | readyUndone w₁ _ hq =>
    exact hq.trails.trans (.of_eq rfl rfl rfl rfl rfl)

private theorem term_trails (w : World) : w.Trails (exec w .term) := by
  refine termLoop_induction ?_ ?_ w _ (World.Quiet.refl w).trails
  · intro w₁ w2 h hq
    exact h.trans hq.trails
  · intro w₁ s _ h _ _
    exact h.trans (w₁.trails_settle s _)

/-- What a step does to the rest of the state: sockets only come to exist by being born, and connection requests are
only noted and answered by the steps that serve them. -/
structure Follows (w : World) (op : Op) (w' : World) : Prop where
  env_eq : w'.env = w.env
  next_le : w.next ≤ w'.next
  live : ∀ t, w'.live t = true → w.live t = true ∨ (t = w.next ∧ w.next < w'.next ∧ Born w op (w'.sock t))
  requests_eq : ¬ op.Serves w → w'.requests = w.requests
  sent : ¬ op.Serves w → ∃ l, w'.sent = w.sent ++ l ∧ ∀ x ∈ l, x.answers = none

private theorem World.Trails.follows (h : w.Trails w') : Follows w op w' :=
  ⟨h.env_eq, Nat.le_of_eq h.next_eq.symm, fun t ht => .inl (h.live t ht), fun _ => h.requests_eq,
    fun _ => h.sent⟩

private theorem Follows.of_serves (h : op.Serves w) (he : w'.env = w.env) (hn : w'.next = w.next)
    (hl : w'.live = w.live) :
    Follows w op w' :=
  ⟨he, Nat.le_of_eq hn.symm, fun t ht => .inl (by rwa [hl] at ht), fun hs => absurd h hs,
    fun hs => absurd h hs⟩

private theorem Follows.born (he : w₁.env = w.env) (hl : w₁.live = w.live) (hn : w₁.next = w.next)
    (hb : Born w op v) (hr : ¬ op.Serves w → w.Trails w₁) : Follows w op (w₁.newSock v) := by
  refine ⟨he, ?_, fun t ht => ?_, fun hs => (hr hs).requests_eq, fun hs => (hr hs).sent⟩
  · show w.next ≤ w₁.next + 1
    rw [hn]
    exact Nat.le_succ _
  · by_cases htn : t = w₁.next
    · refine .inr ⟨htn.trans hn, ?_, ?_⟩
      · show w.next < w₁.next + 1
        rw [hn]
        exact Nat.lt_succ_self _
      · rw [htn, newSock_next]
        exact hb
    · rw [← hl]
      exact .inl (by simpa [newSock, htn] using ht)

private theorem Settles.live_eq (h : Settles w op w') : w'.next = w.next ∧ w'.live = w.live := by
  obtain ⟨w₁, hc, -, rfl | ⟨s, v, -, rfl⟩⟩ := h
  · exact ⟨hc.next_eq, hc.live_eq⟩
  · exact ⟨(w₁.trails_settle s v).next_eq.trans hc.next_eq, (w₁.settle_live s v).trans hc.live_eq⟩

private theorem Settles.follows (h : Settles w op w') : Follows w op w' := by
  by_cases hr : op.IsRequest w
  swap
  · exact (h.trails hr).follows
  have hserves : op.Serves w := by
    cases op <;> first | exact hr | exact trivial
  have hl := h.live_eq
  obtain ⟨w₁, hc, -, rfl | ⟨s, v, -, rfl⟩⟩ := h
  · exact .of_serves hserves hc.env_eq hl.1 hl.2
  · exact .of_serves hserves ((w₁.trails_settle s v).env_eq.trans hc.env_eq) hl.1 hl.2

/-- What a step does to the requests, to the packets that were sent, and to which sockets exist. -/
theorem step_follows (hw : w.Fresh) (op : Op) : Follows w op (step w op) := by
  have hends := (step_ends hw op).1
  generalize step w op = w' at hends ⊢
  cases hends with
  | quiet hq => exact hq.trails.follows
  | settles _ _ h => exact h.follows
  | @freed s w₁ h => exact ((h.trails id).trans (w₁.trails_free s)).follows
  | reset => exact (term_trails w).follows
  | made ty hq => exact .born hq.calm.env_eq hq.calm.live_eq hq.calm.next_eq (.socket ty) fun _ => hq.trails
  | bound hq | boundListening hq | portless hq =>
    refine World.Trails.follows (hq.trails.trans ?_)
    exact .of_eq rfl rfl rfl rfl rfl
  | listening =>
    refine World.Trails.follows ?_
    exact .of_eq rfl rfl rfl rfl rfl
  | connected h => exact (connectEnd_trails h).follows
  | acceptFailed _ _ hc => exact .of_serves trivial hc.env_eq hc.next_eq hc.live_eq
  | @accepted s a l entry queue n hs hq =>
    -- Putting the new socket into the table is not seen, so the state before that is enough.
    have hf : Follows w (.accept s a l)
        (((w.responded (accepted w.cid (w.sock s) entry) entry.req n).modify s (·.poppedClear queue)).newSock
          (acceptedOpen w.cid (w.sock s) entry)) :=
      .born rfl rfl rfl (.accept hs hq) fun hn => absurd trivial hn
    exact ⟨hf.env_eq, hf.next_le, hf.live, hf.requests_eq, hf.sent⟩

/-- Sockets that were not made yet stay untouched. -/
theorem step_fresh (h : w.Fresh) (op : Op) : (step w op).Fresh := by
  have hf := step_follows h op
  intro t ht
  rcases hf.live t ht with hl | ⟨rfl, hlt, -⟩
  · exact Nat.lt_of_lt_of_le (h t hl) hf.next_le
  · exact hlt

def Op.makes : Op → Bool
  | .socket _ _ | .accept _ _ _ => true
  | _ => false

/-- Only a socket call, an accept and a close change which sockets are live. -/
theorem step_live_eq (hw : w.Fresh) (hm : op.makes = false) (hc : ∀ s, op ≠ .close s) :
    (step w op).next = w.next ∧ (step w op).live = w.live := by
  have hends := (step_ends hw op).1
  generalize step w op = w' at hends ⊢
  cases hends with
  | settles _ _ h => exact h.live_eq
  | freed => exact absurd rfl (hc _)
  | reset =>
    refine termLoop_induction (P := fun w' => w'.next = w.next ∧ w'.live = w.live) ?_ ?_ w _ ⟨rfl, rfl⟩
    · intro w₁ w2 h hq
      exact ⟨hq.calm.next_eq.trans h.1, hq.calm.live_eq.trans h.2⟩
    · intro w₁ s _ h _ _
      exact ⟨(w₁.trails_settle s _).next_eq.trans h.1, (w₁.settle_live s _).trans h.2⟩
  | quiet hq | bound hq | boundListening hq | portless hq => exact ⟨hq.calm.next_eq, hq.calm.live_eq⟩
  | listening => exact ⟨rfl, rfl⟩
  | connected h =>
    cases h with
    | bound w₁ hq | boundUndone w₁ hq | ready w₁ _ hq | readyUndone w₁ _ hq =>
      exact ⟨hq.calm.next_eq, hq.calm.live_eq⟩
  | made | acceptFailed | accepted => cases hm

theorem step_close_live (hw : w.Fresh) (s : SockId) :
    (step w (.close s)).next = w.next ∧ ∀ t, t ≠ s → (step w (.close s)).live t = w.live t := by
  have hends := (step_ends hw (.close s)).1
  generalize step w (.close s) = w' at hends ⊢
  cases hends with
  | quiet hq => exact ⟨hq.calm.next_eq, fun t _ => by rw [hq.calm.live_eq]⟩
  | settles _ _ h => exact ⟨h.live_eq.1, fun t _ => by rw [h.live_eq.2]⟩
  | freed h =>
    refine ⟨h.live_eq.1, fun t hts => ?_⟩
    rw [← h.live_eq.2]
    exact Function.update_of_ne hts _ _

theorem fresh_init (cid : BitVec 32) (env : Nat → Outcome) : (World.init cid env).Fresh := by
  intro t ht
  simp [World.init] at ht

/-- The rule for properties of single sockets: a step keeps what all its changes keep and its new sockets have. -/
theorem World.All.step {I : SockId → VirtioVsock → Prop} (h : w.All I) (hw : w.Fresh)
    (hch : ∀ t v, Change w op t (w.sock t) v → I t v) (hborn : ∀ v, Born w op v → I w.next v) :
    (Vsock.step w op).All I := by
  intro t
  rcases step_change hw op t with he | hc | ⟨rfl, -, hb⟩
  · rw [he]
    exact h t
  · exact hch t _ hc
  · exact hborn _ hb

def World.AllLive (I : VirtioVsock → Prop) (w : World) : Prop := ∀ t, w.live t = true → I (w.sock t)

private theorem sock_of_close (h : (Vsock.step w (.close s)).live s = true) :
    (Vsock.step w (.close s)).sock s = w.sock s := by
  simp only [Vsock.step, Op.sock?] at h ⊢
  split
  · rename_i hl
    rw [if_pos hl] at h
    rcases exec_close_cases w s with hq | ⟨w₁, -, -, he⟩
    · rw [hq.calm.sock_eq]
    · rw [he] at h
      simp [free] at h
  · rfl

/-- The same rule for the sockets that exist, in which a socket that is closed by the user need not be looked at. -/
theorem World.AllLive.step {I : VirtioVsock → Prop} (h : w.AllLive I) (hw : w.Fresh)
    (hch : ∀ t v, w.live t = true → op ≠ .close t → Change w op t (w.sock t) v → I v)
    (hborn : ∀ v, Born w op v → I v) : (Vsock.step w op).AllLive I := by
  intro t ht
  rcases (step_follows hw op).live t ht with hl | ⟨-, -, hb⟩
  swap
  · exact hborn _ hb
  by_cases ho : op = .close t
  · subst ho
    rw [sock_of_close ht]
    exact h t hl
  · rcases step_change hw op t with he | hc | ⟨-, -, hb⟩
    · rw [he]
      exact h t hl
    · exact hch t _ hl ho hc
    · exact hborn _ hb

/-- The life of the socket `t`: where an operation or a packet can bring it. -/
inductive Moves (w : World) (t : SockId) : Op → UkVsockState → UkVsockState → Prop
  | stay {op a} : Moves w t op a a
  | bind {addr n} : Moves w t (.bind t addr n) .READY .BOUND
  | listen {backlog a} (h : a = .BOUND ∨ a = .READY) : Moves w t (.listen t backlog) a .LISTENING
  | connect {addr n a} (h : a = .BOUND ∨ a = .READY) : Moves w t (.connect t addr n) a .WAIT_CONNECT
  | response {pkt} (ht : rxTarget w pkt = some t) (ho : pkt.hdr.op = OP_RESPONSE) :
      Moves w t (.rx pkt) .WAIT_CONNECT .OPEN
  | reset {pkt a} (ht : rxTarget w pkt = some t) (ho : pkt.hdr.op = OP_RST) (h : a = .WAIT_CONNECT ∨ a = .OPEN) :
      Moves w t (.rx pkt) a .READY
  | peer {pkt a} (ht : rxTarget w pkt = some t)
      (h : pkt.hdr.op = OP_SHUTDOWN ∧ a = .OPEN ∨ pkt.hdr.op = OP_RESPONSE ∧ (a = .BOUND ∨ a = .OPEN)) :
      Moves w t (.rx pkt) a .CLOSED
  | shutdown {how} : Moves w t (.shutdown t how) .OPEN .CLOSED
  | close {op a} (ho : op = .close t ∨ op = .term) (h : a.inTable = true) : Moves w t op a .CLOSED

private theorem Handled.moves {pkt : Packet} (ht : rxTarget w pkt = some s) (h : Handled pkt v v') :
    Moves w s (.rx pkt) v.state v'.state := by
  cases h with
  | same | request | resetEvents | refused | payload => exact .stay
  | response ho hs => exact hs ▸ .response ht ho
  | badResponse ho hs => exact closed_state _ ▸ .peer ht (.inr ⟨ho, hs⟩)
  | resetWait ho hs => exact .reset ht ho (.inl hs)
  | resetOpen ho hs => exact .reset ht ho (.inr hs)
  | shutdown => exact shutdownBy_state .. ▸ .stay
  | shutdownClose ho hs => exact closed_state _ ▸ .peer ht (.inl ⟨ho, hs⟩)

private theorem Change.moves (h : Change w op s v v') : Moves w s op v.state v'.state := by
  cases h with
  | @rx pkt _ _ _ ht hh => exact credited_state v pkt.hdr ▸ hh.moves ht
  | term hc =>
    refine closed_state v ▸ .close (.inr rfl) ?_
    cases hs : v.state <;> simp_all [termCloses, inTable]
  | close hs => exact closed_state v ▸ .close (.inl rfl) hs
  | shutdown => exact shutdownBy_state .. ▸ .stay
  | shutdownClose _ hs => exact closed_state _ ▸ hs ▸ .shutdown
  | read | recvfrom => exact (clearIfEmpty_state _).symm ▸ .stay
  | bind hs => exact hs ▸ .bind
  | listen hs =>
    rcases hs with hs | hs
    · exact .listen (.inl hs)
    · exact hs ▸ .stay
  | bindListen hs => exact .listen (.inr hs)
  | connect hs => exact .connect hs
  | accept => exact poppedClear_eq _ _ ▸ .stay
  | _ => exact .stay

/-- A socket that is closed stays closed. -/
theorem closed_of_run (hw : w.Fresh) (hs : s < w.next) (hc : (w.sock s).state = .CLOSED) (ops : List Op) :
    ((Runs.run Vsock.step w ops).sock s).state = .CLOSED := by
  induction ops generalizing w with
  | nil => exact hc
  | cons op ops ih =>
    refine ih (step_fresh hw op) (Nat.lt_of_lt_of_le hs (step_follows hw op).next_le) ?_
    rcases step_change hw op s with he | h | ⟨rfl, -⟩
    · rw [he, hc]
    · have hm := h.moves
      generalize ((Vsock.step w op).sock s).state = a at hm ⊢
      rw [hc] at hm
      cases hm <;> simp_all [inTable]
    · exact absurd hs (Nat.lt_irrefl _)

/-- In every run a socket moves along its life, or is made by a `socket` call or for a request that waits, and stays
closed. -/
theorem sock_moves_of_run (cid : BitVec 32) (env : Nat → Outcome) (ops : List Op) (op : Op) (t : SockId) :
    let w := Runs.run step (World.init cid env) ops
    let v := (step w op).sock t
    (Moves w t op (w.sock t).state v.state ∨ t = w.next ∧
        ((∃ type protocol, op = .socket type protocol ∧ v.state = .READY) ∨
      ∃ s addr l, op = .accept s addr l ∧ (w.sock s).state = .LISTENING ∧ (w.sock s).acceptQueue ≠ [] ∧
        v.state = .OPEN)) ∧
    (t < w.next → (w.sock t).state = .CLOSED → ∀ more, ((Runs.run step w more).sock t).state = .CLOSED) := by
  intro w v
  have hw : w.Fresh := Runs.run_invariant (I := World.Fresh) (fun _ op h => step_fresh h op) (fresh_init cid env) ops
  refine ⟨?_, closed_of_run hw⟩
  rcases step_change hw op t with he | hc | ⟨ht, -, hb⟩
  · exact .inl (congrArg state he ▸ .stay)
  · exact .inl hc.moves
  · refine .inr ⟨ht, ?_⟩
    change Born w op v at hb
    generalize v = v' at hb
    cases hb with
    | socket => exact .inl ⟨_, _, rfl, rfl⟩
    | accept hs hq => exact .inr ⟨_, _, _, rfl, hs, by simp [hq], rfl⟩

end Unikraft.Vsock
