import Unikraft.Lib.Lists
import Unikraft.Vsock.Table

/-!
# Connecting and accepting

`connect` on a blocking socket waits for `EPOLLOUT`, `EPOLLERR` or `EPOLLHUP`, and returns `so_error`. But a packet
with credit makes a waiting socket writable, and a transport reset, a shutdown and a reset end the connection without
setting `so_error` (`ConnectSafe`). A request that reaches a listening socket is meant to wait there until it is
answered once, by a `RESPONSE` or an `RST` (`Answered`). But closing the socket and a transport reset drop the
requests that wait (`AnswerSafe`).
-/

namespace Unikraft.Vsock

open Runs VirtioVsock World

/-- What happens while a system call waits: a received packet or a transport reset is handled. -/
inductive Event
  | rx (pkt : Packet)
  | reset

def Event.op : Event → Op
  | .rx pkt => .rx pkt
  | .reset => .term

def handle (w : World) (e : Event) : World := step w e.op

/-- Is one of the events set for which `connect` waits, `UKFD_POLLOUT | UKFD_POLL_ALWAYS`? -/
def VirtioVsock.connectPolled (v : VirtioVsock) : Bool :=
  v.posixSock.any fun e => e.epollOut || e.epollErr || e.epollHup

/-- `connect` on a blocking socket, with the events that are handled until `uk_file_poll` returns and those that are
handled between that and the `getsockopt` call. The result is `none` while the call waits. -/
def connect (w : World) (s : SockId) (addr : SockaddrVm) (addrLen : Nat) (waiting late : List Event) :
    Option (World × Except Errno Unit) :=
  match vsockConnect w s addr addrLen with
  | (w, .ok ()) => some (w, .ok ())
  | (w, .error e) =>
    if e.inProgress then
      let w := run handle w waiting
      if (w.sock s).connectPolled then
        match vsockGetsockopt (run handle w late) s 1 4 (some 4) with
        | (w, .ok (some (none, _))) => some (w, .ok ())
        | (w, .ok (some (some err, _))) => some (w, .error err)
        | (w, _) => some (w, .error e)
      else none
    else some (w, .error e)

structure ConnectReports (w : World) (s : SockId) (r : Except Errno Unit) : Prop where
  open_of_ok : r = .ok () → (w.sock s).state = .OPEN
  error_of_end : (w.sock s).state = .READY ∨ (w.sock s).state = .CLOSED → ∃ e, r = .error e

/-- As long as no error is noted, a socket waiting for the answer to its request gets no packet that only carries
credit, and once it is open no packet that ends the connection, and no transport reset comes. -/
def ConnectSafe (s : SockId) (w : World) : Event → Prop
  | .reset => (w.sock s).soError = none → (w.sock s).state ≠ .WAIT_CONNECT ∧ (w.sock s).state ≠ .OPEN
  | .rx pkt => (w.sock s).soError = none → rxTarget w pkt = some s →
      ((w.sock s).state = .WAIT_CONNECT →
        pkt.hdr.op = OP_REQUEST ∨ pkt.hdr.op = OP_RESPONSE ∨ pkt.hdr.op = OP_RST ∨ pkt.hdr.op = OP_SHUTDOWN ∨
          pkt.hdr.bufAlloc - ((w.sock s).txCount - pkt.hdr.fwdCnt) = 0) ∧
      ((w.sock s).state = .OPEN →
        pkt.hdr.op ≠ OP_RESPONSE ∧ pkt.hdr.op ≠ OP_RST ∧
          (pkt.hdr.op = OP_SHUTDOWN → ¬ (((w.sock s).rxShutdown || pkt.hdr.shutTx) = true ∧
            ((w.sock s).txShutdown || pkt.hdr.shutRx) = true)))

section
variable {w w' : World} {s : SockId} {addr : SockaddrVm} {e : Errno} {n : Nat}

/-- A call that is in progress has sent the request, or has taken the number of a port for `-EINPROGRESS`. -/
private theorem connect_inProgress (h : vsockConnect w s addr n = (w', .error e)) (he : e.inProgress = true) :
    (w.sock s).state = .READY ∨ (w'.sock s).state = .WAIT_CONNECT := by
  rcases connect_refused_or w s addr n with ⟨e', he', heq⟩ | ⟨hn, ha, hs | hs⟩
  · rw [heq] at h
    obtain ⟨-, ⟨⟩⟩ := Prod.mk.inj h
    exact absurd he (by rw [he']; decide)
  · obtain ⟨w1, -, ⟨-, heq⟩ | ⟨e', hx, heq⟩⟩ := connect_of_bound hn ha hs
    · rw [heq] at h
      obtain ⟨rfl, -⟩ := Prod.mk.inj h
      exact .inr (by rw [rbReinsert_sock, modify_self]; rfl)
    · rw [heq] at h
      obtain ⟨-, ⟨⟩⟩ := Prod.mk.inj h
      exact absurd he (by rw [hx.inProgress]; decide)
  · exact .inl hs

variable {pkt : Packet} {v v' : VirtioVsock}

private theorem rx_response (ht : rxTarget w pkt = some s) (hs : (w.sock s).state = .WAIT_CONNECT)
    (ho : pkt.hdr.op = OP_RESPONSE) : ((exec w (.rx pkt)).sock s).state = .OPEN := by
  simp only [exec, workRx_of_target ht, hs, reduceCtorEq, if_false]
  rw [rxHandler, if_neg (by rw [ho]; decide), if_pos ho, ukVsockConnResponse, if_neg (by simp [hs]),
    modify_self]
  rfl

private theorem connReset_soError (hs : (w.sock s).state = .WAIT_CONNECT) :
    ((ukVsockConnReset w s).1.sock s).soError = some .ECONNREFUSED := by
  have hst : ((w.modify s resetEvents).sock s).state = .WAIT_CONNECT := by simp [hs]
  have hq := reset_quiet ((w.modify s resetEvents).modify s fun v =>
    { v with soError := some .ECONNREFUSED }) s
  simp only [ukVsockConnReset, hst]
  cases hr : virtioVsockReset ((w.modify s resetEvents).modify s fun v =>
      { v with soError := some .ECONNREFUSED }) s with
  | mk w1 r =>
    rw [hr] at hq
    have hsock : (w1.sock s).soError = some .ECONNREFUSED := by rw [hq.calm.sock_eq, modify_self]
    cases r with
    | error e => exact hsock
    | ok u =>
      rw [modify_self, rbRemove_sock]
      exact hsock

private theorem rx_refusal (ht : rxTarget w pkt = some s) (hs : (w.sock s).state = .WAIT_CONNECT)
    (ho : pkt.hdr.op = OP_RST) : ((exec w (.rx pkt)).sock s).soError = some .ECONNREFUSED := by
  simp only [exec, workRx_of_target ht, hs, reduceCtorEq, if_false]
  rw [rxHandler, if_neg (by rw [ho]; decide), if_neg (by rw [ho]; decide), if_pos ho]
  exact connReset_soError (by simp [hs])

private theorem Handled.soError (h : Handled pkt (v.credited pkt.hdr) v') (hv : v.soError ≠ none) :
    v'.soError ≠ none := by
  cases h with
  | refused | resetWait => simp [VirtioVsock.refused]
  | same | request | response | badResponse | resetEvents | resetOpen | shutdown | shutdownClose | payload =>
    simpa [credited_eq, enqueue, eventSet, closed_eq,
      resetEvents_eq, shutdownBy_eq] using hv

/-- The outcome of the call is settled: it will return an error, or the connection is established. -/
def VirtioVsock.Settled (v : VirtioVsock) : Prop := v.soError ≠ none ∨ v.state = .OPEN

def VirtioVsock.Waiting (v : VirtioVsock) : Prop :=
  (v.state = .WAIT_CONNECT ∨ v.state = .READY) ∧ v.connectPolled = false

private theorem VirtioVsock.connectPolled_credited {hdr : VirtioVsockHdr} (hv : v.connectPolled = false)
    (hw : storesCredit hdr = true → hdr.bufAlloc - (v.txCount - hdr.fwdCnt) = 0) :
    (v.credited hdr).connectPolled = false := by
  rw [credited_eq]
  cases hc : storesCredit hdr with
  | false => simpa [connectPolled] using hv
  | true =>
    simp only [connectPolled, hw hc]
    cases hp : v.posixSock with
    | none => rfl
    | some e =>
      simp [connectPolled, hp] at hv
      simp [PollEvents.clear, EPOLLOUT, hv]

private theorem Handled.open_of_open (hh : Handled pkt (v.credited pkt.hdr) v')
    (hs : v.state = .OPEN) (hsafe : pkt.hdr.op ≠ OP_RESPONSE ∧ pkt.hdr.op ≠ OP_RST ∧
      (pkt.hdr.op = OP_SHUTDOWN → ¬ ((v.rxShutdown || pkt.hdr.shutTx) = true ∧
        (v.txShutdown || pkt.hdr.shutRx) = true))) :
    v'.state = .OPEN := by
  cases hh with
  | same | shutdown => simpa using hs
  | request _ _ hl => simp [hs] at hl
  | response ho | badResponse ho => exact absurd ho hsafe.1
  | resetEvents ho | refused ho | resetWait ho | resetOpen ho => exact absurd ho hsafe.2.1
  | shutdownClose ho _ hb =>
    refine absurd ?_ (hsafe.2.2 ho)
    simpa [shutdownBy_eq, credited_eq] using hb
  | payload => simpa [eventSet] using hs

private theorem Handled.waiting (hh : Handled pkt (v.credited pkt.hdr) v')
    (hs : v.state = .WAIT_CONNECT) (hv : v.connectPolled = false) (hr : pkt.hdr.op ≠ OP_RESPONSE)
    (ht : pkt.hdr.op ≠ OP_RST) (hsafe : pkt.hdr.op = OP_REQUEST ∨ pkt.hdr.op = OP_SHUTDOWN ∨
      pkt.hdr.bufAlloc - (v.txCount - pkt.hdr.fwdCnt) = 0) : v'.Waiting := by
  cases hh with
  | same =>
    refine ⟨.inl (by simpa using hs), connectPolled_credited hv fun hc => ?_⟩
    rcases hsafe with ho | ho | hw
    · simp [storesCredit, ho] at hc
    · simp [storesCredit, ho, OP_SHUTDOWN, UkVsockState.val] at hc
    · exact hw
  | request _ _ hl | payload _ _ hl => simp [hs] at hl
  | response ho | badResponse ho => exact absurd ho hr
  | resetEvents ho | refused ho | resetWait ho | resetOpen ho => exact absurd ho ht
  | shutdown _ hl | shutdownClose _ hl => simp [hs] at hl

/-- An event changes a socket only by a reset of the transport or by a packet for it. -/
theorem handle_cases (h : TableSound w) (e : Event) (s : SockId) :
    (handle w e).sock s = w.sock s ∨
    (e = .reset ∧ (w.sock s).termCloses = true ∧ (handle w e).sock s = (w.sock s).closed) ∨
    ∃ pkt, e = .rx pkt ∧ rxTarget w pkt = some s ∧ Handled pkt ((w.sock s).credited pkt.hdr)
    ((handle w e).sock s) := by
  unfold handle
  rcases step_change h.fresh e.op s with he | hc | ⟨-, -, hb⟩
  · exact .inl he
  · cases e with
    | reset =>
      generalize (step w Event.reset.op).sock s = v' at hc ⊢
      cases hc with
      | term hc => exact .inr (.inl ⟨rfl, hc, rfl⟩)
    | rx pkt =>
      cases hc with
      | rx ht hh => exact .inr (.inr ⟨pkt, rfl, ht, hh⟩)
  · cases e <;> cases hb

private theorem settled_handle {e : Event} (h : TableSound w) (hsafe : ConnectSafe s w e) (hv : (w.sock s).Settled) :
    ((handle w e).sock s).Settled := by
  by_cases hso : (w.sock s).soError = none
  · have hs := hv.resolve_left (not_not_intro hso)
    rcases handle_cases h e s with he | ⟨rfl, hc, he⟩ | ⟨pkt, rfl, ht, hh⟩
    · rwa [he]
    · exact absurd hs (hsafe hso).2
    · exact .inr (hh.open_of_open hs ((hsafe hso ht).2 hs))
  · left
    rcases handle_cases h e s with he | ⟨rfl, hc, he⟩ | ⟨pkt, rfl, ht, hh⟩
    · rwa [he]
    · rw [he]
      simpa [closed_eq] using hso
    · exact hh.soError hso

private theorem waiting_handle {e : Event} (h : TableSound w) (hsafe : ConnectSafe s w e) (hv : (w.sock s).Waiting) :
    ((handle w e).sock s).Settled ∨ ((handle w e).sock s).Waiting := by
  by_cases hso : (w.sock s).soError = none
  swap
  · exact .inl (settled_handle h hsafe (.inl hso))
  rcases handle_cases h e s with he | ⟨rfl, hc, he⟩ | ⟨pkt, rfl, ht, hh⟩
  · rw [he]
    exact .inr hv
  · rcases hv.1 with hs | hs
    · exact absurd hs (hsafe hso).1
    · simp [termCloses, hs] at hc
  · have hs : (w.sock s).state = .WAIT_CONNECT := by
      refine hv.1.resolve_right fun hs => ?_
      have hin := h.inTable s (rxTarget_mem ht)
      rw [hs] at hin
      cases hin
    by_cases hr : pkt.hdr.op = OP_RESPONSE
    · exact .inl (.inr (rx_response ht hs hr))
    by_cases hrst : pkt.hdr.op = OP_RST
    · refine .inl (.inl ?_)
      rw [show (handle w (.rx pkt)).sock s = (exec w (.rx pkt)).sock s from rfl, rx_refusal ht hs hrst]
      simp
    refine .inr (hh.waiting hs hv.2 hr hrst ?_)
    rcases (hsafe hso ht).1 hs with ho | ho | ho | ho | ho
    · exact .inl ho
    · exact absurd ho hr
    · exact absurd ho hrst
    · exact .inr (.inl ho)
    · exact .inr (.inr ho)

private theorem connect_started (h : TableSound w) (hl : w.live s = true)
    (hc : vsockConnect w s addr n = (w', .error e)) (he : e.inProgress = true)
    (h0 : (w.sock s).soError ≠ none ∨ (w.sock s).connectPolled = false) :
    TableSound w' ∧ ((w'.sock s).Settled ∨ (w'.sock s).Waiting) := by
  have hw : step w (.connect s addr n) = w' := by
    simp [step, Op.sock?, hl, exec, hc]
  have hstate := connect_inProgress hc he
  refine ⟨hw ▸ h.step _, ?_⟩
  have hkeep : (w'.sock s).soError = (w.sock s).soError ∧ (w'.sock s).posixSock = (w.sock s).posixSock ∧
      ((w'.sock s).state = .WAIT_CONNECT ∨ (w'.sock s).state = .READY) := by
    have hch := step_change h.fresh (.connect s addr n) s
    rw [hw] at hch
    rcases hch with hsame | hch | ⟨-, -, hb⟩
    · rw [hsame] at hstate ⊢
      exact ⟨rfl, rfl, hstate.symm⟩
    · generalize w'.sock s = v' at hch hstate ⊢
      cases hch with
      | connectPortless hs | connectUndone hs => exact ⟨rfl, rfl, .inr hs⟩
      | connect => exact ⟨rfl, rfl, .inl rfl⟩
    · cases hb
  obtain ⟨hso, hp, hst⟩ := hkeep
  rcases h0 with h0 | h0
  · exact .inl (.inl (by rwa [hso]))
  · exact .inr ⟨hst, by rwa [connectPolled, hp]⟩

private theorem connect_error (w : World) (s : SockId) (addr : SockaddrVm) (n : Nat) :
    ∃ w1 e, vsockConnect w s addr n = (w1, .error e) := by
  unfold vsockConnect
  dsimp only
  repeat' split
  all_goals exact ⟨_, _, rfl⟩

end

/-- In such a run `connect` returns success only for an open socket, and an error when the socket ends closed or
unconnected. -/
theorem connectReports_of_run (cid : BitVec 32) (env : Nat → Outcome) (ops : List Op) (s : SockId) (addr : SockaddrVm)
    (addrLen : Nat) (waiting late : List Event) {w' : World} {r : Except Errno Unit}
    (hl : (run step (World.init cid env) ops).live s = true)
    (h₀ : ((run step (World.init cid env) ops).sock s).soError ≠ none ∨
      ((run step (World.init cid env) ops).sock s).connectPolled = false)
    (hm : Meets handle (ConnectSafe s) (vsockConnect (run step (World.init cid env) ops) s addr addrLen).1
      (waiting ++ late))
    (hc : connect (run step (World.init cid env) ops) s addr addrLen waiting late = some (w', r)) :
    ConnectReports w' s r := by
  have hsound := tableSound_of_run cid env ops
  generalize run step (World.init cid env) ops = w at *
  obtain ⟨w₁, e, hv⟩ := connect_error w s addr addrLen
  simp only [connect, hv] at hc hm
  by_cases he : e.inProgress = true
  swap
  · rw [if_neg he] at hc
    obtain ⟨-, rfl⟩ := Prod.mk.inj (Option.some.inj hc)
    exact ⟨fun h => (nomatch h), fun _ => ⟨e, rfl⟩⟩
  rw [if_pos he, ← run_append] at hc
  obtain ⟨hm₁, hm₂⟩ := meets_append.1 hm
  -- Until the call stops waiting the outcome may be open; then it is settled.
  have hwait : TableSound (run handle w₁ waiting) ∧
      (((run handle w₁ waiting).sock s).Settled ∨ ((run handle w₁ waiting).sock s).Waiting) := by
    refine hm₁.invariant (I := fun w => TableSound w ∧ ((w.sock s).Settled ∨ (w.sock s).Waiting)) ?_
      (connect_started hsound hl hv he h₀)
    intro w e h hsafe
    refine ⟨h.1.step _, ?_⟩
    rcases h.2 with hs | hs
    · exact .inl (settled_handle h.1 hsafe hs)
    · exact waiting_handle h.1 hsafe hs
  split at hc
  swap
  · cases hc
  rename_i hp
  have hsettled : ((run handle w₁ waiting).sock s).Settled := by
    refine hwait.2.resolve_right fun hs => ?_
    rw [hs.2] at hp
    cases hp
  have hend : TableSound (run handle w₁ (waiting ++ late)) ∧
      ((run handle w₁ (waiting ++ late)).sock s).Settled := by
    rw [run_append]
    exact hm₂.invariant (I := fun w => TableSound w ∧ (w.sock s).Settled)
      (fun w e h hsafe => ⟨h.1.step _, settled_handle h.1 hsafe h.2⟩) ⟨hwait.1, hsettled⟩
  generalize run handle w₁ (waiting ++ late) = w₂ at hc hend
  have hstate : ((w₂.modify s fun v => { v with soError := none }).sock s).state = (w₂.sock s).state := by
    rw [modify_self]
  simp only [vsockGetsockopt, if_true] at hc
  cases hso : (w₂.sock s).soError with
  | none =>
    have hopen := hend.2.resolve_left (by simp [hso])
    rw [hso] at hc
    obtain ⟨rfl, rfl⟩ := Prod.mk.inj (Option.some.inj hc)
    refine ⟨fun _ => hstate.trans hopen, fun h => ?_⟩
    rw [hstate, hopen] at h
    simp at h
  | some err =>
    rw [hso] at hc
    obtain ⟨rfl, rfl⟩ := Prod.mk.inj (Option.some.inj hc)
    exact ⟨fun h => (nomatch h), fun _ => ⟨err, rfl⟩⟩

def bound1000 : List Op := [.socket 1 0, .bind 0 ⟨AF_VSOCK, 1000, CID_ANY⟩ 16]

theorem connectReports_answered :
    ∃ w', connect (run step (World.init 3 fun _ => .good) bound1000) 0 ⟨AF_VSOCK, 5, 2⟩ 16
      [.rx (peerPacket OP_RESPONSE 100 0 [])] [] = some (w', .ok ()) ∧ ConnectReports w' 0 (.ok ()) := by
  refine ⟨_, rfl, connectReports_of_run 3 (fun _ => .good) bound1000 0 ⟨AF_VSOCK, 5, 2⟩ 16
    [.rx (peerPacket OP_RESPONSE 100 0 [])] [] rfl (.inr rfl)
      ⟨fun _ _ => ⟨fun _ => .inr (.inl rfl), ?_⟩, trivial⟩ rfl⟩
  intro h
  revert h
  decide

/-- A transport reset while the call waits closes the socket, and the call returns success. -/
theorem not_connectReports_of_run :
    ¬ ∀ (cid : BitVec 32) (env : Nat → Outcome) (ops : List Op) (s : SockId) (addr : SockaddrVm) (addrLen : Nat)
      (waiting late : List Event) (w' : World) (r : Except Errno Unit),
      (run step (World.init cid env) ops).live s = true →
      connect (run step (World.init cid env) ops) s addr addrLen waiting late = some (w', r) →
      ConnectReports w' s r := by
  intro h
  have hopen := (h 3 (fun _ => .good) bound1000 0 ⟨AF_VSOCK, 5, 2⟩ 16 [.reset] [] _ _ rfl rfl).open_of_ok rfl
  revert hopen
  decide

structure Unchanged (w w' : World) (s : SockId) : Prop where
  state : (w'.sock s).state = (w.sock s).state
  localAddr : (w'.sock s).localAddr = (w.sock s).localAddr
  peerAddr : (w'.sock s).peerAddr = (w.sock s).peerAddr
  mem : ∀ t, t ∈ w'.sockets ↔ t ∈ w.sockets
  key : ∀ t ∈ w.sockets, (w'.sock t).key = (w.sock t).key
  fault : w'.rbFault = w.rbFault

def ConnectUndone (w : World) (s : SockId) (addr : SockaddrVm) (n : Nat) : Prop :=
  ∀ e, (vsockConnect w s addr n).2 = .error e → e.inProgress = false → Unchanged w (vsockConnect w s addr n).1 s

/-- The peer is not that of another connection of the bound port. A socket in state `READY` has the wildcard as its
local address if there is a port for it, and otherwise the CID of the device and the wildcard as its peer. -/
def UndoSafe (w : World) (s : SockId) (addr : SockaddrVm) (n : Nat) : Prop :=
  n = sizeofSockaddrVm → addr.svmFamily = AF_VSOCK →
    ((w.sock s).state = .BOUND → w.KeyFree s { (w.sock s).key with peer := addr.addr }) ∧
    ((w.sock s).state = .READY →
      (∀ i < 65536, w.FirstFree (w.sock s).sockType i → (w.candidate i).toNat < 2 ^ 31 →
          (w.sock s).localAddr = .any) ∧
      ((∀ i < 65536, w.FirstFree (w.sock s).sockType i → 2 ^ 31 ≤ (w.candidate i).toNat ∧
          (w.candidate i).toInt ≠ -115) →
        (w.sock s).localAddr.cid = w.cid ∧ (w.sock s).peerAddr = .any))

variable {w w' : World} {s : SockId} {addr : SockaddrVm} {n : Nat}

private theorem Unchanged.refl (w : World) (s : SockId) : Unchanged w w s :=
  ⟨rfl, rfl, rfl, fun _ => Iff.rfl, fun _ _ => rfl, rfl⟩

private theorem Unchanged.of_sock (hw : TableSound w) (hf : TableFull w) (hw' : TableSound w') (hf' : TableFull w')
    (hlive : w'.live = w.live) (hsock : w'.sock = w.sock) : Unchanged w w' s := by
  refine ⟨by rw [hsock], by rw [hsock], by rw [hsock], fun t => ⟨fun ht => ?_, fun ht => ?_⟩,
      fun t _ => by rw [hsock],
    hf'.fault.trans hf.fault.symm⟩
  · exact hf.mem t (hlive ▸ hw'.live t ht) (hsock ▸ hw'.inTable t ht)
  · exact hf'.mem t (hlive.symm ▸ hw.live t ht) (hsock.symm ▸ hw.inTable t ht)

/-- The port allocation fails if there is no free port, or the first free one counts as an error. -/
theorem allocPort_fails_iff (w : World) (ty : SockType) :
    (∃ e, (vsockAllocPort w ty).2 = .error e ∧ e.inProgress = false) ↔
    ∀ i < 65536, w.FirstFree ty i → 2 ^ 31 ≤ (w.candidate i).toNat ∧ (w.candidate i).toInt ≠ -115 := by
  rcases exists_firstFree_or w ty with ⟨i, hi, hfirst⟩ | hall
  · rw [allocPort_firstFree hi hfirst]
    constructor
    · rintro ⟨e, he, hne⟩ j - hj
      rw [← hfirst.unique hj]
      split at he
      · cases he
        exact ⟨‹_›, by simpa [Errno.inProgress] using hne⟩
      · cases he
    · intro h
      obtain ⟨hbig, hne⟩ := h i hi hfirst
      exact ⟨_, if_pos hbig, by simpa [Errno.inProgress] using hne⟩
  · rw [allocPort_of_none hall]
    exact ⟨fun _ i hi hfirst => absurd hfirst.1 (hall i hi), fun _ => ⟨_, rfl, rfl⟩⟩

private theorem ConnectUndone.of_safe (hw : TableSound w) (hf : TableFull w) (hl : w.live s = true)
    (h : UndoSafe w s addr n) :
    ConnectUndone w s addr n := by
  intro e he hne
  rcases connect_refused_or w s addr n with ⟨e', -, heq⟩ | ⟨hn, ha, hs⟩
  · rw [heq]
    exact .refl w s
  obtain ⟨hbound, hready⟩ := h hn ha
  have hstep : step w (.connect s addr n) = (vsockConnect w s addr n).1 := by simp [step, Op.sock?, hl, exec]
  have hof (hlive : (vsockConnect w s addr n).1.live = w.live) (hsock : (vsockConnect w s addr n).1.sock = w.sock) :
      Unchanged w (vsockConnect w s addr n).1 s :=
    .of_sock hw hf (hstep ▸ hw.step _) (hstep ▸ hf.step hw hbound) hlive hsock
  have hback {w1 : World} (hq : w.Quiet w1) {f : VirtioVsock → VirtioVsock} {t : SockId} (hts : t ≠ s) :
      (w1.modify s f).sock t = w.sock t := by rw [modify_of_ne _ _ hts, hq.calm.sock_eq]
  rcases hs with hs | hs
  · obtain ⟨w1, hq, ⟨-, heq⟩ | ⟨e', -, heq⟩⟩ := connect_of_bound hn ha hs
    · rw [heq] at he
      cases he
      cases hne
    · refine hof (by rw [heq]; exact hq.calm.live_eq) (funext fun t => ?_)
      rw [heq]
      by_cases hts : t = s
      · rw [hts, rbReinsert_sock, modify_self]
      · rw [rbReinsert_sock, modify_of_ne _ _ hts, rbReinsert_sock, hback hq hts]
  · obtain ⟨hport, hnone⟩ := hready hs
    obtain ⟨w1, hq, ⟨e', halloc, heq⟩ | ⟨port, halloc, -, ⟨-, heq⟩ | ⟨e', -, heq⟩⟩⟩ := connect_of_ready hn ha hs
    · rw [heq] at he
      cases he
      obtain ⟨hcid, hpeer⟩ := hnone ((allocPort_fails_iff w _).1 ⟨e, halloc, hne⟩)
      refine hof (by rw [heq]; exact hq.calm.live_eq) (funext fun t => ?_)
      rw [heq]
      by_cases hts : t = s
      · rw [hts, modify_self, hq.calm.sock_eq, portless, ← hcid, ← hpeer]
      · rw [hback hq hts]
    · rw [heq] at he
      cases he
      cases hne
    · have hany : (w.sock s).localAddr = .any := by
        rcases exists_firstFree_or w (w.sock s).sockType with ⟨i, hi, hfirst⟩ | hall
        · refine hport i hi hfirst (Nat.not_le.1 fun hbig => ?_)
          rw [allocPort_firstFree hi hfirst, if_pos hbig] at halloc
          cases halloc
        · rw [allocPort_of_none hall] at halloc
          cases halloc
      refine hof (by rw [heq]; exact hq.calm.live_eq) (funext fun t => ?_)
      rw [heq]
      by_cases hts : t = s
      · rw [hts, modify_self, ← hany]
      · rw [modify_of_ne _ _ hts, rbRemove_sock, rbInsert_sock, hback hq hts]

private theorem rbFault_of_rbReinsert {t : SockId} (ht : t ∈ w.sockets) (hts : t ≠ s)
    (hk : (w.sock t).key = (w.sock s).key) :
    (w.rbReinsert s).rbFault = true := by
  have hmem : t ∈ (w.rbRemove s).sockets := (List.mem_erase_of_ne hts).2 ht
  have hfind : OrdSet.find ukVsockSockaddrCmp w.keyOf (w.keyOf s) (w.rbRemove s).sockets ≠ none := fun h =>
    OrdSet.find_eq_none.1 h t hmem ((sockaddrCmp_eq_iff rfl rfl).2 hk.symm)
  obtain ⟨u, hu⟩ := Option.ne_none_iff_exists'.1 hfind
  have hinsert : (OrdSet.insert ukVsockSockaddrCmp w.keyOf s (w.rbRemove s).sockets).2 = some u := by
    simp only [OrdSet.insert, hu]
  show (_ || (OrdSet.insert ukVsockSockaddrCmp w.keyOf s (w.rbRemove s).sockets).2.isSome) = true
  rw [hinsert]
  exact Bool.or_true _

private theorem ConnectUndone.safe (hf : TableFull w) (hmem : ¬ ∃ k, (w.env k).alloc = true)
    (h : ConnectUndone w s addr n) :
    UndoSafe w s addr n := by
  intro hn ha
  refine ⟨fun hs t ht hts hk => ?_, fun hs => ⟨fun i hi hfirst hsmall => ?_, fun hbig => ?_⟩⟩
  · obtain ⟨w1, hq, ⟨hk, -⟩ | ⟨e, hx, heq⟩⟩ := connect_of_bound hn ha hs
    · exact hmem hk
    · have hfault := (h e (by rw [heq]) hx.inProgress).fault
      have hfirst : ((w1.modify s fun v => v.connecting v.localAddr addr.addr).rbReinsert s).rbFault = true := by
        refine rbFault_of_rbReinsert (by rwa [modify_sockets, hq.calm.sockets_eq]) hts ?_
        rw [modify_of_ne _ _ hts, modify_self, hq.calm.sock_eq, hk]
        rfl
      have hlast : (vsockConnect w s addr n).1.rbFault = true := by
        rw [heq]
        show ((((w1.modify s _).rbReinsert s).rbFault || _) || _) = true
        rw [hfirst]
        rfl
      rw [hlast, hf.fault] at hfault
      cases hfault
  · obtain ⟨w1, hq, ⟨e, he, -⟩ | ⟨port, -, -, ⟨hk, -⟩ | ⟨e, hx, heq⟩⟩⟩ := connect_of_ready hn ha hs
    · rw [allocPort_firstFree hi hfirst, if_neg (Nat.not_le.2 hsmall)] at he
      cases he
    · exact absurd hk hmem
    · have hlocal := (h e (by rw [heq]) hx.inProgress).localAddr
      rw [heq, modify_self] at hlocal
      exact hlocal.symm
  · obtain ⟨e, halloc, hne⟩ := (allocPort_fails_iff w _).2 hbig
    obtain ⟨w1, hq, ⟨e', he', heq⟩ | ⟨port, hport, -⟩⟩ := connect_of_ready hn ha hs
    · rw [halloc] at he'
      cases he'
      have hundone := h e (by rw [heq]) hne
      rw [heq] at hundone
      have hlocal := hundone.localAddr
      have hpeer := hundone.peerAddr
      rw [modify_self, hq.calm.sock_eq] at hlocal hpeer
      exact ⟨congrArg UkVsockaddr.cid hlocal.symm, hpeer.symm⟩
    · rw [halloc] at hport
      cases hport

/-- Whatever the driver does, exactly the calls that meet the condition leave everything as it was if they fail. -/
theorem connectUndone_iff (hw : TableSound w) (hf : TableFull w) (hl : w.live s = true) (addr : SockaddrVm)
    (n : Nat) :
    (∀ env, ConnectUndone { w with env := env } s addr n) ↔ UndoSafe w s addr n := by
  have hw' (env : Nat → Outcome) : TableSound { w with env := env } :=
    ⟨hw.fresh, hw.nodup, hw.live, hw.inTable, hw.cid_eq, hw.key_inj⟩
  have hf' (env : Nat → Outcome) : TableFull { w with env := env } := ⟨hf.mem, hf.fault⟩
  constructor
  · intro h
    have hsafe := (h fun _ => ⟨false, false, none⟩).safe (hf' _) fun ⟨_, hk⟩ => (nomatch hk)
    exact hsafe
  · intro h env
    exact .of_safe (hw' env) (hf' env) hl h

theorem connectUndone_bound :
    ConnectUndone { Runs.run step (World.init 3 fun _ => .good) bound1000 with env := fun _ => ⟨false, false, none⟩ }
    0
      ⟨AF_VSOCK, 5, 2⟩ 16 := by
  have hinv : TableSound (Runs.run step (World.init 3 fun _ => .good) bound1000) ∧
      TableFull (Runs.run step (World.init 3 fun _ => .good) bound1000) :=
    Runs.Meets.invariant (I := fun w => TableSound w ∧ TableFull w)
      (fun w op hi hop => ⟨hi.1.step op, hi.2.step hi.1 hop⟩) ⟨tableSound_init 3 _, ⟨nofun, rfl⟩⟩
        ⟨trivial, trivial, trivial⟩
  refine (connectUndone_iff hinv.1 hinv.2 rfl ⟨AF_VSOCK, 5, 2⟩ 16).2
    (fun _ _ => ⟨fun _ => ?_, fun hs => absurd hs (by decide)⟩) _
  unfold World.KeyFree
  decide

/-- A new socket whose first request finds no memory loses its local address. -/
theorem not_connectUndone : ¬ ∀ (cid : BitVec 32) (env : Nat → Outcome) (ops : List Op) (s : SockId)
    (addr : SockaddrVm) (n : Nat),
    (Runs.run step (World.init cid env) ops).live s = true →
    ConnectUndone (Runs.run step (World.init cid env) ops) s addr n := by
  intro h
  have hundone :=
    h 3 (fun k => if k < 2 then .good else ⟨false, false, none⟩) [.socket 1 0] 0 ⟨AF_VSOCK, 5, 2⟩ 16 rfl .ENOMEM
    (by decide) rfl
  have hlocal := hundone.localAddr
  revert hlocal
  decide

/-- The length of the accept queue is right, and only listening sockets have requests. -/
structure VirtioVsock.QueueOk (v : VirtioVsock) : Prop where
  length : v.acceptQueueLength = v.acceptQueue.length
  idle : v.state ≠ .LISTENING → v.acceptQueue = []

private theorem drainLoop_length (q : List AcceptEntry) (n : Int) : drainLoop q n = n - q.length := by
  induction q generalizing n with
  | nil => simp [drainLoop]
  | cons e q ih =>
    rw [drainLoop, ih, List.length_cons]
    omega

section
variable {v v' : VirtioVsock}

section
variable (h : v.QueueOk)
include h

private theorem VirtioVsock.QueueOk.congr (hq : v'.acceptQueue = v.acceptQueue)
    (hl : v'.acceptQueueLength = v.acceptQueueLength) (hs : v.state = .LISTENING → v'.state = .LISTENING) :
    v'.QueueOk := by
  refine ⟨by rw [hl, hq, h.length], fun hn => ?_⟩
  rw [hq]
  exact h.idle fun hv => hn (hs hv)

private theorem VirtioVsock.QueueOk.closed : v.closed.QueueOk := by
  rw [closed_eq]
  by_cases hw : v.state = .WAIT_CONNECT
  · have hq : v.acceptQueue = [] := h.idle (by simp [hw])
    constructor
    · simp only [hw, if_true]
      exact h.length
    · simp [hw, hq]
  · constructor
    · simp only [hw, if_false, drainLoop_length, h.length]
      simp
    · simp [hw]

private theorem VirtioVsock.QueueOk.shutdownBy (rx tx : Bool) : (v.shutdownBy rx tx).QueueOk := by
  rw [shutdownBy_eq]
  exact h.congr rfl rfl id

private theorem VirtioVsock.QueueOk.popped {entry : AcceptEntry} {queue : List AcceptEntry}
    (hq : v.acceptQueue = entry :: queue) (hq' : v'.acceptQueue = queue)
    (hl : v'.acceptQueueLength = v.acceptQueueLength - 1) (hs : v'.state = .LISTENING) : v'.QueueOk := by
  refine ⟨?_, fun hn => absurd hs hn⟩
  rw [hl, h.length, hq, hq', List.length_cons]
  omega

end

private theorem Handled.queueOk {pkt : Packet} (h : Handled pkt v v') (hv : v.QueueOk) : v'.QueueOk := by
  cases h with
  | same => exact hv
  | request req ho hs hl =>
    refine ⟨?_, fun hn => absurd hs hn⟩
    show v.acceptQueueLength + 1 = _
    rw [hv.length]
    simp [enqueue, eventSet]
  | resetEvents | refused | payload => exact hv.congr rfl rfl id
  | response ho hs | resetWait ho hs | resetOpen ho hs => exact hv.congr rfl rfl fun hl => by simp [hs] at hl
  | badResponse => exact hv.closed
  | shutdown => exact hv.shutdownBy _ _
  | shutdownClose => exact (hv.shutdownBy _ _).closed

variable {w : World} {op : Op} {s : SockId}

private theorem Change.queueOk (h : Change w op s v v') (hv : v.QueueOk) : v'.QueueOk := by
  cases h with
  | @rx pkt _ _ _ _ hh =>
    refine hh.queueOk ?_
    rw [credited_eq]
    exact hv.congr rfl rfl id
  | term | close => exact hv.closed
  | shutdown => exact hv.shutdownBy _ _
  | shutdownClose => exact (hv.shutdownBy _ _).closed
  | getsockopt | write | writeEmpty | sendto | sendtoEmpty | connectPortless | connectUndone =>
    exact hv.congr rfl rfl id
  | read | recvfrom =>
    rw [VirtioVsock.clearIfEmpty_eq]
    exact hv.congr rfl rfl id
  | bind hs => exact hv.congr rfl rfl fun hl => by simp [hs] at hl
  | connect hs => exact hv.congr rfl rfl fun hl => by rcases hs with hs | hs <;> simp [hs] at hl
  | listen | bindListen => exact hv.congr rfl rfl fun _ => rfl
  | acceptFailed hs hq => exact hv.popped hq rfl rfl hs
  | accept hs hq =>
    rw [poppedClear_eq]
    exact hv.popped hq rfl rfl hs

private theorem Born.queueOk (h : Born w op v) : v.QueueOk := by
  cases h with
  | socket | accept => exact ⟨rfl, fun _ => rfl⟩

/-- Every step keeps the lengths of the accept queues. -/
theorem World.Fresh.queueOk_step (hf : w.Fresh) (h : w.All fun _ v => v.QueueOk) (op : Op) :
    (Vsock.step w op).All fun _ v => v.QueueOk :=
  h.step hf (fun t _ hc => hc.queueOk (h t)) fun _ hb => hb.queueOk

end

theorem queueOk_init (cid : BitVec 32) (env : Nat → Outcome) : (World.init cid env).All fun _ v => v.QueueOk :=
  fun _ => ⟨rfl, fun _ => rfl⟩

open List

def World.answersTo (w : World) (i : Nat) : List Sent := w.sent.filter (·.answers = some i)

def VirtioVsock.queued (v : VirtioVsock) (i : Nat) : Nat := v.acceptQueue.countP (·.req = i)

def Packet.Returns (pkt : Packet) (hdr : VirtioVsockHdr) : Prop :=
  pkt.hdr.dstCid = hdr.srcCid ∧ pkt.hdr.dstPort = hdr.srcPort

/-- The request `i`, dispatched to `s`, waits, or was answered by one `RESPONSE`, or was answered by one `RST`. -/
def Answered (w : World) (i : Nat) (s : SockId) (hdr : VirtioVsockHdr) : Prop :=
  ((w.sock s).queued i = 1 ∧ w.answersTo i = []) ∨
  ((w.sock s).queued i = 0 ∧ ∃ x, w.answersTo i = [x] ∧ x.pkt.hdr.op = OP_RESPONSE ∧ x.pkt.Returns hdr) ∨
  ((w.sock s).queued i = 0 ∧ ∃ x, w.answersTo i = [x] ∧ x.pkt.hdr.op = OP_RST ∧ x.pkt.Returns hdr)

/-- All requests so far are waiting or answered once, and the queue lengths are right. -/
structure QueuesOk (w : World) : Prop where
  answered : ∀ i s hdr, w.requests[i]? = some (s, hdr) → Answered w i s hdr
  length : ∀ s, (w.sock s).acceptQueueLength = (w.sock s).acceptQueue.length

/-- No listening socket is closed while requests wait, and requests come from sources whose CID fits in 32 bits. -/
def AnswerSafe (w : World) : Op → Prop
  | .close s => (w.sock s).state = .LISTENING → (w.sock s).acceptQueue = []
  | .term => ∀ s, (w.sock s).state = .LISTENING → (w.sock s).termCloses = true → (w.sock s).acceptQueue = []
  | .rx pkt => pkt.hdr.op = OP_REQUEST → (pkt.hdr.srcCid.setWidth 32).setWidth 64 = pkt.hdr.srcCid
  | _ => True

/-- The driver does not fail, and only sockets that were made have left their first state. -/
structure World.Sound (w : World) : Prop where
  fresh : w.Fresh
  good : ∀ i, w.env i = Outcome.good
  known : ∀ t, (w.sock t).state ≠ .READY → t < w.next

variable {s : SockId} {w w' : World} {op : Op} {pkt : Packet} {hdr : VirtioVsockHdr}

private theorem Handled.state_ready {v v' : VirtioVsock} (h : Handled pkt v v') (hv : v.state = .READY) :
    v'.state = .READY := by
  cases h with
  | same => exact hv
  | resetEvents => simpa using hv
  | resetWait | resetOpen => rfl
  | request _ _ hs | response _ hs | refused _ hs | shutdown _ hs | shutdownClose _ hs | payload _ _ hs =>
    rw [hv] at hs
    cases hs
  | badResponse _ hs => rcases hs with hs | hs <;> rw [hv] at hs <;> cases hs

/-- Every step keeps the world sound. -/
theorem World.Sound.step (h : w.Sound) (op : Op) : (Vsock.step w op).Sound := by
  have hf := step_follows h.fresh op
  refine ⟨step_fresh h.fresh op, fun i => by rw [hf.env_eq]; exact h.good i, fun t ht => ?_⟩
  refine Nat.lt_of_not_le fun hle => ?_
  -- A socket that does not exist is in its first state, and only packets could reach it.
  have hnot : ¬ t < w.next := Nat.not_lt_of_le (Nat.le_trans hf.next_le hle)
  have hready : (w.sock t).state = .READY := by
    by_contra hn
    exact hnot (h.known t hn)
  rcases step_change h.fresh op t with he | hc | ⟨rfl, hlt, -⟩
  · rw [he] at ht
    exact ht hready
  · cases ho : op.sock? with
    | some s =>
      obtain rfl := hc.sock_eq ho
      by_cases hl : w.live t = true
      · exact hnot (h.fresh t hl)
      · have hstep : Vsock.step w op = w := by simp [Vsock.step, ho, hl]
        rw [hstep] at ht
        exact ht hready
    | none =>
      generalize (Vsock.step w op).sock t = v' at hc ht
      cases hc with
      | rx _ hh => exact ht (hh.state_ready (by simpa using hready))
      | term hc => simp [termCloses, hready] at hc
      | close | shutdown | shutdownClose | getsockopt | write | writeEmpty | sendto | sendtoEmpty | read | recvfrom
      | bind | listen | bindListen | connectPortless | connectUndone | connect | acceptFailed | accept =>
        simp [Op.sock?] at ho
  · exact absurd hle (Nat.not_le_of_lt hlt)

section
variable {v v' : VirtioVsock}

/-- Closing a socket drops the requests that wait, so that the queue is the same only if there are none. -/
private theorem VirtioVsock.acceptQueue_closed (h : v.acceptQueue = []) : v.closed.acceptQueue = v.acceptQueue := by
  simp [closed_eq, h]

private theorem VirtioVsock.acceptQueue_shutdownBy (v : VirtioVsock) (rx tx : Bool) :
    (v.shutdownBy rx tx).acceptQueue = v.acceptQueue := by
  rw [shutdownBy_eq]

private theorem Handled.acceptQueue_eq (h : Handled pkt v v') (hv : v.QueueOk)
    (hr : ¬ (pkt.hdr.op = OP_REQUEST ∧ v.state = .LISTENING)) : v'.acceptQueue = v.acceptQueue := by
  cases h with
  | same | response | resetEvents | refused | resetWait | resetOpen | payload => rfl
  | request _ ho hs => exact absurd ⟨ho, hs⟩ hr
  | badResponse ho hs => exact acceptQueue_closed (hv.idle (by rcases hs with hs | hs <;> simp [hs]))
  | shutdown => exact v.acceptQueue_shutdownBy _ _
  | shutdownClose ho hs =>
    have hq := v.acceptQueue_shutdownBy pkt.hdr.shutRx pkt.hdr.shutTx
    exact (acceptQueue_closed (hq.trans (hv.idle (by simp [hs])))).trans hq

private theorem Change.acceptQueue_eq (h : Change w op s (w.sock s) v') (hv : (w.sock s).QueueOk)
    (hsafe : AnswerSafe w op) (hn : ¬ op.Serves w) : v'.acceptQueue = (w.sock s).acceptQueue := by
  have hempty (h : (w.sock s).state = .LISTENING → (w.sock s).acceptQueue = []) : (w.sock s).acceptQueue = [] := by
    by_cases hl : (w.sock s).state = .LISTENING
    · exact h hl
    · exact hv.idle hl
  cases h with
  | @rx pkt _ _ _ ht hh =>
    have hc : ((w.sock s).credited pkt.hdr).acceptQueue = (w.sock s).acceptQueue := by rw [credited_eq]
    rw [← hc]
    refine hh.acceptQueue_eq ?_ fun hr => hn ⟨hr.1, s, ht, by simpa using hr.2⟩
    rw [credited_eq]
    exact hv.congr rfl rfl id
  | term hc => exact acceptQueue_closed (hempty fun hl => hsafe s hl hc)
  | close hs => exact acceptQueue_closed (hempty hsafe)
  | shutdown => exact (w.sock s).acceptQueue_shutdownBy _ _
  | @shutdownClose _ _ _ rx tx hh hs =>
    have hq := (w.sock s).acceptQueue_shutdownBy rx tx
    exact (acceptQueue_closed (hq.trans (hv.idle (by simp [hs])))).trans hq
  | read | recvfrom => rw [VirtioVsock.clearIfEmpty_eq]; rfl
  | getsockopt | write | writeEmpty | sendto | sendtoEmpty | bind | listen | bindListen | connectPortless
  | connectUndone | connect => rfl
  | acceptFailed | accept => exact absurd trivial hn

end

def AcceptEntry.StandsFor (e : AcceptEntry) (w : World) (s : SockId) : Prop :=
  ∃ hdr, w.requests[e.req]? = some (s, hdr) ∧ e.peer.cid.setWidth 64 = hdr.srcCid ∧ e.peer.port = hdr.srcPort

/-- If the packet answers a request, it goes to the source of that. -/
def Sent.Fits (x : Sent) (w : World) : Prop :=
  ∀ i, x.answers = some i → ∃ s hdr, w.requests[i]? = some (s, hdr) ∧
    (x.pkt.hdr.op = OP_RESPONSE ∨ x.pkt.hdr.op = OP_RST) ∧ x.pkt.Returns hdr

/-- Requests are dispatched to sockets that exist, and all entries and answers belong to requests. -/
structure World.RequestsOk (w : World) : Prop where
  target : ∀ p ∈ w.requests, p.1 < w.next
  entry : ∀ s, ∀ e ∈ (w.sock s).acceptQueue, e.StandsFor w s
  answer : ∀ x ∈ w.sent, x.Fits w

namespace World.RequestsOk

theorem step (h : w.RequestsOk) (hn : w.next ≤ w'.next) (hr : w'.requests = w.requests)
    (he : ∀ t, ∀ e ∈ (w'.sock t).acceptQueue, e ∈ (w.sock t).acceptQueue ∨ e.StandsFor w t)
    (hx : ∀ x ∈ w'.sent, x ∈ w.sent ∨ x.Fits w) : w'.RequestsOk := by
  refine ⟨fun p hp => ?_, fun t e hm => ?_, fun x hm => ?_⟩
  · rw [hr] at hp
    exact Nat.lt_of_lt_of_le (h.target p hp) hn
  · unfold AcceptEntry.StandsFor
    rw [hr]
    rcases he t e hm with hm | hm
    · exact h.entry t e hm
    · exact hm
  · unfold Sent.Fits
    rw [hr]
    rcases hx x hm with hm | hm
    · exact h.answer x hm
    · exact hm

private theorem noted (h : w.RequestsOk) (hs : s < w.next) (hdr : VirtioVsockHdr) : (w.noted s hdr).RequestsOk := by
  refine ⟨fun p hp => ?_, fun t e hm => ?_, fun x hm i hi => ?_⟩
  · rcases mem_append.1 hp with hp | hp
    · exact h.target p hp
    · rw [mem_singleton.1 hp]
      exact hs
  · obtain ⟨hdr', hr, hc⟩ := h.entry t e hm
    exact ⟨hdr', Lists.getElem?_concat_of_some hr, hc⟩
  · obtain ⟨s', hdr', hr, hc⟩ := h.answer x hm i hi
    exact ⟨s', hdr', Lists.getElem?_concat_of_some hr, hc⟩

end World.RequestsOk

private theorem answersTo_append {l : List Sent} (h : w'.sent = w.sent ++ l) (i : Nat) :
    w'.answersTo i = w.answersTo i ++ l.filter (·.answers = some i) := by
  rw [answersTo, h, filter_append]
  rfl

structure QueueInv (w : World) : Prop where
  sound : w.Sound
  queues : w.All fun _ v => v.QueueOk
  requests : w.RequestsOk
  conserved : ∀ i s hdr, w.requests[i]? = some (s, hdr) → (w.sock s).queued i + (w.answersTo i).length = 1

namespace QueueInv

variable {n : Nat}

private theorem queuesOk (h : QueueInv w) : QueuesOk w := by
  refine ⟨fun i s hdr hr => ?_, fun s => (h.queues s).length⟩
  have hc := h.conserved i s hdr hr
  cases ha : w.answersTo i with
  | nil => exact .inl ⟨by simpa [ha] using hc, ha⟩
  | cons x l =>
    rw [ha, length_cons] at hc
    obtain rfl : l = [] := length_eq_zero_iff.1 (by omega)
    have hx : x ∈ w.sent ∧ x.answers = some i := by
      have : x ∈ w.answersTo i := by rw [ha]; exact mem_singleton_self x
      simpa [answersTo] using this
    obtain ⟨s', hdr', hr', hop, hret⟩ := h.requests.answer x hx.1 i hx.2
    obtain ⟨rfl, rfl⟩ : s = s' ∧ hdr = hdr' := by simpa [hr] using hr'
    have hq : (w.sock s).queued i = 0 := by omega
    rcases hop with hop | hop
    · exact .inr (.inl ⟨hq, x, ha, hop, hret⟩)
    · exact .inr (.inr ⟨hq, x, ha, hop, hret⟩)

private theorem queue_next (h : QueueInv w) : (w.sock w.next).acceptQueue = [] := by
  refine (h.queues w.next).idle fun hl => ?_
  exact Nat.lt_irrefl _ (h.sound.known w.next (by simp [hl]))

private theorem step_of_not_serves (h : QueueInv w) (hsafe : AnswerSafe w op) (hn : ¬ op.Serves w) :
    QueueInv (Vsock.step w op) := by
  have hf := step_follows h.sound.fresh op
  obtain ⟨l, hl, hnone⟩ := hf.sent hn
  have hqueue (t : SockId) : ((Vsock.step w op).sock t).acceptQueue = (w.sock t).acceptQueue := by
    rcases step_change h.sound.fresh op t with he | hc | ⟨rfl, -, hb⟩
    · rw [he]
    · exact hc.acceptQueue_eq (h.queues t) hsafe hn
    · rw [h.queue_next]
      generalize (Vsock.step w op).sock w.next = v' at hb
      cases hb with
      | socket ty => rfl
      | accept => exact absurd trivial hn
  have hans (i : Nat) : (Vsock.step w op).answersTo i = w.answersTo i := by
    have hnil : l.filter (·.answers = some i) = [] := by
      rw [filter_eq_nil_iff]
      intro x hx
      simp [hnone x hx]
    rw [answersTo_append hl, hnil, append_nil]
  refine ⟨h.sound.step op, h.sound.fresh.queueOk_step h.queues op, ?_, fun i s hdr hr => ?_⟩
  · refine h.requests.step hf.next_le (hf.requests_eq hn) (fun t e he => .inl ?_) fun x hx => ?_
    · rwa [hqueue] at he
    · rw [hl] at hx
      rcases mem_append.1 hx with hx | hx
      · exact .inl hx
      · refine .inr fun i hi => ?_
        rw [hnone x hx] at hi
        cases hi
  · rw [hf.requests_eq hn] at hr
    rw [queued, hqueue, hans]
    exact h.conserved i s hdr hr

private theorem accepting (h : QueueInv w) {entry : AcceptEntry} {queue : List AcceptEntry}
    (hs : s ≠ w.next) (hq : (w.sock s).acceptQueue = entry :: queue) (hsound : (w.accepting s entry queue n).Sound)
    (hqueues : (w.accepting s entry queue n).All fun _ v => v.QueueOk) : QueueInv (w.accepting s entry queue n) := by
  obtain ⟨hdr, hr, hcid, hport⟩ := h.requests.entry s entry (by rw [hq]; exact mem_cons_self)
  have hsent : (w.accepting s entry queue n).sent = w.sent ++
      [⟨⟨(accepted w.cid (w.sock s) entry).hdr w.cid OP_RESPONSE 0 0, []⟩, some entry.req⟩] := rfl
  have hpop : ((w.accepting s entry queue n).sock s).acceptQueue = queue := by
    rw [w.accepting_self entry queue n hs, poppedClear_eq]
  -- No socket but `s` has another queue than before; the new one has an empty queue, as it had before it existed.
  have hqueue {t : SockId} (hts : t ≠ s) :
      ((w.accepting s entry queue n).sock t).acceptQueue = (w.sock t).acceptQueue := by
    by_cases htn : t = w.next
    · subst htn
      rw [accepting_next, h.queue_next]
      rfl
    · rw [accepting_of_ne _ _ _ _ hts htn]
  refine ⟨hsound, hqueues, ?_, fun i t hdr' hri => ?_⟩
  · refine h.requests.step (Nat.le_succ _) rfl (fun t e he => .inl ?_) fun x hx => ?_
    · by_cases hts : t = s
      · subst hts
        rw [hpop] at he
        rw [hq]
        exact mem_cons_of_mem _ he
      · rwa [hqueue hts] at he
    · rw [hsent] at hx
      rcases mem_append.1 hx with hx | hx
      · exact .inl hx
      · obtain rfl := mem_singleton.1 hx
        refine .inr fun i hi => ?_
        obtain rfl : entry.req = i := by simpa using hi
        exact ⟨s, hdr, hr, .inl rfl, hcid, hport⟩
  · have hri : w.requests[i]? = some (t, hdr') := hri
    have hc := h.conserved i t hdr' hri
    rw [answersTo_append hsent]
    by_cases hi : entry.req = i
    · -- The request that is accepted has one entry less and one answer more.
      subst hi
      obtain ⟨rfl, rfl⟩ : s = t ∧ hdr = hdr' := by simpa [hr] using hri
      simp only [queued, hq, hpop, countP_cons] at hc ⊢
      simp at hc ⊢
      omega
    · have hsame : ((w.accepting s entry queue n).sock t).queued i = (w.sock t).queued i := by
        by_cases hts : t = s
        · subst hts
          simp [queued, hq, hpop, hi]
        · rw [queued, hqueue hts, queued]
      rw [hsame, filter_cons_of_neg (by simpa using hi), filter_nil, append_nil]
      exact hc

variable (h : QueueInv w)
include h

private theorem request_new (s : SockId) :
    (w.sock s).queued w.requests.length = 0 ∧ w.answersTo w.requests.length = [] := by
  constructor
  · rw [queued, countP_eq_zero]
    intro e he
    obtain ⟨hdr, hr, -⟩ := h.requests.entry s e he
    obtain ⟨hlt, -⟩ := List.getElem?_eq_some_iff.1 hr
    simpa using Nat.ne_of_lt hlt
  · rw [answersTo, filter_eq_nil_iff]
    intro x hx
    simp only [decide_eq_true_eq]
    intro hi
    obtain ⟨s', hdr, hr, -⟩ := h.requests.answer x hx _ hi
    obtain ⟨hlt, -⟩ := List.getElem?_eq_some_iff.1 hr
    exact Nat.lt_irrefl _ hlt

private theorem conserved_noted (hreq : w'.requests = w.requests ++ [(s, hdr)])
    (hnew : (w'.sock s).queued w.requests.length + (w'.answersTo w.requests.length).length = 1)
    (hold : ∀ i t, i ≠ w.requests.length → (w'.sock t).queued i = (w.sock t).queued i ∧
      w'.answersTo i = w.answersTo i)
    (i : Nat) (t : SockId) (hdr' : VirtioVsockHdr) (hri : w'.requests[i]? = some (t, hdr')) :
    (w'.sock t).queued i + (w'.answersTo i).length = 1 := by
  rw [hreq] at hri
  rcases Lists.getElem?_concat_cases hri with hri | ⟨rfl, heq⟩
  · obtain ⟨hlt, -⟩ := List.getElem?_eq_some_iff.1 hri
    obtain ⟨hq, ha⟩ := hold i t (Nat.ne_of_lt hlt)
    rw [hq, ha]
    exact h.conserved i t hdr' hri
  · obtain ⟨rfl, rfl⟩ : s = t ∧ hdr = hdr' := by simpa using heq
    exact hnew

private theorem rejected (hs : s < w.next)
    (hop : pkt.hdr.op = OP_RST) (hret : pkt.Returns hdr) (hsound : w'.Sound) (hqueues : w'.All fun _ v => v.QueueOk)
    (hw : w' = { w.noted s hdr with tick := n, sent := w.sent ++ [⟨pkt, some w.requests.length⟩] }) :
    QueueInv w' := by
  have hsent : w'.sent = w.sent ++ [⟨pkt, some w.requests.length⟩] := by rw [hw]
  have hreq : w'.requests = (w.noted s hdr).requests := by rw [hw]
  have hsock : w'.sock = w.sock := by rw [hw]; rfl
  refine ⟨hsound, hqueues, ?_, h.conserved_noted hreq ?_ fun i t hi => ⟨by rw [hsock], ?_⟩⟩
  · refine (h.requests.noted hs hdr).step (by rw [hw]) hreq (fun t e he => .inl ?_) fun x hx => ?_
    · rwa [hsock] at he
    · rw [hsent] at hx
      rcases mem_append.1 hx with hx | hx
      · exact .inl hx
      · obtain rfl := mem_singleton.1 hx
        refine .inr fun i hi => ?_
        obtain rfl : w.requests.length = i := by simpa using hi
        exact ⟨s, hdr, by simp [noted], .inr hop, hret⟩
  · obtain ⟨hq, ha⟩ := h.request_new s
    rw [hsock, answersTo_append hsent, hq, ha]
    simp
  · rw [answersTo_append hsent, filter_cons_of_neg (by simpa using Ne.symm hi), filter_nil, append_nil]

private theorem enqueued (hs : s < w.next)
    (hcid : (hdr.srcCid.setWidth 32).setWidth 64 = hdr.srcCid) (hsound : w'.Sound)
    (hqueues : w'.All fun _ v => v.QueueOk)
    (hw : w' = (w.noted s hdr).modify s (·.enqueue (hdr.entry w.requests.length))) : QueueInv w' := by
  have hreq : w'.requests = (w.noted s hdr).requests := by rw [hw]; rfl
  have hsent : w'.sent = w.sent := by rw [hw]; rfl
  have hother {t : SockId} (hts : t ≠ s) : w'.sock t = w.sock t := by
    rw [hw, modify_of_ne _ _ hts]; rfl
  have hqueue : (w'.sock s).acceptQueue = (w.sock s).acceptQueue ++ [hdr.entry w.requests.length] := by
    rw [hw, modify_self]; rfl
  have hans (i : Nat) : w'.answersTo i = w.answersTo i := by rw [answersTo, hsent, answersTo]
  refine ⟨hsound, hqueues, ?_, h.conserved_noted hreq ?_ fun i t hi => ⟨?_, hans i⟩⟩
  · refine (h.requests.noted hs hdr).step (by rw [hw]; exact Nat.le_refl _) hreq (fun t e he => ?_)
      fun x hx => .inl ?_
    · by_cases hts : t = s
      · subst hts
        rw [hqueue] at he
        rcases mem_append.1 he with he | he
        · exact .inl he
        · rw [mem_singleton.1 he]
          exact .inr ⟨hdr, by simp [noted, VirtioVsockHdr.entry], hcid, rfl⟩
      · rw [hother hts] at he
        exact .inl he
    · rwa [hsent] at hx
  · obtain ⟨hq, ha⟩ := h.request_new s
    simpa [queued, hqueue, VirtioVsockHdr.entry, hans, ha] using hq
  · by_cases hts : t = s
    · subst hts
      have hne : (hdr.entry w.requests.length).req ≠ i := Ne.symm hi
      rw [queued, hqueue, countP_append, countP_singleton, if_neg (by simpa using hne)]
      rfl
    · rw [hother hts]

private theorem request (hr : Op.IsRequest w (.rx pkt)) (hsafe : AnswerSafe w (.rx pkt)) :
    QueueInv (Vsock.step w (.rx pkt)) := by
  have hsound := h.sound.step (.rx pkt)
  have hqueues := h.sound.fresh.queueOk_step h.queues (.rx pkt)
  obtain ⟨ho, s, ht, hst⟩ := hr
  have hs : s < w.next := h.sound.known s (by simp [hst])
  have hw : Vsock.step w (.rx pkt) = _ := congrArg Prod.fst (workRx_of_request ht hst ho)
  rcases request_cases pkt.hdr hst with ⟨ha, -⟩ | ⟨-, he⟩ | ⟨-, he⟩
  · rw [outcome, h.sound.good] at ha
    cases ha
  · rw [hw, he] at hsound hqueues ⊢
    obtain ⟨hdr, n, hop, hret, hx⟩ : ∃ hdr n, hdr.op = OP_RST ∧ (⟨hdr, []⟩ : Packet).Returns pkt.hdr ∧
        virtioVsockdevRejectConn (w.noted s pkt.hdr) s (pkt.hdr.entry w.requests.length) =
          { w.noted s pkt.hdr with tick := n, sent := w.sent ++ [⟨⟨hdr, []⟩, some w.requests.length⟩] } := by
      rcases xmitHdr_cases (w.noted s pkt.hdr) _ _ with ⟨n, hx⟩ | ⟨n, e, -, ⟨k, -, hk⟩, -⟩
      · exact ⟨_, n, rfl, ⟨hsafe ho, rfl⟩, congrArg Prod.fst hx⟩
      · exact absurd (h.sound.good _) hk
    exact h.rejected hs hop hret hsound hqueues hx
  · exact h.enqueued hs (hsafe ho) hsound hqueues (hw.trans he)

theorem step (hsafe : AnswerSafe w op) : QueueInv (Vsock.step w op) := by
  by_cases hn : op.Serves w
  swap
  · exact h.step_of_not_serves hsafe hn
  cases op with
  | rx pkt => exact h.request hn hsafe
  | accept s a l =>
    have hsound := h.sound.step (.accept s a l)
    have hqueues := h.sound.fresh.queueOk_step h.queues (.accept s a l)
    by_cases hl : w.live s = true
    swap
    · have : Vsock.step w (.accept s a l) = w := by simp [Vsock.step, Op.sock?, hl]
      rwa [this]
    have hw : Vsock.step w (.accept s a l) = exec w (.accept s a l) := by simp [Vsock.step, Op.sock?, hl]
    have hs : s ≠ w.next := Nat.ne_of_lt (h.sound.fresh s hl)
    rw [hw] at hsound hqueues ⊢
    rcases exec_accept_cases w a l hs with he | ⟨entry, queue, -, hq, ⟨_, _, ⟨k, _, hk⟩, _⟩ | ⟨n, he⟩⟩
    · rwa [he]
    · exact absurd (h.sound.good _) hk
    · rw [he] at hsound hqueues ⊢
      exact h.accepting hs hq hsound hqueues
  | socket | bind | listen | connect | shutdown | close | getsockopt | write | sendto | read | recvfrom | term =>
    exact absurd hn id

end QueueInv

theorem queueInv_init (cid : BitVec 32) : QueueInv (World.init cid fun _ => .good) := by
  refine ⟨⟨fresh_init cid _, fun _ => rfl, fun t ht => absurd rfl ht⟩, queueOk_init cid _, ⟨?_, ?_, ?_⟩, ?_⟩
  · intro p hp
    cases hp
  · intro s e he
    cases he
  · intro x hx
    cases hx
  · intro i s hdr hr
    cases hr

/-- In a run of a driver that does not fail and in which no waiting request is dropped, every request waits or is
answered once in every state. -/
theorem queuesOk_of_run (cid : BitVec 32) (ops : List Op)
    (h : Meets step AnswerSafe (World.init cid fun _ => .good) ops) :
    QueuesOk (run step (World.init cid fun _ => .good) ops) := by
  have hinv : QueueInv (run step (World.init cid fun _ => .good) ops) :=
    h.invariant (fun w op hi hop => hi.step hop) (queueInv_init cid)
  exact hinv.queuesOk

theorem queuesOk_served :
    let ops := [.socket 1 0, .bind 0 ⟨AF_VSOCK, 1000, CID_ANY⟩ 16, .listen 0 1, .rx (peerPacket OP_REQUEST 100 0 []),
      .rx (peerPacket OP_REQUEST 100 0 []), .accept 0 false none, .close 0]
    Meets step AnswerSafe (World.init 3 fun _ => .good) ops ∧
      QueuesOk (run step (World.init 3 fun _ => .good) ops) := by
  intro ops
  have h : Meets step AnswerSafe (World.init 3 fun _ => .good) ops :=
    ⟨trivial, trivial, trivial, fun _ => by decide, fun _ => by decide, trivial, fun _ => by decide, trivial⟩
  exact ⟨h, queuesOk_of_run 3 ops h⟩

/-- A listening socket is closed, and the request that waits is never answered. -/
theorem not_queuesOk_of_run : ¬ ∀ (cid : BitVec 32)
    (ops : List Op), QueuesOk (run step (World.init cid fun _ => .good) ops) := by
  intro h
  have ha := (h 3 (serve ++ [.rx (peerPacket OP_REQUEST 100 0 []), .close 0])).answered 0 0
    (peerPacket OP_REQUEST 100 0 []).hdr rfl
  rcases ha with ⟨hq, -⟩ | ⟨-, x, hx, -⟩ | ⟨-, x, hx, -⟩
  · exact absurd hq (by decide)
  · cases hx
  · cases hx

end Unikraft.Vsock
