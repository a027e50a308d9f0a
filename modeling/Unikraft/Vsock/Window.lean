import Unikraft.Vsock.Table

/-!
# Writes, resets and the transmit window

The packets of a write carry the first bytes of its buffers; but one of 65536 bytes or more has a header that
announces more than it carries, and for the lengths from 65492 on the header does not fit (`Fits`). A transport reset
is meant to keep the sockets that were bound to no particular CID; but `vsock_bind` has stored the CID of the device.
`uk_vsock_conn_reset` keeps the receive buffer, the flags and the counters. The window of the peer is computed in 32
bits: when it advertises less than what is in flight, it is almost `2 ^ 32` bytes.
-/

namespace Unikraft.Vsock

open List VirtioVsock World

variable (w : World) (s : SockId)

/-- The two calls return the same and leave the same receive buffer. -/
def ReadsAlike (iov : List Nat) : Prop :=
  let r := vsockRead w s iov
  let r' := vsockRecvfrom w s iov.sum false
  r.2 = r'.2 ∧ (r.1.sock s).rx = (r'.1.sock s).rx

private theorem clearIfEmpty_rx : ((clearIfEmpty w s).sock s).rx = (w.sock s).rx := by
  rw [Vsock.clearIfEmpty_eq, modify_self, VirtioVsock.clearIfEmpty_eq]

variable {w s}

private theorem recvfrom_rx (len : Nat) (hg : ¬ ((w.sock s).state ≠ .OPEN ∧ (w.sock s).state ≠ .CLOSED))
    (h0 : ¬ (min len (w.sock s).rx.count = 0 ∧ (w.sock s).rxShutdown = false)) :
    let n := min len (w.sock s).rx.count
    (vsockRecvfrom w s len false).2 = .ok ((w.sock s).rx.contents.take n) ∧
      ((vsockRecvfrom w s len false).1.sock s).rx = ukVsockBufferConsume (w.sock s).rx n := by
  have hout := bufferRead_eq_take_length (w.sock s).rx len
  rw [← bufferRead_length] at h0 ⊢
  obtain ⟨w1, hq, h⟩ := consumeRx_if_pos w s (ukVsockBufferRead (w.sock s).rx len).length
  rw [vsockRecvfrom, if_neg Bool.false_ne_true, if_neg hg]
  dsimp only
  rw [if_neg h0, h, clearIfEmpty_rx, modify_self, hq.calm.sock_eq]
  exact ⟨congrArg _ hout, rfl⟩

private theorem readsAlike_of_ne_nil {iov : List Nat} (hne : iov ≠ []) (hpos : ∀ len ∈ iov, 0 < len)
    (hg : ¬ ((w.sock s).state ≠ .OPEN ∧ (w.sock s).state ≠ .CLOSED)) : ReadsAlike w s iov := by
  obtain ⟨w1, n, hq, -, ⟨-, hn⟩, hw, hr⟩ := readLoop_cases s iov w []
  have hrx : (((readLoop s iov w []).1).sock s).rx = ukVsockBufferConsume (w.sock s).rx n := by
    rw [hw, modify_self, hq.calm.sock_eq]
    rfl
  unfold ReadsAlike
  rw [vsockRead, if_neg hg]
  dsimp only
  rw [clearIfEmpty_rx, hrx, hn hpos]
  obtain ⟨len, iov, rfl⟩ := exists_cons_of_ne_nil hne
  have hlen := hpos len mem_cons_self
  by_cases h0 : (w.sock s).rx.count = 0
  · -- Nothing is there to read, and both calls look at `rx_shutdown`.
    have hout : (ukVsockBufferRead (w.sock s).rx len).length = 0 := by
      rw [bufferRead_length]
      omega
    rw [readLoop]
    cases hsd : (w.sock s).rxShutdown
    · simp [vsockRecvfrom, hg, bufferRead_length, h0, hout, hsd, consume_zero]
    · obtain ⟨h1, h2⟩ := recvfrom_rx (len :: iov).sum hg (by simp [hsd])
      rw [h1, h2]
      simp [hout, h0]
  · have hmin : min (len :: iov).sum (w.sock s).rx.count ≠ 0 := by
      rw [sum_cons]
      omega
    obtain ⟨h1, h2⟩ := recvfrom_rx (len :: iov).sum hg fun h => hmin h.1
    rw [h1, h2]
    rw [hn hpos] at hr
    exact ⟨hr.resolve_right fun h => hmin h.1, rfl⟩

private theorem readsAlike_nil (hg : ¬ ((w.sock s).state ≠ .OPEN ∧ (w.sock s).state ≠ .CLOSED)) :
    ReadsAlike w s [] ↔ (w.sock s).rxShutdown = true := by
  unfold ReadsAlike
  rw [vsockRead, if_neg hg]
  dsimp only
  rw [clearIfEmpty_rx, readLoop, sum_nil]
  cases hsd : (w.sock s).rxShutdown
  · simp [vsockRecvfrom, hg, bufferRead_length, hsd]
  · obtain ⟨h1, h2⟩ := recvfrom_rx 0 hg (by simp [hsd])
    rw [h1, h2]
    simp [consume_zero]

/-- `read` and `recvfrom` agree unless `read` is called without buffers. -/
theorem readsAlike_iff (w : World) (s : SockId) (iov : List Nat) (hpos : ∀ len ∈ iov, 0 < len) : ReadsAlike w s iov ↔
      iov ≠ [] ∨ (w.sock s).rxShutdown = true ∨ ((w.sock s).state ≠ .OPEN ∧ (w.sock s).state ≠ .CLOSED) := by
  by_cases hg : (w.sock s).state ≠ .OPEN ∧ (w.sock s).state ≠ .CLOSED
  · simp [ReadsAlike, vsockRead, vsockRecvfrom, hg]
  · by_cases hne : iov = []
    · subst hne
      simpa [hg] using readsAlike_nil hg
    · exact iff_of_true (readsAlike_of_ne_nil hne hpos hg) (.inl hne)

/-- The accepted socket has received four bytes. -/
def servedData : World := step served (.rx (peerPacket OP_RW 100 0 [7, 8, 9, 10]))

theorem readsAlike_served : (servedData.sock 1).rx.contents = [7, 8, 9, 10] ∧ ReadsAlike servedData 1 [2, 3] :=
  ⟨by decide, (readsAlike_iff servedData 1 [2, 3] (by decide)).2 (.inl (by decide))⟩

/-- A `read` without buffers returns 0 where `recvfrom` would block. -/
theorem not_readsAlike_served : ¬ ReadsAlike served 1 [] := by
  rw [readsAlike_nil (by decide)]
  decide

def VirtioVsock.SendOpen (v : VirtioVsock) : Prop := v.state = .OPEN ∧ v.txShutdown = false

def TransmitsRW (w w' : World) : Prop := ∃ x ∈ w'.sent.drop w.sent.length, x.pkt.hdr.op = OP_RW

def Refuses (r : Except Errno Nat) : Prop := r = .error .EPIPE ∨ r = .error .ENOTCONN

structure SendGuarded (w : World) (s : SockId) : Prop where
  write : ∀ iov, TransmitsRW w (vsockWrite w s iov).1 → (w.sock s).SendOpen
  sendto : ∀ buf a l, TransmitsRW w (vsockSendto w s buf a l).1 → (w.sock s).SendOpen
  agree : ∀ buf, Refuses (vsockWrite w s [buf]).2 ↔ Refuses (vsockSendto w s buf false 0).2

/-- The guards of the two calls give the same answer. -/
def VirtioVsock.GuardsAgree (v : VirtioVsock) : Prop :=
  v.SendOpen ∨ v.state = .CLOSED ∨ (v.state ≠ .OPEN ∧ v.txShutdown = true)

variable (w : World)

private theorem not_transmitsRW_self : ¬ TransmitsRW w w := by
  rintro ⟨x, hx, -⟩
  simp at hx

variable (s : SockId) (buf : List UInt8)

private theorem not_refuses_send : ¬ Refuses (virtioVsockSend w s buf).2 := by
  unfold Refuses
  rcases send_cases w s buf with ⟨-, he⟩ | ⟨-, -, he⟩ | ⟨-, -, w1, e, -, -, hx, he⟩ |
    ⟨-, -, -, w1, pkt, n, -, -, -, -, -, he⟩
  · simp [he]
  · simp [he]
  · rw [he]
    rcases hx with ⟨(rfl | rfl | rfl) | rfl, -⟩ | ⟨rfl, -⟩ <;> simp
  · simp [he]

/-- `write` refuses every socket that is not open. -/
theorem refuses_write_iff : Refuses (vsockWrite w s [buf]).2 ↔ (w.sock s).state ≠ .OPEN := by
  have hsend := not_refuses_send w s buf
  unfold vsockWrite
  by_cases hs : (w.sock s).state = .OPEN
  · simp only [hs, ne_eq, not_true_eq_false, iff_false, writeLoop]
    cases hr : virtioVsockSend w s buf with
    | mk w1 r =>
      rw [hr] at hsend
      cases r with
      | error e => exact hsend
      | ok res => by_cases h0 : res = 0 <;> simp [h0, Refuses]
  · simp only [hs, ne_eq, not_false_eq_true, if_true, iff_true]
    split
    · exact .inl rfl
    · exact .inr rfl

/-- `sendto` refuses a socket that is closed or shut down for writing. -/
theorem refuses_sendto_iff : Refuses (vsockSendto w s buf false 0).2 ↔
    (w.sock s).state = .CLOSED ∨ (w.sock s).txShutdown = true := by
  have hsend := not_refuses_send w s buf
  unfold vsockSendto
  by_cases hs : (w.sock s).state = .CLOSED ∨ (w.sock s).txShutdown = true
  · simp only [hs, iff_true]
    exact .inl rfl
  · simp only [hs, iff_false]
    cases hr : virtioVsockSend w s buf with
    | mk w1 r =>
      rw [hr] at hsend
      cases r with
      | error e => exact hsend
      | ok res =>
        by_cases h0 : res = 0 <;> simp [h0, Refuses]

private theorem open_of_write {w : World} {s : SockId} {iov : List (List UInt8)}
    (h : TransmitsRW w (vsockWrite w s iov).1) :
    (w.sock s).state = .OPEN := by
  by_contra hs
  refine not_transmitsRW_self w ?_
  have he : (vsockWrite w s iov).1 = w := by
    unfold vsockWrite
    rw [if_pos hs]
    split <;> rfl
  rwa [he] at h

private theorem not_shut_of_sendto {w : World} {s : SockId} {buf : List UInt8} {a : Bool} {l : Nat}
    (h : TransmitsRW w (vsockSendto w s buf a l).1) : (w.sock s).state ≠ .CLOSED ∧ (w.sock s).txShutdown = false := by
  by_contra hs
  refine not_transmitsRW_self w ?_
  have hc : (w.sock s).state = .CLOSED ∨ (w.sock s).txShutdown = true := by
    by_cases hcl : (w.sock s).state = .CLOSED
    · exact .inl hcl
    · exact .inr (by simpa [hcl] using hs)
  have he : (vsockSendto w s buf a l).1 = w := by
    unfold vsockSendto
    split <;> rfl
  rwa [he] at h

/-- Data is only transmitted on connections open for sending, and the two calls agree, exactly if the guards agree. -/
private theorem sendGuarded_iff_guardsAgree : SendGuarded w s ↔ (w.sock s).GuardsAgree := by
  constructor
  · intro h
    have ha := h.agree []
    rw [refuses_write_iff, refuses_sendto_iff] at ha
    by_cases ho : (w.sock s).state = .OPEN
    · exact .inl ⟨ho, by simpa [ho] using ha⟩
    · rcases ha.1 ho with hc | ht
      · exact .inr (.inl hc)
      · exact .inr (.inr ⟨ho, ht⟩)
  · intro h
    refine ⟨?_, ?_, ?_⟩
    · intro iov hw
      have ho := open_of_write hw
      rcases h with h | h | ⟨h, -⟩
      · exact h
      · rw [ho] at h; cases h
      · exact absurd ho h
    · intro buf a l hw
      obtain ⟨hc, ht⟩ := not_shut_of_sendto hw
      rcases h with h | h | ⟨-, h⟩
      · exact h
      · exact absurd h hc
      · rw [ht] at h; cases h
    · intro buf
      rw [refuses_write_iff, refuses_sendto_iff]
      rcases h with ⟨ho, ht⟩ | h | ⟨ho, ht⟩
      · simp [ho, ht]
      · simp [h]
      · simp [ho, ht]

/-- In every state of every run, the calls keep their guarantee for the sockets whose guards agree and for no
others. -/
theorem sendGuarded_run_iff (cid : BitVec 32) (env : Nat → Outcome) (ops : List Op) (s : SockId) :
    SendGuarded (Runs.run step (World.init cid env) ops) s ↔
      ((Runs.run step (World.init cid env) ops).sock s).GuardsAgree :=
  sendGuarded_iff_guardsAgree _ s

/-- The peer of a connection stops receiving, and `write` still transmits to it. -/
theorem not_sendGuarded_of_run : ¬ ∀ (cid : BitVec 32) (env : Nat → Outcome) (ops : List Op) (s : SockId),
      SendGuarded (Runs.run step (World.init cid env) ops) s := by
  intro h
  have hopen := (h 3 (fun _ => .good) (serveOne ++ [.rx (peerShutdown SHUTDOWN_F_RECEIVE)]) 1).write [[7]]
    (by unfold TransmitsRW; decide)
  revert hopen
  unfold VirtioVsock.SendOpen
  decide

/-- Does the loop of `vsock_write` reach an assertion that fails? -/
def writeAsserts (s : SockId) : List (List UInt8) → World → Bool
  | [], _ => false
  | buf :: iov, w =>
    match virtioVsockSend w s buf with
    | (_, .error e) => e = .ASSERT
    | (w, .ok res) => res ≠ 0 && writeAsserts s iov w

def carried (pkts : List Packet) : List UInt8 := (pkts.map Packet.payload).flatten

/-- A call transmits the first bytes of its buffers and reports how many. -/
def WritesPrefix (w : World) (s : SockId) (iov : List (List UInt8)) : Prop :=
  let r := vsockWrite w s iov
  writeAsserts s iov w = false ∧ ∃ pkts : List Packet, r.1.sent = w.sent ++ pkts.map (⟨·, none⟩) ∧
    (∀ p ∈ pkts, p.hdr.op = OP_RW ∧ p.payload.length = p.hdr.len.toNat) ∧ carried pkts <+: iov.flatten ∧
    (pkts ≠ [] → r.2 = .ok (carried pkts).length ∧
      (r.1.sock s).txCount = (w.sock s).txCount + BitVec.ofNat 32 (carried pkts).length)

/-- No buffer makes a packet of more than 65491 bytes, for a window of `window` bytes. -/
def Fits : Nat → List (List UInt8) → Prop
  | _, [] => True
  | window, buf :: iov =>
    let n := min window buf.length
    n = 0 ∨ n + sizeofHdr < 65536 ∧ Fits (window - n) iov

structure LoopWrites (s : SockId) (iov : List (List UInt8)) (w : World) (written : Nat) (pkts : List Packet) :
    Prop where
  asserts : writeAsserts s iov w = false
  sent : (writeLoop s iov w written).1.sent = w.sent ++ pkts.map (⟨·, none⟩)
  packets : ∀ p ∈ pkts, p.hdr.op = OP_RW ∧ p.payload.length = p.hdr.len.toNat ∧ p.payload ≠ []
  isPrefix : carried pkts <+: iov.flatten
  window : (carried pkts).length ≤ (w.sock s).peerRxFree.toNat
  counted : ((writeLoop s iov w written).1.sock s).txCount = (w.sock s).txCount + BitVec.ofNat 32
    (carried pkts).length
  result : 0 < written + (carried pkts).length → (writeLoop s iov w written).2 = .ok (written + (carried pkts).length)

variable {w w' : World} {s : SockId} {iov : List (List UInt8)} {buf : List UInt8} {written : Nat}

private theorem LoopWrites.stop (ha : writeAsserts s iov w = false)
    (hsent : (writeLoop s iov w written).1.sent = w.sent)
    (htx : ((writeLoop s iov w written).1.sock s).txCount = (w.sock s).txCount)
    (hr : 0 < written → (writeLoop s iov w written).2 = .ok written) : LoopWrites s iov w written [] :=
  ⟨ha, by rw [hsent]; simp, nofun, nil_prefix, Nat.zero_le _, by rw [htx]; simp [carried], hr⟩

private theorem LoopWrites.cons {n : Nat} {pkts : List Packet} {hdr : VirtioVsockHdr}
    (hs : virtioVsockSend w s buf = (w', .ok n)) (hn0 : n ≠ 0) (hn : n = min (w.sock s).peerRxFree.toNat buf.length)
    (hop : hdr.op = OP_RW) (hlen : hdr.len = BitVec.ofNat 32 n)
    (hsent : w'.sent = w.sent ++ [⟨⟨hdr, buf.take n⟩, none⟩])
    (hsock : w'.sock s = (w.sock s).sentBytes n) (h : LoopWrites s iov w' (written + n) pkts) :
    LoopWrites s (buf :: iov) w written (⟨hdr, buf.take n⟩ :: pkts) := by
  have hwin : (w'.sock s).peerRxFree.toNat = (w.sock s).peerRxFree.toNat - n := by
    rw [hsock, peerRxFree_sentBytes _ (by omega)]
  have htake : (buf.take n).length = n := by rw [length_take]; omega
  have hloop : writeLoop s (buf :: iov) w written = writeLoop s iov w' (written + n) := by
    simp only [writeLoop, hs, hn0, if_false]
  have hcarried : carried (⟨hdr, buf.take n⟩ :: pkts) = buf.take n ++ carried pkts := rfl
  have hcount : (carried (⟨hdr, buf.take n⟩ :: pkts)).length = n + (carried pkts).length := by
    rw [hcarried, length_append, htake]
  have hle := h.window
  refine ⟨by simp [writeAsserts, hs, h.asserts], ?_, ?_, ?_, by omega, ?_, fun hpos => ?_⟩
  · rw [hloop, h.sent, hsent, map_cons, append_assoc, singleton_append]
  · intro p hp
    rcases mem_cons.1 hp with rfl | hp
    · refine ⟨hop, ?_, ne_nil_of_length_pos (htake.symm ▸ Nat.pos_of_ne_zero hn0)⟩
      rw [htake, hlen, BitVec.toNat_ofNat, Nat.mod_eq_of_lt (by omega)]
    · exact h.packets p hp
  · rw [hcarried, flatten_cons]
    by_cases hfull : n = buf.length
    · rw [take_of_length_le (Nat.le_of_eq hfull.symm)]
      exact (prefix_append_right_inj buf).2 h.isPrefix
    · have hnil : carried pkts = [] := length_eq_zero_iff.1 (by omega)
      rw [hnil, append_nil]
      exact ( take_prefix n buf).trans (prefix_append buf iov.flatten)
  · rw [hloop, h.counted, hcount, hsock, sentBytes, BitVec.ofNat_add, BitVec.add_assoc]
  · rw [hloop, h.result (by omega), hcount, Nat.add_assoc]

private theorem exists_loopWrites (iov : List (List UInt8)) (w : World) (written : Nat)
    (h : Fits (w.sock s).peerRxFree.toNat iov) :
    ∃ pkts, LoopWrites s iov w written pkts := by
  induction iov generalizing w written with
  | nil => exact ⟨[], .stop rfl rfl rfl fun _ => rfl⟩
  | cons buf iov ih =>
    rcases send_cases w s buf with ⟨hb, hs⟩ | ⟨-, -, hs⟩ | ⟨hb, hw, w1, e, hq, hsent, hx, hs⟩ |
      ⟨-, -, -, w1, pkt, n, hq, hn0, hn, ⟨hp, -⟩, hsent, hs⟩
    · refine ⟨[], .stop (by simp [writeAsserts, hs]) (by simp [writeLoop, hs]) (by simp [writeLoop, hs, eventClear])
          fun hpos => ?_⟩
      simp [writeLoop, hs, Nat.ne_of_gt hpos]
    · refine ⟨[], .stop (by simp [writeAsserts, hs]) (by simp [writeLoop, hs]) (by simp [writeLoop, hs])
          fun hpos => ?_⟩
      simp [writeLoop, hs, Nat.ne_of_gt hpos]
    · have hne : e ≠ .ASSERT := by
        rintro rfl
        rcases hx with ⟨(h' | h' | h') | h', -⟩ | ⟨-, hbig⟩
        · cases h'
        · cases h'
        · cases h'
        · cases h'
        · rcases h with h0 | ⟨hfit, -⟩
          · rw [h0] at hbig
            revert hbig
            decide
          · omega
      refine ⟨[], .stop (by simp [writeAsserts, hs, hne]) (by simp [writeLoop, hs, hsent])
        (by simp [writeLoop, hs, hq.calm.sock_eq]) fun hpos => ?_⟩
      simp [writeLoop, hs, Nat.ne_of_gt hpos]
    · rcases h with h0 | ⟨hfit, hrest⟩
      · exact absurd (hn.trans h0) hn0
      rw [← hn] at hfit hrest
      subst hp
      rw [Nat.mod_eq_of_lt (Nat.lt_of_le_of_lt (Nat.le_add_right _ _) hfit)] at hsent
      have hsock : (w1.modify s (·.sentBytes n)).sock s = (w.sock s).sentBytes n := by
        rw [modify_self, hq.calm.sock_eq]
      obtain ⟨pkts, hpkts⟩ := ih (w1.modify s (·.sentBytes n)) (written + n) (by
        rwa [hsock, peerRxFree_sentBytes _ (by omega)])
      exact ⟨_, .cons hs hn0 hn rfl rfl hsent hsock hpkts⟩

private theorem fits_of_loop (iov : List (List UInt8)) (w : World) (written : Nat) (henv : ∀ k, w.env k = .good)
    (ha : writeAsserts s iov w = false) {l : List Sent} (hsent : (writeLoop s iov w written).1.sent = w.sent ++ l)
    (hl : ∀ x ∈ l, x.pkt.payload.length = x.pkt.hdr.len.toNat) : Fits (w.sock s).peerRxFree.toNat iov := by
  induction iov generalizing w written l with
  | nil => trivial
  | cons buf iov ih =>
    have hready : w.XmitReady := by simp [XmitReady, outcome, advance, henv, Outcome.good]
    rcases send_cases w s buf with ⟨hb, -⟩ | ⟨-, hw, -⟩ | ⟨-, -, w1, e, -, -, ⟨-, hbad⟩ | ⟨rfl, -⟩, hs⟩ |
      ⟨-, -, -, w1, pkt, n, hq, hn0, hn, ⟨rfl, hfit⟩, hsent1, hs⟩
    · exact .inl (by omega)
    · exact .inl (by rw [hw]; exact Nat.zero_min _)
    · exact absurd hready hbad
    · simp [writeAsserts, hs] at ha
    · have hsock : (w1.modify s (·.sentBytes n)).sock s = (w.sock s).sentBytes n := by
        rw [modify_self, hq.calm.sock_eq]
      obtain ⟨w2, m, ⟨_, l', _, rfl, -⟩, -, -, hend⟩ :=
        writeLoop_cases s iov (w1.modify s (·.sentBytes n)) (written + n)
      have hrest : (writeLoop s iov (w1.modify s (·.sentBytes n)) (written + n)).1.sent = w1.sent ++ l' := by
        rcases hend with hend | ⟨-, hend⟩ <;> rw [hend] <;> rfl
      rw [writeLoop_cons hn0 hs, hrest, hsent1, append_assoc, append_cancel_left_eq] at hsent
      subst hsent
      have hpkt := hl _ mem_cons_self
      simp only [length_take, VirtioVsock.hdr, BitVec.toNat_ofNat] at hpkt
      refine .inr ⟨by rw [← hn]; omega, ?_⟩
      rw [← hn, ← peerRxFree_sentBytes _ (show n ≤ _ by omega), ← hsock]
      refine ih _ (written + n) (fun k => by rw [modify_env, hq.calm.env_eq, henv]) ?_ hrest
        fun x hx => hl x (mem_cons_of_mem _ hx)
      rw [writeAsserts, hs] at ha
      exact (Bool.and_eq_false_iff.1 ha).resolve_left (by simp [hn0])

private theorem write_open (hopen : (w.sock s).state = .OPEN) : vsockWrite w s iov = writeLoop s iov w 0 :=
  if_neg (not_not.2 hopen)

private theorem WritesPrefix.fits (hopen : (w.sock s).state = .OPEN) (henv : ∀ k, w.env k = .good)
    (h : WritesPrefix w s iov) :
    Fits (w.sock s).peerRxFree.toNat iov := by
  obtain ⟨ha, pkts, hsent, hgood, -⟩ := h
  rw [write_open hopen] at hsent
  refine fits_of_loop iov w 0 henv ha hsent fun x hx => ?_
  obtain ⟨p, hp, rfl⟩ := mem_map.1 hx
  exact (hgood p hp).2

theorem writesPrefix_iff (w : World) (s : SockId) (iov : List (List UInt8)) (hopen : (w.sock s).state = .OPEN) :
    (∀ env, WritesPrefix { w with env := env } s iov) ↔ Fits (w.sock s).peerRxFree.toNat iov := by
  constructor
  · intro h
    exact WritesPrefix.fits (w := { w with env := fun _ => .good }) hopen (fun _ => rfl) (h _)
  · intro h env
    obtain ⟨pkts, hp⟩ := exists_loopWrites iov { w with env := env } 0 h
    unfold WritesPrefix
    rw [write_open (show (World.sock { w with env := env } s).state = .OPEN from hopen)]
    refine ⟨hp.asserts, pkts, hp.sent, fun p hm => ⟨(hp.packets p hm).1, (hp.packets p hm).2.1⟩, hp.isPrefix,
        fun hne => ?_⟩
    obtain ⟨p, hm⟩ := exists_mem_of_ne_nil pkts hne
    have hpos : 0 < (carried pkts).length := by
      rw [length_pos_iff]
      intro hnil
      exact (hp.packets p hm).2.2 (flatten_eq_nil_iff.1 hnil _ (mem_map_of_mem hm))
    have hres := hp.result (by omega)
    rw [Nat.zero_add] at hres
    exact ⟨hres, hp.counted⟩

theorem writesPrefix_twice : WritesPrefix { served with env := fun _ => .good } 1 [[1, 2, 3], [], [4]] :=
  (writesPrefix_iff served 1 [[1, 2, 3], [], [4]] (by decide)).2 (by simp [Fits]; decide) fun _ => .good

/-- A buffer of 65536 bytes is sent as a packet that announces 65536 bytes and carries none. -/
theorem not_writesPrefix : ¬ WritesPrefix (served.modify 1 fun v => { v with peerBufAlloc := 131072 }) 1
    [replicate 65536 0] := by
  intro h
  have hfits := h.fits (by decide) fun _ => rfl
  have hwin : ((served.modify 1 fun v => { v with peerBufAlloc := 131072 }).sock 1).peerRxFree.toNat = 131072 := by
    decide
  rcases hfits with hfits | ⟨hfits, -⟩
  all_goals
    rw [length_replicate] at hfits
    omega

open Runs UkVsockState
open Function (update update_of_ne update_self)

def ukVsockdevTransportReset (w : World) (sysmigration : Except Errno Unit) : World × Except Errno Unit :=
  match ukVsocketsTerm w with
  | (w, .error e) => (w, .error e)
  | (w, .ok ()) => (w, sysmigration)

/-- The layer with the history of its `bind` calls: did the last one that bound the socket name `VMADDR_CID_ANY`? -/
structure Binding where
  w : World
  any : SockId → Bool

def Binding.init (cid : BitVec 32) (env : Nat → Outcome) : Binding := ⟨World.init cid env, fun _ => false⟩

/-- The history after a step. A `listen` call on a socket that is not bound binds it to `VMADDR_CID_ANY`. -/
def Binding.named (b : Binding) : Op → SockId → Bool
  | .bind s addr addrLen =>
    if b.w.live s && (vsockBind b.w s addr addrLen).2.isOk then
      update b.any s (decide (addr.svmCid = CID_ANY))
    else b.any
  | .listen s backlog =>
    if b.w.live s && decide ((b.w.sock s).state = .READY) && (vsockListen b.w s backlog).2.isOk then
      update b.any s true
    else b.any
  | _ => b.any

def bindStep (b : Binding) (op : Op) : Binding := ⟨step b.w op, b.named op⟩

def Binding.Wildcard (b : Binding) (t : SockId) : Prop :=
  b.w.live t = true ∧ ((b.w.sock t).state = .BOUND ∨ (b.w.sock t).state = .LISTENING) ∧ b.any t = true

structure ResetKeeps (b : Binding) (w' : World) : Prop where
  mem_iff : ∀ t, t ∈ w'.sockets ↔ b.Wildcard t
  kept : ∀ t, b.Wildcard t →
    (w'.sock t).state = (b.w.sock t).state ∧ (w'.sock t).localAddr = (b.w.sock t).localAddr ∧
      (w'.sock t).peerAddr = (b.w.sock t).peerAddr ∧ (w'.sock t).acceptQueue = (b.w.sock t).acceptQueue ∧
      (w'.sock t).acceptQueueLength = (b.w.sock t).acceptQueueLength
  closed : ∀ t, b.w.live t = true → (b.w.sock t).state.inTable = true → ¬ b.Wildcard t →
    (w'.sock t).state = .CLOSED ∧ (w'.sock t).rxShutdown = true ∧ (w'.sock t).txShutdown = true ∧ t ∉ w'.sockets

variable {w' : World} {b : Binding} {t : SockId} {cid : BitVec 32}

section
variable {w : World}

private theorem VirtioVsock.inTable_of_termCloses {v : VirtioVsock} (h : v.termCloses = true) :
    v.state.inTable = true := by
  unfold termCloses at h
  cases hs : v.state <;> simp_all [inTable]

private theorem termLoop_error (l : List SockId) (w : World) (e : Errno) : (termLoop l w (.error e)).2 ≠ .ok () := by
  induction l generalizing w e with
  | nil => simp [termLoop]
  | cons s l ih =>
    unfold termLoop
    split
    · split <;> exact ih _ _
    · exact ih _ _

private theorem termLoop_ok (l : List SockId) (w : World) (ret : Except Errno Unit) (hl : l.Nodup)
    (hw : w.sockets.Nodup) (h : (termLoop l w ret).2 = .ok ()) (t : SockId) :
    ((termLoop l w ret).1.sock t = if t ∈ l ∧ (w.sock t).termCloses = true then (w.sock t).closed else w.sock t) ∧
      (t ∈ (termLoop l w ret).1.sockets ↔ t ∈ w.sockets ∧ ¬ (t ∈ l ∧ (w.sock t).termCloses = true)) := by
  induction l generalizing w ret with
  | nil => simp [termLoop]
  | cons s l ih =>
    obtain ⟨hs, hl⟩ := List.nodup_cons.1 hl
    unfold termLoop at h ⊢
    by_cases hc : (w.sock s).termCloses = true
    swap
    · rw [if_neg hc] at h ⊢
      have hiff : (t ∈ s :: l ∧ (w.sock t).termCloses = true) ↔ (t ∈ l ∧ (w.sock t).termCloses = true) := by
        refine and_congr_left fun ht => ?_
        rw [List.mem_cons, or_iff_right]
        rintro rfl
        exact hc ht
      simp only [hiff]
      exact ih w ret hl hw h
    rw [if_pos hc] at h ⊢
    obtain ⟨w1, hq, ⟨e, -, -, he⟩ | ⟨hin, -⟩ | ⟨hin, he⟩⟩ := close_cases w s true
    · rw [he] at h
      exact absurd h (termLoop_error l w1 e)
    · rw [inTable_of_termCloses hc] at hin
      cases hin
    rw [he] at h ⊢
    have hsockets : (w1.settle s (w.sock s).closed).sockets = w.sockets.erase s := by
      rw [settle_of_leave (by rw [hq.calm.sock_eq]; exact hin) (by simp [inTable]),
        modify_sockets, rbRemove, hq.calm.sockets_eq]
    obtain ⟨ih1, ih2⟩ := ih _ ret hl (by rw [hsockets]; exact hw.erase s) h
    rw [ih1, ih2, hsockets, hw.mem_erase_iff]
    by_cases hts : t = s
    · subst hts
      simp [hs, hc, settle_sock_self]
    · rw [settle_of_ne _ _ hts, hq.calm.sock_eq]
      simp [hts]

variable {s : SockId} {addr : SockaddrVm} {n : Nat}

private theorem bind_ok (h : (vsockBind w s addr n).2.isOk = true) : addr.svmCid = CID_ANY ∨ addr.svmCid = w.cid := by
  by_contra hc
  rw [not_or] at hc
  unfold vsockBind at h
  split at h
  · cases h
  split at h
  · cases h
  -- The check of the CID is decided by the assumption.
  cases h

private theorem bind_of_bound (hs : (w.sock s).state = .READY)
    (h : ((vsockBind w s addr n).1.sock s).state ≠ .READY) : (vsockBind w s addr n).2.isOk = true := by
  obtain ⟨w1, hq, ⟨e, he⟩ | ⟨-, port, -, -, he⟩⟩ := vsockBind_cases w s addr n
  · rw [he, hq.calm.sock_eq] at h
    exact absurd hs h
  · rw [he]
    rfl

private theorem listen_of_bound {backlog : Int} (hs : (w.sock s).state = .READY)
    (h : ((vsockListen w s backlog).1.sock s).state ≠ .READY) : (vsockListen w s backlog).2.isOk = true := by
  simp only [vsockListen, hs, reduceCtorEq, if_false, if_true, ne_eq, not_true_eq_false, and_false] at h ⊢
  obtain ⟨w1, hq, ⟨e, he⟩ | ⟨-, port, -, -, he⟩⟩ := vsockBind_cases w s bindAny sizeofSockaddrVm
  · rw [he] at h
    rw [hq.calm.sock_eq] at h
    exact absurd hs h
  · rw [he]
    rfl

end

def UkVsockState.isBound (st : UkVsockState) : Bool := st = .BOUND || st = .LISTENING

private theorem Handled.isBound {pkt : Packet} {v v' : VirtioVsock} (h : Handled pkt v v')
    (hb : v'.state.isBound = true) :
    v.state.isBound = true := by
  cases h with
  | same | request | resetEvents | refused | payload => exact hb
  | shutdown => simpa using hb
  | response | resetWait | resetOpen => cases hb
  | badResponse | shutdownClose => simp [UkVsockState.isBound] at hb

private theorem Change.isBound {w : World} {op : Op} {s : SockId} {v v' : VirtioVsock} (h : Change w op s v v')
    (hb : v'.state.isBound = true) : v.state.isBound = true ∨
      (v.state = .READY ∧ ((∃ addr n, op = .bind s addr n) ∨ ∃ backlog, op = .listen s backlog)) := by
  cases h with
  | rx ht hh =>
    left
    simpa using hh.isBound hb
  | term | close | shutdownClose => simp [UkVsockState.isBound] at hb
  | shutdown => exact .inl (by simpa using hb)
  | getsockopt | write | writeEmpty | sendto | sendtoEmpty | acceptFailed => exact .inl hb
  | read | recvfrom =>
    rw [VirtioVsock.clearIfEmpty_eq] at hb
    exact .inl hb
  | accept =>
    rw [poppedClear_eq] at hb
    exact .inl hb
  | bind hs => exact .inr ⟨hs, .inl ⟨_, _, rfl⟩⟩
  | listen hs =>
    left
    rcases hs with hs | hs <;> rw [hs] <;> rfl
  | bindListen hs => exact .inr ⟨hs, .inr ⟨_, rfl⟩⟩
  | connectPortless hs | connectUndone hs =>
    change v.state.isBound = true at hb
    rw [hs] at hb
    cases hb
  | connect => cases hb

namespace Binding

variable {op : Op}

/-- On a device without a CID of its own, calls only ever name `VMADDR_CID_ANY`. -/
private theorem named_of_any (hc : b.w.cid = CID_ANY) (h : b.any t = true) : b.named op t = true := by
  cases op with
  | bind s addr n =>
    simp only [named]
    split
    · rename_i hcond
      have hok := (Bool.and_eq_true_iff.1 hcond).2
      by_cases hts : t = s
      · subst hts
        rcases bind_ok hok with ha | ha
        · simp [ha]
        · simp [ha, hc]
      · rwa [update_of_ne hts]
    · exact h
  | listen s backlog =>
    simp only [named]
    split
    · by_cases hts : t = s
      · subst hts
        rw [update_self]
      · rwa [update_of_ne hts]
    · exact h
  | socket | connect | accept | shutdown | close | getsockopt | write | sendto | read | recvfrom | term | rx =>
    exact h

/-- On a device without a CID of its own, all bound sockets are wildcards. -/
structure Inv (cid : BitVec 32) (b : Binding) : Prop where
  sound : TableSound b.w
  cid_eq : b.w.cid = cid
  any : cid = CID_ANY → ∀ t, b.w.live t = true → (b.w.sock t).state.isBound = true → b.any t = true

/-- Every step keeps the bindings noted. -/
theorem Inv.step (h : Inv cid b) (op : Op) : Inv cid (bindStep b op) := by
  refine ⟨h.sound.step op, (step_cid h.sound.fresh op).trans h.cid_eq, fun hc t hl hb => ?_⟩
  simp only [bindStep] at hl hb ⊢
  have hcid : b.w.cid = CID_ANY := h.cid_eq.trans hc
  have hlive : b.w.live t = true := by
    rcases (step_follows h.sound.fresh op).live t hl with hl | ⟨-, -, hborn⟩
    · exact hl
    · generalize (Vsock.step b.w op).sock t = v' at hborn hb
      cases hborn <;> cases hb
  rcases step_change h.sound.fresh op t with he | hch | ⟨rfl, -, -⟩
  · rw [he] at hb
    exact named_of_any hcid (h.any hc t hlive hb)
  · rcases hch.isBound hb with hb' | ⟨hs, hop⟩
    · exact named_of_any hcid (h.any hc t hlive hb')
    · -- The step has bound the socket, so that the history was written.
      have hr : ((Vsock.step b.w op).sock t).state ≠ .READY := by
        intro hr
        rw [hr] at hb
        cases hb
      rcases hop with ⟨addr, n, rfl⟩ | ⟨backlog, rfl⟩
      · have hstep : Vsock.step b.w (.bind t addr n) = (vsockBind b.w t addr n).1 := by
          simp [Vsock.step, Op.sock?, hlive, exec]
        rw [hstep] at hr
        have hok := bind_of_bound hs hr
        simp only [named, hlive, hok, Bool.and_self, if_true, update_self]
        rcases bind_ok hok with ha | ha
        · simp [ha]
        · simp [ha, hcid]
      · have hstep : Vsock.step b.w (.listen t backlog) = (vsockListen b.w t backlog).1 := by
          simp [Vsock.step, Op.sock?, hlive, exec]
        rw [hstep] at hr
        simp [named, hlive, hs, listen_of_bound hs hr]
  · exact absurd (h.sound.fresh _ hlive) (Nat.lt_irrefl _)

theorem Inv.init (cid : BitVec 32) (env : Nat → Outcome) : Inv cid (Binding.init cid env) := by
  refine ⟨tableSound_init cid env, rfl, fun _ t hl => ?_⟩
  simp [Binding.init, World.init] at hl

/-- The reset closes a bound socket because of the CID of the device. -/
theorem Inv.termCloses_iff (h : Inv cid b) (hl : b.w.live t = true) (hin : (b.w.sock t).state.inTable = true) :
    (b.w.sock t).termCloses = true ↔ ((b.w.sock t).state.isBound = true → cid ≠ CID_ANY) := by
  have hcid : (b.w.sock t).localAddr.cid = cid := (h.sound.cid_eq t hl hin).trans h.cid_eq
  unfold termCloses
  cases hs : (b.w.sock t).state <;> simp_all [inTable, isBound]

end Binding

def World.TableComplete (w : World) : Prop :=
  ∀ t, w.live t = true → (w.sock t).state.inTable = true → t ∈ w.sockets

structure Swept (b : Binding) (w' : World) : Prop where
  sock_eq : ∀ t, w'.sock t =
    if t ∈ b.w.sockets ∧ (b.w.sock t).termCloses = true then (b.w.sock t).closed else b.w.sock t
  mem_iff : ∀ t, t ∈ w'.sockets ↔ t ∈ b.w.sockets ∧ ¬ (b.w.sock t).termCloses = true

private theorem Binding.Wildcard.isBound (h : b.Wildcard t) : (b.w.sock t).state.isBound = true := by
  rcases h.2.1 with hs | hs <;> rw [hs] <;> rfl

private theorem Binding.Wildcard.inTable (h : b.Wildcard t) : (b.w.sock t).state.inTable = true := by
  rcases h.2.1 with hs | hs <;> rw [hs] <;> rfl

private theorem Swept.resetKeeps (hs : Swept b w') (h : Binding.Inv cid b) (hc : cid = CID_ANY ∨ ∀ t, ¬ b.Wildcard t)
    (hcomplete : b.w.TableComplete) : ResetKeeps b w' := by
  -- A socket in the table is closed exactly if it is no wildcard.
  have hiff {t : SockId} (hl : b.w.live t = true) (hin : (b.w.sock t).state.inTable = true) :
      ¬ (b.w.sock t).termCloses = true ↔ b.Wildcard t := by
    rw [h.termCloses_iff hl hin, Classical.not_imp, not_not]
    constructor
    · rintro ⟨hb, ha⟩
      refine ⟨hl, ?_, h.any ha t hl hb⟩
      simpa [isBound] using hb
    · intro hw
      exact ⟨hw.isBound, hc.resolve_right fun hn => hn t hw⟩
  refine ⟨?_, ?_, ?_⟩
  · intro t
    rw [hs.mem_iff]
    constructor
    · rintro ⟨hm, hn⟩
      exact (hiff (h.sound.live t hm) (h.sound.inTable t hm)).1 hn
    · intro hw
      exact ⟨hcomplete t hw.1 hw.inTable, (hiff hw.1 hw.inTable).2 hw⟩
  · intro t hw
    rw [hs.sock_eq, if_neg fun hcl => (hiff hw.1 hw.inTable).2 hw hcl.2]
    exact ⟨rfl, rfl, rfl, rfl, rfl⟩
  · intro t hl hin hw
    have hcl : (b.w.sock t).termCloses = true := by
      by_contra hn
      exact hw ((hiff hl hin).1 hn)
    rw [hs.sock_eq, if_pos ⟨hcomplete t hl hin, hcl⟩, hs.mem_iff, closed_eq]
    exact ⟨rfl, rfl, rfl, fun hm => hm.2 hcl⟩

private theorem Swept.of_resetKeeps (hs : Swept b w') (h : Binding.Inv cid b) (hk : ResetKeeps b w') :
    (cid = CID_ANY ∨ ∀ t, ¬ b.Wildcard t) ∧ b.w.TableComplete := by
  constructor
  · by_contra hc
    rw [not_or, not_forall] at hc
    obtain ⟨hcid, t, ht⟩ := hc
    have hw : b.Wildcard t := not_not.1 ht
    have hm := (hs.mem_iff t).1 ((hk.mem_iff t).2 hw)
    exact hm.2 ((h.termCloses_iff hw.1 hw.inTable).2 fun _ => hcid)
  · intro t hl hin
    by_cases hw : b.Wildcard t
    · exact ((hs.mem_iff t).1 ((hk.mem_iff t).2 hw)).1
    · by_contra hm
      have hcl := (hk.closed t hl hin hw).1
      rw [hs.sock_eq, if_neg fun hc => hm hc.1] at hcl
      rw [hcl] at hin
      cases hin

/-- A transport reset in which no driver call fails keeps what it is meant to keep exactly when there is nothing to
keep, or the device has no CID of its own, and no socket is missing in the table. -/
theorem transportReset_iff (cid : BitVec 32) (env : Nat → Outcome) (ops : List Op) (sysmigration : Except Errno Unit)
    (hok : (ukVsocketsTerm (run bindStep (Binding.init cid env) ops).w).2 = .ok ()) :
    ResetKeeps (run bindStep (Binding.init cid env) ops)
        (ukVsockdevTransportReset (run bindStep (Binding.init cid env) ops).w sysmigration).1 ↔
      (cid = CID_ANY ∨ ∀ t, ¬ (run bindStep (Binding.init cid env) ops).Wildcard t) ∧
        (run bindStep (Binding.init cid env) ops).w.TableComplete := by
  have hinv : Binding.Inv cid (run bindStep (Binding.init cid env) ops) :=
    run_invariant (fun _ op h => h.step op) (Binding.Inv.init cid env) ops
  generalize run bindStep (Binding.init cid env) ops = b at *
  have hend : (ukVsockdevTransportReset b.w sysmigration).1 = (ukVsocketsTerm b.w).1 := by
    unfold ukVsockdevTransportReset
    split <;> simp_all
  have hterm := termLoop_ok b.w.sockets b.w (.ok ()) hinv.sound.nodup hinv.sound.nodup hok
  have hswept : Swept b (ukVsocketsTerm b.w).1 := by
    refine ⟨fun t => (hterm t).1, fun t => (hterm t).2.trans ?_⟩
    exact and_congr_right fun hm => by simp [hm]
  rw [hend]
  constructor
  · exact hswept.of_resetKeeps hinv
  · exact fun hc => hswept.resetKeeps hinv hc.1 hc.2

/-- A server that listens on the CID of the device is closed, as it is meant to be. -/
theorem transportReset_specific : ResetKeeps (run bindStep (Binding.init 3 fun _ => .good)
        [.socket 1 0, .bind 0 ⟨AF_VSOCK, 1000, 3⟩ 16, .listen 0 4])
      (ukVsockdevTransportReset (run bindStep (Binding.init 3 fun _ => .good)
        [.socket 1 0, .bind 0 ⟨AF_VSOCK, 1000, 3⟩ 16, .listen 0 4]).w (.ok ())).1 := by
  have honly (t : SockId) (h : update (fun _ => false) 0 true t = true) : t = 0 := by
    by_contra ht
    rw [update_of_ne ht] at h
    cases h
  refine (transportReset_iff 3 (fun _ => .good) _ (.ok ()) rfl).2 ⟨.inr ?_, ?_⟩
  · intro t hw
    obtain rfl := honly t hw.1
    exact absurd hw.2.2 (by decide)
  · intro t hl _
    obtain rfl := honly t hl
    decide

/-- A listening socket that was bound to `VMADDR_CID_ANY` does not survive a transport reset. -/
theorem not_transportReset : ¬ ∀ (cid : BitVec 32) (env : Nat → Outcome) (ops : List Op)
    (sysmigration : Except Errno Unit),
      (ukVsocketsTerm (run bindStep (Binding.init cid env) ops).w).2 = .ok () →
      ResetKeeps (run bindStep (Binding.init cid env) ops)
        (ukVsockdevTransportReset (run bindStep (Binding.init cid env) ops).w sysmigration).1 := by
  intro h
  have hmem := ((h 3 (fun _ => .good) serve (.ok ()) rfl).mem_iff 0).2 ⟨rfl, .inr rfl, rfl⟩
  revert hmem
  decide

/-- Nothing of an earlier connection is left in the socket. -/
structure VirtioVsock.Clean (v : VirtioVsock) : Prop where
  contents_eq : v.rx.contents = []
  rxShutdown_eq : v.rxShutdown = false
  txShutdown_eq : v.txShutdown = false
  txCount_eq : v.txCount = 0
  fwdCnt_eq : v.rx.fwdCnt = 0

/-- The invariant: only open and closed sockets hold something of a connection. -/
def VirtioVsock.CleanIdle (v : VirtioVsock) : Prop := v.state = .OPEN ∨ v.state = .CLOSED ∨ v.Clean

/-- A reset hits an open socket only while it is clean, and data is only sent on open sockets. -/
def ReuseSafe (w : World) : Op → Prop
  | .rx pkt => ∀ s, rxTarget w pkt = some s → pkt.hdr.op = OP_RST → (w.sock s).state = .OPEN → (w.sock s).Clean
  | .sendto s buf _ _ => (w.sock s).state = .OPEN ∨ (w.sock s).state = .CLOSED ∨ buf = [] ∨ (w.sock s).peerRxFree = 0
  | _ => True

def VirtioVsock.connView (v : VirtioVsock) : UkVsockBuffer × Bool × Bool × BitVec 32 :=
  (v.rx, v.rxShutdown, v.txShutdown, v.txCount)

variable {v v' : VirtioVsock} {pkt : Packet} {w : World} {op : Op}

private theorem VirtioVsock.Clean.congr (h : v.Clean) (he : v'.connView = v.connView) : v'.Clean := by
  simp only [connView, Prod.mk.injEq] at he
  obtain ⟨hrx, hr, ht, hc⟩ := he
  exact ⟨hrx ▸ h.contents_eq, hr ▸ h.rxShutdown_eq, ht ▸ h.txShutdown_eq, hc ▸ h.txCount_eq, hrx ▸ h.fwdCnt_eq⟩

private theorem VirtioVsock.CleanIdle.congr (h : v.CleanIdle) (he : v'.connView = v.connView)
    (hs : v.state = .OPEN ∨ v.state = .CLOSED → v'.state = v.state) : v'.CleanIdle := by
  rcases h with h | h | h
  · exact .inl ((hs (.inl h)).trans h)
  · exact .inr (.inl ((hs (.inr h)).trans h))
  · exact .inr (.inr (h.congr he))

private theorem credited_connView (v : VirtioVsock) (hdr : VirtioVsockHdr) :
    (v.credited hdr).connView = v.connView := by
  rw [credited_eq]
  rfl

private theorem Handled.cleanIdle (h : Handled pkt v v') (hv : v.CleanIdle)
    (hr : pkt.hdr.op = OP_RST → v.state = .OPEN → v.Clean) : v'.CleanIdle := by
  cases h with
  | same => exact hv
  | request | resetEvents | refused => exact hv.congr rfl fun _ => rfl
  | resetWait ho hs => exact hv.congr rfl fun h => by simp [hs] at h
  | resetOpen ho hs => exact .inr (.inr ((hr ho hs).congr rfl))
  | response ho hs => exact .inl rfl
  | payload rx ho hs => exact .inl hs
  | shutdown ho hs => exact .inl (by simp [hs])
  | badResponse | shutdownClose => exact .inr (.inl (by simp))

private theorem Change.cleanIdle {s : SockId} (h : Change w op s (w.sock s) v)
    (hop : ReuseSafe w op) (hv : (w.sock s).CleanIdle) : v.CleanIdle := by
  cases h with
  | rx ht hh =>
    have hview := credited_connView (w.sock s)
    refine hh.cleanIdle (hv.congr (hview _) fun _ => by simp) fun ho hs => ?_
    exact (hop s ht ho (by simpa using hs)).congr (hview _)
  | term | close | shutdownClose => exact .inr (.inl (by simp))
  | shutdown _ hs => exact .inl (by simp [hs])
  | write hs | writeEmpty hs => exact .inl hs
  | sendto hs ht hn hl =>
    rename_i buf a l n
    rcases hop with hop | hop | hop | hop
    · exact .inl hop
    · exact .inr (.inl hop)
    · obtain rfl : n = 0 := by simpa [hop] using hl
      rw [sentBytes_zero]
      exact hv
    · obtain rfl : n = 0 := by simpa [hop] using hn
      rw [sentBytes_zero]
      exact hv
  | read hs | recvfrom hs =>
    rcases hs with hs | hs
    · exact .inl (by rw [clearIfEmpty_state]; exact hs)
    · exact .inr (.inl (by rw [clearIfEmpty_state]; exact hs))
  | getsockopt | sendtoEmpty | connectPortless | connectUndone | acceptFailed => exact hv.congr rfl fun _ => rfl
  | bind hs | bindListen hs => exact hv.congr rfl fun h => by simp [hs] at h
  | listen hs | connect hs => exact hv.congr rfl fun h => by rcases hs with hs | hs <;> simp [hs] at h
  | accept hs =>
    rw [poppedClear_eq]
    exact hv.congr rfl fun _ => rfl

theorem clean_init (ty : SockType) : (VirtioVsock.init ty).Clean := ⟨rfl, rfl, rfl, rfl, rfl⟩

private theorem Born.cleanIdle (h : Born w op v) : v.CleanIdle := by
  cases h with
  | socket ty => exact .inr (.inr ((clean_init ty).congr rfl))
  | accept => exact .inl rfl

/-- In every run whose steps are `ReuseSafe`, the sockets that are idle are clean. -/
theorem cleanIdle_of_run (cid : BitVec 32) (env : Nat → Outcome) {ops : List Op}
    (h : Meets step ReuseSafe (World.init cid env) ops) :
    (run step (World.init cid env) ops).Fresh ∧
      (run step (World.init cid env) ops).All fun _ v => v.CleanIdle := by
  refine h.invariant (I := fun w => w.Fresh ∧ w.All fun _ v => v.CleanIdle) ?_
    ⟨fresh_init cid env, fun _ => .inr (.inr (clean_init _))⟩
  intro w op hi hop
  exact ⟨step_fresh hi.1 op, hi.2.step hi.1 (fun t v hc => hc.cleanIdle hop (hi.2 t)) fun v hb => hb.cleanIdle⟩

private theorem Handled.opened (h : Handled pkt v v') (hv : v.state ≠ .OPEN)
    (hv' : v'.state = .OPEN) : pkt.hdr.op = OP_RESPONSE ∧ v.state = .WAIT_CONNECT ∧
      v' = { v with state := .OPEN }.eventSet EPOLLOUT := by
  cases h with
  | response ho hs => exact ⟨ho, hs, rfl⟩
  | same | request | resetEvents | refused | payload => exact absurd hv' hv
  | badResponse | shutdownClose => simp at hv'
  | resetWait | resetOpen => cases hv'
  | shutdown ho hs => exact absurd hs hv

/-- In such a run a socket that a packet opens is clean, and its window is the one the packet advertises. -/
theorem clean_of_reopen (cid : BitVec 32) (env : Nat → Outcome) (ops : List Op)
    (h : Meets step ReuseSafe (World.init cid env) ops) (pkt : Packet) (s : SockId)
    (hs : ((run step (World.init cid env) ops).sock s).state ≠ .OPEN)
    (ho : ((run step (World.init cid env) (ops ++ [.rx pkt])).sock s).state = .OPEN) :
    ((run step (World.init cid env) (ops ++ [.rx pkt])).sock s).Clean ∧
      ((run step (World.init cid env) (ops ++ [.rx pkt])).sock s).peerRxFree =
        pkt.hdr.bufAlloc - (0 - pkt.hdr.fwdCnt) := by
  obtain ⟨hfresh, hinv⟩ := cleanIdle_of_run cid env h
  rw [run_append, run_cons, run_nil] at ho ⊢
  generalize run step (World.init cid env) ops = w at *
  rcases step_change hfresh (.rx pkt) s with he | hc | ⟨-, -, hb⟩
  · rw [he] at ho
    exact absurd ho hs
  · generalize (step w (.rx pkt)).sock s = v' at *
    cases hc with
    | rx ht hh =>
      obtain ⟨hop, hst, rfl⟩ := hh.opened (by simpa using hs) ho
      rw [credited_state] at hst
      have hclean : (w.sock s).Clean := by
        rcases hinv s with h | h | h
        · exact absurd h hs
        · rw [hst] at h; cases h
        · exact h
      have hstore : storesCredit pkt.hdr = true := by
        simp [storesCredit, hop, OP_RESPONSE, OP_REQUEST, UkVsockState.val]
      refine ⟨hclean.congr (credited_connView (w.sock s) pkt.hdr), ?_⟩
      rw [credited_eq]
      simp [eventSet, peerRxFree, hstore, hclean.txCount_eq]
  · cases hb

theorem clean_of_reopen_refused : let ops := .socket 1 0 :: dial ++ .rx (peerPacket OP_RST 0 0 []) :: dial
    Meets step ReuseSafe (World.init 3 fun _ => .good) ops ∧
      ((run step (World.init 3 fun _ => .good) (ops ++ [.rx (peerPacket OP_RESPONSE 100 0 [])])).sock 0).Clean := by
  intro ops
  have h : Meets step ReuseSafe (World.init 3 fun _ => .good) ops := by
    refine ⟨trivial, trivial, trivial, fun s ht _ ho => ?_, trivial, trivial, trivial⟩
    obtain rfl : s = 0 := (Option.some.inj (ht.symm.trans rfl))
    exact absurd ho (by decide)
  exact ⟨h, (clean_of_reopen 3 (fun _ => .good) ops h (peerPacket OP_RESPONSE 100 0 []) 0 (by decide) (by decide)).1⟩

/-- Three bytes of a connection that was reset are read on the next one. -/
theorem not_clean_of_reopen : ¬ ∀ (cid : BitVec 32) (env : Nat → Outcome) (ops : List Op) (pkt : Packet) (s : SockId),
      ((run step (World.init cid env) ops).sock s).state ≠ .OPEN →
      ((run step (World.init cid env) (ops ++ [.rx pkt])).sock s).state = .OPEN →
      ((run step (World.init cid env) (ops ++ [.rx pkt])).sock s).Clean := by
  intro h
  have hclean := h 3 (fun _ => .good) (.socket 1 0 :: dial ++ .rx (peerPacket OP_RESPONSE 100 0 []) ::
    .rx (peerPacket OP_RW 100 0 [1, 2, 3]) :: .rx (peerPacket OP_RST 0 0 []) :: dial)
    (peerPacket OP_RESPONSE 100 0 []) 0 (by decide) (by decide)
  have hlen := congrArg List.length hclean.contents_eq
  revert hlen
  decide

/-- The bytes in flight fit in the buffer the peer last advertised. -/
def VirtioVsock.CreditFits (v : VirtioVsock) : Prop := v.txCount - v.peerFwdCount ≤ v.peerBufAlloc

/-- The same for the connection that an entry of the accept queue stands for, on which nothing has been sent. -/
def AcceptEntry.CreditFits (e : AcceptEntry) : Prop := 0 - e.peerFwdCount ≤ e.peerBufAlloc

/-- Calls of `virtio_vsock_send` one after the other, as in the loop of `vsock_write`. -/
def sendAll (s : SockId) (w : World) (bufs : List (List UInt8)) : World :=
  bufs.foldl (fun w buf => (virtioVsockSend w s buf).1) w

/-- A received packet does not advertise less than what is in flight. The fields of a request are stored only by a
listening socket, for the connection that is accepted later. -/
def CreditSafe (w : World) : Op → Prop
  | .rx pkt => ∀ s, rxTarget w pkt = some s →
    if pkt.hdr.op = OP_REQUEST then (w.sock s).state = .LISTENING → 0 - pkt.hdr.fwdCnt ≤ pkt.hdr.bufAlloc
    else storesCredit pkt.hdr = true → (w.sock s).txCount - pkt.hdr.fwdCnt ≤ pkt.hdr.bufAlloc
  | _ => True

/-- A received packet does not confirm more bytes than were sent. -/
def CreditNotAhead (w : World) : Op → Prop
  | .rx pkt => ∀ s, rxTarget w pkt = some s →
    if pkt.hdr.op = OP_REQUEST then pkt.hdr.fwdCnt = 0
    else storesCredit pkt.hdr = true → pkt.hdr.fwdCnt ≤ (w.sock s).txCount
  | _ => True

variable {s : SockId} {n : Nat}

private theorem VirtioVsock.CreditFits.sentBytes (h : v.CreditFits) (hn : n ≤ v.peerRxFree.toNat) :
    (v.sentBytes n).CreditFits := by
  have hle : (v.txCount - v.peerFwdCount).toNat ≤ v.peerBufAlloc.toNat := h
  have hfree : v.peerRxFree.toNat = v.peerBufAlloc.toNat - (v.txCount - v.peerFwdCount).toNat :=
    BitVec.toNat_sub_of_le hle
  have he : (v.sentBytes n).txCount - v.peerFwdCount = (v.txCount - v.peerFwdCount) + BitVec.ofNat 32 n := by
    simp only [VirtioVsock.sentBytes]
    bv_omega
  show (v.sentBytes n).txCount - v.peerFwdCount ≤ v.peerBufAlloc
  rw [he, BitVec.le_def, BitVec.toNat_add, BitVec.toNat_ofNat, Nat.mod_eq_of_lt (show n < 2 ^ 32 by omega),
    Nat.mod_eq_of_lt (by omega)]
  omega

private theorem creditFits_send (h : (w.sock s).CreditFits) (buf : List UInt8) :
    ((virtioVsockSend w s buf).1.sock s).CreditFits := by
  rcases send_cases w s buf with ⟨-, he⟩ | ⟨-, -, he⟩ | ⟨-, -, w1, e, hq, -, -, he⟩ |
    ⟨-, -, -, w1, pkt, n, hq, -, hn, -, -, he⟩
  · rw [he]
    exact h
  · rw [he]
    exact h
  · rw [he, hq.calm.sock_eq]
    exact h
  · rw [he, World.modify_self, hq.calm.sock_eq]
    exact h.sentBytes (by omega)

private theorem creditFits_sendAll (h : (w.sock s).CreditFits) (bufs : List (List UInt8)) :
    ((sendAll s w bufs).sock s).CreditFits := by
  induction bufs generalizing w with
  | nil => exact h
  | cons buf bufs ih => exact ih (creditFits_send h buf)

/-- The invariant of a socket: its bytes in flight fit, and so will those of the connections it may accept. -/
structure VirtioVsock.CreditOk (v : VirtioVsock) : Prop where
  fits : v.CreditFits
  queue : ∀ e ∈ v.acceptQueue, e.CreditFits

namespace VirtioVsock.CreditOk

private theorem closed (h : v.CreditOk) : v.closed.CreditOk := by
  rw [closed_eq]
  refine ⟨h.fits, fun e he => h.queue e ?_⟩
  split at he
  · exact he
  · cases he

private theorem shutdownBy (h : v.CreditOk) (rx tx : Bool) : (v.shutdownBy rx tx).CreditOk := by
  rw [shutdownBy_eq]
  exact ⟨h.fits, h.queue⟩

private theorem clearIfEmpty (h : v.CreditOk) : (v.readBytes n).clearIfEmpty.CreditOk := by
  rw [clearIfEmpty_eq]
  exact ⟨h.fits, h.queue⟩

end VirtioVsock.CreditOk

private theorem Handled.creditOk {pkt : Packet} {v' : VirtioVsock} (h : Handled pkt v v') (hv : v.CreditOk)
    (hr : pkt.hdr.op = OP_REQUEST → v.state = .LISTENING → 0 - pkt.hdr.fwdCnt ≤ pkt.hdr.bufAlloc) : v'.CreditOk := by
  cases h with
  | same | response | resetEvents | refused | resetWait | resetOpen | payload => exact ⟨hv.fits, hv.queue⟩
  | request req ho hs =>
    refine ⟨hv.fits, fun e he => ?_⟩
    rcases List.mem_append.1 he with he | he
    · exact hv.queue e he
    · rw [List.mem_singleton.1 he]
      exact hr ho hs
  | badResponse => exact hv.closed
  | shutdown => exact hv.shutdownBy _ _
  | shutdownClose => exact (hv.shutdownBy _ _).closed

private theorem Change.creditOk (h : Change w op s (w.sock s) v) (hop : CreditSafe w op) (hv : (w.sock s).CreditOk) :
    v.CreditOk := by
  cases h with
  | rx ht hh =>
    have hsafe := hop s ht
    rename_i pkt
    split at hsafe
    next ho =>
      rw [credited_request _ ho] at hh
      exact hh.creditOk hv fun _ => hsafe
    next ho =>
      refine hh.creditOk ?_ fun h => absurd h ho
      rw [credited_eq]
      refine ⟨?_, hv.queue⟩
      by_cases hst : storesCredit pkt.hdr = true
      · simpa [VirtioVsock.CreditFits, hst] using hsafe hst
      · simpa [VirtioVsock.CreditFits, hst] using hv.fits
  | term | close => exact hv.closed
  | shutdown => exact hv.shutdownBy _ _
  | shutdownClose => exact (hv.shutdownBy _ _).closed
  | write _ hn | writeEmpty _ hn => exact ⟨hv.fits.sentBytes hn, hv.queue⟩
  | sendto _ _ hn => exact ⟨hv.fits.sentBytes hn, hv.queue⟩
  | read | recvfrom => exact hv.clearIfEmpty
  | acceptFailed _ hq => exact ⟨hv.fits, fun e he => hv.queue e (by rw [hq]; exact List.mem_cons_of_mem _ he)⟩
  | accept _ hq =>
    rw [poppedClear_eq]
    exact ⟨hv.fits, fun e he => hv.queue e (by rw [hq]; exact List.mem_cons_of_mem _ he)⟩
  | getsockopt | sendtoEmpty | bind | listen | bindListen | connectPortless | connectUndone | connect =>
    exact ⟨hv.fits, hv.queue⟩

theorem creditOk_init (ty : SockType) : (VirtioVsock.init ty).CreditOk := by
  refine ⟨?_, fun e he => by cases he⟩
  show (0 : BitVec 32) - 0 ≤ 0
  decide

private theorem Born.creditOk (h : Born w op v) (hw : w.All fun _ v => v.CreditOk) : v.CreditOk := by
  cases h with
  | socket ty => exact ⟨(creditOk_init ty).fits, (creditOk_init ty).queue⟩
  | accept hs hq => exact ⟨(hw _).queue _ (by rw [hq]; exact List.mem_cons_self), fun e he => by cases he⟩

/-- In such a run the bytes in flight fit in the advertised buffer after any sequence of transmissions. -/
theorem creditFits_of_run (cid : BitVec 32) (env : Nat → Outcome) (ops : List Op)
    (h : Meets step CreditSafe (World.init cid env) ops) (s : SockId) (bufs : List (List UInt8)) :
    ((sendAll s (run step (World.init cid env) ops) bufs).sock s).CreditFits := by
  have hinv : (run step (World.init cid env) ops).Fresh ∧
      (run step (World.init cid env) ops).All fun _ v => v.CreditOk := by
    refine h.invariant (I := fun w => w.Fresh ∧ w.All fun _ v => v.CreditOk)
      ?_ ⟨fresh_init cid env, fun _ => creditOk_init _⟩
    intro w op hi hop
    exact ⟨step_fresh hi.1 op, hi.2.step hi.1 (fun t v hc => hc.creditOk hop (hi.2 t)) fun v hb => hb.creditOk hi.2⟩
  exact creditFits_sendAll (hinv.2 s).fits bufs

theorem creditFits_served : Meets step CreditSafe (World.init 3 fun _ => .good) serveOne ∧
      ((sendAll 1 served [[1, 2], [3]]).sock 1).CreditFits := by
  have hreq : (peerPacket OP_REQUEST 100 0 []).hdr.op = OP_REQUEST := rfl
  have h : Meets step CreditSafe (World.init 3 fun _ => .good) serveOne :=
    ⟨trivial, trivial, trivial, fun _ _ => by rw [if_pos hreq]; exact fun _ => by decide, trivial, trivial⟩
  exact ⟨h, creditFits_of_run 3 (fun _ => .good) serveOne h 1 [[1, 2], [3]]⟩

def shrunk : List Op := serveOne ++ [.sendto 1 [1, 2, 3] false 0, .rx (peerPacket OP_CREDIT_UPDATE 2 0 [])]

private theorem creditNotAhead_peerPacket (w : World) (op : BitVec 16) (b : BitVec 32) (payload : List UInt8) :
    CreditNotAhead w (.rx (peerPacket op b 0 payload)) := by
  intro s _
  split
  · rfl
  · exact fun _ => BitVec.le_def.2 (Nat.zero_le _)

/-- After a packet that advertises a smaller buffer, more is sent than the peer has room for. -/
theorem not_creditFits_of_run : ¬ ∀ (cid : BitVec 32) (env : Nat → Outcome) (ops : List Op),
      Meets step CreditNotAhead (World.init cid env) ops → ∀ s buf w' n,
        virtioVsockSend (run step (World.init cid env) ops) s buf = (w', .ok n) → 0 < n → (w'.sock s).CreditFits := by
  intro h
  have hmeets : Meets step CreditNotAhead (World.init 3 fun _ => .good) shrunk :=
    ⟨trivial, trivial, trivial, creditNotAhead_peerPacket _ _ _ _, trivial, trivial,
      creditNotAhead_peerPacket _ _ _ _, trivial⟩
  have hfits := h 3 (fun _ => .good) shrunk hmeets 1 [4] _ 1 rfl (by decide)
  revert hfits
  unfold VirtioVsock.CreditFits
  decide

end Unikraft.Vsock
