import Unikraft.Lib.Circular
import Unikraft.Lib.Runs
import Unikraft.Lib.SearchTree

/-!
# The vsock layer

CIDs, ports and credit fields are 32-bit words; the 64-bit CIDs of a packet header are cut. The receive buffer is a
ring, seen from outside the list `contents`. Which allocations and transmissions fail is read from an arbitrary
sequence `env`. History: `rbFault` records whether an insertion found an equal key or a removal an element outside the
table, and `requests` the connection requests, which the packets of `sent` that answer one name.
`virtio_vsockdev_xmit_retry` yields until the ring has room. A run of the layer is a sequence of socket operations,
transport resets and received packets, each of which runs to its end.
-/

namespace Unikraft.Vsock

/-- `RAW n` is a negative number that is returned as if it were an error code (see `vsockAllocPort`); `ASSERT` is a
failed `UK_ASSERT`, after which the call does not return. -/
inductive Errno
  | EAGAIN | EINVAL | ENOMEM | ENOSPC | EFBIG | ENOTCONN | EPIPE | EISCONN | EALREADY | EINPROGRESS
  | EADDRINUSE | EADDRNOTAVAIL | EAFNOSUPPORT | EPROTONOSUPPORT | ESOCKTNOSUPPORT | ECONNREFUSED | ENOPROTOOPT
  | RAW (n : Int) | ASSERT
  deriving DecidableEq

inductive UkVsockState
  | READY | CLOSED | BOUND | WAIT_CONNECT | LISTENING | OPEN
  deriving DecidableEq

def UkVsockState.val : UkVsockState → Nat
  | READY => 0
  | CLOSED => 1
  | BOUND => 2
  | WAIT_CONNECT => 3
  | LISTENING => 4
  | OPEN => 5

inductive SockType
  | STREAM | SEQPACKET
  deriving DecidableEq

def SockType.val : SockType → Int
  | STREAM => 1
  | SEQPACKET => 5

/-- `VIRTIO_VSOCK_TYPE_STREAM` and `VIRTIO_VSOCK_TYPE_SEQPACKET`, the type field of a packet. -/
def SockType.virtio : SockType → BitVec 16
  | STREAM => 1
  | SEQPACKET => 2

structure UkVsockaddr where
  cid : BitVec 32
  port : BitVec 32
  deriving DecidableEq

def CID_ANY : BitVec 32 := 0xffffffff#32

def PORT_ANY : BitVec 32 := 0xffffffff#32

def UkVsockaddr.any : UkVsockaddr := ⟨CID_ANY, PORT_ANY⟩

structure SockaddrVm where
  svmFamily : Nat
  svmPort : BitVec 32
  svmCid : BitVec 32
  deriving DecidableEq

def AF_VSOCK : Nat := 40

def sizeofSockaddrVm : Nat := 16

/-- The bits `UK_VSOCK_CONN_ID_MASK_*` of a search key: a masked component matches every value. -/
structure ConnIdMask where
  localCid : Bool := false
  localPort : Bool := false
  peerCid : Bool := false
  peerPort : Bool := false
  deriving DecidableEq

structure UkVsockConnId where
  type : SockType
  localAddr : UkVsockaddr
  peer : UkVsockaddr
  mask : ConnIdMask
  deriving DecidableEq

/-- The macro `CMP_ID`: decide by the two values unless they agree or are masked, else go on with `k`. -/
def cmpId (x y : BitVec 32) (masked : Bool) (k : Ordering) : Ordering :=
  if x ≠ y ∧ masked = false then (if x < y then .lt else .gt) else k

def ukVsockSockaddrCmp (a b : UkVsockConnId) : Ordering :=
  if a.type ≠ b.type then (if a.type.val < b.type.val then .lt else .gt)
  else
    cmpId a.localAddr.cid b.localAddr.cid (a.mask.localCid || b.mask.localCid) <|
    cmpId a.localAddr.port b.localAddr.port (a.mask.localPort || b.mask.localPort) <|
    cmpId a.peer.cid b.peer.cid (a.mask.peerCid || b.mask.peerCid) <|
    cmpId a.peer.port b.peer.port (a.mask.peerPort || b.mask.peerPort) .eq

private theorem cmpId_eq {x y : BitVec 32} {masked : Bool} {k : Ordering} : cmpId x y masked k = .eq ↔
    (masked = true ∨ x = y) ∧ k = .eq := by
  unfold cmpId
  split
  next h =>
    have hn : ¬ (masked = true ∨ x = y) := by simp [h.1, h.2]
    split <;> simp [hn]
  next h =>
    have hy : masked = true ∨ x = y := by
      by_cases hx : x = y
      · exact .inr hx
      · exact .inl (by simpa [hx] using h)
    simp [hy]

/-- Keys compare equal if they agree in what the masks leave. -/
theorem sockaddrCmp_eq {a b : UkVsockConnId} : ukVsockSockaddrCmp a b = .eq ↔ a.type = b.type ∧
      ((a.mask.localCid || b.mask.localCid) = true ∨ a.localAddr.cid = b.localAddr.cid) ∧
      ((a.mask.localPort || b.mask.localPort) = true ∨ a.localAddr.port = b.localAddr.port) ∧
      ((a.mask.peerCid || b.mask.peerCid) = true ∨ a.peer.cid = b.peer.cid) ∧
      ((a.mask.peerPort || b.mask.peerPort) = true ∨ a.peer.port = b.peer.port) := by
  unfold ukVsockSockaddrCmp
  by_cases h : a.type = b.type
  · simp only [h, ne_eq, not_true_eq_false, if_false, cmpId_eq, true_and, and_true]
  · simp only [h, ne_eq, not_false_eq_true, if_true, false_and, iff_false]
    split <;> simp

theorem sockaddrCmp_eq_iff {a b : UkVsockConnId} (ha : a.mask = {}) (hb : b.mask = {}) :
    ukVsockSockaddrCmp a b = .eq ↔ a = b := by
  rw [sockaddrCmp_eq]
  obtain ⟨ta, ⟨la, pa⟩, ⟨ca, qa⟩, ma⟩ := a
  obtain ⟨tb, ⟨lb, pb⟩, ⟨cb, qb⟩, mb⟩ := b
  subst ha hb
  simp [and_assoc]

structure VirtioVsockHdr where
  srcCid : BitVec 64
  dstCid : BitVec 64
  srcPort : BitVec 32
  dstPort : BitVec 32
  len : BitVec 32
  type : BitVec 16
  op : BitVec 16
  flags : BitVec 32
  bufAlloc : BitVec 32
  fwdCnt : BitVec 32
  deriving DecidableEq

def sizeofHdr : Nat := 44

/-! `enum virtio_vsock_op`. -/

def OP_REQUEST : BitVec 16 := 1
def OP_RESPONSE : BitVec 16 := 2
def OP_RST : BitVec 16 := 3
def OP_SHUTDOWN : BitVec 16 := 4
def OP_RW : BitVec 16 := 5
def OP_CREDIT_UPDATE : BitVec 16 := 6
def OP_CREDIT_REQUEST : BitVec 16 := 7

def SHUTDOWN_F_RECEIVE : BitVec 32 := 1#32

def SHUTDOWN_F_SEND : BitVec 32 := 2#32

/-- A received or transmitted packet: the header and the data behind it in the netbuf. -/
structure Packet where
  hdr : VirtioVsockHdr
  payload : List UInt8 := []
  deriving DecidableEq

/-- A set of poll events: the level of a file, or the argument of an update of it. -/
structure PollEvents where
  epollIn : Bool := false
  epollOut : Bool := false
  epollErr : Bool := false
  epollHup : Bool := false
  epollRdhup : Bool := false
  deriving DecidableEq

def EPOLLIN : PollEvents := { epollIn := true }
def EPOLLOUT : PollEvents := { epollOut := true }
def EPOLLERR : PollEvents := { epollErr := true }
def EPOLLHUP : PollEvents := { epollHup := true }
def EPOLLRDHUP : PollEvents := { epollRdhup := true }

def PollEvents.or (e f : PollEvents) : PollEvents :=
  ⟨e.epollIn || f.epollIn, e.epollOut || f.epollOut, e.epollErr || f.epollErr, e.epollHup || f.epollHup,
    e.epollRdhup || f.epollRdhup⟩

def PollEvents.clear (e f : PollEvents) : PollEvents :=
  ⟨e.epollIn && !f.epollIn, e.epollOut && !f.epollOut, e.epollErr && !f.epollErr, e.epollHup && !f.epollHup,
    e.epollRdhup && !f.epollRdhup⟩

open Circular Runs

structure UkVsockBuffer where
  buf : Nat → UInt8
  head : Nat
  count : Nat
  capacity : Nat
  totalProcessed : BitVec 64
  head_lt : head < capacity
  count_le : count ≤ capacity

namespace UkVsockBuffer

/-- The bytes received and not yet consumed, oldest first. -/
def contents (b : UkVsockBuffer) : List UInt8 := window b.buf b.capacity b.head b.count

@[simp] theorem length_contents (b : UkVsockBuffer) : b.contents.length = b.count := by simp [contents]

private theorem capacity_pos (b : UkVsockBuffer) : 0 < b.capacity := Nat.lt_of_le_of_lt (Nat.zero_le _) b.head_lt

end UkVsockBuffer

/-- `uk_vsock_buffer_init`, once its allocation has succeeded: an empty ring of `bufsize` bytes. -/
def ukVsockBufferInit (bufsize : Nat) (h : 0 < bufsize) : UkVsockBuffer where
  buf := fun _ => 0
  head := 0
  count := 0
  capacity := bufsize
  totalProcessed := 0
  head_lt := h
  count_le := Nat.zero_le _

/-- The first loop of `uk_vsock_buffer_append`: does the chain fit in `free` bytes, `appended` of them taken? -/
def appendFits (free appended : Nat) : List (List UInt8) → Bool
  | [] => true
  | nbi :: nb => if free < appended + nbi.length then false else appendFits free (appended + nbi.length) nb

variable (b : UkVsockBuffer)

/-- The second loop of `uk_vsock_buffer_append`: copy the chain behind the `appended` bytes already copied, and
return the memory and the number of bytes copied in total. -/
def appendCopy (b : UkVsockBuffer) (buf : Nat → UInt8) (appended : Nat) : List (List UInt8) → (Nat → UInt8) × Nat
  | [] => (buf, appended)
  | nbi :: nb =>
    let writePos := (b.head + b.count + appended) % b.capacity
    appendCopy b (store buf b.capacity writePos nbi) (appended + nbi.length) nb

private theorem appendCopy_snd (buf : Nat → UInt8) (appended : Nat) (nb : List (List UInt8)) :
    (appendCopy b buf appended nb).2 = appended + nb.flatten.length := by
  induction nb generalizing buf appended with
  | nil => simp [appendCopy]
  | cons nbi nb ih => simp [appendCopy, ih]; omega

/-- The length check adds up the parts of the payload. -/
theorem appendFits_iff {free appended : Nat} (nb : List (List UInt8)) (h : appended ≤ free) :
    appendFits free appended nb = true ↔ appended + nb.flatten.length ≤ free := by
  induction nb generalizing appended with
  | nil => simp [appendFits, h]
  | cons nbi nb ih =>
    unfold appendFits
    split
    · simp; omega
    · rw [ih (by omega)]
      simp; omega

def ukVsockBufferAppend (nb : List (List UInt8)) : Except Errno UkVsockBuffer :=
  if h : appendFits (b.capacity - b.count) 0 nb = true then
    .ok { b with
      buf := (appendCopy b b.buf 0 nb).1
      count := b.count + (appendCopy b b.buf 0 nb).2
      count_le := by
        have := (appendFits_iff nb (Nat.zero_le _)).1 h
        have := b.count_le
        rw [appendCopy_snd]; omega }
  else .error .ENOSPC

variable (size : Nat)

/-- `uk_vsock_buffer_read`: the bytes copied to the caller, whose number is the return value. -/
def ukVsockBufferRead : List UInt8 :=
  load b.buf b.capacity b.head (min size b.count)

/-- `uk_vsock_buffer_consume`. The callers keep `size <= buf->count`, which the function asserts. -/
def ukVsockBufferConsume : UkVsockBuffer :=
  { b with
    head := (b.head + size) % b.capacity
    count := b.count - size
    totalProcessed := b.totalProcessed + BitVec.ofNat 64 size
    head_lt := Nat.mod_lt _ b.capacity_pos
    count_le := by have := b.count_le; omega }

def ukVsockBufferIsEmpty : Bool := b.count == 0

/-- `hdr->fwd_cnt = uk_vsock_total_processed(..)`: the counter cut to 32 bits. -/
def UkVsockBuffer.fwdCnt : BitVec 32 := b.totalProcessed.setWidth 32

def UkVsockBuffer.bufAlloc : BitVec 32 := BitVec.ofNat 32 b.capacity

private theorem appendCopy_window (b : UkVsockBuffer) (buf : Nat → UInt8) (appended : Nat)
    (nb : List (List UInt8)) (h : b.count + appended + nb.flatten.length ≤ b.capacity) :
    window (appendCopy b buf appended nb).1 b.capacity b.head (b.count + (appendCopy b buf appended nb).2) =
      window buf b.capacity b.head (b.count + appended) ++ nb.flatten := by
  induction nb generalizing buf appended with
  | nil => simp [appendCopy]
  | cons nbi nb ih =>
    simp only [List.flatten_cons, List.length_append] at h
    have hfit : b.count + appended + nbi.length ≤ b.capacity := by omega
    have hw := window_store buf b.head (b.count + appended) b.capacity_pos hfit
    rw [← Nat.add_assoc] at hw
    simp only [appendCopy]
    rw [ih _ _ (by omega), ← Nat.add_assoc, hw, List.flatten_cons, List.append_assoc]

theorem contents_init (n : Nat) (h : 0 < n) : (ukVsockBufferInit n h).contents = [] := rfl

/-- A payload is appended as a whole or not at all. -/
theorem bufferAppend_spec (nb : List (List UInt8)) :
    (b.count + nb.flatten.length ≤ b.capacity ∧ ∃ b', ukVsockBufferAppend b nb = .ok b' ∧
      b'.contents = b.contents ++ nb.flatten ∧ b'.capacity = b.capacity ∧ b'.totalProcessed = b.totalProcessed) ∨
    (b.capacity < b.count + nb.flatten.length ∧ ukVsockBufferAppend b nb = .error .ENOSPC) := by
  have hc := b.count_le
  have hf := appendFits_iff nb (Nat.zero_le (b.capacity - b.count))
  by_cases h : appendFits (b.capacity - b.count) 0 nb = true
  · left
    have hfit := hf.1 h
    refine ⟨by omega, _, dif_pos h, ?_, rfl, rfl⟩
    exact appendCopy_window b b.buf 0 nb (by omega)
  · right
    have hfit : ¬ (0 + nb.flatten.length ≤ b.capacity - b.count) := fun h' => h (hf.2 h')
    exact ⟨by omega, dif_neg h⟩

theorem count_append {b b' : UkVsockBuffer} {nb : List (List UInt8)} (h : ukVsockBufferAppend b nb = .ok b') :
    b'.count = b.count + nb.flatten.length := by
  rcases bufferAppend_spec b nb with ⟨-, b1, hb, hc, -⟩ | ⟨-, hb⟩
  · obtain rfl : b1 = b' := by simpa [hb] using h
    simpa using congrArg List.length hc
  · simp [hb] at h

private theorem bufferRead_eq : ukVsockBufferRead b size = b.contents.take size := by
  have hc := b.count_le
  unfold ukVsockBufferRead
  rw [load_eq_window _ b.head_lt (by omega), UkVsockBuffer.contents]
  by_cases h : size ≤ b.count
  · rw [Nat.min_eq_left h, window_take _ _ _ h]
  · rw [Nat.min_eq_right (by omega), List.take_of_length_le (by simp; omega)]

theorem bufferRead_length : (ukVsockBufferRead b size).length = min size b.count := by
  rw [bufferRead_eq, List.length_take, UkVsockBuffer.length_contents]

/-- A read returns the oldest bytes. -/
theorem bufferRead_eq_take_length : ukVsockBufferRead b size = b.contents.take (ukVsockBufferRead b size).length := by
  rw [bufferRead_eq]
  simp

/-- Consuming takes the oldest bytes out. -/
theorem contents_consume {size : Nat} (h : size ≤ b.count) :
    (ukVsockBufferConsume b size).contents = b.contents.drop size := by
  simp only [UkVsockBuffer.contents, ukVsockBufferConsume]
  rw [window_drop _ _ _ h, window_mod]

theorem consume_zero : ukVsockBufferConsume b 0 = b := by
  cases b
  simp only [ukVsockBufferConsume, UkVsockBuffer.mk.injEq, Nat.add_zero, Nat.sub_zero, true_and]
  exact ⟨Nat.mod_eq_of_lt ‹_›, by simp⟩

theorem consume_consume (m n : Nat) :
    ukVsockBufferConsume (ukVsockBufferConsume b m) n = ukVsockBufferConsume b (m + n) := by
  simp only [ukVsockBufferConsume, UkVsockBuffer.mk.injEq, true_and]
  refine ⟨?_, Nat.sub_sub .., ?_⟩
  · rw [Nat.mod_add_mod, Nat.add_assoc]
  · rw [BitVec.add_assoc, BitVec.ofNat_add]

inductive BufferOp
  | append (nb : List (List UInt8))
  | read (size : Nat)
  | consume (size : Nat)

/-- A call with the bytes it copies to the caller or its error. -/
def BufferOp.exec (op : BufferOp) (b : UkVsockBuffer) : UkVsockBuffer × Except Errno (List UInt8) :=
  match op with
  | append nb =>
    match ukVsockBufferAppend b nb with
    | .ok b => (b, .ok [])
    | .error e => (b, .error e)
  | read size => (b, .ok (ukVsockBufferRead b size))
  | consume size => if size ≤ b.count then (ukVsockBufferConsume b size, .ok []) else (b, .error .ASSERT)

/-- The bytes in the queue, and the number of bytes taken from it. -/
structure ByteQueue where
  bytes : List UInt8
  consumed : Nat

def BufferOp.spec (c : Nat) (op : BufferOp) (q : ByteQueue) : ByteQueue × Except Errno (List UInt8) :=
  match op with
  | append nb =>
    if q.bytes.length + nb.flatten.length ≤ c then ({ q with bytes := q.bytes ++ nb.flatten }, .ok [])
      else (q, .error .ENOSPC)
  | read size => (q, .ok (q.bytes.take size))
  | consume size =>
    if size ≤ q.bytes.length then (⟨q.bytes.drop size, q.consumed + size⟩, .ok []) else (q, .error .ASSERT)

/-- The counter of the consumed bytes has 64 bits. -/
structure Represents (c : Nat) (b : UkVsockBuffer) (q : ByteQueue) : Prop where
  capacity : b.capacity = c
  bytes : b.contents = q.bytes
  consumed : b.totalProcessed = BitVec.ofNat 64 q.consumed

variable {b} {c : Nat} in
/-- Every operation of the buffer is that of a queue of bytes with a bound. -/
theorem Represents.step {q : ByteQueue} (op : BufferOp) (h : Represents c b q) :
    (op.exec b).2 = (op.spec c q).2 ∧ Represents c (op.exec b).1 (op.spec c q).1 := by
  have hlen : q.bytes.length = b.count := by rw [← h.bytes, UkVsockBuffer.length_contents]
  have hcap := h.capacity
  unfold BufferOp.exec BufferOp.spec
  cases op with
  | append nb =>
    dsimp only
    rcases bufferAppend_spec b nb with ⟨hfit, b', hb, hcont, hcap', hproc⟩ | ⟨hfull, hb⟩
    · rw [hb, if_pos (by omega)]
      exact ⟨rfl, hcap'.trans hcap, by rw [hcont, h.bytes], hproc.trans h.consumed⟩
    · rw [hb, if_neg (by omega)]
      exact ⟨rfl, h⟩
  | read size =>
    dsimp only
    rw [bufferRead_eq, h.bytes]
    exact ⟨rfl, h⟩
  | consume size =>
    dsimp only
    by_cases hs : size ≤ b.count
    · rw [hlen, if_pos hs, if_pos hs]
      refine ⟨rfl, hcap, by rw [contents_consume b hs, h.bytes], ?_⟩
      show b.totalProcessed + BitVec.ofNat 64 size = _
      rw [h.consumed, BitVec.ofNat_add]
    · rw [hlen, if_neg hs, if_neg hs]
      exact ⟨rfl, h⟩

/-- Every sequence of calls returns what the queue returns, and leaves its bytes in the buffer. -/
theorem ukVsockBuffer_fifo (c : Nat) (h : 0 < c) (ops : List BufferOp) :
    let r := outputs BufferOp.exec ops (ukVsockBufferInit c h)
    let q := outputs (BufferOp.spec c) ops ⟨[], 0⟩
    r.2 = q.2 ∧ Represents c r.1 q.1 ∧ r.1.head < c ∧ r.1.count ≤ c := by
  obtain ⟨hout, hrep⟩ := outputs_refine (R := Represents c) (fun op b q hq => hq.step op)
    (s := ukVsockBufferInit c h) (t := ⟨[], 0⟩) ⟨rfl, rfl, rfl⟩ ops
  have hhead := (outputs BufferOp.exec ops (ukVsockBufferInit c h)).1.head_lt
  have hcount := (outputs BufferOp.exec ops (ukVsockBufferInit c h)).1.count_le
  rw [hrep.capacity] at hhead hcount
  exact ⟨hout, hrep, hhead, hcount⟩

/-- A ring of four bytes in which the second chain wraps around. -/
theorem ukVsockBuffer_fifo_wrap :
    (outputs BufferOp.exec [.append [[1, 2, 3]], .consume 2, .append [[4], [5, 6]], .append [[7]], .read 9]
      (ukVsockBufferInit 4 (by decide))).2 = [.ok [], .ok [], .ok [], .error .ENOSPC, .ok [3, 4, 5, 6]] :=
  (ukVsockBuffer_fifo 4 (by decide) _).1

/-- `struct virtio_vsock_accept_entry`. `req` is history: the position in `requests` of the request that the entry
was made for. -/
structure AcceptEntry where
  peer : UkVsockaddr
  peerBufAlloc : BitVec 32
  peerFwdCount : BitVec 32
  req : Nat
  deriving DecidableEq

/-- `posixSock` is the event level of the file the socket is attached to (`none` before `vsock_poll_setup`). -/
structure VirtioVsock where
  state : UkVsockState
  rxShutdown : Bool
  txShutdown : Bool
  soError : Option Errno
  sockType : SockType
  localAddr : UkVsockaddr
  peerAddr : UkVsockaddr
  rx : UkVsockBuffer
  acceptQueue : List AcceptEntry
  acceptQueueLength : Int
  acceptQueueLimit : Int
  posixSock : Option PollEvents
  type : BitVec 16
  peerBufAlloc : BitVec 32
  peerFwdCount : BitVec 32
  txCount : BitVec 32

/-- `uk_vsock_init` (zeroed memory, an empty buffer of 4096 bytes, state `READY`) with the fields
`virtio_vsock_create` sets after it. -/
def VirtioVsock.init (sockType : SockType) : VirtioVsock where
  state := .READY
  rxShutdown := false
  txShutdown := false
  soError := none
  sockType := sockType
  localAddr := ⟨0, 0⟩
  peerAddr := ⟨0, 0⟩
  rx := ukVsockBufferInit 4096 (by decide)
  acceptQueue := []
  acceptQueueLength := 0
  acceptQueueLimit := 0
  posixSock := none
  type := sockType.virtio
  peerBufAlloc := 0
  peerFwdCount := 0
  txCount := 0

variable (v : VirtioVsock)

/-- `posix_sock_event_set(sock->posix_sock, ev)`. Without a file the code faults; the model goes on. -/
def VirtioVsock.eventSet (ev : PollEvents) : VirtioVsock :=
  { v with posixSock := v.posixSock.map (·.or ev) }

def VirtioVsock.eventClear (ev : PollEvents) : VirtioVsock :=
  { v with posixSock := v.posixSock.map (·.clear ev) }

def VirtioVsock.peerRxFree : BitVec 32 := v.peerBufAlloc - (v.txCount - v.peerFwdCount)

def VirtioVsock.key : UkVsockConnId := ⟨v.sockType, v.localAddr, v.peerAddr, {}⟩

abbrev SockId := Nat

/-- What `virtio_vsockdev_xmit` reports other than a full ring. -/
inductive XmitErr
  | EINVAL | EFBIG
  deriving DecidableEq

def XmitErr.errno : XmitErr → Errno
  | EINVAL => .EINVAL
  | EFBIG => .EFBIG

/-- What the next allocation or transmission does: whether there is memory, whether the transmit ring is full at
first, and with what a transmission fails. -/
structure Outcome where
  alloc : Bool
  ringFull : Bool
  xmit : Option XmitErr
  deriving DecidableEq

def Outcome.good : Outcome := ⟨true, false, none⟩

/-- A packet handed to the transmit ring. `answers` is history: the connection request it answers. -/
structure Sent where
  pkt : Packet
  answers : Option Nat
  deriving DecidableEq

structure World where
  cid : BitVec 32
  sock : SockId → VirtioVsock
  live : SockId → Bool
  next : SockId
  sockets : List SockId
  portAllocNext : BitVec 32
  sent : List Sent
  env : Nat → Outcome
  tick : Nat
  rbFault : Bool
  requests : List (SockId × VirtioVsockHdr)

namespace World

/-- The state after `uk_vsockdev_register`: a device with CID `cid` and no sockets. -/
def init (cid : BitVec 32) (env : Nat → Outcome) : World where
  cid := cid
  sock := fun _ => VirtioVsock.init .STREAM
  live := fun _ => false
  next := 0
  sockets := []
  portAllocNext := 0
  sent := []
  env := env
  tick := 0
  rbFault := false
  requests := []

variable (w : World) (s : SockId)

def modify (f : VirtioVsock → VirtioVsock) : World :=
  { w with sock := Function.update w.sock s (f (w.sock s)) }

def outcome : Outcome := w.env w.tick

def advance : World := { w with tick := w.tick + 1 }

def newSock (v : VirtioVsock) : World :=
  { w with
    sock := Function.update w.sock w.next v
    live := Function.update w.live w.next true
    next := w.next + 1 }

def free : World := { w with live := Function.update w.live s false }

def keyOf : UkVsockConnId := (w.sock s).key

def rbFind (k : UkVsockConnId) : Option SockId :=
  OrdSet.find ukVsockSockaddrCmp w.keyOf k w.sockets

def rbInsert : World :=
  let r := OrdSet.insert ukVsockSockaddrCmp w.keyOf s w.sockets
  { w with sockets := r.1, rbFault := w.rbFault || r.2.isSome }

def rbRemove : World :=
  { w with sockets := w.sockets.erase s, rbFault := w.rbFault || !w.sockets.contains s }

/-- `UK_RB_REINSERT`: an element whose key has changed is put at its new place. -/
def rbReinsert : World := (w.rbRemove s).rbInsert s

section
variable (f : VirtioVsock → VirtioVsock)

@[simp] theorem modify_self : (w.modify s f).sock s = f (w.sock s) := by simp [modify]

@[simp] theorem modify_of_ne {s t : SockId} (f : VirtioVsock → VirtioVsock) (h : t ≠ s) :
    (w.modify s f).sock t = w.sock t := by simp [modify, h]

@[simp] theorem modify_cid : (w.modify s f).cid = w.cid := rfl
@[simp] theorem modify_live : (w.modify s f).live = w.live := rfl
@[simp] theorem modify_next : (w.modify s f).next = w.next := rfl
@[simp] theorem modify_sockets : (w.modify s f).sockets = w.sockets := rfl
@[simp] theorem modify_portAllocNext : (w.modify s f).portAllocNext = w.portAllocNext := rfl
@[simp] theorem modify_sent : (w.modify s f).sent = w.sent := rfl
@[simp] theorem modify_env : (w.modify s f).env = w.env := rfl
@[simp] theorem modify_tick : (w.modify s f).tick = w.tick := rfl
@[simp] theorem modify_rbFault : (w.modify s f).rbFault = w.rbFault := rfl
@[simp] theorem modify_requests : (w.modify s f).requests = w.requests := rfl

end

theorem newSock_next (v : VirtioVsock) : (w.newSock v).sock w.next = v := by simp [newSock]

theorem newSock_of_ne (v : VirtioVsock) {t : SockId} (h : t ≠ w.next) : (w.newSock v).sock t = w.sock t := by
  simp [newSock, h]

@[simp] theorem rbInsert_sock : (w.rbInsert s).sock = w.sock := rfl
@[simp] theorem rbRemove_sock : (w.rbRemove s).sock = w.sock := rfl
@[simp] theorem rbReinsert_sock : (w.rbReinsert s).sock = w.sock := rfl
@[simp] theorem free_sock : (w.free s).sock = w.sock := rfl

end World

variable (w : World)

def ukMalloc : World × Bool := (w.advance, w.outcome.alloc)

/-- `virtio_vsockdev_xmit_retry`: the result of the first attempt that finds room in the ring. -/
def virtioVsockdevXmitRetry (pkt : Packet) (answers : Option Nat) : World × Except Errno Unit :=
  match w.outcome.xmit with
  | some e => (w.advance, .error e.errno)
  | none => ({ w.advance with sent := w.sent ++ [⟨pkt, answers⟩] }, .ok ())

def virtioVsockdevXmit (pkt : Packet) : World × Except Errno Unit :=
  if w.outcome.ringFull then (w.advance, .error .EAGAIN)
  else virtioVsockdevXmitRetry w pkt none

def xmitHdr (hdr : VirtioVsockHdr) (answers : Option Nat) : World × Except Errno Unit :=
  match ukMalloc w with
  | (w, false) => (w, .error .ENOMEM)
  | (w, true) => virtioVsockdevXmitRetry w ⟨hdr, []⟩ answers

/-- The header of a packet of the connection of `v`, with the credit of its receive buffer. -/
def VirtioVsock.hdr (v : VirtioVsock) (srcCid : BitVec 32) (op : BitVec 16) (flags len : BitVec 32) :
    VirtioVsockHdr where
  srcCid := srcCid.setWidth 64
  dstCid := v.peerAddr.cid.setWidth 64
  srcPort := v.localAddr.port
  dstPort := v.peerAddr.port
  len := len
  type := v.type
  op := op
  flags := flags
  bufAlloc := v.rx.bufAlloc
  fwdCnt := v.rx.fwdCnt

variable (s : SockId)

/-- `virtio_vsock_work_credit_request`, which is also `virtio_vsock_send_credit_update`. -/
def virtioVsockWorkCreditRequest : World × Except Errno Unit :=
  xmitHdr w ((w.sock s).hdr w.cid OP_CREDIT_UPDATE 0 0) none

/-- `virtio_vsockdev_reject_conn`. A failure is only logged. -/
def virtioVsockdevRejectConn (acc : AcceptEntry) : World :=
  let v := w.sock s
  (xmitHdr w
    { srcCid := v.localAddr.cid.setWidth 64
      dstCid := acc.peer.cid.setWidth 64
      srcPort := v.localAddr.port
      dstPort := acc.peer.port
      len := 0
      type := v.type
      op := OP_RST
      flags := 0
      bufAlloc := 0
      fwdCnt := 0 } (some acc.req)).1

def virtioVsockConnRespond (v : VirtioVsock) (answers : Option Nat) : World × Except Errno Unit :=
  xmitHdr w (v.hdr w.cid OP_RESPONSE 0 0) answers

/-- `virtio_vsock_connect`. On success it returns `-EINPROGRESS`. -/
def virtioVsockConnect : World × Errno :=
  match xmitHdr w ((w.sock s).hdr (w.sock s).localAddr.cid OP_REQUEST 0 0) none with
  | (w, .error e) => (w, e)
  | (w, .ok ()) => (w, .EINPROGRESS)

def shutdownFlags (rx tx : Bool) : BitVec 32 :=
  (if tx then SHUTDOWN_F_SEND else 0) ||| (if rx then SHUTDOWN_F_RECEIVE else 0)

def virtioVsockShutdown (rx tx : Bool) : World × Except Errno Unit :=
  xmitHdr w ((w.sock s).hdr (w.sock s).localAddr.cid OP_SHUTDOWN (shutdownFlags rx tx) 0) none

def virtioVsockReset : World × Except Errno Unit :=
  xmitHdr w ((w.sock s).hdr (w.sock s).localAddr.cid OP_RST 0 0) none

/-- `virtio_vsock_send`: one `RW` packet with as much of the data as the window of the peer allows. The length of
the netbuf is a 16-bit field, and `uk_netbuf_header` refuses to make it larger than that. -/
def virtioVsockSend (buf : List UInt8) : World × Except Errno Nat :=
  if buf.length = 0 then (w, .ok 0)
  else
    let v := w.sock s
    let pktLen := min v.peerRxFree.toNat buf.length
    if pktLen = 0 then (w, .error .EAGAIN)
    else
      match ukMalloc w with
      | (w, false) => (w, .error .ENOMEM)
      | (w, true) =>
        -- `pktLen` goes through the 16-bit length of the netbuf.
        if 65535 < sizeofHdr + pktLen % 65536 then (w, .error .ASSERT)
        else
        match virtioVsockdevXmit w
            ⟨v.hdr v.localAddr.cid OP_RW 0 (BitVec.ofNat 32 pktLen), buf.take (pktLen % 65536)⟩ with
        | (w, .error e) => (w, .error e)
        | (w, .ok ()) =>
          (w.modify s fun v => { v with txCount := v.txCount + BitVec.ofNat 32 pktLen }, .ok pktLen)

def SockType.ofInt (type : Int) : Option SockType :=
  if type = SockType.STREAM.val then some .STREAM
  else if type = SockType.SEQPACKET.val then some .SEQPACKET
  else none

def virtioVsockCreate (type protocol : Int) : World × Except Errno SockId :=
  if protocol ≠ 0 then (w, .error .EPROTONOSUPPORT)
  else
    match SockType.ofInt type with
    | none => (w, .error .ESOCKTNOSUPPORT)
    | some sockType =>
      match ukMalloc w with
      | (w, false) => (w, .error .ENOMEM)
      | (w, true) =>
        match ukMalloc w with
        | (w, false) => (w, .error .ENOMEM)
        | (w, true) => (w.newSock (VirtioVsock.init sockType), .ok w.next)

/-- The socket `virtio_vsock_accept` makes for `entry` on the listening socket `vsl`. -/
def VirtioVsock.accepted (cid : BitVec 32) (vsl : VirtioVsock) (entry : AcceptEntry) : VirtioVsock :=
  { VirtioVsock.init vsl.sockType with
    type := vsl.type
    peerBufAlloc := entry.peerBufAlloc
    peerFwdCount := entry.peerFwdCount
    peerAddr := entry.peer
    localAddr := ⟨cid, vsl.localAddr.port⟩ }

def virtioVsockAccept (entry : AcceptEntry) : World × Except Errno SockId :=
  match ukMalloc w with
  | (w, false) => (virtioVsockdevRejectConn w s entry, .error .ENOMEM)
  | (w, true) =>
    match ukMalloc w with
    | (w, false) => (virtioVsockdevRejectConn w s entry, .error .ENOMEM)
    | (w, true) =>
      let v := VirtioVsock.accepted w.cid (w.sock s) entry
      match virtioVsockConnRespond w v (some entry.req) with
      | (w, .error e) => (w, .error e)
      | (w, .ok ()) => (w.newSock v, .ok w.next)

open VirtioVsock

/-- The loop of `uk_vsock_drain_accept_queue`, on the length counter: every entry is freed and counted down. -/
def drainLoop : List AcceptEntry → Int → Int
  | [], n => n
  | _ :: q, n => drainLoop q (n - 1)

variable (v : VirtioVsock)

def VirtioVsock.drainAcceptQueue : VirtioVsock :=
  { v with acceptQueue := [], acceptQueueLength := drainLoop v.acceptQueue v.acceptQueueLength }

def VirtioVsock.markClosed : VirtioVsock :=
  (({ v with state := .CLOSED, rxShutdown := true, txShutdown := true }.eventClear EPOLLOUT).eventSet EPOLLHUP)

def ukVsockClose (forceReset : Bool) : World × Except Errno Unit :=
  let r := if forceReset then virtioVsockReset w s else (w, .ok ())
  match r with
  | (w, .error e) => (w, .error e)
  | (w, .ok ()) =>
    match (w.sock s).state with
    | .OPEN =>
      let r := if !forceReset then virtioVsockShutdown w s true true else (w, .ok ())
      match r with
      | (w, .error e) => (w, .error e)
      | (w, .ok ()) =>
        (((w.modify s drainAcceptQueue).rbRemove s).modify s markClosed, .ok ())
    | .BOUND | .LISTENING =>
      (((w.modify s drainAcceptQueue).rbRemove s).modify s markClosed, .ok ())
    | .WAIT_CONNECT =>
      let r := if !forceReset then virtioVsockReset w s else (w, .ok ())
      match r with
      | (w, .error e) => (w, .error e)
      | (w, .ok ()) => ((w.rbRemove s).modify s markClosed, .ok ())
    | .READY | .CLOSED => (w, .ok ())

/-- `uk_vsock_destroy`. `uk_vsock_buffer_destroy` and `virtio_vsock_destroy` cannot fail. -/
def ukVsockDestroy : World × Except Errno Unit :=
  match ukVsockClose w s false with
  | (w, .error e) => (w, .error e)
  | (w, .ok ()) => (w.free s, .ok ())

/-- `uk_vsock_lookup`: the socket of the connection, else a socket without peer on the local port. -/
def ukVsockLookup (sockType : SockType) (localAddr peer : UkVsockaddr) : Option SockId :=
  match w.rbFind ⟨sockType, localAddr, peer, {}⟩ with
  | some s => some s
  | none => w.rbFind ⟨sockType, localAddr, .any, { localCid := true }⟩

def VirtioVsock.notifyWritable (writable : Bool) : VirtioVsock :=
  if writable then v.eventSet EPOLLOUT else v.eventClear EPOLLOUT

def ukVsockRxPayload (packet : List (List UInt8)) : World × Except Errno Unit :=
  if (w.sock s).state ≠ .OPEN then (w, .error .EINVAL)
  else
    match ukVsockBufferAppend (w.sock s).rx packet with
    | .error e => (w, .error e)
    | .ok rx => (w.modify s fun v => { v with rx := rx }.eventSet EPOLLIN, .ok ())

def ukVsockConnResponse : World × Except Errno Unit :=
  if (w.sock s).state ≠ .WAIT_CONNECT then ((ukVsockClose w s true).1, .error .EINVAL)
  else (w.modify s fun v => { v with state := .OPEN }.eventSet EPOLLOUT, .ok ())

def VirtioVsock.resetEvents : VirtioVsock :=
  (v.eventClear EPOLLOUT).eventSet ((EPOLLERR.or EPOLLHUP).or EPOLLRDHUP)

def ukVsockConnReset : World × Except Errno Unit :=
  let w := w.modify s resetEvents
  match (w.sock s).state with
  | .CLOSED => (w, .ok ())
  | .WAIT_CONNECT =>
    match virtioVsockReset (w.modify s fun v => { v with soError := some .ECONNREFUSED }) s with
    | (w, .error e) => (w, .error e)
    | (w, .ok ()) => ((w.rbRemove s).modify s fun v => { v with state := .READY }, .ok ())
  -- The flags, the receive buffer and the counters stay as they are.
  | .OPEN => ((w.rbRemove s).modify s fun v => { v with state := .READY }, .ok ())
  | .READY | .BOUND | .LISTENING => (w, .ok ())

def VirtioVsock.shutdownBy (peerRx peerTx : Bool) : VirtioVsock :=
  let v := if peerRx then { v.eventClear EPOLLOUT with txShutdown := true } else v
  if peerTx then { v.eventSet EPOLLRDHUP with rxShutdown := true } else v

def ukVsockConnShutdown (peerRx peerTx : Bool) : World × Except Errno Unit :=
  if (w.sock s).state ≠ .OPEN then (w, .error .EINVAL)
  else
    let w := w.modify s fun v => v.shutdownBy peerRx peerTx
    if (w.sock s).rxShutdown && (w.sock s).txShutdown then ukVsockClose w s false
    else (w, .ok ())

def ukVsockConnRequest (entry : AcceptEntry) : World × Except Errno Unit :=
  let v := w.sock s
  if v.state ≠ .LISTENING then (w, .error .ECONNREFUSED)
  else if v.acceptQueueLimit ≤ v.acceptQueueLength then (w, .error .ECONNREFUSED)
  else
    (w.modify s fun v =>
      { v with
        acceptQueue := v.acceptQueue ++ [entry]
        acceptQueueLength := v.acceptQueueLength + 1 }.eventSet EPOLLIN, .ok ())

/-- Does the transport reset of `uk_vsockets_term` close a socket? -/
def VirtioVsock.termCloses : Bool :=
  match v.state with
  | .READY | .CLOSED => false
  | .WAIT_CONNECT | .OPEN => true
  | .BOUND | .LISTENING => v.localAddr.cid != CID_ANY

/-- The loop of `uk_vsockets_term` over the table, with the error of the last socket that could not be closed. -/
def termLoop : List SockId → World → Except Errno Unit → World × Except Errno Unit
  | [], w, ret => (w, ret)
  | s :: t, w, ret =>
    if (w.sock s).termCloses then
      match ukVsockClose w s true with
      | (w, .error e) => termLoop t w (.error e)
      | (w, .ok ()) => termLoop t w ret
    else termLoop t w ret

def ukVsocketsTerm : World × Except Errno Unit := termLoop w.sockets w (.ok ())

def vsockCreate (type protocol : Int) : World × Except Errno SockId := virtioVsockCreate w type protocol

def vsockPollSetup : World := w.modify s fun v => { v with posixSock := some {} }

def allocPortLoop (sockType : SockType) : Nat → World → World × Except Errno Int
  | 0, w => (w, .error .EADDRNOTAVAIL)
  | n + 1, w =>
    let port := w.portAllocNext
    let found := w.rbFind ⟨sockType, ⟨0, port⟩, ⟨0, 0⟩, { localCid := true, peerCid := true, peerPort := true }⟩
    let w := { w with portAllocNext := port + 1 }
    match found with
    | none => (w, .ok port.toInt)
    | some _ => allocPortLoop sockType n w

/-- `vsock_alloc_port`. The port is returned as `__s32`, so that the callers take the ports from `2 ^ 31` on for
error codes. -/
def vsockAllocPort (sockType : SockType) : World × Except Errno (BitVec 32) :=
  match allocPortLoop sockType 65536 w with
  | (w, .error e) => (w, .error e)
  | (w, .ok port) => (w, if port < 0 then .error (.RAW port) else .ok (BitVec.ofInt 32 port))

/-- The search of `vsock_bind` for a socket without peer on the port. -/
def vsockBindOther (port : BitVec 32) : Option SockId :=
  w.rbFind ⟨(w.sock s).sockType, ⟨0, port⟩, .any, { localCid := true }⟩

def vsockBind (addr : SockaddrVm) (addrLen : Nat) : World × Except Errno Unit :=
  if addrLen ≠ sizeofSockaddrVm then (w, .error .EINVAL)
  else if addr.svmFamily ≠ AF_VSOCK then (w, .error .EINVAL)
  else if addr.svmCid ≠ CID_ANY ∧ addr.svmCid ≠ w.cid then (w, .error .EADDRNOTAVAIL)
  else if (w.sock s).state ≠ .READY then (w, .error .EINVAL)
  else
    let r := if addr.svmPort = PORT_ANY then vsockAllocPort w (w.sock s).sockType else (w, .ok addr.svmPort)
    match r with
    | (w, .error e) => (w, .error e)
    | (w, .ok port) =>
      match vsockBindOther w s port with
      | some _ => (w, .error .EADDRINUSE)
      | none =>
        let w := w.modify s fun v => { v with localAddr := ⟨w.cid, port⟩, peerAddr := .any }
        ((w.rbInsert s).modify s fun v => { v with state := .BOUND }, .ok ())

def bindAny : SockaddrVm := ⟨AF_VSOCK, PORT_ANY, CID_ANY⟩

def backlogLimit (backlog : Int) : Int := if backlog ≠ 0 then backlog else 128

def vsockListen (backlog : Int) : World × Except Errno Unit :=
  let v := w.sock s
  if v.state = .LISTENING then
    (w.modify s fun v => { v with acceptQueueLimit := backlogLimit backlog }, .ok ())
  else if v.state ≠ .BOUND ∧ v.state ≠ .READY then (w, .error .EINVAL)
  else
    let r := if v.state = .READY then vsockBind w s bindAny sizeofSockaddrVm else (w, .ok ())
    match r with
    | (w, .error e) => (w, .error e)
    | (w, .ok ()) =>
      (w.modify s fun v => { v with acceptQueueLimit := backlogLimit backlog, state := .LISTENING }, .ok ())

/-- The address a call returns: the structure and the number of its bytes that are copied to the caller. -/
def returnedAddr (a : UkVsockaddr) (addrLen : Nat) : SockaddrVm × Nat :=
  (⟨AF_VSOCK, a.port, a.cid⟩, min sizeofSockaddrVm addrLen)

/-- `vsock_accept4`. `addr` says whether an address is asked for, `addrLen` is the pointer to its length. -/
def vsockAccept4 (addr : Bool) (addrLen : Option Nat) : World × Except Errno (SockId × Option (SockaddrVm × Nat)) :=
  if addr ∧ addrLen = none then (w, .error .EINVAL)
  else if (w.sock s).state ≠ .LISTENING then (w, .error .EINVAL)
  else
    match (w.sock s).acceptQueue with
    | [] => (w, .error .EAGAIN)
    | entry :: queue =>
      let w := w.modify s fun v =>
        { v with acceptQueue := queue, acceptQueueLength := v.acceptQueueLength - 1 }
      match virtioVsockAccept w s entry with
      | (w, .error e) => (w, .error e)
      | (w, .ok out) =>
        -- The result of `UK_RB_INSERT` is not looked at.
        let w := (w.modify out fun v => { v with state := .OPEN }).rbInsert out
        let res := if addr then some (returnedAddr (w.sock out).peerAddr (addrLen.getD 0)) else none
        let w := if (w.sock s).acceptQueue = [] then w.modify s (·.eventClear EPOLLIN) else w
        (w, .ok (out, res))

def vsockConnect (addr : SockaddrVm) (addrLen : Nat) : World × Except Errno Unit :=
  let oldPeer := (w.sock s).peerAddr
  let oldState := (w.sock s).state
  if addrLen ≠ sizeofSockaddrVm then (w, .error .EINVAL)
  else if addr.svmFamily ≠ AF_VSOCK then (w, .error .EAFNOSUPPORT)
  else if oldState = .WAIT_CONNECT then (w, .error .EALREADY)
  else if oldState ≠ .BOUND ∧ oldState ≠ .READY then (w, .error .EISCONN)
  else
    let w := w.modify s fun v => { v with peerAddr := ⟨addr.svmCid, addr.svmPort⟩ }
    let r : World × Except Errno Unit :=
      if oldState = .BOUND then (w.rbReinsert s, .ok ())
      else
        -- A socket that was never bound gets a port of its own.
        let w := w.modify s fun v => { v with localAddr := { v.localAddr with cid := w.cid } }
        match vsockAllocPort w (w.sock s).sockType with
        | (w, .error e) => (w.modify s fun v => { v with peerAddr := .any }, .error e)
        | (w, .ok port) =>
          ((w.modify s fun v => { v with localAddr := { v.localAddr with port := port } }).rbInsert s, .ok ())
    match r with
    | (w, .error e) => (w, .error e)
    | (w, .ok ()) =>
      match virtioVsockConnect (w.modify s fun v => { v with state := .WAIT_CONNECT }) s with
      | (w, .EINPROGRESS) => (w, .error .EINPROGRESS)
      | (w, rc) =>
        let w :=
          if oldState = .BOUND then (w.modify s fun v => { v with peerAddr := oldPeer }).rbReinsert s
          else (w.rbRemove s).modify s fun v => { v with localAddr := .any, peerAddr := oldPeer }
        (w.modify s fun v => { v with state := oldState }, .error rc)

/-- `vsock_getsockname`. A socket that is not bound reports whatever its address field holds. -/
def vsockGetsockname (addrLen : Option Nat) : Except Errno (SockaddrVm × Nat) :=
  match addrLen with
  | none => .error .EINVAL
  | some n => .ok (returnedAddr (w.sock s).localAddr n)

def vsockGetpeername (addrLen : Option Nat) : Except Errno (SockaddrVm × Nat) :=
  match addrLen with
  | none => .error .EINVAL
  | some n =>
    if (w.sock s).state ≠ .OPEN then .error .ENOTCONN else .ok (returnedAddr (w.sock s).peerAddr n)

/-- `SHUT_RD`, `SHUT_WR` and `SHUT_RDWR` as the directions `(rx, tx)` of `vsock_shutdown`. -/
def shutHow (how : Int) : Option (Bool × Bool) :=
  if how = 0 then some (true, false)
  else if how = 1 then some (false, true)
  else if how = 2 then some (true, true)
  else none

def vsockShutdown (how : Int) : World × Except Errno Unit :=
  match shutHow how with
  | none => (w, .error .EINVAL)
  | some (rx, tx) =>
    if (w.sock s).state ≠ .OPEN then (w, .error .ENOTCONN)
    else
      match virtioVsockShutdown w s rx tx with
      | (w, .error e) => (w, .error e)
      -- The callee takes the directions for those of the peer.
      | (w, .ok ()) => ukVsockConnShutdown w s rx tx

def vsockClose : World × Except Errno Unit := ukVsockDestroy w s

/-- `vsock_getsockopt`, of which only `SO_ERROR` (option 4 of level 1) does something: the error and the number of
its bytes that are copied to the caller. -/
def vsockGetsockopt (level optname : Int) (optlen : Option Nat) :
    World × Except Errno (Option (Option Errno × Nat)) :=
  if level = 1 then
    if optname = 4 then
      (w.modify s fun v => { v with soError := none },
        match optlen with
        | none => .error .EINVAL
        | some n => .ok (some ((w.sock s).soError, min 4 n)))
    else (w, .error .ENOPROTOOPT)
  else (w, .ok none)

/-- The loop of `vsock_write` over the buffers, with the number of bytes written so far. -/
def writeLoop (s : SockId) : List (List UInt8) → World → Nat → World × Except Errno Nat
  | [], w, written => (w, .ok written)
  | buf :: iov, w, written =>
    match virtioVsockSend w s buf with
    | (w, .error e) => (w, if written = 0 then .error e else .ok written)
    | (w, .ok res) =>
      if res = 0 then
        (w.modify s (·.eventClear EPOLLOUT), if written = 0 then .error .EAGAIN else .ok written)
      else writeLoop s iov w (written + res)

def vsockWrite (iov : List (List UInt8)) : World × Except Errno Nat :=
  let v := w.sock s
  if v.state ≠ .OPEN then
    if v.state = .CLOSED ∨ v.txShutdown then (w, .error .EPIPE) else (w, .error .ENOTCONN)
  else writeLoop s iov w 0

/-- `vsock_sendto`. `destAddr` says whether an address is given. -/
def vsockSendto (buf : List UInt8) (destAddr : Bool) (addrlen : Nat) : World × Except Errno Nat :=
  if destAddr ∨ addrlen ≠ 0 then (w, .error .EISCONN)
  else if (w.sock s).state = .CLOSED ∨ (w.sock s).txShutdown then (w, .error .EPIPE)
  else
    match virtioVsockSend w s buf with
    | (w, .error e) => (w, .error e)
    | (w, .ok res) =>
      if res = 0 then (w.modify s (·.eventClear EPOLLOUT), .error .EAGAIN) else (w, .ok res)

/-- The bytes of a read are consumed and the peer is told about the free space. -/
def consumeRx (n : Nat) : World :=
  (virtioVsockWorkCreditRequest (w.modify s fun v => { v with rx := ukVsockBufferConsume v.rx n }) s).1

/-- The end of both read functions: an empty buffer is not readable. -/
def clearIfEmpty : World :=
  if ukVsockBufferIsEmpty (w.sock s).rx then w.modify s (·.eventClear EPOLLIN) else w

/-- The loop of `vsock_read` over the lengths of the buffers, with the bytes read so far. -/
def readLoop (s : SockId) : List Nat → World → List UInt8 → World × Except Errno (List UInt8)
  | [], w, ret => (w, .ok ret)
  | len :: iov, w, ret =>
    let out := ukVsockBufferRead (w.sock s).rx len
    if out.length = 0 then
      (w, if ret.length = 0 then (if !(w.sock s).rxShutdown then .error .EAGAIN else .ok []) else .ok ret)
    else readLoop s iov (consumeRx w s out.length) (ret ++ out)

/-- `vsock_read`: the bytes written to the buffers one after the other, whose number is the return value. -/
def vsockRead (iov : List Nat) : World × Except Errno (List UInt8) :=
  if (w.sock s).state ≠ .OPEN ∧ (w.sock s).state ≠ .CLOSED then (w, .error .ENOTCONN)
  else
    let r := readLoop s iov w []
    (clearIfEmpty r.1 s, r.2)

/-- `vsock_recvfrom`. `src` says whether an address or a length pointer for it is given. -/
def vsockRecvfrom (len : Nat) (src : Bool) : World × Except Errno (List UInt8) :=
  if src then (w, .error .EISCONN)
  else if (w.sock s).state ≠ .OPEN ∧ (w.sock s).state ≠ .CLOSED then (w, .error .ENOTCONN)
  else
    let res := ukVsockBufferRead (w.sock s).rx len
    if res.length = 0 ∧ (w.sock s).rxShutdown = false then (w, .error .EAGAIN)
    else
      let w := if 0 < res.length then consumeRx w s res.length else w
      (clearIfEmpty w s, .ok res)

/-- `virtio_vsockdev_work_conn_request`. Every request dispatched to a listening socket is noted in `requests`. -/
def virtioVsockdevWorkConnRequest (s : SockId) (hdr : VirtioVsockHdr) : World × Except Errno Unit :=
  let peer : UkVsockaddr := ⟨hdr.srcCid.setWidth 32, hdr.srcPort⟩
  let req := w.requests.length
  let w := { w with requests := w.requests ++ [(s, hdr)] }
  match ukMalloc w with
  | (w, false) => (w, .error .ENOMEM)
  | (w, true) =>
    let entry : AcceptEntry := ⟨peer, hdr.bufAlloc, hdr.fwdCnt, req⟩
    match ukVsockConnRequest w s entry with
    | (w, .error e) =>
      (virtioVsockdevRejectConn w s entry, if e = .ECONNREFUSED then .ok () else .error e)
    | (w, .ok ()) => (w, .ok ())

def SockType.ofVirtio (type : BitVec 16) : Option SockType :=
  if type = SockType.STREAM.virtio then some .STREAM
  else if type = SockType.SEQPACKET.virtio then some .SEQPACKET
  else none

/-- The socket a packet is dispatched to: none if the packet is malformed, for another CID, of an unknown type or
for a port without socket. -/
def rxTarget (pkt : Packet) : Option SockId :=
  if pkt.payload.length < pkt.hdr.len.toNat then none
  else if pkt.hdr.dstCid ≠ w.cid.setWidth 64 then none
  else
    match SockType.ofVirtio pkt.hdr.type with
    | none => none
    | some sockType =>
      ukVsockLookup w sockType ⟨pkt.hdr.dstCid.setWidth 32, pkt.hdr.dstPort⟩
        ⟨pkt.hdr.srcCid.setWidth 32, pkt.hdr.srcPort⟩

/-- Are the credit fields of the packet stored? The source compares the op with the socket state `LISTENING`. -/
def storesCredit (hdr : VirtioVsockHdr) : Bool :=
  hdr.op != OP_REQUEST && hdr.op != BitVec.ofNat 16 UkVsockState.LISTENING.val

def VirtioVsock.credit (v : VirtioVsock) (hdr : VirtioVsockHdr) : VirtioVsock :=
  let v := { v with peerBufAlloc := hdr.bufAlloc, peerFwdCount := hdr.fwdCnt }
  v.notifyWritable (decide (0 < v.peerRxFree))

/-- The dispatch by operation to a socket that is not listening. -/
def rxHandler (s : SockId) (pkt : Packet) : World × Except Errno Unit :=
  let hdr := pkt.hdr
  if hdr.op = OP_REQUEST then (w, .ok ())
  else if hdr.op = OP_RESPONSE then ukVsockConnResponse w s
  else if hdr.op = OP_RST then ukVsockConnReset w s
  else if hdr.op = OP_SHUTDOWN then
    ukVsockConnShutdown w s (hdr.flags &&& SHUTDOWN_F_RECEIVE != 0) (hdr.flags &&& SHUTDOWN_F_SEND != 0)
  else if hdr.op = OP_RW then ukVsockRxPayload w s [pkt.payload]
  else if hdr.op = OP_CREDIT_REQUEST then virtioVsockWorkCreditRequest w s
  else (w, .ok ())

def virtioVsockdevWorkRx (pkt : Packet) : World × Except Errno Unit :=
  match rxTarget w pkt with
  | none => (w, .ok ())
  | some s =>
    let w := if storesCredit pkt.hdr then w.modify s (·.credit pkt.hdr) else w
    if (w.sock s).state = .LISTENING then
      if pkt.hdr.op = OP_REQUEST then virtioVsockdevWorkConnRequest w s pkt.hdr else (w, .ok ())
    else rxHandler w s pkt

/-- What can happen to the layer. `socket` and `accept` attach the new socket to its file before anything else
runs, as `uk_socket_create` and `uk_socket_accept` do. -/
inductive Op
  | socket (type protocol : Int)
  | bind (s : SockId) (addr : SockaddrVm) (addrLen : Nat)
  | listen (s : SockId) (backlog : Int)
  | connect (s : SockId) (addr : SockaddrVm) (addrLen : Nat)
  | accept (s : SockId) (addr : Bool) (addrLen : Option Nat)
  | shutdown (s : SockId) (how : Int)
  | close (s : SockId)
  | getsockopt (s : SockId) (level optname : Int) (optlen : Option Nat)
  | write (s : SockId) (iov : List (List UInt8))
  | sendto (s : SockId) (buf : List UInt8) (destAddr : Bool) (addrlen : Nat)
  | read (s : SockId) (iov : List Nat)
  | recvfrom (s : SockId) (len : Nat) (src : Bool)
  | term
  | rx (pkt : Packet)

def Op.sock? : Op → Option SockId
  | .socket _ _ | .term | .rx _ => none
  | .bind s _ _ | .listen s _ | .connect s _ _ | .accept s _ _ | .shutdown s _ | .close s | .getsockopt s _ _ _
  | .write s _ | .sendto s _ _ _ | .read s _ | .recvfrom s _ _ => some s

def exec : Op → World
  | .socket type protocol =>
    match vsockCreate w type protocol with
    | (w, .error _) => w
    | (w, .ok s) => vsockPollSetup w s
  | .bind s addr addrLen => (vsockBind w s addr addrLen).1
  | .listen s backlog => (vsockListen w s backlog).1
  | .connect s addr addrLen => (vsockConnect w s addr addrLen).1
  | .accept s addr addrLen =>
    match vsockAccept4 w s addr addrLen with
    | (w, .error _) => w
    | (w, .ok (out, _)) => vsockPollSetup w out
  | .shutdown s how => (vsockShutdown w s how).1
  | .close s => (vsockClose w s).1
  | .getsockopt s level optname optlen => (vsockGetsockopt w s level optname optlen).1
  | .write s iov => (vsockWrite w s iov).1
  | .sendto s buf destAddr addrlen => (vsockSendto w s buf destAddr addrlen).1
  | .read s iov => (vsockRead w s iov).1
  | .recvfrom s len src => (vsockRecvfrom w s len src).1
  | .term => (ukVsocketsTerm w).1
  | .rx pkt => (virtioVsockdevWorkRx w pkt).1

/-- A step of the layer: operations are only called on sockets that exist. -/
def step (op : Op) : World :=
  match op.sock? with
  | some s => if w.live s then exec w op else w
  | none => exec w op

end Unikraft.Vsock
