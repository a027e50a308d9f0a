import Unikraft.Virtio.Queue

/-!
# The virtio-net device and its receive queue

What `virtio_netdev_xmit` writes into the header of a packet is left out. Before each access of the driver the device
may take buffers, or publish one with any header and length. Buffers are numbered by allocation; `lwip` and `freed`
are those handed to lwIP and freed. `virtio_netdev_recv` asks for as many buffers as there are free descriptors, but
only after it has received a packet, and in each round for the same number again, at most 64: after a call in which
all requests were `served` the queue is full if the call found a packet or the queue was full before.
-/

namespace Unikraft.Virtio.Net

inductive NetErrno
  | EINVAL | ENOSPC | EFAULT | EFBIG | ENOTSUP | ENOMEM
  deriving DecidableEq

def VIRTIO_NET_F_CSUM : Nat := 0
def VIRTIO_NET_F_GUEST_CSUM : Nat := 1
def VIRTIO_NET_F_MTU : Nat := 3
def VIRTIO_NET_F_MAC : Nat := 5
def VIRTIO_NET_F_GSO : Nat := 6
def VIRTIO_NET_F_GUEST_TSO4 : Nat := 7
def VIRTIO_NET_F_GUEST_TSO6 : Nat := 8
def VIRTIO_NET_F_HOST_TSO4 : Nat := 11
def VIRTIO_NET_F_MRG_RXBUF : Nat := 15
def VIRTIO_NET_F_STATUS : Nat := 16
def VIRTIO_NET_F_GUEST_ANNOUNCE : Nat := 21
def VIRTIO_TRANSPORT_F_START : Nat := 28
def VIRTIO_F_EVENT_IDX : Nat := 29
def VIRTIO_F_VERSION_1 : Nat := 32
def VIRTIO_NET_F_HASH_REPORT : Nat := 57

variable (features : BitVec 64)

def featureHas (bitpos : Nat) : Bool := features &&& 1#64 <<< bitpos != 0#64

def featureSet (bitpos : Nat) : BitVec 64 := features ||| 1#64 <<< bitpos

def featureAccept (host features : BitVec 64) (bitpos : Nat) : BitVec 64 :=
  if featureHas host bitpos then featureSet features bitpos else features

def virtqueueFeatureNegotiate : BitVec 64 :=
  ((1#64 <<< VIRTIO_TRANSPORT_F_START - 1#64) ||| 1#64 <<< VIRTIO_F_VERSION_1 ||| 1#64 <<< VIRTIO_F_EVENT_IDX) &&&
    features

def UK_ETH_PAYLOAD_MAXLEN : Nat := 1500
def UK_ETH_HDR_UNTAGGED_LEN : Nat := 14

def virtioNetHdrSize : Nat :=
  if !featureHas features VIRTIO_F_VERSION_1 then
    if featureHas features VIRTIO_NET_F_MRG_RXBUF then 12 else 10
  else if featureHas features VIRTIO_NET_F_HASH_REPORT then 20 else 12

def vtnetHdrSizePadded : Nat := (virtioNetHdrSize features + 3) / 4 * 4 + 4

def virtioPktBufferLen : Nat :=
  UK_ETH_PAYLOAD_MAXLEN + UK_ETH_HDR_UNTAGGED_LEN + virtioNetHdrSize features

/-- The fields of `struct virtio_net_device` that are read below. -/
structure VirtioNetDevice where
  features : BitVec 64
  maxMtu : BitVec 16
  mtu : BitVec 16
  hwAddr : List (BitVec 8)
  bufDescrCount : Nat

structure UkNetdevConf where
  nbRxQueues : Nat
  nbTxQueues : Nat
  lro : Bool

def offsetofMac : Nat := 0
def offsetofMtu : Nat := 10

def virtioConfigGet (config : Nat → BitVec 8) (offset len : Nat) : List (BitVec 8) :=
  (List.range len).map fun i => config (offset + i)

def wordOfBytes (bytes : List (BitVec 8)) : BitVec 16 := bytes.getD 1 0 ++ bytes.getD 0 0

def virtioNetdevProbe (host : BitVec 64) : Except NetErrno VirtioNetDevice :=
  if !featureHas host VIRTIO_NET_F_MAC then .error .EINVAL
  else
    let drv := featureSet 0 VIRTIO_NET_F_MAC
    let drv := featureAccept host drv VIRTIO_NET_F_MTU
    let drv := featureAccept host drv VIRTIO_NET_F_STATUS
    let drv := featureSet drv VIRTIO_NET_F_GUEST_ANNOUNCE
    let drv :=
      if featureHas host VIRTIO_NET_F_CSUM then featureSet (featureSet drv VIRTIO_NET_F_CSUM) VIRTIO_NET_F_GUEST_CSUM
        else drv
    let drv := featureAccept host drv VIRTIO_F_VERSION_1
    let drv := featureAccept host drv VIRTIO_NET_F_MRG_RXBUF
    let drv := featureAccept host drv VIRTIO_NET_F_GSO
    let drv := featureAccept host drv VIRTIO_NET_F_HOST_TSO4
    let drv := featureAccept host drv VIRTIO_F_EVENT_IDX
    .ok
      { features := drv
        maxMtu := 0
        mtu := 0
        hwAddr := []
        bufDescrCount := if featureHas drv VIRTIO_F_VERSION_1 || featureHas drv VIRTIO_NET_F_MRG_RXBUF then 1 else 2 }

variable (vndev : VirtioNetDevice)

/-- `virtio_netdev_feature_negotiate`; `virtio_feature_set` masks the features of the device. -/
def virtioNetdevFeatureNegotiate (host : BitVec 64) (config : Nat → BitVec 8)
    (conf : UkNetdevConf) : Except NetErrno VirtioNetDevice :=
  if conf.lro && (!featureHas vndev.features VIRTIO_NET_F_GUEST_CSUM || !featureHas vndev.features
      VIRTIO_NET_F_MRG_RXBUF) then
    .error .EINVAL
  else
    let features :=
      if conf.lro then
        featureAccept host (featureAccept host vndev.features VIRTIO_NET_F_GUEST_TSO4) VIRTIO_NET_F_GUEST_TSO6
      else vndev.features
    let features := virtqueueFeatureNegotiate features
    let vndev := { vndev with features := features, hwAddr := virtioConfigGet config offsetofMac 6 }
    if featureHas features VIRTIO_NET_F_MTU then
      let mtu := wordOfBytes (virtioConfigGet config offsetofMac 2)
      .ok { vndev with mtu := mtu, maxMtu := mtu }
    else
      .ok { vndev with
        mtu := BitVec.ofNat 16 UK_ETH_PAYLOAD_MAXLEN
        maxMtu := BitVec.ofNat 16 UK_ETH_PAYLOAD_MAXLEN }

/-- `virtio_netdev_rxtx_alloc`: whether the memory for the queues can be allocated, and how many queues the device
has, comes from outside. -/
def virtioNetdevRxtxAlloc (conf : UkNetdevConf) (mem : Bool) (vqAvail : Nat) : Except NetErrno Unit :=
  if conf.nbRxQueues ≠ 1 ∨ conf.nbTxQueues ≠ 1 then .error .ENOTSUP
  else if !mem then .error .ENOMEM
  else if vqAvail ≠ conf.nbRxQueues + conf.nbTxQueues then .error .ENOMEM
  else .ok ()

def virtioNetdevConfigure (host : BitVec 64) (config : Nat → BitVec 8) (conf : UkNetdevConf) (mem : Bool)
    (vqAvail : Nat) : Except NetErrno VirtioNetDevice :=
  match virtioNetdevFeatureNegotiate vndev host config conf with
  | .error e => .error e
  | .ok vndev =>
    match virtioNetdevRxtxAlloc conf mem vqAvail with
    | .error e => .error e
    | .ok () => .ok vndev

def virtioNetMtuGet : BitVec 16 := vndev.mtu

/-- The space the driver asks for in front of a receive buffer, `nb_encap_rx` of `virtio_net_info_get`. -/
def nbEncapRx : Nat :=
  if vndev.bufDescrCount = 1 then virtioNetHdrSize vndev.features else vtnetHdrSizePadded vndev.features

/-- The part of `struct uk_netbuf` that the driver uses; `headroom` is `data - buf`. -/
structure Netbuf where
  buf : BitVec 64
  buflen : Nat
  headroom : Nat
  len : BitVec 16
  dataValid : Bool
  partialCsum : Bool
  gsoTcpv4 : Bool
  csumStart : BitVec 16
  csumOffset : BitVec 16

def Netbuf.data (m : Netbuf) : BitVec 64 := m.buf + BitVec.ofNat 64 m.headroom

def ukNetbufHeader (head : Netbuf) (len : Int) : Except NetErrno Netbuf :=
  if (head.headroom : Int) < len ∨ (head.len.toNat : Int) < -len then .error .ENOSPC
  else if 65535 < len + head.len.toNat then .error .EFAULT
  else
    let head := { head with headroom := (head.headroom - len).toNat, len := head.len + BitVec.ofInt 16 len }
    if head.partialCsum then
      if len < 0 ∧ (head.csumStart.toNat : Int) < -len then .ok { head with partialCsum := false }
      else .ok { head with csumStart := head.csumStart + BitVec.ofInt 16 len }
    else .ok head

theorem header_pull {m : Netbuf} {n : Nat} (h : n ≤ m.len.toNat) : ∃ m', ukNetbufHeader m (-(n : Int)) = .ok m' := by
  unfold ukNetbufHeader
  rw [if_neg (by omega), if_neg (by omega)]
  dsimp only
  split
  · split <;> exact ⟨_, rfl⟩
  · exact ⟨_, rfl⟩

def PAGE_SIZE : Nat := 4096

def NET_MAX_FRAGMENTS : Nat := 65535 / PAGE_SIZE + 2

structure UkSglist where
  segs : List UkSglistSeg
  maxseg : Nat

/-- `_sglist_append_range`, and the first segment of an empty list. -/
def sglistAppendRange (sg : UkSglist) (paddr len : BitVec 64) : Except NetErrno UkSglist :=
  match sg.segs.getLast? with
  | none => .ok { sg with segs := [⟨paddr, len⟩] }
  | some ss =>
    if ss.ssPaddr + ss.ssLen = paddr then .ok
      { sg with segs := sg.segs.dropLast ++ [{ ss with ssLen := ss.ssLen + len }] }
    else if sg.segs.length = sg.maxseg then .error .EFBIG
    else .ok { sg with segs := sg.segs ++ [⟨paddr, len⟩] }

variable (virtToPhys : BitVec 64 → BitVec 64)

/-- The loop of `_sglist_append_buf` over the pages; only the first page has an offset. -/
def sglistAppendBuf (virtToPhys : BitVec 64 → BitVec 64) : Nat → UkSglist → BitVec 64 → Nat → Except NetErrno UkSglist
  | 0, sg, _, _ => .ok sg
  | fuel + 1, sg, vaddr, len =>
    if len = 0 then .ok sg
    else
      let seglen := min len (PAGE_SIZE - vaddr.toNat % PAGE_SIZE)
      match sglistAppendRange sg (virtToPhys vaddr) (BitVec.ofNat 64 seglen) with
      | .error e => .error e
      | .ok sg => sglistAppendBuf virtToPhys fuel sg (vaddr + BitVec.ofNat 64 seglen) (len - seglen)

/-- `uk_sglist_append`. The list is restored after an error. -/
def ukSglistAppend (sg : UkSglist) (buf : BitVec 64) (len : Nat) : Except NetErrno UkSglist :=
  if sg.maxseg = 0 then .error .EINVAL else sglistAppendBuf virtToPhys len sg buf len

def ukNetbufSglistAppend (virtToPhys : BitVec 64 → BitVec 64) (sg : UkSglist) : List Netbuf → Except NetErrno UkSglist
  | [] => .ok sg
  | nb :: chain =>
    if nb.len = 0 then ukNetbufSglistAppend virtToPhys sg chain
    else
      match ukSglistAppend virtToPhys sg nb.data nb.len.toNat with
      | .error e => .error e
      | .ok sg => ukNetbufSglistAppend virtToPhys sg chain

def ukSglistLength (sg : UkSglist) : BitVec 64 := sg.segs.foldl (fun space ss => space + ss.ssLen) 0

def xmitFreeLoop : Nat → VirtqueueVring Netbuf → Option (VirtqueueVring Netbuf)
  | 0, vrq => some vrq
  | fuel + 1, vrq =>
    match virtqueueBufferDequeue vrq with
    | none => none
    | some (vrq, .error _) => some vrq
    | some (vrq, .ok _) => xmitFreeLoop fuel vrq

def virtioNetdevXmitFree (vrq : VirtqueueVring Netbuf) : Option (VirtqueueVring Netbuf) :=
  xmitFreeLoop (vrq.usedIdx - vrq.lastUsedDescIdx).toNat vrq

/-- `UK_NETDEV_STATUS_SUCCESS`, `UK_NETDEV_STATUS_MORE` and `UK_NETDEV_STATUS_UNDERRUN`. -/
structure NetStatus where
  success : Bool
  more : Bool
  underrun : Bool
  deriving DecidableEq

/-- The scatter list of a packet: the header, the packet, and the rest of its chain. -/
def xmitSglist (vhdr pkt : Netbuf) (next : List Netbuf) : Except NetErrno UkSglist :=
  match ukSglistAppend virtToPhys ⟨[], NET_MAX_FRAGMENTS⟩ vhdr.data (virtioNetHdrSize vndev.features) with
  | .error e => .error e
  | .ok sg =>
    match ukSglistAppend virtToPhys sg pkt.data pkt.len.toNat with
    | .error e => .error e
    | .ok sg => ukNetbufSglistAppend virtToPhys sg next

/-- `virtio_netdev_xmit` of a packet with the rest of its chain. It does not return if a dequeue does not. -/
def virtioNetdevXmit (vrq : VirtqueueVring Netbuf) (pkt : Netbuf)
    (next : List Netbuf) : Option (VirtqueueVring Netbuf × Except NetErrno NetStatus) :=
  match virtioNetdevXmitFree vrq with
  | none => none
  | some vrq =>
    match ukNetbufHeader pkt (vtnetHdrSizePadded vndev.features) with
    | .error _ => some (vrq, .error .ENOSPC)
    | .ok vhdr =>
      match xmitSglist vndev virtToPhys vhdr pkt next with
      | .error e => some (vrq, .error e)
      | .ok sg =>
        if !pkt.gsoTcpv4 && virtioPktBufferLen vndev.features < (ukSglistLength sg).toNat then some
          (vrq, .error .ENOTSUP)
        else
          match virtqueueBufferEnqueue vrq vhdr (fun i => sg.segs.getD i ⟨0, 0⟩) (BitVec.ofNat 16 sg.segs.length) 0
            with
          | (vrq, .ok avail) => some ((virtqueueHostNotify vrq).1, .ok ⟨true, decide (0 < avail), false⟩)
          | (vrq, .error .ENOSPC) => some (vrq, .ok ⟨false, false, false⟩)
          | (vrq, .error _) => some (vrq, .error .EINVAL)

def rxLenInvalid (len : BitVec 32) : Bool :=
  decide (len.toNat < virtioNetHdrSize vndev.features + UK_ETH_HDR_UNTAGGED_LEN) ||
    (!(featureHas vndev.features VIRTIO_NET_F_GUEST_TSO4 || featureHas vndev.features VIRTIO_NET_F_GUEST_TSO6) &&
      decide (virtioPktBufferLen vndev.features < len.toNat))

/-- The part of `struct virtio_net_hdr` that the driver reads. -/
structure VirtioNetHdr where
  dataValid : Bool
  needsCsum : Bool
  csumStart : BitVec 16
  csumOffset : BitVec 16
  numBuffers : BitVec 16

/-- Where `virtio_netdev_rx_fillup` is called: by `virtio_netdev_rx_queue_setup`, and after the first or the second
dequeue of `virtio_netdev_recv`. -/
inductive Site
  | setup
  | recv (again : Bool)
  deriving DecidableEq

inductive NetPc
  | idle
  /-- `virtio_netdev_rxq_dequeue`: the first buffer, and the loop over the merged ones, of which `n` are still to
  come. -/
  | dequeue (again : Bool)
  | merge (again : Bool) (n : Nat)
  /-- `virtio_netdev_rx_fillup`: the head of the loop, and the buffers that are still to be posted, with whether there
  were fewer than requested. -/
  | request (site : Site) (nbDesc filled : Nat)
  | post (site : Site) (nbDesc filled : Nat) (bufs : List Nat) (short : Bool)
  | notify (site : Site) (filled : Nat)
  | testUsr
  /-- `virtqueue_intr_enable`: the first look at the queue, the write, the second look, and back. -/
  | look (again : Bool)
  | arm (again : Bool)
  | relook (again : Bool)
  | disarm (again : Bool)
  | ret
  | input
  deriving DecidableEq

/-- The receive queue with its device, and what the driver and lwIP know. `error` is the result `-EINVAL`, `up`
whether the interface is up; `failed` is a failed assertion or a use of a missing buffer. -/
structure NetRx where
  q : Queue Nat
  netbuf : Nat → Netbuf
  hdr : Nat → VirtioNetHdr
  fresh : Nat
  usrEn : Bool
  pc : NetPc
  pkt : List Nat
  status : NetStatus
  error : Bool
  served : Bool
  up : Bool
  lwip : List Nat
  freed : List Nat
  failed : Bool

/-- What comes from outside in a step of the driver: the buffers the allocator has, and whether lwIP takes the packet
(if need be at the second try). -/
structure NetOutside where
  bufs : List Netbuf
  taken : Bool

inductive NetAct
  /-- The device takes a buffer, publishes one it has taken, or writes its words. -/
  | fetch
  | publish (i : Nat) (len : BitVec 32) (hdr : VirtioNetHdr)
  | setAvailEvent (e : BitVec 16)
  | setUsedFlags (flags : BitVec 16)
  | call
  | driver (o : NetOutside)

def RX_FILLUP_BATCHLEN : Nat := 64

variable (vndev : VirtioNetDevice)

/-- The scatter list of a receive buffer, and the buffer with the space for the header. -/
def rxSglist (virtToPhys : BitVec 64 → BitVec 64) (m : Netbuf) : Except NetErrno (Netbuf × List UkSglistSeg) :=
  -- The results of `uk_sglist_append` are not looked at.
  let append (sg : UkSglist) (buf : BitVec 64) (len : Nat) : UkSglist :=
    match ukSglistAppend virtToPhys sg buf len with
    | .error _ => sg
    | .ok sg => sg
  if vndev.bufDescrCount = 1 then
    match ukNetbufHeader m (virtioNetHdrSize vndev.features) with
    | .error _ => .error .EINVAL
    | .ok m => .ok (m, (append ⟨[], NET_MAX_FRAGMENTS⟩ m.data m.len.toNat).segs)
  else
    match ukNetbufHeader m (vtnetHdrSizePadded vndev.features) with
    | .error _ => .error .EINVAL
    | .ok rxhdr =>
      .ok (rxhdr, (append (append ⟨[], NET_MAX_FRAGMENTS⟩ rxhdr.data (virtioNetHdrSize vndev.features)) m.data
          m.len.toNat).segs)

/-- How many bytes of the buffer with its header were posted: all but the padding. -/
def postedLen (m : Netbuf) : Nat :=
  if vndev.bufDescrCount = 1 then m.len.toNat
  else m.len.toNat - (vtnetHdrSizePadded vndev.features - virtioNetHdrSize vndev.features)

/-- `virtio_netdev_rxq_dequeue` takes the header off the first buffer. -/
def rxStrip (m : Netbuf) (vhdr : VirtioNetHdr) (len : BitVec 32) : Except NetErrno Netbuf :=
  let m := { m with dataValid := vhdr.dataValid, partialCsum := vhdr.needsCsum, gsoTcpv4 := false }
  let m :=
    if vhdr.needsCsum then
      { m with csumOffset := vhdr.csumOffset, csumStart := vhdr.csumStart + BitVec.ofNat 16 (nbEncapRx vndev) }
    else m
  if vndev.bufDescrCount = 1 then
    ukNetbufHeader { m with len := len.setWidth 16 } (-(virtioNetHdrSize vndev.features : Int))
  else
    ukNetbufHeader
      { m with
        len := len.setWidth 16 +
          BitVec.ofNat 16 (vtnetHdrSizePadded vndev.features - virtioNetHdrSize vndev.features) }
      (-(vtnetHdrSizePadded vndev.features : Int))

namespace NetRx

section
variable (virtToPhys : BitVec 64 → BitVec 64)

/-- `virtio_netdev_rx_queue_setup` has set up a queue of `2 ^ order` descriptors and is about to fill it. -/
def init (order : Fin 16) (usesEventIdx usrEn : Bool) : NetRx where
  q := Queue.init order usesEventIdx true
  netbuf _ := ⟨0, 0, 0, 0, false, false, false, 0, 0⟩
  hdr _ := ⟨false, false, 0, 0, 0⟩
  fresh := 0
  usrEn := usrEn
  pc := .request .setup (2 ^ order.val / vndev.bufDescrCount * vndev.bufDescrCount) 0
  pkt := []
  status := ⟨false, false, false⟩
  error := false
  served := true
  up := true
  lwip := []
  freed := []
  failed := false

variable (x : NetRx)

def begin : NetRx :=
  { x with pc := .dequeue false, pkt := [], status := ⟨false, false, false⟩, error := false, served := true }

/-- `virtio_netdev_rx_fillup` after a dequeue, for `nb_desc - rc` descriptors. -/
def fillup (again : Bool) (num : Nat) : NetRx :=
  { x with
    pc := .request (.recv again) (num / vndev.bufDescrCount * vndev.bufDescrCount) 0
    status := { x.status with success := again || !x.pkt.isEmpty } }

def numBuffers (vhdr : VirtioNetHdr) : Nat :=
  if featureHas vndev.features VIRTIO_NET_F_MRG_RXBUF then vhdr.numBuffers.toNat else 1

def rxqDequeue (again : Bool) : NetRx :=
  match virtqueueBufferDequeue x.q.vrq with
  | none => { x with failed := true }
  | some (_, .error _) => { x with pkt := [] }.fillup vndev again 0
  | some (_, .ok d) =>
    match d.cookie with
    | none => { x with failed := true }
    | some buf =>
      let x := { x with q := x.q.step .dequeue }
      if rxLenInvalid vndev d.len then { x with error := true, pc := .ret }
      else
        match rxStrip vndev (x.netbuf buf) (x.hdr buf) d.len with
        | .error _ => { x with failed := true }
        | .ok m =>
          let x := { x with netbuf := Function.update x.netbuf buf m, pkt := [buf] }
          let n := numBuffers vndev (x.hdr buf)
          if 1 < n then { x with pc := .merge again (n - 1) } else x.fillup vndev again (x.q.vrq.num - d.inUse)

def rxqMerge (again : Bool) (n : Nat) : NetRx :=
  match virtqueueBufferDequeue x.q.vrq with
  | none => { x with failed := true }
  | some (_, .error _) => { x with pkt := [] }.fillup vndev again 0
  | some (_, .ok d) =>
    match d.cookie with
    | none => { x with failed := true }
    | some chain =>
      let x := { x with q := x.q.step .dequeue }
      -- `UK_ASSERT(len <= chain->buflen)`
      if (x.netbuf chain).buflen < d.len.toNat then { x with failed := true }
      else
        let x := { x with
          netbuf := Function.update x.netbuf chain { x.netbuf chain with len := d.len.setWidth 16 }
          pkt := x.pkt ++ [chain] }
        if 1 < n then { x with pc := .merge again (n - 1) } else x.fillup vndev again (x.q.vrq.num - d.inUse)

def alloc (bufs : List Netbuf) : NetRx :=
  { x with
    netbuf := fun i => if i < x.fresh then x.netbuf i else bufs.getD (i - x.fresh) (x.netbuf i)
    fresh := x.fresh + bufs.length }

def rxRequest (o : NetOutside) (site : Site) (nbDesc filled : Nat) : NetRx :=
  if filled < nbDesc then
    let req := min (nbDesc / vndev.bufDescrCount) RX_FILLUP_BATCHLEN
    let bufs := o.bufs.take req
    { x.alloc bufs with
      pc := .post site nbDesc filled (List.range' x.fresh bufs.length) (decide (bufs.length < req))
      served := x.served && !decide (bufs.length < req) }
  else { x with pc := .notify site filled }

def rxqEnqueue (buf : Nat) : NetRx × Bool :=
  if virtqueueIsFull x.q.vrq then (x, false)
  else
    match rxSglist vndev virtToPhys (x.netbuf buf) with
    | .error _ => (x, false)
    | .ok (m, segs) =>
      let sg := fun i => segs.getD i ⟨0, 0⟩
      let nseg := BitVec.ofNat 16 segs.length
      match (virtqueueBufferEnqueue x.q.vrq buf sg 0 nseg).2 with
      | .error _ => ({ x with netbuf := Function.update x.netbuf buf m }, false)
      | .ok _ => ({ x with q := x.q.step (.enqueue buf sg 0 nseg), netbuf := Function.update x.netbuf buf m }, true)

def rxPost (site : Site) (nbDesc filled : Nat) (bufs : List Nat) (short : Bool) : NetRx :=
  match bufs with
  | [] =>
    if short then { x with status := { x.status with underrun := true }, pc := .notify site filled }
    else { x with pc := .request site nbDesc filled }
  | buf :: rest =>
    match x.rxqEnqueue vndev virtToPhys buf with
    | (x, true) => { x with pc := .post site nbDesc (filled + vndev.bufDescrCount) rest short }
    | (x, false) =>
      { x with
        freed := x.freed ++ buf :: rest
        status := { x.status with underrun := true }
        pc := .notify site filled }

def back (again more : Bool) : NetRx :=
  if again then { x with status := { x.status with more := more }, pc := .ret }
  else if x.pkt.isEmpty then { x with pc := if more then .dequeue true else .ret }
  else { x with status := { x.status with more := more }, pc := .ret }

def afterRecv : NetRx :=
  if x.error then { x with up := false, pc := .idle }
  else if !x.status.success then { x with pc := .idle }
  else { x with pc := .input }

/-- `uknetdev_input` hands the packet to lwIP; of a packet that lwIP does not take it frees the first buffer. -/
def input (taken : Bool) : NetRx :=
  match x.pkt with
  | [] => { x with failed := true }
  | nb :: _ =>
    let x := if taken then { x with lwip := x.lwip ++ x.pkt } else { x with freed := x.freed ++ [nb] }
    if x.status.more then x.begin else { x with pc := .idle, pkt := [] }

def hasdata : Bool := virtqueueHasdata x.q.vrq

def driver (o : NetOutside) : NetRx :=
  match x.pc with
  | .idle => x
  | .dequeue again => x.rxqDequeue vndev again
  | .merge again n => x.rxqMerge vndev again n
  | .request site nbDesc filled => x.rxRequest vndev o site nbDesc filled
  | .post site nbDesc filled bufs short => x.rxPost vndev virtToPhys site nbDesc filled bufs short
  | .notify .setup _ => { x with pc := .idle }
  | .notify (.recv again) filled =>
    { x with
      q := if filled = 0 then x.q else x.q.step .hostNotify
      pc := if again then .look true else .testUsr }
  | .testUsr =>
    if x.usrEn then { x with pc := .look false }
    else { x with status := { x.status with more := !x.pkt.isEmpty }, pc := .ret }
  | .look again => if x.hasdata then x.back again true else { x with pc := .arm again }
  | .arm again => { x with q := x.q.step .intrArm, pc := .relook again }
  | .relook again => if x.hasdata then { x with pc := .disarm again } else x.back again false
  | .disarm again => { x with q := x.q.step .intrDisable }.back again true
  | .ret => x.afterRecv
  | .input => x.input o.taken

def held (i : Nat) : Option Nat := (x.q.held[i]?).bind fun head => (x.q.vrq.vqInfo head).cookie

def publish (i : Nat) (len : BitVec 32) (hdr : VirtioNetHdr) : NetRx :=
  match x.held i with
  | none => x
  | some buf =>
    if postedLen vndev (x.netbuf buf) < len.toNat then x
    else { x with q := x.q.step (.complete i len), hdr := Function.update x.hdr buf hdr }

def step (a : NetAct) : NetRx :=
  if x.failed then x
  else
    match a with
    | .fetch => { x with q := x.q.step .fetch }
    | .publish i len hdr => x.publish vndev i len hdr
    | .setAvailEvent e => { x with q := x.q.step (.setAvailEvent e) }
    | .setUsedFlags flags => { x with q := x.q.step (.setUsedFlags flags) }
    | .call => if x.pc = .idle then x.begin else x
    | .driver o => x.driver vndev virtToPhys o

end

end NetRx

end Unikraft.Virtio.Net

namespace Unikraft.Virtio

open List Queue VirtqueueVring

variable {γ : Type} {q : Queue γ}

def Op.Quiet : Op γ → Prop
  | .enqueue .. | .dequeue => False
  | _ => True

theorem Queue.used_length (q : Queue γ) : q.used.length = (q.vrq.usedIdx - q.vrq.lastUsedDescIdx).toNat := by
  rw [used, length_map, RingIndex.length_between]

/-- What such a step keeps: the descriptors and the buffers in flight; there may be more used entries. -/
structure SameBuffers (q q' : Queue γ) : Prop where
  descAvail : q'.vrq.descAvail = q.vrq.descAvail
  order : q'.vrq.order = q.vrq.order
  vqInfo : q'.vrq.vqInfo = q.vrq.vqInfo
  inflight : q'.inflight = q.inflight
  used : q.used.length ≤ q'.used.length

/-- An operation that neither enqueues nor dequeues keeps the buffers in flight. -/
theorem Inv.sameBuffers (h : Inv q) (op : Op γ) (hop : op.Quiet) : SameBuffers q (q.step op) := by
  cases op with
  | enqueue | dequeue => exact hop.elim
  | complete i len =>
    unfold Queue.step Queue.complete
    dsimp only
    cases hi : q.held[i]? with
    | none => exact ⟨rfl, rfl, rfl, rfl, le_rfl⟩
    | some head =>
      refine ⟨rfl, rfl, rfl, rfl, ?_⟩
      have hlen := h.length_heads
      have hroom := h.sound.length_inflight
      have hnum := q.vrq.num_le
      rw [used_length] at hlen
      have hsucc : (q.vrq.usedIdx + 1#16 - q.vrq.lastUsedDescIdx).toNat =
        (q.vrq.usedIdx - q.vrq.lastUsedDescIdx).toNat + 1 :=
        RingIndex.toNat_sub_succ (by omega)
      rw [used_length, used_length]
      change _ ≤ (q.vrq.usedIdx + 1#16 - q.vrq.lastUsedDescIdx).toNat
      omega
  | fetch | hostNotify | intrDisable | intrArm =>
    simp only [Queue.step, Queue.fetch, virtqueueHostNotify, virtqueueIntrDisable, virtqueueIntrArm]
    split <;> exact ⟨rfl, rfl, rfl, rfl, le_rfl⟩
  | setAvailEvent | setUsedFlags => exact ⟨rfl, rfl, rfl, rfl, le_rfl⟩

/-- The driver sees data exactly if there is a used entry it has not taken. -/
theorem Queue.hasdata_iff (q : Queue γ) : virtqueueHasdata q.vrq = true ↔ 0 < q.used.length := by
  rw [used_length, virtqueueHasdata, bne_iff_ne]
  constructor
  · intro h
    exact RingIndex.toNat_sub_lt h.symm
  · rintro h he
    rw [he, BitVec.sub_self] at h
    exact absurd h (lt_irrefl 0)

namespace Net

namespace NetRx

variable {vndev : VirtioNetDevice} {x : NetRx} {q : Queue Nat} {q' : Queue Nat}

def frontBuf (x : NetRx) : Option Nat :=
  match virtqueueBufferDequeue x.q.vrq with
  | some (_, .ok d) => d.cookie
  | _ => none

/-- The number of buffers of the first packet in the used ring. -/
def frontBuffers (x : NetRx) (vndev : VirtioNetDevice) : Nat :=
  match x.frontBuf with
  | none => 1
  | some buf => max 1 (numBuffers vndev (x.hdr buf))

/-- The first packet in the used ring has a valid size, and all its buffers are there. -/
def frontWhole (x : NetRx) (vndev : VirtioNetDevice) : Bool :=
  !rxLenInvalid vndev x.q.vrq.front.len && decide (x.frontBuffers vndev ≤ x.q.used.length)

/-- The elements of the used ring that have not been dequeued. -/
def usedElems (q : Queue Nat) : List VringUsedElem :=
  RingIndex.between q.vrq.usedRing q.vrq.order.val q.vrq.lastUsedDescIdx q.vrq.usedIdx

structure Takes (q : Queue Nat) (b : Buffer Nat) (q' : Queue Nat) : Prop where
  front : b.head = q.vrq.front.head
  elems : usedElems q = q.vrq.front :: usedElems q'
  inflight : ∃ l₁ l₂, q.inflight = l₁ ++ b :: l₂ ∧ q'.inflight = l₁ ++ l₂
  used : q.used.length = q'.used.length + 1
  descAvail : q'.vrq.descAvail.toNat = q.vrq.descAvail.toNat + b.segs.length
  le : q'.vrq.descAvail.toNat ≤ q'.vrq.num
  order : q'.vrq.order = q.vrq.order

theorem Takes.mem_self {b : Buffer Nat} (h : Takes q b q') : b ∈ q.inflight := by
  obtain ⟨l₁, l₂, hin, -⟩ := h.inflight
  rw [hin]
  exact mem_append_right _ mem_cons_self

theorem Takes.mem {b c : Buffer Nat} (h : Takes q b q') (hc : c ∈ q'.inflight) : c ∈ q.inflight := by
  obtain ⟨l₁, l₂, hin, hin'⟩ := h.inflight
  grind

private theorem takes (h : Inv x.q) (hd : x.hasdata = true) : ∃ b, Takes x.q b (x.q.step .dequeue) ∧
    ∃ vrq, virtqueueBufferDequeue x.q.vrq = some (vrq, .ok ⟨some b.cookie, x.q.vrq.front.len,
      x.q.vrq.num - (x.q.step .dequeue).vrq.descAvail.toNat⟩) := by
  obtain ⟨b, l₁, l₂, hsplit, hused, hret, hq⟩ := h.dequeue_eq hd
  have hstep : x.q.step .dequeue = _ := hq
  have hroom : x.q.vrq.descAvail.toNat + b.segs.length ≤ x.q.vrq.num := by
    have hlen := h.sound.split.length_eq
    rw [hsplit] at hlen
    simp only [map_append, map_cons, flatten_append, flatten_cons, length_append, length_range,
      length_free, length_chain] at hlen
    omega
  have hnum := x.q.vrq.num_le
  have havail : (x.q.step .dequeue).vrq.descAvail.toNat = x.q.vrq.descAvail.toNat + b.segs.length := by
    rw [hstep]
    change (x.q.vrq.descAvail + BitVec.ofNat 16 b.segs.length).toNat = _
    rw [BitVec.toNat_add, BitVec.toNat_ofNat]
    omega
  have helems : usedElems x.q = x.q.vrq.front :: usedElems (x.q.step .dequeue) := by
    have hne : x.q.vrq.usedIdx ≠ x.q.vrq.lastUsedDescIdx := by
      intro he
      have hpos := (hasdata_iff x.q).1 hd
      rw [used_length, he, BitVec.sub_self] at hpos
      exact absurd hpos (lt_irrefl 0)
    rw [usedElems, RingIndex.between_pop _ x.q.vrq.order.isLt.le hne, hstep, front, slot_eq]
    rfl
  have hfront : b.head = x.q.vrq.front.head := by
    have hmap : x.q.used = (usedElems x.q).map VringUsedElem.head := rfl
    rw [helems, map_cons, hused] at hmap
    exact (List.cons.inj hmap).1
  refine ⟨b, ⟨hfront, helems, ⟨l₁, l₂, hsplit, by rw [hstep]⟩, ?_, havail, ?_, by rw [hstep]; rfl⟩,
      x.q.vrq.dequeued b, ?_⟩
  · rw [hused, hstep]
    rfl
  · have hnum' : (x.q.step .dequeue).vrq.num = x.q.vrq.num := by
      rw [hstep]
      rfl
    rw [havail, hnum']
    exact hroom
  · rw [hret, hstep]

theorem rxqDequeue_empty (hd : x.hasdata = false) (again : Bool) :
    x.rxqDequeue vndev again = { x with pkt := [] }.fillup vndev again 0 := by
  unfold rxqDequeue
  rw [dequeue_empty hd]

def gotFirst (x : NetRx) (vndev : VirtioNetDevice) (again : Bool) (buf : Nat) (m : Netbuf) : NetRx :=
  let y := { x with q := x.q.step .dequeue, netbuf := Function.update x.netbuf buf m, pkt := [buf] }
  if 1 < numBuffers vndev (x.hdr buf) then { y with pc := .merge again (numBuffers vndev (x.hdr buf) - 1) }
  else y.fillup vndev again (x.q.step .dequeue).vrq.descAvail.toNat

/-- With a used entry, the buffer of its head is taken out and checked. -/
theorem rxqDequeue_eq (vndev : VirtioNetDevice) (h : Inv x.q) (hd : x.hasdata = true) (again : Bool) :
    ∃ b, Takes x.q b (x.q.step .dequeue) ∧
    x.frontBuf = some b.cookie ∧ x.rxqDequeue vndev again =
      if rxLenInvalid vndev x.q.vrq.front.len then { x with q := x.q.step .dequeue, error := true, pc := .ret }
      else
        match rxStrip vndev (x.netbuf b.cookie) (x.hdr b.cookie) x.q.vrq.front.len with
        | .error _ => { x with q := x.q.step .dequeue, failed := true }
        | .ok m => x.gotFirst vndev again b.cookie m := by
  obtain ⟨b, htake, vrq, hret⟩ := takes h hd
  have hnum : (x.q.step .dequeue).vrq.num = x.q.vrq.num := congrArg (2 ^ ·.val) htake.order
  have hle := htake.le
  refine ⟨b, htake, by rw [frontBuf, hret], ?_⟩
  unfold rxqDequeue gotFirst
  rw [hret]
  dsimp only
  rewrite [hnum, Nat.sub_sub_self (hnum ▸ hle)]
  rfl

def gotNext (x : NetRx) (vndev : VirtioNetDevice) (again : Bool) (n chain : Nat) : NetRx :=
  let y := { x with
    q := x.q.step .dequeue
    netbuf := Function.update x.netbuf chain { x.netbuf chain with len := x.q.vrq.front.len.setWidth 16 }
    pkt := x.pkt ++ [chain] }
  if 1 < n then { y with pc := .merge again (n - 1) }
    else y.fillup vndev again (x.q.step .dequeue).vrq.descAvail.toNat

/-- With a used entry, its buffer is linked to the packet. -/
theorem rxqMerge_eq (vndev : VirtioNetDevice) (h : Inv x.q) (hd : x.hasdata = true) (again : Bool) (n : Nat) :
    ∃ b, Takes x.q b (x.q.step .dequeue) ∧ x.rxqMerge vndev again n =
      if (x.netbuf b.cookie).buflen < x.q.vrq.front.len.toNat then { x with q := x.q.step .dequeue, failed := true }
      else x.gotNext vndev again n b.cookie := by
  obtain ⟨b, htake, vrq, hret⟩ := takes h hd
  have hnum : (x.q.step .dequeue).vrq.num = x.q.vrq.num := congrArg (2 ^ ·.val) htake.order
  have hle := htake.le
  refine ⟨b, htake, ?_⟩
  unfold rxqMerge gotNext
  rw [hret]
  dsimp only
  rw [hnum, Nat.sub_sub_self (hnum ▸ hle)]

structure Adds (q : Queue Nat) (b : Buffer Nat) (q' : Queue Nat) : Prop where
  inflight : q'.inflight = q.inflight ++ [b]
  elems : usedElems q' = usedElems q
  descAvail : q'.vrq.descAvail.toNat + b.segs.length = q.vrq.descAvail.toNat
  order : q'.vrq.order = q.vrq.order

theorem adds {buf : Nat} {sg : Nat → UkSglistSeg} {nseg : BitVec 16} {avail : Nat}
    (h : (virtqueueBufferEnqueue q.vrq buf sg 0 nseg).2 = .ok avail) :
    ∃ b, b.cookie = buf ∧ b.segs.length = nseg.toNat ∧ Adds q b (q.step (.enqueue buf sg 0 nseg)) := by
  have hzero : (0 : BitVec 16).toNat = 0 := rfl
  obtain ⟨-, heq⟩ | ⟨-, -, heq⟩ | ⟨-, -, hle, heq⟩ := enqueue_cases q.vrq buf sg 0 nseg
  · rw [heq] at h
    cases h
  · rw [heq] at h
    cases h
  · refine ⟨q.vrq.newBuffer buf sg 0 nseg, rfl, by rw [length_newBuffer]; omega, ?_⟩
    unfold Queue.step Queue.enqueue
    dsimp only
    rw [heq]
    refine ⟨rfl, rfl, ?_, rfl⟩
    rw [length_newBuffer]
    change (q.vrq.descAvail - BitVec.ofNat 16 ((0 : BitVec 16).toNat + nseg.toNat)).toNat + _ = _
    rw [hzero, Nat.zero_add, BitVec.toNat_sub, BitVec.toNat_ofNat]
    omega

private theorem enqueue_ok (buf : Nat) (sg : Nat → UkSglistSeg) (nseg : BitVec 16) (hn : 1 ≤ nseg.toNat)
    (hle : nseg.toNat ≤ q.vrq.descAvail.toNat) (hnum : nseg.toNat ≤ q.vrq.num) :
    ∃ avail, (virtqueueBufferEnqueue q.vrq buf sg 0 nseg).2 = .ok avail := by
  have hzero : (0 : BitVec 16).toNat = 0 := rfl
  obtain ⟨hbad, -⟩ | ⟨-, hbad, -⟩ | ⟨-, -, -, heq⟩ := enqueue_cases q.vrq buf sg 0 nseg
  · omega
  · omega
  · exact ⟨_, by rw [heq]⟩

end NetRx

def modernDevice : VirtioNetDevice := ⟨featureSet 0 VIRTIO_F_VERSION_1, 1500, 1500, [], 1⟩
def pageBuffer : Netbuf := ⟨0x1000, 2048, 12, 2036, false, false, false, 0, 0⟩

end Net

end Unikraft.Virtio

namespace Unikraft.Virtio.Net

open List NetRx Runs

namespace NetRx

def free (x : NetRx) : Nat := x.q.vrq.descAvail.toNat

/-- The rounds of `virtio_netdev_rx_fillup` ask for exactly `k` buffers. -/
def refillable (k : Nat) : Bool := decide (k ≤ RX_FILLUP_BATCHLEN) || k % RX_FILLUP_BATCHLEN == 0

section
variable (vndev : VirtioNetDevice) (virtToPhys : BitVec 64 → BitVec 64)

def needsCount (m : Netbuf) : Bool :=
  match rxSglist vndev virtToPhys m with
  | .error _ => false
  | .ok (_, segs) => segs.length == vndev.bufDescrCount

/-- The condition on a step: every buffer needs `buf_descr_count` descriptors; a dequeue finds a whole packet, after
which the rounds ask for as many buffers as there are free descriptors for, or the queue is full. -/
def refillFine (x : NetRx) : NetAct → Bool
  | .driver o =>
    match x.pc with
    | .dequeue _ =>
      if x.hasdata then
        x.frontWhole vndev && refillable ((x.free + x.frontBuffers vndev * vndev.bufDescrCount) / vndev.bufDescrCount)
      else decide (x.free < vndev.bufDescrCount)
    | .request .. => o.bufs.all fun m => needsCount vndev virtToPhys m
    | _ => true
  | _ => true

end

section
variable {vndev : VirtioNetDevice} {virtToPhys : BitVec 64 → BitVec 64} {x y : NetRx} {again : Bool} {q' : Queue Nat}
  {b : Buffer Nat} {netbuf : Nat → Netbuf} {pkt : List Nat} {p : NetPc} {n : Nat}

/-- So far the requests of this call were served, and it has not found otherwise. -/
def Clean (x : NetRx) : Prop := x.served = true ∧ x.status.underrun = false

def Settled (vndev : VirtioNetDevice) (x : NetRx) : Prop :=
  (x.served = true → x.free < vndev.bufDescrCount) ∧ (x.status.underrun = true → x.served = false)

def round (vndev : VirtioNetDevice) (nbDesc : Nat) : Nat :=
  min (nbDesc / vndev.bufDescrCount) RX_FILLUP_BATCHLEN * vndev.bufDescrCount

/-- `filled` of `nbDesc` descriptors are filled, and fewer than `buf_descr_count` stay free in the end. -/
def Filled (vndev : VirtioNetDevice) (x : NetRx) (nbDesc filled : Nat) : Prop :=
  ∃ r < vndev.bufDescrCount, x.free + filled = nbDesc + r

def Batch (vndev : VirtioNetDevice) (virtToPhys : BitVec 64 → BitVec 64) (x : NetRx) (bufs : List Nat) : Prop :=
  bufs.Nodup ∧ ∀ b ∈ bufs, needsCount vndev virtToPhys (x.netbuf b) = true

structure Posting (vndev : VirtioNetDevice) (x : NetRx) (nbDesc filled n : Nat) (short : Bool) : Prop where
  underrun : x.status.underrun = false
  served : x.served = !short
  pkt : x.pkt ≠ []
  progress : Filled vndev x nbDesc filled
  le : filled + n * vndev.bufDescrCount ≤ nbDesc
  rounds : short = false → ∃ m, nbDesc = filled + n * vndev.bufDescrCount + m * round vndev nbDesc

def RefillPoint (vndev : VirtioNetDevice) (virtToPhys : BitVec 64 → BitVec 64) (x : NetRx) : NetPc → Prop
  | .idle | .input | .request .setup _ _ | .notify .setup _ => True
  | .dequeue _ => Clean x
  | .merge _ n => Clean x ∧ x.pkt ≠ [] ∧ 0 < n ∧ n ≤ x.q.used.length ∧
    refillable ((x.free + n * vndev.bufDescrCount) / vndev.bufDescrCount) = true
  | .request (.recv _) nbDesc filled =>
    Clean x ∧ Filled vndev x nbDesc filled ∧ (∃ m, nbDesc = filled + m * round vndev nbDesc) ∧
    (x.pkt = [] → nbDesc = 0)
  | .post .setup _ _ bufs _ => Batch vndev virtToPhys x bufs
  | .post (.recv _) nbDesc filled bufs short =>
    Batch vndev virtToPhys x bufs ∧ Posting vndev x nbDesc filled bufs.length short
  | .notify (.recv again) _ | .look again | .arm again | .relook again | .disarm again =>
    Settled vndev x ∧ (again = false → x.pkt = [] → Clean x)
  | .testUsr => Settled vndev x ∧ (x.pkt = [] → Clean x)
  | .ret => Settled vndev x

structure RefillInv (vndev : VirtioNetDevice) (virtToPhys : BitVec 64 → BitVec 64) (x : NetRx) : Prop where
  inv : Inv x.q
  count : ∀ b ∈ x.q.inflight, b.segs.length = vndev.bufDescrCount
  point : x.failed = false → RefillPoint vndev virtToPhys x x.pc
  ret : x.failed = true → x.pc ≠ .ret

private theorem RefillPoint.quiet (h : RefillPoint vndev virtToPhys x p) (hq : SameBuffers x.q y.q)
    (hs : y.status = x.status) (hserved : y.served = x.served) (hpkt : y.pkt = x.pkt) (hnb : y.netbuf = x.netbuf) :
    RefillPoint vndev virtToPhys y p := by
  have hfree : y.free = x.free := congrArg BitVec.toNat hq.descAvail
  have hclean : Clean x → Clean y := fun hc => ⟨hserved.trans hc.1, by rw [hs]; exact hc.2⟩
  have hsettled : Settled vndev x → Settled vndev y := fun hc => by
    unfold Settled
    rw [hfree, hs, hserved]
    exact hc
  have hfilled : ∀ {a b}, Filled vndev x a b → Filled vndev y a b := fun hf => by
    unfold Filled
    rw [hfree]
    exact hf
  have hbatch : ∀ {l}, Batch vndev virtToPhys x l → Batch vndev virtToPhys y l := fun hb => by
    unfold Batch
    rw [hnb]
    exact hb
  have hused := hq.used
  cases p with
  | idle | input => trivial
  | dequeue again => exact hclean h
  | merge again n =>
    obtain ⟨hc, hp, hn, hle, hr⟩ := h
    exact ⟨hclean hc, by rwa [hpkt], hn, hle.trans hused, by rwa [hfree]⟩
  | request site nbDesc filled =>
    cases site with
    | setup => trivial
    | recv again =>
      obtain ⟨hc, hf, hm, hp⟩ := h
      exact ⟨hclean hc, hfilled hf, hm, by rwa [hpkt]⟩
  | post site nbDesc filled bufs short =>
    cases site with
    | setup => exact hbatch h
    | recv again =>
      obtain ⟨hb, hu, hsv, hp, hf, hle, hm⟩ := h
      exact ⟨hbatch hb, by rwa [hs], by rwa [hserved], by rwa [hpkt], hfilled hf, hle, hm⟩
  | notify site filled =>
    cases site with
    | setup => trivial
    | recv again => exact ⟨hsettled h.1, fun ha hp => hclean (h.2 ha (hpkt ▸ hp))⟩
  | testUsr => exact ⟨hsettled h.1, fun hp => hclean (h.2 (hpkt ▸ hp))⟩
  | look again | arm again | relook again | disarm again =>
    exact ⟨hsettled h.1, fun ha hp => hclean (h.2 ha (hpkt ▸ hp))⟩
  | ret => exact hsettled h

section
variable (h : RefillInv vndev virtToPhys x)
include h

private theorem RefillInv.same (hinv : Inv y.q) (hin : y.q.inflight = x.q.inflight)
    (hpoint : y.failed = false → RefillPoint vndev virtToPhys y y.pc) (hret : y.failed = true → y.pc ≠ .ret) :
    RefillInv vndev virtToPhys y :=
  ⟨hinv, fun b hb => h.count b (hin ▸ hb), hpoint, hret⟩

private theorem RefillInv.quiet (hf : x.failed = false) (op : Op Nat) (hop : op.Quiet)
    (hp : RefillPoint vndev virtToPhys x p) : RefillInv vndev virtToPhys { x with q := x.q.step op, pc := p } := by
  have hsame := h.inv.sameBuffers op hop
  refine h.same (h.inv.step op) hsame.inflight (fun _ => hp.quiet hsame rfl rfl rfl rfl) fun hbad => ?_
  rw [show x.failed = true from hbad] at hf
  cases hf

private theorem RefillInv.goto (hq : y.q = x.q) (hf : y.failed = false)
    (hpoint : RefillPoint vndev virtToPhys y y.pc) : RefillInv vndev virtToPhys y := by
  refine h.same (by rw [hq]; exact h.inv) (by rw [hq]) (fun _ => hpoint) fun hbad => ?_
  rw [hf] at hbad
  cases hbad

end

/-! ### Arithmetic of the rounds -/

section
variable (hd : 0 < vndev.bufDescrCount)

include hd

private theorem filled_start (F : Nat) (hF : x.free = F) (hr : refillable (F / vndev.bufDescrCount) = true) :
    Filled vndev x (F / vndev.bufDescrCount * vndev.bufDescrCount) 0 ∧ ∃ m,
    F / vndev.bufDescrCount * vndev.bufDescrCount =
        0 + m * round vndev (F / vndev.bufDescrCount * vndev.bufDescrCount) := by
  refine ⟨⟨F % vndev.bufDescrCount, Nat.mod_lt _ hd, ?_⟩, ?_⟩
  · rw [hF, Nat.mul_comm, Nat.div_add_mod]
    rfl
  · rw [round, Nat.mul_div_cancel _ hd]
    generalize F / vndev.bufDescrCount = k at hr
    rw [refillable, Bool.or_eq_true, decide_eq_true_eq, beq_iff_eq] at hr
    by_cases hk : k ≤ RX_FILLUP_BATCHLEN
    · exact ⟨1, by rw [Nat.min_eq_left hk, Nat.one_mul, Nat.zero_add]⟩
    · refine ⟨k / RX_FILLUP_BATCHLEN, ?_⟩
      have hdvd : k / RX_FILLUP_BATCHLEN * RX_FILLUP_BATCHLEN = k :=
        Nat.div_mul_cancel (Nat.dvd_of_mod_eq_zero (hr.resolve_left hk))
      rw [Nat.min_eq_right (Nat.le_of_not_le hk), Nat.zero_add, ← Nat.mul_assoc, hdvd]

end

private theorem RefillInv.merge (h : RefillInv vndev virtToPhys x)
    (hclean : Clean x) (htake : Takes x.q b q') (hinv : Inv q') (hpkt : pkt ≠ []) (hn : 0 < n)
    (hused : n < x.q.used.length)
    (hr : refillable ((x.free + (n + 1) * vndev.bufDescrCount) / vndev.bufDescrCount) = true) :
    RefillInv vndev virtToPhys { x with q := q', netbuf := netbuf, pkt := pkt, pc := .merge again n } := by
  refine ⟨hinv, fun c hc => h.count c (htake.mem hc), fun _ => ⟨hclean, hpkt, hn, ?_, ?_⟩, fun _ => nofun⟩
  · have := htake.used
    change n ≤ q'.used.length
    omega
  · change refillable ((q'.vrq.descAvail.toNat + n * vndev.bufDescrCount) / vndev.bufDescrCount) = true
    rw [htake.descAvail, h.count b htake.mem_self, Nat.add_assoc, Nat.add_comm vndev.bufDescrCount, ← Nat.succ_mul]
    exact hr

private theorem RefillInv.fail (h : RefillInv vndev virtToPhys x) (htake : Takes x.q b q') (hinv : Inv q')
    (hpc : x.pc ≠ .ret) : RefillInv vndev virtToPhys { x with q := q', failed := true } :=
  ⟨hinv, fun c hc => h.count c (htake.mem hc), nofun, fun _ => hpc⟩

section
variable (hd : 0 < vndev.bufDescrCount) (h : RefillInv vndev virtToPhys x) (hf : x.failed = false) {o : NetOutside}
    {site : Site}

include hd h hf

private theorem RefillInv.fillup (hclean : Clean x) (htake : Takes x.q b q') (hinv : Inv q') (hpkt : pkt ≠ [])
    (hr : refillable ((x.free + vndev.bufDescrCount) / vndev.bufDescrCount) = true) :
    RefillInv vndev virtToPhys
      ({ x with q := q', netbuf := netbuf, pkt := pkt }.fillup vndev again q'.vrq.descAvail.toNat) := by
  have hfree : q'.vrq.descAvail.toNat = x.free + vndev.bufDescrCount := by
    rw [htake.descAvail, h.count b htake.mem_self]
    rfl
  obtain ⟨hfill, hm⟩ := filled_start (x := { x with q := q', netbuf := netbuf, pkt := pkt }.fillup vndev again
    q'.vrq.descAvail.toNat) hd q'.vrq.descAvail.toNat rfl (by rwa [hfree])
  refine ⟨hinv, fun c hc => h.count c (htake.mem hc), fun _ => ⟨hclean, hfill, hm, fun hnil => absurd hnil hpkt⟩,
      fun hbad => ?_⟩
  rw [show x.failed = true from hbad] at hf
  cases hf

private theorem RefillInv.rxqDequeue (hpc : x.pc = .dequeue again) (hclean : Clean x)
    (hempty : x.hasdata = false → x.free < vndev.bufDescrCount)
    (hwhole : x.hasdata = true → x.frontWhole vndev = true ∧
      refillable ((x.free + x.frontBuffers vndev * vndev.bufDescrCount) / vndev.bufDescrCount) = true) :
    RefillInv vndev virtToPhys (x.rxqDequeue vndev again) := by
  cases hdata : x.hasdata with
  | false =>
    rw [rxqDequeue_empty hdata]
    refine h.goto rfl hf ⟨hclean, ⟨x.free, hempty hdata, ?_⟩, ⟨0, ?_⟩, fun _ => ?_⟩
    all_goals simp [NetRx.fillup, NetRx.free]
  | true =>
    obtain ⟨hw, hr⟩ := hwhole hdata
    obtain ⟨b, htake, hfront, heq⟩ := rxqDequeue_eq vndev h.inv hdata again
    have hinv : Inv (x.q.step .dequeue) := h.inv.step .dequeue
    have hbufs : x.frontBuffers vndev = max 1 (numBuffers vndev (x.hdr b.cookie)) := by rw [frontBuffers, hfront]
    rw [frontWhole, Bool.and_eq_true, Bool.not_eq_true', decide_eq_true_eq, hbufs] at hw
    rw [hbufs] at hr
    rw [heq, if_neg (by rw [hw.1]; exact Bool.false_ne_true)]
    split
    · exact h.fail htake hinv (by rw [hpc]; nofun)
    · unfold gotFirst
      have hused := hw.2
      split
      · rename_i hn
        rw [max_eq_right hn.le] at hr hused
        refine h.merge hclean htake hinv (cons_ne_nil _ _) (by omega) (by omega) ?_
        rwa [Nat.sub_add_cancel hn.le]
      · rw [max_eq_left (by omega), Nat.one_mul] at hr
        exact h.fillup hd hf hclean htake hinv (cons_ne_nil _ _) hr

private theorem RefillInv.rxqMerge (hpc : x.pc = .merge again n)
    (hp : RefillPoint vndev virtToPhys x (.merge again n)) :
    RefillInv vndev virtToPhys (x.rxqMerge vndev again n) := by
  obtain ⟨hclean, hpkt, hn, hused, hr⟩ := hp
  have hdata : x.hasdata = true := (Queue.hasdata_iff x.q).2 (by omega)
  obtain ⟨b, htake, heq⟩ := rxqMerge_eq vndev h.inv hdata again n
  have hinv : Inv (x.q.step .dequeue) := h.inv.step .dequeue
  rw [heq]
  split
  · exact h.fail htake hinv (by rw [hpc]; nofun)
  · unfold gotNext
    have hpkt' : x.pkt ++ [b.cookie] ≠ [] := append_ne_nil_of_right_ne_nil _ (cons_ne_nil _ _)
    split
    · refine h.merge hclean htake hinv hpkt' (by omega) (by omega) ?_
      rwa [Nat.sub_add_cancel hn]
    · obtain rfl : n = 1 := by omega
      rw [Nat.one_mul] at hr
      exact h.fillup hd hf hclean htake hinv hpkt' hr

omit hd in
private theorem RefillInv.rxRequest {nbDesc filled : Nat} (hbufs : ∀ m ∈ o.bufs, needsCount vndev virtToPhys m = true)
    (hp : RefillPoint vndev virtToPhys x (.request site nbDesc filled)) :
    RefillInv vndev virtToPhys (x.rxRequest vndev o site nbDesc filled) := by
  unfold NetRx.rxRequest
  split
  · rename_i hlt
    generalize hreq : min (nbDesc / vndev.bufDescrCount) RX_FILLUP_BATCHLEN = req
    have hbatch : Batch vndev virtToPhys (x.alloc (o.bufs.take req))
      (List.range' x.fresh (o.bufs.take req).length) := by
      refine ⟨nodup_range', fun b hb => ?_⟩
      obtain ⟨i, hi, rfl⟩ := mem_range'.1 hb
      change needsCount vndev virtToPhys (if x.fresh + 1 * i < x.fresh then _ else _) = true
      rw [if_neg (by omega), Nat.one_mul, Nat.add_sub_cancel_left, getD_eq_getElem?_getD,
        List.getElem?_eq_getElem hi, Option.getD_some]
      exact hbufs _ (mem_of_mem_take (getElem_mem hi))
    refine h.goto rfl hf ?_
    cases site with
    | setup => exact hbatch
    | recv again =>
      obtain ⟨hclean, hfilled, ⟨m, hm⟩, hpkt⟩ := hp
      obtain ⟨m, rfl⟩ : ∃ m', m = m' + 1 := Nat.exists_eq_succ_of_ne_zero (by rintro rfl; omega)
      have hround : round vndev nbDesc = req * vndev.bufDescrCount := by rw [round, hreq]
      rw [hround, Nat.succ_mul] at hm
      have hlen : (o.bufs.take req).length ≤ req := length_take_le ..
      have hmul := Nat.mul_le_mul_right vndev.bufDescrCount hlen
      refine ⟨hbatch, hclean.2, ?_, fun hnil => ?_, hfilled, ?_, fun hshort => ⟨m, ?_⟩⟩
      · change (x.served && _) = _
        rw [hclean.1, Bool.true_and]
      · have := hpkt hnil
        omega
      · rw [length_range']
        omega
      · rw [decide_eq_false_iff_not] at hshort
        rw [length_range', hround, show (o.bufs.take req).length = req by omega]
        omega
  · rename_i hge
    refine h.goto rfl hf ?_
    cases site with
    | setup => trivial
    | recv again =>
      obtain ⟨hclean, ⟨r, hr, hfree⟩, ⟨m, hm⟩, hpkt⟩ := hp
      refine ⟨⟨fun _ => ?_, fun hu => ?_⟩, fun _ _ => hclean⟩
      · change x.free < _
        omega
      · exact absurd (hclean.2.symm.trans hu) Bool.false_ne_true

omit hd hf in
theorem RefillInv.rxqEnqueue_cases (hd : vndev.bufDescrCount = 1 ∨ vndev.bufDescrCount = 2) {buf : Nat}
    (hb : needsCount vndev virtToPhys (x.netbuf buf) = true) :
    (vndev.bufDescrCount ≤ x.free ∧ ∃ q' b m, x.rxqEnqueue vndev virtToPhys buf =
        ({ x with q := q', netbuf := Function.update x.netbuf buf m }, true) ∧ Inv q' ∧
        b.segs.length = vndev.bufDescrCount ∧ Adds x.q b q') ∨
      (x.free < vndev.bufDescrCount ∧ ∃ netbuf, x.rxqEnqueue vndev virtToPhys buf =
          ({ x with netbuf := netbuf }, false)) := by
  have hnum : x.free ≤ x.q.vrq.num := le_trans (Nat.le_add_right _ _) h.inv.sound.length_inflight
  unfold needsCount at hb
  unfold rxqEnqueue
  cases hsg : rxSglist vndev virtToPhys (x.netbuf buf) with
  | error e =>
    rw [hsg] at hb
    cases hb
  | ok r =>
    obtain ⟨m, segs⟩ := r
    rw [hsg] at hb
    have hlen : segs.length = vndev.bufDescrCount := beq_iff_eq.1 hb
    have hbits : (BitVec.ofNat 16 vndev.bufDescrCount).toNat = vndev.bufDescrCount := by
      rw [BitVec.toNat_ofNat]
      omega
    by_cases hle : vndev.bufDescrCount ≤ x.free
    · obtain ⟨avail, hok⟩ := enqueue_ok buf (fun i => segs.getD i ⟨0, 0⟩)
        (BitVec.ofNat 16 vndev.bufDescrCount) (by omega) (by rw [hbits]; exact hle) (by omega)
      obtain ⟨b, -, hbl, hadds⟩ := adds hok
      have hfull : virtqueueIsFull x.q.vrq = false := by
        rw [virtqueueIsFull, beq_eq_false_iff_ne]
        intro hz
        have : x.free = 0 := congrArg BitVec.toNat hz
        omega
      refine .inl ⟨hle, _, b, m, ?_, h.inv.step (.enqueue buf (fun i => segs.getD i ⟨0, 0⟩) 0
        (BitVec.ofNat 16 vndev.bufDescrCount)), hbl.trans hbits, hadds⟩
      rw [if_neg (by rw [hfull]; exact Bool.false_ne_true)]
      dsimp only
      rw [hlen, hok]
    · refine .inr ⟨by omega, ?_⟩
      split
      · exact ⟨_, rfl⟩
      · dsimp only
        rw [hlen]
        obtain ⟨-, heq⟩ | ⟨-, -, heq⟩ | ⟨-, -, hbad, -⟩ :=
          enqueue_cases x.q.vrq buf (fun i => segs.getD i ⟨0, 0⟩) 0 (BitVec.ofNat 16 vndev.bufDescrCount)
        · rw [heq]
          exact ⟨_, rfl⟩
        · rw [heq]
          exact ⟨_, rfl⟩
        · rw [hbits] at hbad
          exact absurd ((Nat.le_add_left _ _).trans hbad) hle

omit hd in
private theorem RefillInv.rxPost (hd : vndev.bufDescrCount = 1 ∨ vndev.bufDescrCount = 2) {nbDesc filled : Nat}
    {bufs : List Nat} {short : Bool} (hp : RefillPoint vndev virtToPhys x (.post site nbDesc filled bufs short)) :
    RefillInv vndev virtToPhys (x.rxPost vndev virtToPhys site nbDesc filled bufs short) := by
  unfold NetRx.rxPost
  cases bufs with
  | nil =>
    dsimp only
    split
    · rename_i hshort
      refine h.goto rfl hf ?_
      cases site with
      | setup => trivial
      | recv again =>
        obtain ⟨-, hpost⟩ := hp
        have hserved : x.served = false := hpost.served.trans (by rw [hshort]; rfl)
        refine ⟨⟨fun hs => ?_, fun _ => hserved⟩, fun _ hnil => absurd hnil hpost.pkt⟩
        exact absurd (hserved.symm.trans hs) Bool.false_ne_true
    · rename_i hshort
      rw [Bool.not_eq_true] at hshort
      refine h.goto rfl hf ?_
      cases site with
      | setup => trivial
      | recv again =>
        obtain ⟨-, hpost⟩ := hp
        obtain ⟨m, hm⟩ := hpost.rounds hshort
        refine ⟨⟨hpost.served.trans (by rw [hshort]; rfl), hpost.underrun⟩, hpost.progress, ⟨m, ?_⟩,
            fun hnil => absurd hnil hpost.pkt⟩
        rwa [length_nil, Nat.zero_mul] at hm
  | cons buf rest =>
    have hbatch : Batch vndev virtToPhys x (buf :: rest) := by
      cases site with
      | setup => exact hp
      | recv again => exact hp.1
    obtain ⟨hnot, hnodup⟩ := nodup_cons.1 hbatch.1
    dsimp only
    obtain ⟨hle, q', b, m, heq, hinv, hb, hadds⟩ | ⟨hlt, netbuf, heq⟩ :=
      h.rxqEnqueue_cases hd (hbatch.2 buf mem_cons_self)
    · rw [heq]
      have hrest : ∀ u ∈ rest, needsCount vndev virtToPhys (Function.update x.netbuf buf m u) = true := by
        intro u hu
        rw [Function.update_of_ne (by rintro rfl; exact hnot hu)]
        exact hbatch.2 u (mem_cons_of_mem _ hu)
      refine ⟨hinv, fun c hc => ?_, fun _ => ?_, fun _ => nofun⟩
      · rw [hadds.inflight] at hc
        rcases mem_append.1 hc with hc | hc
        · exact h.count c hc
        · rw [mem_singleton.1 hc, hb]
      · cases site with
        | setup => exact ⟨hnodup, hrest⟩
        | recv again =>
          obtain ⟨-, hpost⟩ := hp
          obtain ⟨r, hr, hfree⟩ := hpost.progress
          have havail := hadds.descAvail
          have hlen : (buf :: rest).length * vndev.bufDescrCount = rest.length * vndev.bufDescrCount +
            vndev.bufDescrCount := by
            rw [length_cons, Nat.succ_mul]
          have hroom := hpost.le
          rw [hlen] at hroom
          refine ⟨⟨hnodup, hrest⟩, hpost.underrun, hpost.served, hpost.pkt, ⟨r, hr, ?_⟩, by omega, fun hs => ?_⟩
          · change q'.vrq.descAvail.toNat + (filled + vndev.bufDescrCount) = nbDesc + r
            change x.q.vrq.descAvail.toNat + filled = nbDesc + r at hfree
            omega
          · obtain ⟨m, hm⟩ := hpost.rounds hs
            rw [hlen] at hm
            exact ⟨m, by omega⟩
    · rw [heq]
      refine h.goto rfl hf ?_
      cases site with
      | setup => trivial
      | recv again =>
        -- With the descriptors of the batch still free this does not happen.
        obtain ⟨-, hpost⟩ := hp
        obtain ⟨r, hr, hfree⟩ := hpost.progress
        have hroom := hpost.le
        rw [length_cons, Nat.succ_mul] at hroom
        omega

omit hd in
private theorem RefillInv.back {more : Bool} (hs : Settled vndev x) (hc : again = false → x.pkt = [] → Clean x) :
    RefillInv vndev virtToPhys (x.back again more) := by
  unfold NetRx.back
  cases again with
  | true => exact h.goto rfl hf hs
  | false =>
    rw [if_neg Bool.false_ne_true]
    cases hpkt : x.pkt with
    | nil =>
      cases more with
      | true => exact h.goto rfl hf (hc rfl hpkt)
      | false => exact h.goto rfl hf hs
    | cons b l => exact h.goto rfl hf hs

private theorem RefillInv.driver (hd' : vndev.bufDescrCount = 1 ∨ vndev.bufDescrCount = 2)
    (ha : x.refillFine vndev virtToPhys (.driver o) = true) :
    RefillInv vndev virtToPhys (x.driver vndev virtToPhys o) := by
  have hp := h.point hf
  unfold refillFine at ha
  unfold NetRx.driver
  cases hpc : x.pc with rw [hpc] at hp
  | idle => exact h
  | dequeue again =>
    rw [hpc] at ha
    dsimp only at ha
    refine h.rxqDequeue hd hf hpc hp (fun hdata => ?_) fun hdata => ?_
    · rw [hdata, if_neg Bool.false_ne_true, decide_eq_true_eq] at ha
      exact ha
    · rw [hdata, if_pos rfl, Bool.and_eq_true] at ha
      exact ha
  | merge again n => exact h.rxqMerge hd hf hpc hp
  | request site nbDesc filled =>
    rw [hpc] at ha
    exact h.rxRequest hf (all_eq_true.1 ha) hp
  | post site nbDesc filled bufs short => exact h.rxPost hf hd' hp
  | notify site filled =>
    cases site with
    | setup => exact h.goto rfl hf trivial
    | recv again =>
      have hnext : RefillPoint vndev virtToPhys x (if again then .look true else .testUsr) := by
        cases again with
        | true => exact ⟨hp.1, nofun⟩
        | false => exact ⟨hp.1, hp.2 rfl⟩
      dsimp only
      split
      · exact h.goto rfl hf (hnext.quiet ⟨rfl, rfl, rfl, rfl, le_rfl⟩ rfl rfl rfl rfl)
      · exact h.quiet hf .hostNotify trivial hnext
  | testUsr =>
    dsimp only
    split
    · exact h.goto rfl hf ⟨hp.1, fun _ => hp.2⟩
    · exact h.goto rfl hf hp.1
  | look again =>
    dsimp only
    split
    · exact h.back hf hp.1 hp.2
    · exact h.goto rfl hf hp
  | arm again => exact h.quiet hf .intrArm trivial hp
  | relook again =>
    dsimp only
    split
    · exact h.goto rfl hf hp
    · exact h.back hf hp.1 hp.2
  | disarm again =>
    have hoff : RefillInv vndev virtToPhys { x with q := x.q.step .intrDisable, pc := .disarm again } :=
      h.quiet hf .intrDisable trivial hp
    obtain ⟨hs, hc⟩ := hoff.point hf
    exact hoff.back hf hs hc
  | ret =>
    dsimp only
    unfold afterRecv
    split
    · exact h.goto rfl hf trivial
    · split <;> exact h.goto rfl hf trivial
  | input =>
    dsimp only
    unfold input
    split
    · exact h.same h.inv rfl nofun fun _ hbad => by cases hpc.symm.trans hbad
    · dsimp only
      split
      all_goals
        split
        · exact h.goto rfl hf ⟨rfl, rfl⟩
        · exact h.goto rfl hf trivial

end

private theorem RefillInv.publish (h : RefillInv vndev virtToPhys x) (hf : x.failed = false) (i : Nat)
    (len : BitVec 32) (hdr : VirtioNetHdr) :
    RefillInv vndev virtToPhys (x.publish vndev i len hdr) := by
  unfold NetRx.publish
  split
  · exact h
  · split
    · exact h
    · have hq := h.quiet hf (.complete i len) trivial (h.point hf)
      refine hq.goto rfl hf ?_
      exact (hq.point hf).quiet ⟨rfl, rfl, rfl, rfl, le_rfl⟩ rfl rfl rfl rfl

/-- Every step of the device and of the driver keeps the invariant. -/
theorem RefillInv.step (hd : vndev.bufDescrCount = 1 ∨ vndev.bufDescrCount = 2) (h : RefillInv vndev virtToPhys x)
    {a : NetAct}
    (ha : x.refillFine vndev virtToPhys a = true) : RefillInv vndev virtToPhys (x.step vndev virtToPhys a) := by
  unfold NetRx.step
  split
  · exact h
  · rename_i hf
    rw [Bool.not_eq_true] at hf
    cases a with
    | fetch => exact h.quiet hf .fetch trivial (h.point hf)
    | publish i len hdr => exact h.publish hf i len hdr
    | setAvailEvent e => exact h.quiet hf (.setAvailEvent e) trivial (h.point hf)
    | setUsedFlags flags => exact h.quiet hf (.setUsedFlags flags) trivial (h.point hf)
    | call =>
      dsimp only
      split
      · exact h.goto rfl hf ⟨rfl, rfl⟩
      · exact h
    | driver o => exact h.driver (by omega) hf hd ha

def Refilled (vndev : VirtioNetDevice) (x : NetRx) : Prop := x.pc = .ret → Settled vndev x

private theorem RefillInv.refilled (h : RefillInv vndev virtToPhys x) : Refilled vndev x := by
  intro hpc
  cases hf : x.failed with
  | true => exact absurd hpc (h.ret hf)
  | false =>
    have hp := h.point hf
    rw [hpc] at hp
    exact hp

theorem RefillInv.init (order : Fin 16) (usesEventIdx usrEn : Bool) :
    RefillInv vndev virtToPhys (NetRx.init vndev order usesEventIdx usrEn) :=
  ⟨inv_init order usesEventIdx true, nofun, fun _ => trivial, nofun⟩

end

end NetRx

/-- In every such run a call whose requests were served leaves the queue full, and a call reports an underrun only if
a request was not served. -/
theorem rx_queue_refilled {vndev : VirtioNetDevice} {virtToPhys : BitVec 64 → BitVec 64} {order : Fin 16}
    {usesEventIdx usrEn : Bool} {as : List NetAct} (hd : vndev.bufDescrCount = 1 ∨ vndev.bufDescrCount = 2)
    (h : Meets (step vndev virtToPhys) (fun x a => x.refillFine vndev virtToPhys a = true)
      (NetRx.init vndev order usesEventIdx usrEn) as) :
    Always (step vndev virtToPhys) (Refilled vndev) (NetRx.init vndev order usesEventIdx usrEn) as :=
  h.always (fun _ _ hs ha => hs.step hd ha) (fun _ hs => hs.refilled) (RefillInv.init order usesEventIdx usrEn)

theorem rx_queue_refilled_two : Always (step modernDevice id) (Refilled modernDevice)
    (NetRx.init modernDevice 1 false false) (List.replicate 6 (.driver ⟨[pageBuffer, pageBuffer], true⟩) ++
      [.fetch, .publish 0 100 ⟨true, false, 0, 0, 1⟩, .call] ++
      List.replicate 7 (.driver ⟨[pageBuffer], true⟩)) :=
  rx_queue_refilled (.inl rfl) (by decide +kernel)

/-- No buffers can be allocated when the queue is set up. Although there are some later, a call asks for none. -/
theorem not_rx_queue_refilled : ¬ Always (step modernDevice id) (Refilled modernDevice)
    (NetRx.init modernDevice 1 false false) (List.replicate 3 (.driver ⟨[], true⟩) ++ [.call] ++ List.replicate 4
      (.driver ⟨[pageBuffer, pageBuffer], true⟩)) := by
  intro h
  have hbad := (h.last (by decide +kernel)).1 (by decide +kernel)
  revert hbad
  decide +kernel

end Unikraft.Virtio.Net
