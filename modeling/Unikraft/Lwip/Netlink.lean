import Unikraft.Lib.Bits

/-!
# The address of an interface over netlink

`reply_getaddr_if` of `libs/lwip/netlink.c` without IPv6, on a little-endian machine. The address and the mask of an
interface are in network byte order, but the mask of `in_addr_netmask`, which the broadcast address is made with, is
in host byte order.
-/

namespace Unikraft.Lwip

structure Netif where
  name : BitVec 8 × BitVec 8
  num : BitVec 8
  /-- What `netif_is_loopback` finds. -/
  loopback : Bool
  ipAddr : BitVec 32
  netmask : BitVec 32

inductive IfaType
  | IFA_ADDRESS
  | IFA_LABEL
  | IFA_BROADCAST
  deriving DecidableEq

inductive Payload
  | inAddr (addr : BitVec 32)
  | string (s : List (BitVec 8))
  deriving DecidableEq

structure Rtattr where
  /-- Where the attribute stands in the message. -/
  pos : Nat
  rtaLen : BitVec 16
  rtaType : IfaType
  data : Payload

structure Reply where
  nlmsgLen : Nat
  nlmsgType : BitVec 16
  nlmsgFlags : BitVec 16
  nlmsgSeq : BitVec 32
  nlmsgPid : BitVec 32
  ifaFamily : BitVec 8
  ifaPrefixlen : BitVec 8
  ifaFlags : BitVec 8
  ifaScope : BitVec 8
  ifaIndex : BitVec 32
  attrs : List Rtattr

inductive Failure
  | ENOMEM
  | assertion

/-- `NLMSG_ALIGN` is the same. -/
def RTA_ALIGN (len : Nat) : Nat := (len + 3) / 4 * 4

def RTA_LENGTH (len : Nat) : Nat := RTA_ALIGN 4 + len

def RTA_SPACE (len : Nat) : Nat := RTA_ALIGN (RTA_LENGTH len)

def NLMSG_HDRLEN : Nat := RTA_ALIGN 16

def sizeofIfaddrmsg : Nat := 8

def netifNameLen (ni : Netif) : Nat := 2 + (if 100 ≤ ni.num then 3 else if 10 ≤ ni.num then 2 else 1) + 1

def netifNameDump (ni : Netif) : List (BitVec 8) :=
  let hundreds := if 100 ≤ ni.num then [48 + ni.num / 100] else []
  let tens := if 10 ≤ ni.num then [48 + ni.num % 100 / 10] else []
  [ni.name.1, ni.name.2] ++ hundreds ++ tens ++ [48 + ni.num % 10, 0]

/-- `PP_NTOHL`. -/
def ntohl (x : BitVec 32) : BitVec 32 := x <<< 24 ||| (x &&& 0xff00) <<< 8 ||| (x >>> 8 &&& 0xff00) ||| x >>> 24

def ukLssbl (x : BitVec 64) : Nat := Bits.lowestSet x

def netmask2Suffixlen (netmask : BitVec 32) : BitVec 8 :=
  if netmask = 0 then 32
  else if netmask = 0xffffffff then 0
  else BitVec.ofNat 8 (ukLssbl ((ntohl netmask).setWidth 64))

def inAddrNetmask (prefixlen : BitVec 8) : BitVec 32 :=
  (0xffffffff#64 ^^^ (1#64 <<< (32 - prefixlen.toNat) - 1)).setWidth 32

/-- The position after the reservation, in a buffer of 256 bytes. -/
def nlbufReserve (seek len : Nat) : Except Failure Nat :=
  if 256 - seek < len then .error .assertion else .ok (seek + len)

def nlbufRtattr (rep : Nat × List Rtattr) (type : IfaType) (dataLen : Nat) (data : Payload) :
    Except Failure (Nat × List Rtattr) := do
  let seek ← nlbufReserve rep.1 (RTA_SPACE dataLen)
  return (seek, rep.2 ++ [⟨rep.1, BitVec.ofNat 16 (RTA_LENGTH dataLen), type, data⟩])

/-- `alloc` says whether the buffer can be allocated. -/
def replyGetaddrIf (alloc : Bool) (pid seq : BitVec 32) (netif : Netif) : Except Failure Reply := do
  if !alloc then throw .ENOMEM
  let seek ← nlbufReserve 0 NLMSG_HDRLEN
  let seek ← nlbufReserve seek (RTA_ALIGN sizeofIfaddrmsg)
  let prefixlen := 32 - netmask2Suffixlen netif.netmask
  let rep ← nlbufRtattr (seek, []) .IFA_ADDRESS 4 (.inAddr netif.ipAddr)
  let rep ← nlbufRtattr rep .IFA_BROADCAST 4 (.inAddr (netif.ipAddr ||| ~~~inAddrNetmask prefixlen))
  let rep ← nlbufRtattr rep .IFA_LABEL (netifNameLen netif) (.string (netifNameDump netif))
  return ⟨rep.1, 20, 2, seq, pid, 2, prefixlen, if netif.loopback then 0x80 else 0, if netif.loopback then 254 else 0,
    netif.num.setWidth 32, rep.2⟩

def Reply.find (rep : Reply) (type : IfaType) : Option Payload :=
  (rep.attrs.find? fun a => decide (a.rtaType = type)).map Rtattr.data

/-- The attributes from `pos` on follow each other, and the last one ends at `len`. -/
def Tiles (len : Nat) : Nat → List Rtattr → Prop
  | pos, [] => pos = len
  | pos, a :: l => a.pos = pos ∧ Tiles len (pos + RTA_ALIGN a.rtaLen.toNat) l

structure Reply.Consistent (rep : Reply) (netif : Netif) : Prop where
  prefixlen : rep.ifaPrefixlen.toNat = (List.range 32).countP netif.netmask.getLsbD
  address : rep.find .IFA_ADDRESS = some (.inAddr netif.ipAddr)
  broadcast : rep.find .IFA_BROADCAST = some (.inAddr (netif.ipAddr ||| ~~~netif.netmask))
  tiles : Tiles rep.nlmsgLen (NLMSG_HDRLEN + RTA_ALIGN sizeofIfaddrmsg) rep.attrs

/-- Ones followed by zeros, in network byte order. -/
def Contiguous (netmask : BitVec 32) : Prop := ∃ n ≤ 32, netmask = ntohl (BitVec.allOnes 32 <<< (32 - n))

/-- What the reply has, whatever the mask. -/
theorem replyGetaddrIf_spec (pid seq : BitVec 32) (netif : Netif) :
    ∃ rep, replyGetaddrIf true pid seq netif = .ok rep ∧
    rep.ifaPrefixlen = 32 - netmask2Suffixlen netif.netmask ∧ rep.find .IFA_ADDRESS = some (.inAddr netif.ipAddr) ∧
    rep.find .IFA_BROADCAST = some (.inAddr (netif.ipAddr ||| ~~~inAddrNetmask rep.ifaPrefixlen)) ∧
    Tiles rep.nlmsgLen (NLMSG_HDRLEN + RTA_ALIGN sizeofIfaddrmsg) rep.attrs := by
  have hlen : netifNameLen netif = 4 ∨ netifNameLen netif = 5 ∨ netifNameLen netif = 6 := by
    unfold netifNameLen
    split
    · simp
    · split <;> simp
  unfold replyGetaddrIf
  rcases hlen with h | h | h <;> rw [h] <;> exact ⟨_, rfl, rfl, rfl, rfl, rfl, rfl, rfl, rfl⟩

/-- The way of a mask through its length and back, for all 33 of them. -/
theorem netmask_spec {m : BitVec 32} (h : Contiguous m) :
    (32 - netmask2Suffixlen m).toNat = (List.range 32).countP m.getLsbD ∧
    ~~~inAddrNetmask (32 - netmask2Suffixlen m) = ntohl (~~~m) := by
  obtain ⟨n, hn, rfl⟩ := h
  have hall : ∀ n : Fin 33, (32 - netmask2Suffixlen (ntohl (BitVec.allOnes 32 <<< (32 - n.val)))).toNat =
      (List.range 32).countP (ntohl (BitVec.allOnes 32 <<< (32 - n.val))).getLsbD ∧
      ~~~inAddrNetmask (32 - netmask2Suffixlen (ntohl (BitVec.allOnes 32 <<< (32 - n.val)))) =
        ntohl (~~~ntohl (BitVec.allOnes 32 <<< (32 - n.val))) := by
    decide +kernel
  exact hall ⟨n, by omega⟩

theorem or_eq_or_iff {w : Nat} (a x y : BitVec w) : a ||| x = a ||| y ↔ (x ^^^ y) &&& ~~~a = 0#w := by
  simp only [BitVec.eq_of_getLsbD_eq_iff, BitVec.getLsbD_or, BitVec.getLsbD_and, BitVec.getLsbD_xor,
      BitVec.getLsbD_not,
    BitVec.getLsbD_zero]
  refine forall₂_congr fun i hi => ?_
  cases a.getLsbD i <;> cases x.getLsbD i <;> cases y.getLsbD i <;> simp [hi]

/-- For a contiguous mask the reply is built, and it is consistent exactly if the host part in the other byte order
sets the same bits of the address. -/
theorem reply_consistent_iff (pid seq : BitVec 32) (netif : Netif) (h : Contiguous netif.netmask) :
    ∃ rep, replyGetaddrIf true pid seq netif = .ok rep ∧
      (rep.Consistent netif ↔ (ntohl (~~~netif.netmask) ^^^ ~~~netif.netmask) &&& ~~~netif.ipAddr = 0) := by
  obtain ⟨rep, hrep, hlen, haddr, hbc, htiles⟩ := replyGetaddrIf_spec pid seq netif
  obtain ⟨hones, hmask⟩ := netmask_spec h
  rw [hlen, hmask] at hbc
  refine ⟨rep, hrep, fun hc => ?_, fun hc => ⟨by rw [hlen, hones], haddr, ?_, htiles⟩⟩
  · have heq := hc.broadcast
    rw [hbc] at heq
    exact (or_eq_or_iff ..).1 (Payload.inAddr.inj (Option.some.inj heq))
  · rw [hbc, (or_eq_or_iff ..).2 hc]

/-- For 10.0.0.1 in a network of 24 bits. -/
theorem reply_consistent_subnet : ∃ rep, replyGetaddrIf true 0 0 ⟨(101, 110), 1, false, 0x0100000a, 0x00ffffff⟩ =
    .ok rep ∧
    (rep.Consistent ⟨(101, 110), 1, false, 0x0100000a, 0x00ffffff⟩ ↔
      (ntohl (~~~0x00ffffff) ^^^ ~~~0x00ffffff) &&& ~~~(0x0100000a : BitVec 32) = 0) :=
  reply_consistent_iff 0 0 _ ⟨24, by decide, by decide⟩

/-- The broadcast address of 10.0.0.1 in a network of 24 bits is reported as 255.0.0.1. -/
theorem not_reply_consistent : ∃ rep, replyGetaddrIf true 0 0 ⟨(101, 110), 1, false, 0x0100000a, 0x00ffffff⟩ =
    .ok rep ∧
    rep.find .IFA_BROADCAST = some (.inAddr 0x010000ff) ∧
    ¬rep.Consistent ⟨(101, 110), 1, false, 0x0100000a, 0x00ffffff⟩ := by
  refine ⟨_, rfl, by decide +kernel, fun h => ?_⟩
  exact absurd h.broadcast (by decide +kernel)

end Unikraft.Lwip
