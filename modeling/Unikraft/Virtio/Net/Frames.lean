import Unikraft.Virtio.Net.Recv

/-!
# The packets of virtio-net

`virtio_netdev_feature_negotiate` reads the MTU at the offset of the hardware address: the one that is reported can be
used in both directions if the device offers none, or if it is the first two bytes of its hardware address and not
greater than the Ethernet default. Every receive buffer is in the queue, with the driver, with lwIP, or freed
(`Ledger`). A packet that is too short or too long stops the interface, one of which buffers are missing is forgotten,
and of one of several buffers that lwIP does not take only the first is freed.
-/

namespace Unikraft.Virtio.Net

open BitVec

variable (features : BitVec 64)

private theorem featureHas_eq {bitpos : Nat} (h : bitpos < 64) :
    featureHas features bitpos = features.getLsbD bitpos := by
  have hand : features &&& 1#64 <<< bitpos = if features.getLsbD bitpos then 1#64 <<< bitpos else 0#64 :=
    and_twoPow features bitpos
  rw [featureHas, hand]
  cases features.getLsbD bitpos with
  | false => rfl
  | true =>
    have hne : (1#64 <<< bitpos) ≠ 0#64 := by
      intro he
      have hbit := congrArg (BitVec.getLsbD · bitpos) he
      simp [h] at hbit
    simp [hne]

variable {b : Nat} {vndev : VirtioNetDevice} {virtToPhys : BitVec 64 → BitVec 64} {host : BitVec 64} {a : Nat}

private theorem has_featureSet (hb : b < 64) :
    featureHas (featureSet features a) b = (featureHas features b || decide (a = b)) := by
  have hbit : (1#64 <<< a).getLsbD b = decide (a = b) := by
    rw [show 1#64 <<< a = BitVec.twoPow 64 a from rfl, getLsbD_twoPow]
    by_cases he : a = b
    · simp [he, hb]
    · simp [he]
  rw [featureHas_eq _ hb, featureHas_eq _ hb, featureSet, getLsbD_or, hbit]

private theorem has_featureAccept (host features : BitVec 64) (hb : b < 64) (hne : a ≠ b) :
    featureHas (featureAccept host features a) b = featureHas features b := by
  unfold featureAccept
  split
  · rw [has_featureSet features hb, decide_eq_false hne, Bool.or_false]
  · rfl

private theorem featureHas_featureAccept_self (host features : BitVec 64) (hb : b < 64) :
    featureHas (featureAccept host features b) b = (featureHas features b || featureHas host b) := by
  unfold featureAccept
  cases hh : featureHas host b with
  | false => simp
  | true => simp [has_featureSet features hb]

private theorem probe_mtu (h : virtioNetdevProbe host = .ok vndev) :
    featureHas vndev.features VIRTIO_NET_F_MTU = featureHas host VIRTIO_NET_F_MTU := by
  have hmtu : VIRTIO_NET_F_MTU < 64 := by decide
  unfold virtioNetdevProbe at h
  split at h
  · cases h
  · cases h
    rw [has_featureAccept _ _ hmtu (by decide), has_featureAccept _ _ hmtu (by decide),
      has_featureAccept _ _ hmtu (by decide), has_featureAccept _ _ hmtu (by decide),
      has_featureAccept _ _ hmtu (by decide)]
    have hset : featureHas (featureSet
        (featureAccept host (featureAccept host (featureSet 0 VIRTIO_NET_F_MAC) VIRTIO_NET_F_MTU)
        VIRTIO_NET_F_STATUS) VIRTIO_NET_F_GUEST_ANNOUNCE) VIRTIO_NET_F_MTU = featureHas host VIRTIO_NET_F_MTU := by
      rw [has_featureSet _ hmtu, has_featureAccept _ _ hmtu (by decide), featureHas_featureAccept_self _ _ hmtu,
        show featureHas (featureSet 0 VIRTIO_NET_F_MAC) VIRTIO_NET_F_MTU = false by decide]
      exact (Bool.or_false _).trans (Bool.false_or _)
    split
    · rw [has_featureSet _ hmtu, has_featureSet _ hmtu, hset]
      exact (Bool.or_false _).trans (Bool.or_false _)
    · exact hset

private theorem featureNegotiate_mtu :
    featureHas (virtqueueFeatureNegotiate features) VIRTIO_NET_F_MTU = featureHas features VIRTIO_NET_F_MTU := by
  rw [featureHas_eq _ (by decide), featureHas_eq _ (by decide), virtqueueFeatureNegotiate, getLsbD_and]
  exact Bool.true_and _

private theorem configure_mtu {vndev' : VirtioNetDevice} {config : Nat → BitVec 8} {conf : UkNetdevConf} {mem : Bool}
    {vqAvail : Nat} (h : virtioNetdevConfigure vndev host config conf mem vqAvail = .ok vndev') :
    featureHas vndev'.features VIRTIO_NET_F_MTU = featureHas vndev.features VIRTIO_NET_F_MTU ∧
      vndev'.mtu = if featureHas vndev.features VIRTIO_NET_F_MTU then wordOfBytes
      (virtioConfigGet config offsetofMac 2)
        else BitVec.ofNat 16 UK_ETH_PAYLOAD_MAXLEN := by
  have hmtu : VIRTIO_NET_F_MTU < 64 := by decide
  unfold virtioNetdevConfigure virtioNetdevFeatureNegotiate at h
  split at h
  · cases h
  · rename_i dev hdev
    split at h
    · cases h
    · cases h
      split at hdev
      · cases hdev
      · have hlro : featureHas (virtqueueFeatureNegotiate
            (if conf.lro then
              featureAccept host (featureAccept host vndev.features VIRTIO_NET_F_GUEST_TSO4) VIRTIO_NET_F_GUEST_TSO6
            else vndev.features)) VIRTIO_NET_F_MTU = featureHas vndev.features VIRTIO_NET_F_MTU := by
          rw [featureNegotiate_mtu]
          split
          · rw [has_featureAccept _ _ hmtu (by decide), has_featureAccept _ _ hmtu (by decide)]
          · rfl
        dsimp only at hdev
        rw [hlro] at hdev
        split at hdev
        · rename_i hhas
          cases hdev
          exact ⟨hlro, by rw [if_pos hhas]⟩
        · rename_i hhas
          cases hdev
          exact ⟨hlro, by rw [if_neg hhas]⟩

private theorem sglistLength_append (l : List UkSglistSeg) (ss : UkSglistSeg) (maxseg : Nat) :
    ukSglistLength ⟨l ++ [ss], maxseg⟩ = ukSglistLength ⟨l, maxseg⟩ + ss.ssLen := by
  simp [ukSglistLength, List.foldl_append]

/-- A range is added as a segment, or to the last one, and with it its length. -/
theorem sglistAppendRange_spec (sg : UkSglist) (paddr len : BitVec 64) (h : sg.segs.length < sg.maxseg) :
    ∃ sg', sglistAppendRange sg paddr len = .ok sg' ∧ sg'.segs.length ≤ sg.segs.length + 1 ∧ sg'.maxseg = sg.maxseg ∧
      ukSglistLength sg' = ukSglistLength sg + len := by
  unfold sglistAppendRange
  cases hl : sg.segs.getLast? with
  | none =>
    have hnil : sg.segs = [] := List.getLast?_eq_none_iff.1 hl
    simp [ukSglistLength, hnil]
  | some ss =>
    dsimp only
    have hsegs : sg.segs = sg.segs.dropLast ++ [ss] := (List.dropLast_append_getLast? ss hl).symm
    split
    · refine ⟨_, rfl, ?_, rfl, ?_⟩
      · have hlen := congrArg List.length hsegs
        simp only [List.length_append, List.length_singleton] at hlen ⊢
        omega
      · have hold : ukSglistLength sg = ukSglistLength ⟨sg.segs.dropLast, sg.maxseg⟩ + ss.ssLen := by
          rw [← sglistLength_append, ← hsegs]
        rw [sglistLength_append, hold, BitVec.add_assoc]
    · rw [if_neg (by omega)]
      exact ⟨_, rfl, by simp, rfl, sglistLength_append ..⟩

/-- By induction on the fuel: the length of the buffer is added, in at most one segment for each page. -/
theorem sglistAppendBuf_spec (virtToPhys : BitVec 64 → BitVec 64) (sg : UkSglist) (vaddr : BitVec 64) (pages : Nat)
    {fuel len : Nat} (hfuel : len ≤ fuel) (hpages : 0 < len → vaddr.toNat % PAGE_SIZE + len ≤ pages * PAGE_SIZE)
    (hroom : sg.segs.length + pages ≤ sg.maxseg) :
    ∃ sg', sglistAppendBuf virtToPhys fuel sg vaddr len = .ok sg' ∧ sg'.segs.length ≤ sg.segs.length + pages ∧
      sg'.maxseg = sg.maxseg ∧ ukSglistLength sg' = ukSglistLength sg + BitVec.ofNat 64 len := by
  induction fuel generalizing pages len sg vaddr with
  | zero =>
    obtain rfl : len = 0 := by omega
    exact ⟨sg, rfl, by omega, rfl, by simp⟩
  | succ fuel ih =>
    unfold sglistAppendBuf
    by_cases hlen : len = 0
    · subst hlen
      exact ⟨sg, rfl, by omega, rfl, by simp⟩
    · rw [if_neg hlen]
      dsimp only
      obtain ⟨pages, rfl⟩ : ∃ p, pages = p + 1 := Nat.exists_eq_succ_of_ne_zero (by rintro rfl; omega)
      have hoff : vaddr.toNat % PAGE_SIZE < PAGE_SIZE := Nat.mod_lt _ (by decide)
      obtain ⟨sg1, hsg, hsegs, hmax, hsum⟩ := sglistAppendRange_spec sg (virtToPhys vaddr)
        (BitVec.ofNat 64 (min len (PAGE_SIZE - vaddr.toNat % PAGE_SIZE))) (by omega)
      rw [hsg]
      generalize hseg : min len (PAGE_SIZE - vaddr.toNat % PAGE_SIZE) = seglen at *
      -- The rest starts at a page, or there is none.
      have hrest : 0 < len - seglen →
        (vaddr + BitVec.ofNat 64 seglen).toNat % PAGE_SIZE + (len - seglen) ≤ pages * PAGE_SIZE := by
        intro hmore
        have hmod : (vaddr + BitVec.ofNat 64 seglen).toNat % PAGE_SIZE = 0 := by
          rw [toNat_add, toNat_ofNat]
          unfold PAGE_SIZE at *
          omega
        unfold PAGE_SIZE at *
        omega
      obtain ⟨sg2, hsg2, hsegs2, hmax2, hsum2⟩ :=
        ih sg1 (vaddr + BitVec.ofNat 64 seglen) pages (by omega) hrest (by omega)
      refine ⟨sg2, hsg2, by omega, by omega, ?_⟩
      have hsplit : len = seglen + (len - seglen) := by omega
      rw [hsum2, hsum, BitVec.add_assoc, ← BitVec.ofNat_add, ← hsplit]

private theorem virtioNetHdrSize_le : virtioNetHdrSize features ≤ 20 := by
  unfold virtioNetHdrSize
  split_ifs <;> decide

/-- The list has the header and the whole packet. -/
theorem xmitSglist_spec (vndev : VirtioNetDevice) (virtToPhys : BitVec 64 → BitVec 64) (vhdr pkt : Netbuf)
    (hlen : pkt.len.toNat ≤ PAGE_SIZE) :
    ∃ sg, xmitSglist vndev virtToPhys vhdr pkt [] = .ok sg ∧
      (ukSglistLength sg).toNat = virtioNetHdrSize vndev.features + pkt.len.toNat := by
  have hhdr := virtioNetHdrSize_le vndev.features
  have hoff : ∀ a : BitVec 64, a.toNat % PAGE_SIZE < PAGE_SIZE := fun a => Nat.mod_lt _ (by decide)
  have hpage : PAGE_SIZE = 4096 := rfl
  obtain ⟨sg1, hsg1, hsegs1, hmax1, hsum1⟩ := sglistAppendBuf_spec virtToPhys ⟨[], NET_MAX_FRAGMENTS⟩ vhdr.data 2
    (le_refl (virtioNetHdrSize vndev.features)) (fun _ => by have := hoff vhdr.data; omega) (by decide)
  replace hmax1 : sg1.maxseg = 17 := hmax1
  obtain ⟨sg2, hsg2, -, -, hsum2⟩ := sglistAppendBuf_spec virtToPhys sg1 pkt.data 2 (le_refl pkt.len.toNat)
    (fun _ => by have := hoff pkt.data; omega) (by rw [hmax1]; simp only [List.length_nil] at hsegs1; omega)
  refine ⟨sg2, ?_, ?_⟩
  · unfold xmitSglist ukSglistAppend
    rw [if_neg (by decide), hsg1]
    dsimp only
    rw [if_neg (by rw [hmax1]; decide), hsg2]
    rfl
  · have hnil : ukSglistLength ⟨[], NET_MAX_FRAGMENTS⟩ = 0 := rfl
    rw [hsum2, hsum1, hnil, toNat_add, toNat_add, toNat_ofNat, toNat_ofNat,
      show BitVec.toNat (0 : BitVec 64) = 0 from rfl]
    omega

/-- What makes the MTU of a configured device usable. A frame is rejected for its size if `virtio_netdev_xmit` returns
`-ENOTSUP` or `-EFBIG`, or `virtio_netdev_recv` `-EINVAL`. -/
structure MtuUsable (vndev : VirtioNetDevice) (config : Nat → BitVec 8) : Prop where
  mtu : virtioNetMtuGet vndev =
    if featureHas vndev.features VIRTIO_NET_F_MTU then wordOfBytes (virtioConfigGet config offsetofMtu 2)
    else BitVec.ofNat 16 UK_ETH_PAYLOAD_MAXLEN
  xmit : ∀ virtToPhys vrq (pkt : Netbuf), pkt.len.toNat ≤ (virtioNetMtuGet vndev).toNat + UK_ETH_HDR_UNTAGGED_LEN →
    ∀ vrq' e, virtioNetdevXmit vndev virtToPhys vrq pkt [] = some (vrq', .error e) → e ≠ .ENOTSUP ∧ e ≠ .EFBIG
  recv : ∀ virtToPhys (x : NetRx) o again (len : Nat), x.pc = .dequeue again → x.error = false →
    x.q.vrq.front.len.toNat = virtioNetHdrSize vndev.features + len → UK_ETH_HDR_UNTAGGED_LEN ≤ len →
    len ≤ (virtioNetMtuGet vndev).toNat + UK_ETH_HDR_UNTAGGED_LEN → (x.driver vndev virtToPhys o).error = false

private theorem xmit_accepts {vrq vrq' : VirtqueueVring Netbuf} {pkt : Netbuf}
    {e : NetErrno} (hlen : pkt.len.toNat ≤ UK_ETH_PAYLOAD_MAXLEN + UK_ETH_HDR_UNTAGGED_LEN)
    (h : virtioNetdevXmit vndev virtToPhys vrq pkt [] = some (vrq', .error e)) : e ≠ .ENOTSUP ∧ e ≠ .EFBIG := by
  unfold virtioNetdevXmit at h
  split at h
  · cases h
  · split at h
    · cases h
      decide
    · rename_i vhdr _
      obtain ⟨sg, hsg, hsum⟩ := xmitSglist_spec vndev virtToPhys vhdr pkt (le_trans hlen (by decide))
      have hsize : ¬ virtioPktBufferLen vndev.features < (ukSglistLength sg).toNat := by
        rw [hsum, virtioPktBufferLen]
        omega
      rw [hsg] at h
      dsimp only at h
      rw [decide_eq_false hsize, Bool.and_false, if_neg Bool.false_ne_true] at h
      split at h <;> cases h
      decide

private theorem xmit_rejects (vndev : VirtioNetDevice) : ∃ virtToPhys vrq vrq' pkt,
    pkt.len.toNat = UK_ETH_PAYLOAD_MAXLEN + UK_ETH_HDR_UNTAGGED_LEN + 1 ∧
      virtioNetdevXmit vndev virtToPhys vrq pkt [] = some (vrq', .error .ENOTSUP) := by
  have hhdr := virtioNetHdrSize_le vndev.features
  refine ⟨id, virtqueueCreate 0 false false, virtqueueCreate 0 false false,
      ⟨0, 2048, 64, 1515, false, false, false, 0, 0⟩, rfl, ?_⟩
  obtain ⟨vhdr, hvhdr⟩ : ∃ vhdr, ukNetbufHeader ⟨0, 2048, 64, 1515, false, false, false, 0, 0⟩
      (vtnetHdrSizePadded vndev.features) = .ok vhdr := by
    unfold ukNetbufHeader vtnetHdrSizePadded
    rw [if_neg, if_neg]
    · exact ⟨_, rfl⟩
    · simp
      omega
    · simp
      omega
  obtain ⟨sg, hsg, hsum⟩ := xmitSglist_spec vndev id vhdr ⟨0, 2048, 64, 1515, false, false, false, 0, 0⟩ (by decide)
  have hsize : virtioPktBufferLen vndev.features < (ukSglistLength sg).toNat := by
    rw [hsum, virtioPktBufferLen]
    simp [UK_ETH_PAYLOAD_MAXLEN, UK_ETH_HDR_UNTAGGED_LEN]
    omega
  unfold virtioNetdevXmit
  rw [hvhdr]
  dsimp only
  rw [hsg]
  dsimp only
  rw [decide_eq_true hsize]
  rfl

private theorem rxLenInvalid_eq_false {len : BitVec 32} {n : Nat}
    (hlen : len.toNat = virtioNetHdrSize vndev.features + n) (hmin : UK_ETH_HDR_UNTAGGED_LEN ≤ n)
    (hmax : n ≤ UK_ETH_PAYLOAD_MAXLEN + UK_ETH_HDR_UNTAGGED_LEN) : rxLenInvalid vndev len = false := by
  have hshort : ¬ len.toNat < virtioNetHdrSize vndev.features + UK_ETH_HDR_UNTAGGED_LEN := by omega
  have hlong : ¬ virtioPktBufferLen vndev.features < len.toNat := by
    unfold virtioPktBufferLen
    omega
  rw [rxLenInvalid, decide_eq_false hshort, decide_eq_false hlong, Bool.and_false]
  rfl

private theorem dequeue_len {γ : Type} {vrq vrq' : VirtqueueVring γ} {d : Dequeued γ}
    (h : virtqueueBufferDequeue vrq = some (vrq', .ok d)) : d.len = vrq.front.len := by
  unfold virtqueueBufferDequeue at h
  split at h
  · cases h
  · dsimp only at h
    split at h
    · cases h
    · cases h
      rfl

private theorem recv_accepts {x : NetRx} {o : NetOutside} {again : Bool}
    (hpc : x.pc = .dequeue again) (herr : x.error = false) (hlen : rxLenInvalid vndev x.q.vrq.front.len = false) :
    (x.driver vndev virtToPhys o).error = false := by
  rw [NetRx.driver, hpc]
  dsimp only
  unfold NetRx.rxqDequeue
  split
  · exact herr
  · exact herr
  · rename_i d hd
    rw [← dequeue_len hd] at hlen
    split
    · exact herr
    · dsimp only
      rw [if_neg (by rw [hlen]; exact Bool.false_ne_true)]
      split
      · exact herr
      · split <;> exact herr

/-- The MTU of a device can be used in both directions if and only if the device does not offer one, or its field is
the first word of the hardware address and not greater than the Ethernet default. -/
theorem mtu_usable_iff {host : BitVec 64} {config : Nat → BitVec 8} {conf : UkNetdevConf} {mem : Bool} {vqAvail : Nat}
    {probed vndev : VirtioNetDevice} (hprobe : virtioNetdevProbe host = .ok probed)
    (hconf : virtioNetdevConfigure probed host config conf mem vqAvail = .ok vndev) :
    MtuUsable vndev config ↔ (featureHas host VIRTIO_NET_F_MTU = true →
      wordOfBytes (virtioConfigGet config offsetofMac 2) = wordOfBytes (virtioConfigGet config offsetofMtu 2) ∧
        (wordOfBytes (virtioConfigGet config offsetofMtu 2)).toNat ≤ UK_ETH_PAYLOAD_MAXLEN) := by
  obtain ⟨hhas, hmtu⟩ := configure_mtu hconf
  rw [probe_mtu hprobe] at hhas hmtu
  constructor
  · intro h hoffered
    have hfield := h.mtu
    rw [hhas, if_pos hoffered, virtioNetMtuGet, hmtu, if_pos hoffered] at hfield
    refine ⟨hfield, ?_⟩
    by_contra hbig
    obtain ⟨virtToPhys, vrq, vrq', pkt, hlen, hx⟩ := xmit_rejects vndev
    refine (h.xmit virtToPhys vrq pkt ?_ vrq' .ENOTSUP hx).1 rfl
    rw [virtioNetMtuGet, hmtu, if_pos hoffered, hfield, hlen]
    omega
  · intro h
    have hget : virtioNetMtuGet vndev =
        if featureHas host VIRTIO_NET_F_MTU then wordOfBytes (virtioConfigGet config offsetofMtu 2)
        else BitVec.ofNat 16 UK_ETH_PAYLOAD_MAXLEN := by
      rw [virtioNetMtuGet, hmtu]
      split
      · rename_i hoffered
        exact (h hoffered).1
      · rfl
    have hle : (virtioNetMtuGet vndev).toNat ≤ UK_ETH_PAYLOAD_MAXLEN := by
      rw [hget]
      split
      · rename_i hoffered
        exact (h hoffered).2
      · decide
    refine ⟨by rw [hhas]; exact hget, fun virtToPhys vrq pkt hlen vrq' e hx => xmit_accepts (by omega) hx,
      fun virtToPhys x o again len hpc herr hused hmin hmax => ?_⟩
    exact recv_accepts hpc herr (rxLenInvalid_eq_false hused hmin (by omega))

/-- A configuration space with a hardware address that starts with the bytes of an MTU of 1500. -/
def configDefault (i : Nat) : BitVec 8 := if i = 0 ∨ i = 10 then 0xdc else if i = 1 ∨ i = 11 then 0x05 else 0

theorem mtu_usable_iff_default : MtuUsable ⟨0x200028, 1500, 1500, [0xdc, 0x05, 0, 0, 0, 0], 2⟩ configDefault := by
  have hprobe : virtioNetdevProbe 0x28 = .ok ⟨0x200028, 0, 0, [], 2⟩ := rfl
  have hconf : virtioNetdevConfigure ⟨0x200028, 0, 0, [], 2⟩ 0x28 configDefault ⟨1, 1, false⟩ true 2 =
      .ok ⟨0x200028, 1500, 1500, [0xdc, 0x05, 0, 0, 0, 0], 2⟩ := rfl
  exact (mtu_usable_iff hprobe hconf).2 fun _ => ⟨by decide, by decide⟩

/-- The hardware address is 52:54:00:12:34:56, and the MTU field is 1500. -/
def configQemu (i : Nat) : BitVec 8 := [0x52, 0x54, 0x00, 0x12, 0x34, 0x56, 0, 0, 0, 0, 0xdc, 0x05].getD i 0

/-- The MTU that is reported is 21586. -/
theorem not_mtu_usable : ¬ ∀ (host : BitVec 64) (config : Nat → BitVec 8) (conf : UkNetdevConf) (mem : Bool)
    (vqAvail : Nat) (probed vndev : VirtioNetDevice), virtioNetdevProbe host = .ok probed →
    virtioNetdevConfigure probed host config conf mem vqAvail = .ok vndev →
    (wordOfBytes (virtioConfigGet config offsetofMtu 2)).toNat ≤ 65535 - UK_ETH_HDR_UNTAGGED_LEN →
    MtuUsable vndev config := by
  intro h
  have hbad := (h 0x28 configQemu ⟨1, 1, false⟩ true 2 ⟨0x200028, 0, 0, [], 2⟩
    ⟨0x200028, 21586, 21586, [0x52, 0x54, 0x00, 0x12, 0x34, 0x56], 2⟩ rfl rfl (by decide)).mtu
  revert hbad
  decide

open Function (update update_eq_self update_of_ne update_self)
open List NetRx Queue Runs

def Netbuf.fits (m : Netbuf) : Bool := decide (m.headroom + m.len.toNat ≤ m.buflen)

variable {vndev : VirtioNetDevice} {m : Netbuf} {len : BitVec 32} {m' : Netbuf} {n : Nat}

private theorem header_push (h : ukNetbufHeader m n = .ok m') :
    m'.buflen = m.buflen ∧ m'.len.toNat = m.len.toNat + n ∧
    n ≤ m.headroom := by
  unfold ukNetbufHeader at h
  split at h
  · cases h
  · split at h
    · cases h
    · have hlen : (m.len + BitVec.ofInt 16 n).toNat = m.len.toNat + n := by
        rw [toNat_add, toNat_ofInt]
        omega
      dsimp only at h
      split at h
      · split at h
        all_goals
          cases h
          exact ⟨rfl, hlen, by omega⟩
      · cases h
        exact ⟨rfl, hlen, by omega⟩

private theorem rxStrip_ok (vhdr : VirtioNetHdr)
    (hvalid : rxLenInvalid vndev len = false) (hposted : len.toNat ≤ postedLen vndev m) :
    ∃ m', rxStrip vndev m vhdr len = .ok m' := by
  rw [rxLenInvalid, Bool.or_eq_false_iff, decide_eq_false_iff_not] at hvalid
  have heth : UK_ETH_HDR_UNTAGGED_LEN = 14 := rfl
  unfold rxStrip
  dsimp only
  unfold postedLen at hposted
  split
  · rename_i hone
    rw [if_pos hone] at hposted
    apply header_pull
    rw [toNat_setWidth]
    omega
  · rename_i hone
    rw [if_neg hone] at hposted
    apply header_pull
    rw [toNat_add, toNat_setWidth, toNat_ofNat]
    omega

private theorem rxSglist_len {virtToPhys : BitVec 64 → BitVec 64} {segs : List UkSglistSeg}
    (h : rxSglist vndev virtToPhys m = .ok (m', segs)) (hfits : m.fits = true) : m'.len.toNat ≤ m'.buflen := by
  rw [Netbuf.fits, decide_eq_true_eq] at hfits
  unfold rxSglist at h
  split at h
  all_goals
    split at h
    · cases h
    · rename_i hhdr
      cases h
      obtain ⟨hb, hl, hr⟩ := header_push hhdr
      omega

namespace NetRx

/-- The condition on a step: the packet that is dequeued is whole, the payload of an allocated buffer lies within the
buffer, and lwIP takes a packet that has more than one buffer. -/
def frameFine (vndev : VirtioNetDevice) (x : NetRx) : NetAct → Bool
  | .driver o =>
    match x.pc with
    | .dequeue _ => !x.hasdata || x.frontWhole vndev
    | .request .. => o.bufs.all Netbuf.fits
    | .input => o.taken || decide (x.pkt.length ≤ 1)
    | _ => true
  | _ => true

def batch : NetPc → List Nat
  | .post _ _ _ bufs _ => bufs
  | _ => []

def posted (q : Queue Nat) : List Nat := q.inflight.map Buffer.cookie

/-- Each of the first `fresh` buffers is in one of the places, once, and no other one is. -/
def Once (fresh : Nat) (lwip freed pkt batch posted : List Nat) : Prop :=
  ∀ i, lwip.count i + freed.count i + pkt.count i + batch.count i + posted.count i = if i < fresh then 1 else 0

def Accounted (x : NetRx) (p : NetPc) : Prop := Once x.fresh x.lwip x.freed x.pkt (batch p) (posted x.q)

/-- The device has not written more than was posted, and what was posted lies within the buffer. -/
structure Sizes (vndev : VirtioNetDevice) (q : Queue Nat) (netbuf : Nat → Netbuf) : Prop where
  used : ∀ e ∈ usedElems q, ∀ b ∈ q.inflight, b.head = e.head → e.len.toNat ≤ postedLen vndev (netbuf b.cookie)
  fits : ∀ b ∈ q.inflight, (netbuf b.cookie).len.toNat ≤ (netbuf b.cookie).buflen

/-- `success` says whether there is a packet. -/
def Told (x : NetRx) : Prop := x.status.success = !x.pkt.isEmpty

def FramePoint (x : NetRx) : NetPc → Prop
  | .idle | .request .setup _ _ | .notify .setup _ => x.pkt = []
  | .post .setup _ _ bufs _ => x.pkt = [] ∧ ∀ b ∈ bufs, (x.netbuf b).fits = true
  | .dequeue again => x.pkt = [] ∧ (again = true → 0 < x.q.used.length)
  | .merge _ n => x.pkt ≠ [] ∧ 0 < n ∧ n ≤ x.q.used.length
  | .post (.recv _) _ _ bufs _ => Told x ∧ ∀ b ∈ bufs, (x.netbuf b).fits = true
  | .disarm _ => Told x ∧ 0 < x.q.used.length
  | .input => x.pkt ≠ []
  | _ => Told x

structure FrameBase (vndev : VirtioNetDevice) (x : NetRx) : Prop where
  inv : Inv x.q
  accounted : Accounted x x.pc
  sizes : Sizes vndev x.q x.netbuf
  up : x.up = true
  error : x.error = false
  failed : x.failed = false

structure FrameInv (vndev : VirtioNetDevice) (x : NetRx) : Prop extends FrameBase vndev x where
  point : FramePoint x x.pc

section
variable {virtToPhys : BitVec 64 → BitVec 64} {x y : NetRx} {q q' : Queue Nat} {b : Buffer Nat} {p : NetPc}
  {netbuf netbuf' : Nat → Netbuf} {again : Bool} {site : Site}

private theorem posted_takes (h : Takes q b q') (i : Nat) :
    (posted q).count i = (posted q').count i + [b.cookie].count i := by
  obtain ⟨l1, l2, hin, hin'⟩ := h.inflight
  rw [posted, posted, hin, hin']
  simp only [map_append, map_cons, count_append, count_cons, count_nil]
  omega

private theorem posted_adds (h : Adds q b q') (i : Nat) :
    (posted q').count i = (posted q).count i + [b.cookie].count i := by
  rw [posted, posted, h.inflight, map_append, count_append]
  rfl

private theorem Accounted.not_mem (h : Accounted x p) (ht : Takes x.q b q') {c : Buffer Nat} (hc : c ∈ q'.inflight) :
    c.cookie ≠ b.cookie := by
  intro he
  have hone := h b.cookie
  have hmem : 0 < (posted q').count b.cookie := count_pos_iff.2 (he ▸ mem_map_of_mem hc)
  rw [posted_takes ht, count_singleton_self] at hone
  split at hone <;> omega

private theorem Once.alloc {fresh : Nat} {lwip freed pkt posted : List Nat} (h : Once fresh lwip freed pkt [] posted)
    (n : Nat) :
    Once (fresh + n) lwip freed pkt (List.range' fresh n) posted := by
  intro i
  have hone := h i
  rw [count_nil] at hone
  have hcount : (List.range' fresh n).count i = if fresh ≤ i ∧ i < fresh + n then 1 else 0 := by
    rw [List.Nodup.count nodup_range']
    simp only [mem_range'_1]
  rw [hcount]
  split at hone <;> split <;> split <;> omega

private theorem usedElems_quiet {op : Op Nat} (hop : op.Quiet) (hc : ∀ i len, op ≠ .complete i len) :
    usedElems (q.step op) = usedElems q := by
  cases op with
  | enqueue | dequeue => exact hop.elim
  | fetch =>
    unfold Queue.step Queue.fetch
    dsimp only
    split <;> rfl
  | complete i len => exact absurd rfl (hc i len)
  | hostNotify =>
    unfold Queue.step virtqueueHostNotify
    dsimp only
    split <;> rfl
  | intrDisable =>
    unfold Queue.step virtqueueIntrDisable
    dsimp only
    split <;> rfl
  | intrArm =>
    unfold Queue.step virtqueueIntrArm
    dsimp only
    split <;> rfl
  | setAvailEvent e => rfl
  | setUsedFlags flags => rfl

section
variable (h : Sizes vndev q netbuf)
include h

private theorem Sizes.same (he : usedElems q' = usedElems q)
    (hin : q'.inflight = q.inflight) (hnb : ∀ b ∈ q.inflight, netbuf' b.cookie = netbuf b.cookie) :
    Sizes vndev q' netbuf' := by
  refine ⟨fun e hem b hb hh => ?_, fun b hb => ?_⟩
  · rw [he] at hem
    rw [hin] at hb
    rw [hnb b hb]
    exact h.used e hem b hb hh
  · rw [hin] at hb
    rw [hnb b hb]
    exact h.fits b hb

private theorem Sizes.takes (ht : Takes q b q') (hnb : ∀ c ∈ q'.inflight, netbuf' c.cookie = netbuf c.cookie) :
    Sizes vndev q' netbuf' := by
  refine ⟨fun e hem c hc hh => ?_, fun c hc => ?_⟩
  · rw [hnb c hc]
    exact h.used e (by rw [ht.elems]; exact mem_cons_of_mem _ hem) c (ht.mem hc) hh
  · rw [hnb c hc]
    exact h.fits c (ht.mem hc)

private theorem Sizes.adds (hinv : Inv q) (hinv' : Inv q') (ha : Adds q b q')
    (hb : (netbuf' b.cookie).len.toNat ≤ (netbuf' b.cookie).buflen)
    (hnb : ∀ c ∈ q.inflight, netbuf' c.cookie = netbuf c.cookie) : Sizes vndev q' netbuf' := by
  -- The head of the new buffer is not in the used ring.
  have hnew : ∀ e ∈ usedElems q, b.head ≠ e.head := by
    intro e he hh
    have hmem : e.head ∈ q.inflight.map Buffer.head :=
      hinv.ledger.heads.subset (mem_append_right _ (mem_map_of_mem he))
    have hnd := hinv'.sound.heads_nodup
    rw [ha.inflight, map_append, nodup_append] at hnd
    exact hnd.2.2 _ hmem _ (mem_singleton_self _) hh.symm
  refine ⟨fun e hem c hc hh => ?_, fun c hc => ?_⟩
  · rw [ha.elems] at hem
    rw [ha.inflight] at hc
    rcases mem_append.1 hc with hc | hc
    · rw [hnb c hc]
      exact h.used e hem c hc hh
    · rw [mem_singleton.1 hc] at hh
      exact absurd hh (hnew e hem)
  · rw [ha.inflight] at hc
    rcases mem_append.1 hc with hc | hc
    · rw [hnb c hc]
      exact h.fits c hc
    · rw [mem_singleton.1 hc]
      exact hb

end

private theorem usedElems_complete (h : Inv q) {i head : Nat} (hheld : q.held[i]? = some head) :
    usedElems (q.step (.complete i len)) = usedElems q ++ [⟨BitVec.ofNat 32 head, len⟩] := by
  have hlen := h.length_heads
  have hin := (List.getElem?_eq_some_iff.1 hheld).1
  have hroom := h.sound.length_inflight
  rw [used_length] at hlen
  have hslot : (q.vrq.usedIdx - q.vrq.lastUsedDescIdx).toNat < q.vrq.num := by omega
  unfold Queue.step Queue.complete
  dsimp only
  rw [hheld, usedElems]
  rw [VirtqueueVring.slot_eq]
  exact RingIndex.between_push _ q.vrq.order.isLt hslot _

private theorem Sizes.publish (h : Sizes vndev q netbuf) (hinv : Inv q) {i head buf : Nat}
    (hheld : q.held[i]? = some head) (hbuf : (q.vrq.vqInfo head).cookie = some buf)
    (hlen : len.toNat ≤ postedLen vndev (netbuf buf)) :
    Sizes vndev (q.step (.complete i len)) netbuf := by
  have hin : (q.step (.complete i len)).inflight = q.inflight := (hinv.sameBuffers (.complete i len) trivial).inflight
  refine ⟨fun e he b hb hh => ?_, fun b hb => h.fits b (hin ▸ hb)⟩
  rw [hin] at hb
  rw [usedElems_complete hinv hheld] at he
  rcases mem_append.1 he with he | he
  · exact h.used e he b hb hh
  · obtain rfl := mem_singleton.1 he
    -- The element names the head of the buffer in flight.
    have hmem : head ∈ q.inflight.map Buffer.head :=
      hinv.ledger.heads.subset (mem_append_left _ (mem_append_right _ (mem_of_getElem? hheld)))
    obtain ⟨c, hc, rfl⟩ := mem_map.1 hmem
    have hlt := hinv.sound.head_lt hc
    have hnum := q.vrq.num_le
    have hhead : b.head = c.head := by
      rw [hh, VringUsedElem.head, toNat_setWidth, toNat_ofNat]
      omega
    rw [← hhead, hinv.sound.info b hb] at hbuf
    obtain rfl := Option.some.inj hbuf
    exact hlen

private theorem FramePoint.mono (h : FramePoint x p) (hpkt : y.pkt = x.pkt) (hst : y.status = x.status)
    (hnb : y.netbuf = x.netbuf) (hused : x.q.used.length ≤ y.q.used.length) : FramePoint y p := by
  have htold : Told x → Told y := fun ht => by
    unfold Told
    rw [hst, hpkt]
    exact ht
  cases p with
  | idle => exact hpkt.trans h
  | dequeue again => exact ⟨hpkt.trans h.1, fun ha => (h.2 ha).trans_le hused⟩
  | merge again n => exact ⟨hpkt ▸ h.1, h.2.1, h.2.2.trans hused⟩
  | request site nbDesc filled | notify site nbDesc =>
    cases site with
    | setup => exact hpkt.trans h
    | recv again => exact htold h
  | post site nbDesc filled bufs short =>
    cases site with
    | setup => exact ⟨hpkt.trans h.1, fun b hb => hnb ▸ h.2 b hb⟩
    | recv again => exact ⟨htold h.1, fun b hb => hnb ▸ h.2 b hb⟩
  | disarm again => exact ⟨htold h.1, h.2.trans_le hused⟩
  | input =>
    change y.pkt ≠ []
    rw [hpkt]
    exact h
  | testUsr | look again | arm again | relook again | ret => exact htold h

private theorem FrameBase.goto (h : FrameBase vndev x) {status : NetStatus} (hb : batch p = batch x.pc)
    (hp : FramePoint { x with pc := p, status := status } p) :
    FrameInv vndev { x with pc := p, status := status } := by
  refine ⟨⟨h.inv, ?_, h.sizes, h.up, h.error, h.failed⟩, hp⟩
  change Once x.fresh x.lwip x.freed x.pkt (batch p) (posted x.q)
  rw [hb]
  exact h.accounted

private theorem FrameBase.quiet (h : FrameBase vndev x) (op : Op Nat) (hop : op.Quiet)
    (hc : ∀ i len, op ≠ .complete i len) :
    FrameBase vndev { x with q := x.q.step op } := by
  have hin := (h.inv.sameBuffers op hop).inflight
  refine ⟨h.inv.step op, ?_, h.sizes.same (usedElems_quiet hop hc) hin fun _ _ => rfl, h.up, h.error, h.failed⟩
  change Once x.fresh x.lwip x.freed x.pkt (batch x.pc) (posted (x.q.step op))
  rw [posted, hin]
  exact h.accounted

private theorem FrameInv.quiet (h : FrameInv vndev x) (op : Op Nat) (hop : op.Quiet)
    (hc : ∀ i len, op ≠ .complete i len) :
    FrameInv vndev { x with q := x.q.step op } :=
  ⟨h.toFrameBase.quiet op hop hc, h.point.mono rfl rfl rfl (h.inv.sameBuffers op hop).used⟩

private theorem FrameInv.publish (h : FrameInv vndev x) (i : Nat) (len : BitVec 32) (hdr : VirtioNetHdr) :
    FrameInv vndev (x.publish vndev i len hdr) := by
  unfold NetRx.publish NetRx.held
  cases hheld : x.q.held[i]? with
  | none => exact h
  | some head =>
    rw [Option.bind_some]
    cases hbuf : (x.q.vrq.vqInfo head).cookie with
    | none => exact h
    | some buf =>
      dsimp only
      split
      · exact h
      · rename_i hlen
        have hsame := h.inv.sameBuffers (.complete i len) trivial
        refine ⟨⟨h.inv.step (.complete i len), ?_, h.sizes.publish h.inv hheld hbuf (by omega), h.up, h.error,
            h.failed⟩,
          h.point.mono rfl rfl rfl hsame.used⟩
        change Once x.fresh x.lwip x.freed x.pkt (batch x.pc) (posted (x.q.step (.complete i len)))
        rw [posted, hsame.inflight]
        exact h.accounted

private theorem FrameBase.takes (h : FrameBase vndev x) (ht : Takes x.q b (x.q.step .dequeue)) (m : Netbuf)
    (pkt : List Nat) (hpkt : pkt = x.pkt ++ [b.cookie]) :
    FrameBase vndev { x with q := x.q.step .dequeue, netbuf := update x.netbuf b.cookie m, pkt := pkt } := by
  refine ⟨h.inv.step .dequeue, ?_, h.sizes.takes ht fun c hc => ?_, h.up, h.error, h.failed⟩
  · change Once x.fresh x.lwip x.freed pkt (batch x.pc) (posted (x.q.step .dequeue))
    intro i
    have hone := h.accounted i
    rw [posted_takes ht] at hone
    rw [hpkt, count_append]
    omega
  · exact update_of_ne (h.accounted.not_mem ht hc) _ _

private theorem FrameBase.fillup (h : FrameBase vndev x) (hb : batch x.pc = []) (hagain : again = true → x.pkt ≠ [])
    (num : Nat) :
    FrameInv vndev (x.fillup vndev again num) := by
  refine h.goto hb.symm ?_
  change (again || !x.pkt.isEmpty) = !x.pkt.isEmpty
  cases again with
  | false => rfl
  | true =>
    rw [isEmpty_eq_false_iff.2 (hagain rfl)]
    rfl

private theorem FrameInv.rxqDequeue (h : FrameInv vndev x) (hpc : x.pc = .dequeue again)
    (hfine : (!x.hasdata || x.frontWhole vndev) = true) : FrameInv vndev (x.rxqDequeue vndev again) := by
  have hp := h.point
  rw [hpc] at hp
  obtain ⟨hnil, hused⟩ := hp
  cases hdata : x.hasdata with
  | false =>
    rw [rxqDequeue_empty hdata]
    have hbase : FrameBase vndev { x with pkt := [] } := by
      rw [← hnil]
      exact h.toFrameBase
    refine hbase.fillup (by rw [hpc]; rfl) (fun ha => ?_) 0
    exact absurd ((hasdata_iff x.q).2 (hused ha)) (by rw [show virtqueueHasdata x.q.vrq = false from hdata]; nofun)
  | true =>
    rw [hdata, Bool.not_true, Bool.false_or, frontWhole, Bool.and_eq_true, Bool.not_eq_true', decide_eq_true_eq]
      at hfine
    obtain ⟨hvalid, hwhole⟩ := hfine
    obtain ⟨b, ht, hfront, heq⟩ := rxqDequeue_eq vndev h.inv hdata again
    have hposted : x.q.vrq.front.len.toNat ≤ postedLen vndev (x.netbuf b.cookie) :=
      h.sizes.used _ (by rw [ht.elems]; exact mem_cons_self) b ht.mem_self ht.front
    obtain ⟨m, hm⟩ := rxStrip_ok (x.hdr b.cookie) hvalid hposted
    rw [heq, if_neg (by rw [hvalid]; exact Bool.false_ne_true), hm]
    have hbase := h.toFrameBase.takes ht m [b.cookie] (by rw [hnil]; rfl)
    have hlen := ht.used
    rw [frontBuffers, hfront] at hwhole
    dsimp only at hwhole
    unfold gotFirst
    dsimp only
    split
    · exact hbase.goto (by rw [hpc]; rfl)
        ⟨cons_ne_nil _ _, by omega, by change _ ≤ (x.q.step .dequeue).used.length; omega⟩
    · exact hbase.fillup (by rw [hpc]; rfl) (fun _ => cons_ne_nil _ _) _

private theorem postedLen_le (m : Netbuf) : postedLen vndev m ≤ m.len.toNat := by
  unfold postedLen
  split
  · exact le_rfl
  · exact Nat.sub_le _ _

private theorem FrameInv.rxqMerge (h : FrameInv vndev x) (hpc : x.pc = .merge again n) :
    FrameInv vndev (x.rxqMerge vndev again n) := by
  have hp := h.point
  rw [hpc] at hp
  obtain ⟨hpkt, hn, hused⟩ := hp
  obtain ⟨b, ht, heq⟩ := rxqMerge_eq vndev h.inv ((hasdata_iff x.q).2 (by omega)) again n
  have hposted : x.q.vrq.front.len.toNat ≤ postedLen vndev (x.netbuf b.cookie) :=
    h.sizes.used _ (by rw [ht.elems]; exact mem_cons_self) b ht.mem_self ht.front
  have hle := hposted.trans ((postedLen_le _).trans (h.sizes.fits b ht.mem_self))
  rw [heq, if_neg (by omega)]
  have hbase := h.toFrameBase.takes ht { x.netbuf b.cookie with len := x.q.vrq.front.len.setWidth 16 } _ rfl
  have hne : x.pkt ++ [b.cookie] ≠ [] := append_ne_nil_of_right_ne_nil _ (cons_ne_nil _ _)
  have hlen := ht.used
  unfold gotNext
  split
  · exact hbase.goto (by rw [hpc]; rfl) ⟨hne, by omega, by change _ ≤ (x.q.step .dequeue).used.length; omega⟩
  · exact hbase.fillup (by rw [hpc]; rfl) (fun _ => hne) _

private theorem Accounted.lt_fresh (h : Accounted x p) (hb : b ∈ x.q.inflight) : b.cookie < x.fresh := by
  have hone := h b.cookie
  have hpos : 0 < (posted x.q).count b.cookie := count_pos_iff.2 (mem_map_of_mem hb)
  split at hone
  · assumption
  · omega

private theorem FrameInv.rxRequest (h : FrameInv vndev x) {nbDesc filled : Nat}
    (hpc : x.pc = .request site nbDesc filled) {o : NetOutside} (hfits : o.bufs.all Netbuf.fits = true) :
    FrameInv vndev (x.rxRequest vndev o site nbDesc filled) := by
  have hp := h.point
  rw [hpc] at hp
  unfold NetRx.rxRequest
  split
  · generalize min (nbDesc / vndev.bufDescrCount) RX_FILLUP_BATCHLEN = req
    have hnew : ∀ b ∈ List.range' x.fresh (o.bufs.take req).length, ((x.alloc (o.bufs.take req)).netbuf b).fits =
      true := by
      intro b hb
      obtain ⟨i, hi, rfl⟩ := mem_range'.1 hb
      change Netbuf.fits (if x.fresh + 1 * i < x.fresh then _ else _) = true
      rw [if_neg (by omega), Nat.one_mul, Nat.add_sub_cancel_left, getD_eq_getElem?_getD,
        List.getElem?_eq_getElem hi, Option.getD_some]
      exact all_eq_true.1 hfits _ (mem_of_mem_take (getElem_mem hi))
    refine ⟨⟨h.inv, ?_, h.sizes.same rfl rfl fun b hb => if_pos (h.accounted.lt_fresh hb), h.up, h.error, h.failed⟩,
        ?_⟩
    · have hacc := h.accounted
      rw [hpc] at hacc
      exact Once.alloc hacc _
    · cases site with
      | setup | recv again => exact ⟨hp, hnew⟩
  · refine h.toFrameBase.goto (by rw [hpc]; rfl) ?_
    cases site with
    | setup | recv again => exact hp

/-- A buffer goes into the ring, or nothing changes. -/
theorem rxqEnqueue_cases (x : NetRx) (vndev : VirtioNetDevice) (virtToPhys : BitVec 64 → BitVec 64) (buf : Nat) :
    (∃ m segs b op, rxSglist vndev virtToPhys (x.netbuf buf) = .ok (m, segs) ∧ b.cookie = buf ∧
      Adds x.q b (x.q.step op) ∧
      x.rxqEnqueue vndev virtToPhys buf = ({ x with q := x.q.step op, netbuf := update x.netbuf buf m }, true)) ∨
    ∃ m, x.rxqEnqueue vndev virtToPhys buf = ({ x with netbuf := update x.netbuf buf m }, false) := by
  have hsame : ∃ m, (x, false) = ({ x with netbuf := update x.netbuf buf m }, false) :=
    ⟨x.netbuf buf, by rw [update_eq_self]⟩
  unfold rxqEnqueue
  split
  · exact .inr hsame
  · cases hsg : rxSglist vndev virtToPhys (x.netbuf buf) with
    | error e => exact .inr hsame
    | ok r =>
      obtain ⟨m, segs⟩ := r
      dsimp only
      cases hok : (virtqueueBufferEnqueue x.q.vrq buf (fun i => segs.getD i ⟨0, 0⟩) 0 (BitVec.ofNat 16 segs.length)).2
        with
      | error e => exact .inr ⟨m, rfl⟩
      | ok avail =>
        obtain ⟨b, hb, -, hadds⟩ := adds hok
        exact .inl ⟨m, segs, b, _, rfl, hb, hadds, rfl⟩

private theorem FrameInv.rxPost (h : FrameInv vndev x) {nbDesc filled : Nat} {bufs : List Nat} {short : Bool}
    (hpc : x.pc = .post site nbDesc filled bufs short) :
    FrameInv vndev (x.rxPost vndev virtToPhys site nbDesc filled bufs short) := by
  have hp := h.point
  rw [hpc] at hp
  unfold NetRx.rxPost
  cases bufs with
  | nil =>
    dsimp only
    split
    all_goals
      refine h.toFrameBase.goto (by rw [hpc]; rfl) ?_
      cases site with
      | setup | recv again => exact hp.1
  | cons buf rest =>
    have hacc := h.accounted
    rw [hpc] at hacc
    -- The buffer is not in the queue, and only once in the batch.
    have hzero : (posted x.q).count buf = 0 ∧ rest.count buf = 0 := by
      have hone := hacc buf
      have hhead : (batch (.post site nbDesc filled (buf :: rest) short)).count buf = rest.count buf + 1 :=
        count_cons_self
      split at hone <;> omega
    have hbuf : ∀ b ∈ x.q.inflight, b.cookie ≠ buf := fun b hb he => count_eq_zero.1 hzero.1 (he ▸ mem_map_of_mem hb)
    have hrest : buf ∉ rest := count_eq_zero.1 hzero.2
    have hsizes : ∀ m, Sizes vndev x.q (update x.netbuf buf m) := fun m =>
      h.sizes.same rfl rfl fun b hb => update_of_ne (hbuf b hb) _ _
    obtain ⟨m, segs, b, op, hsg, rfl, hadds, heq⟩ | ⟨m, heq⟩ := x.rxqEnqueue_cases vndev virtToPhys buf
    · dsimp only
      rw [heq]
      have hfits : (x.netbuf b.cookie).fits = true := by
        cases site with
        | setup | recv again => exact hp.2 _ mem_cons_self
      have hinv' := h.inv.step op
      refine ⟨⟨hinv', ?_, (hsizes m).adds h.inv hinv' hadds ?_ fun _ _ => rfl, h.up, h.error, h.failed⟩, ?_⟩
      · change Once x.fresh x.lwip x.freed x.pkt rest (posted (x.q.step op))
        intro i
        have hone := hacc i
        change _ + ([b.cookie] ++ rest).count i + _ = _ at hone
        rw [count_append] at hone
        rw [posted_adds hadds]
        omega
      · change (update x.netbuf b.cookie m b.cookie).len.toNat ≤ (update x.netbuf b.cookie m b.cookie).buflen
        rw [update_self]
        exact rxSglist_len hsg hfits
      · have hkept : ∀ c ∈ rest, (update x.netbuf b.cookie m c).fits = (x.netbuf c).fits := by
          intro c hc
          rw [update_of_ne]
          rintro rfl
          exact hrest hc
        cases site with
        | setup | recv again => exact ⟨hp.1, fun c hc => (hkept c hc).trans (hp.2 c (mem_cons_of_mem _ hc))⟩
    · dsimp only
      rw [heq]
      refine ⟨⟨h.inv, ?_, hsizes m, h.up, h.error, h.failed⟩, ?_⟩
      · change Once x.fresh x.lwip (x.freed ++ buf :: rest) x.pkt [] (posted x.q)
        intro i
        have hone := hacc i
        change _ + (buf :: rest).count i + _ = _ at hone
        rw [count_append, count_nil]
        omega
      · cases site with
        | setup | recv again => exact hp.1

/-! #### Back in lwIP -/

private theorem FrameBase.back (h : FrameBase vndev x) {more : Bool} (hb : batch x.pc = []) (htold : Told x)
    (hmore : more = true → 0 < x.q.used.length) : FrameInv vndev (x.back again more) := by
  unfold NetRx.back
  split
  · exact h.goto hb.symm htold
  · split
    · rename_i hnil
      cases more with
      | true => exact h.goto (p := .dequeue true) hb.symm ⟨isEmpty_iff.1 hnil, fun _ => hmore rfl⟩
      | false => exact h.goto (p := .ret) hb.symm htold
    · exact h.goto hb.symm htold

private theorem FrameInv.afterRecv (h : FrameInv vndev x) (hpc : x.pc = .ret) : FrameInv vndev x.afterRecv := by
  have htold := h.point
  rw [hpc] at htold
  unfold NetRx.afterRecv
  rw [if_neg (by rw [h.error]; exact Bool.false_ne_true)]
  rw [htold, Bool.not_not]
  split
  · rename_i hnil
    exact h.toFrameBase.goto (by rw [hpc]; rfl) (isEmpty_iff.1 hnil)
  · rename_i hne
    refine h.toFrameBase.goto (by rw [hpc]; rfl) fun hnil => hne ?_
    rw [show x.pkt = [] from hnil]
    rfl

private theorem FrameBase.begin (h : FrameBase vndev x) (hb : batch x.pc = []) (hpkt : x.pkt = []) :
    FrameInv vndev x.begin := by
  refine ⟨⟨h.inv, ?_, h.sizes, h.up, rfl, h.failed⟩, rfl, nofun⟩
  have hacc : Once x.fresh x.lwip x.freed x.pkt (batch x.pc) (posted x.q) := h.accounted
  rw [hb, hpkt] at hacc
  exact hacc

private theorem FrameBase.leave (h : FrameBase vndev x) (lwip freed : List Nat)
    (hacc : Once x.fresh lwip freed [] [] (posted x.q)) :
    FrameInv vndev (if x.status.more then { x with lwip := lwip, freed := freed }.begin
      else { x with lwip := lwip, freed := freed, pc := .idle, pkt := [] }) := by
  split
  · exact ⟨⟨h.inv, hacc, h.sizes, h.up, rfl, h.failed⟩, rfl, nofun⟩
  · exact ⟨⟨h.inv, hacc, h.sizes, h.up, h.error, h.failed⟩, rfl⟩

private theorem FrameInv.input (h : FrameInv vndev x) (hpc : x.pc = .input) {taken : Bool}
    (hfine : (taken || decide (x.pkt.length ≤ 1)) = true) : FrameInv vndev (x.input taken) := by
  have hp := h.point
  have hacc := h.accounted
  rw [hpc] at hp hacc
  unfold NetRx.input
  cases hpkt : x.pkt with
  | nil => exact absurd hpkt hp
  | cons nb rest =>
    rw [Accounted, hpkt] at hacc
    cases taken with
    | true =>
      refine h.toFrameBase.leave (x.lwip ++ nb :: rest) x.freed fun i => ?_
      have hone := hacc i
      change _ + ([] : List Nat).count i + _ = _ at hone
      rw [count_nil] at hone
      rw [count_append, count_nil]
      omega
    | false =>
      rw [Bool.false_or, decide_eq_true_eq, hpkt, length_cons] at hfine
      obtain rfl : rest = [] := eq_nil_of_length_eq_zero (by omega)
      refine h.toFrameBase.leave x.lwip (x.freed ++ [nb]) fun i => ?_
      have hone := hacc i
      change _ + ([] : List Nat).count i + _ = _ at hone
      rw [count_nil] at hone
      rw [count_append, count_nil]
      omega

private theorem FrameInv.driver (h : FrameInv vndev x) (o : NetOutside)
    (hfine : x.frameFine vndev (.driver o) = true) :
    FrameInv vndev (x.driver vndev virtToPhys o) := by
  have hp := h.point
  unfold NetRx.driver
  unfold frameFine at hfine
  dsimp only at hfine
  cases hpc : x.pc with rw [hpc] at hp
  | idle => exact h
  | dequeue again =>
    rw [hpc] at hfine
    exact h.rxqDequeue hpc hfine
  | merge again n => exact h.rxqMerge hpc
  | request site nbDesc filled =>
    rw [hpc] at hfine
    exact h.rxRequest hpc hfine
  | post site nbDesc filled bufs short => exact h.rxPost hpc
  | notify site filled =>
    cases site with
    | setup => exact h.toFrameBase.goto (by rw [hpc]; rfl) hp
    | recv again =>
      have hbase : FrameBase vndev { x with q := if filled = 0 then x.q else x.q.step .hostNotify } := by
        split
        · exact h.toFrameBase
        · exact h.toFrameBase.quiet .hostNotify trivial nofun
      cases again with
      | true => exact hbase.goto (p := .look true) (by rw [hpc]; rfl) hp
      | false => exact hbase.goto (p := .testUsr) (by rw [hpc]; rfl) hp
  | testUsr =>
    dsimp only
    split
    · exact h.toFrameBase.goto (by rw [hpc]; rfl) hp
    · exact h.toFrameBase.goto (by rw [hpc]; rfl) hp
  | look again =>
    dsimp only
    split
    · rename_i hdata
      exact h.toFrameBase.back (by rw [hpc]; rfl) hp fun _ => (hasdata_iff x.q).1 hdata
    · exact h.toFrameBase.goto (by rw [hpc]; rfl) hp
  | arm again => exact (h.toFrameBase.quiet .intrArm trivial nofun).goto (by rw [hpc]; rfl) hp
  | relook again =>
    dsimp only
    split
    · rename_i hdata
      exact h.toFrameBase.goto (by rw [hpc]; rfl) ⟨hp, (hasdata_iff x.q).1 hdata⟩
    · exact h.toFrameBase.back (by rw [hpc]; rfl) hp nofun
  | disarm again =>
    have hused := (h.inv.sameBuffers .intrDisable trivial).used
    exact (h.toFrameBase.quiet .intrDisable trivial nofun).back (by rw [hpc]; rfl) hp.1 fun _ => hp.2.trans_le hused
  | ret => exact h.afterRecv hpc
  | input =>
    rw [hpc] at hfine
    exact h.input hpc hfine

/-- Every step of the device and of the driver keeps the invariant. -/
theorem FrameInv.step (h : FrameInv vndev x) (a : NetAct) (hfine : x.frameFine vndev a = true) :
    FrameInv vndev (x.step vndev virtToPhys a) := by
  unfold NetRx.step
  rw [if_neg (by rw [h.failed]; exact Bool.false_ne_true)]
  cases a with
  | fetch => exact h.quiet .fetch trivial nofun
  | publish i len hdr => exact h.publish i len hdr
  | setAvailEvent e => exact h.quiet (.setAvailEvent e) trivial nofun
  | setUsedFlags flags => exact h.quiet (.setUsedFlags flags) trivial nofun
  | call =>
    dsimp only
    split
    · rename_i hpc
      have hp := h.point
      rw [hpc] at hp
      exact h.toFrameBase.begin (by rw [hpc]; rfl) hp
    · exact h
  | driver o => exact h.driver o hfine

/-- The interface is up and nothing has failed, every buffer that was allocated is in one place, and
none of them stays with the driver. -/
structure FrameOk (x : NetRx) : Prop where
  up : x.up = true
  error : x.error = false
  failed : x.failed = false
  accounted : Accounted x x.pc
  handed : x.pc = .idle → x.pkt = []

private theorem FrameInv.ok (h : FrameInv vndev x) : FrameOk x := by
  refine ⟨h.up, h.error, h.failed, h.accounted, fun hpc => ?_⟩
  have hp := h.point
  rw [hpc] at hp
  exact hp

theorem FrameInv.init (order : Fin 16) (usesEventIdx usrEn : Bool) :
    FrameInv vndev (NetRx.init vndev order usesEventIdx usrEn) := by
  refine ⟨⟨inv_init order usesEventIdx true, fun i => rfl, ⟨fun e he => ?_, nofun⟩, rfl, rfl, rfl⟩, rfl⟩
  exact nofun

end

end NetRx

/-- In every run that meets the condition no frame stops the interface, and every buffer is accounted for. -/
theorem rx_frames_handled {vndev : VirtioNetDevice} {virtToPhys : BitVec 64 → BitVec 64} {order : Fin 16}
    {usesEventIdx usrEn : Bool}
    {as : List NetAct} (h : Meets (step vndev virtToPhys) (fun x a => x.frameFine vndev a = true)
      (NetRx.init vndev order usesEventIdx usrEn) as) :
    Always (step vndev virtToPhys) FrameOk (NetRx.init vndev order usesEventIdx usrEn) as :=
  h.always (fun _ a hs ha => hs.step a ha) (fun _ hs => hs.ok) (FrameInv.init order usesEventIdx usrEn)

theorem rx_frames_handled_refused : Always (step modernDevice id) FrameOk (NetRx.init modernDevice 1 false false)
    (List.replicate 6 (.driver ⟨[pageBuffer, pageBuffer], true⟩) ++
      [.fetch, .publish 0 100 ⟨true, false, 0, 0, 1⟩, .call] ++
      List.replicate 8 (.driver ⟨[pageBuffer], false⟩)) :=
  rx_frames_handled (by decide +kernel)

/-- The device places an empty frame in the ring: the interface is taken down. -/
theorem not_rx_frames_handled : ¬ Always (step modernDevice id) FrameOk (NetRx.init modernDevice 1 false false)
    (List.replicate 6 (.driver ⟨[pageBuffer, pageBuffer], true⟩) ++
      [.fetch, .publish 0 0 ⟨true, false, 0, 0, 1⟩, .call] ++
      List.replicate 2 (.driver ⟨[pageBuffer], true⟩)) := by
  intro h
  have hup := h.last.up
  revert hup
  decide +kernel

end Unikraft.Virtio.Net
