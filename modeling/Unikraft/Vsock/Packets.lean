import Mathlib.Data.List.TakeDrop
import Unikraft.Virtio.Net.Recv
import Unikraft.Vsock.Table

/-!
# Looking up the connection of a packet

The table is a tree that is ordered by the whole keys, and searched with keys of which parts are masked. The search
finds what there is, in a tree of any shape, since every search key is a cut of the order. A packet is meant to affect
only the socket of its connection. But `uk_vsock_lookup` falls back to the socket without peer on the port, and the
comparison ignores the upper half of the source CID. An assertion fails for a packet shorter than its header, and data
beyond the announced length is received as well.
-/

namespace Unikraft.Vsock

open SearchTree SearchTree.Tree World

def sockaddrCmp (a b : UkVsockConnId) : Int :=
  match ukVsockSockaddrCmp a b with
  | .lt => -1
  | .eq => 0
  | .gt => 1

private theorem sockaddrCmp_neg {a b : UkVsockConnId} : sockaddrCmp a b < 0 ↔ ukVsockSockaddrCmp a b = .lt := by
  unfold sockaddrCmp
  cases ukVsockSockaddrCmp a b <;> simp

private theorem sockaddrCmp_pos {a b : UkVsockConnId} : 0 < sockaddrCmp a b ↔ ukVsockSockaddrCmp a b = .gt := by
  unfold sockaddrCmp
  cases ukVsockSockaddrCmp a b <;> simp

private theorem sockaddrCmp_zero {a b : UkVsockConnId} : sockaddrCmp a b = 0 ↔ ukVsockSockaddrCmp a b = .eq := by
  unfold sockaddrCmp
  cases ukVsockSockaddrCmp a b <;> simp

/-- The results for two keys in this order are in this order. -/
def Falls (o o' : Ordering) : Prop := (o = .lt → o' = .lt) ∧ (o' = .gt → o = .gt)

/-- One component: either it decides for both keys, or the rest does. -/
private theorem Falls.cmpId {x a b : BitVec 32} {m : Bool} {o o' rest : Ordering} (h : cmpId a b false rest = .lt)
    (hrest : a = b → rest = .lt → Falls o o') (hmask : m = true → Falls o o') :
    Falls (Vsock.cmpId x a m o) (Vsock.cmpId x b m o') := by
  unfold Vsock.cmpId at h ⊢
  cases m with
  | true => simpa using hmask rfl
  | false =>
    by_cases hab : a = b
    · subst hab
      have hr := hrest rfl (by simpa using h)
      by_cases hx : x = a
      · simpa [hx] using hr
      · simp [hx, Falls]
    · have hlt : a < b := by
        by_contra hge
        simp [hab, hge] at h
      by_cases hxa : x = a
      · subst hxa
        simp [hab, hlt, Falls]
      · by_cases hxb : x = b
        · subst hxb
          simp [hxa, BitVec.not_lt.2 (BitVec.le_of_lt hlt), Falls]
        · by_cases hx : x < a
          · simp [hxa, hxb, hx, BitVec.lt_trans hx hlt, Falls]
          · simp [hxa, hx, Falls]

private theorem Falls.refl (o : Ordering) : Falls o o := ⟨id, id⟩

/-- Masks of search keys: the local port is never masked, and the port of the peer is masked with its CID. -/
def ConnIdMask.Searches (m : ConnIdMask) : Prop := m.localPort = false ∧ (m.peerCid = true → m.peerPort = true)

private theorem falls_ukVsockSockaddrCmp {k a b : UkVsockConnId} (hk : k.mask.Searches) (ha : a.mask = {})
    (hb : b.mask = {}) (hcid : a.localAddr.cid = b.localAddr.cid) (h : ukVsockSockaddrCmp a b = .lt) :
    Falls (ukVsockSockaddrCmp k a) (ukVsockSockaddrCmp k b) := by
  obtain ⟨hport, hpeer⟩ := hk
  unfold ukVsockSockaddrCmp at h ⊢
  rw [ha, hb] at h ⊢
  simp only [Bool.or_false] at h ⊢
  by_cases hab : a.type = b.type
  · rw [if_neg (not_not.2 hab), hcid, show ∀ o, cmpId b.localAddr.cid b.localAddr.cid false o =
        o from fun o => by simp [cmpId]] at h
    rw [hab]
    split
    · exact .refl _
    · have hlocal := Falls.cmpId (x := k.localAddr.port) (m := k.mask.localPort) h
        (fun _ h => .cmpId (x := k.peer.cid) (m := k.mask.peerCid) h
          (fun _ h => .cmpId (x := k.peer.port) (m := k.mask.peerPort) h (fun _ _ => .refl .eq) fun _ => .refl .eq)
          fun hm => by simp [hpeer hm, cmpId, Falls])
        fun hm => by rw [hport] at hm; cases hm
      rw [hcid]
      unfold cmpId at hlocal ⊢
      split
      · exact .refl _
      · exact hlocal
  · rw [if_pos hab] at h
    have hval : a.type.val < b.type.val := by
      by_contra hge
      simp [hge] at h
    by_cases hka : k.type = a.type
    · rw [hka, if_pos hab, if_pos hval]
      exact ⟨fun _ => rfl, nofun⟩
    · have hgt : ¬ k.type.val < a.type.val := by
        revert hka hval
        cases k.type <;> cases a.type <;> cases b.type <;> decide
      rw [if_pos hka, if_neg hgt]
      exact ⟨nofun, fun _ => rfl⟩

/-- A tree of sockets with one local CID, ordered by their keys. -/
structure SockTree (w : World) (t : SearchTree.Tree SockId) : Prop where
  sorted : Sorted sockaddrCmp w.keyOf t.toList
  cid : ∀ s ∈ t.toList, ∀ u ∈ t.toList, (w.sock s).localAddr.cid = (w.sock u).localAddr.cid

variable {w : World} {t : SearchTree.Tree SockId} {s : SockId}

private theorem SockTree.cut (h : SockTree w t) {k : UkVsockConnId} (hk : k.mask.Searches) :
    Cut sockaddrCmp w.keyOf k t.toList :=
  h.sorted.imp_of_mem fun {a b} ha hb hlt => by
    rw [sockaddrCmp_neg, sockaddrCmp_neg, sockaddrCmp_pos, sockaddrCmp_pos]
    exact falls_ukVsockSockaddrCmp hk rfl rfl (h.cid a ha b hb) (sockaddrCmp_neg.1 hlt)

private theorem SockTree.eq_of_key (h : SockTree w t) {u : SockId} (hs : s ∈ t.toList) (hu : u ∈ t.toList)
    (hk : w.keyOf s = w.keyOf u) :
    s = u := by
  refine h.sorted.eq_of_key (fun k hk => ?_) hs hu hk
  obtain ⟨v, -, rfl⟩ := List.mem_map.1 hk
  exact sockaddrCmp_zero.2 ((sockaddrCmp_eq_iff rfl rfl).2 rfl)

def treeLookup (w : World) (t : SearchTree.Tree SockId) (sockType : SockType) (localAddr peer : UkVsockaddr) :
    Option SockId :=
  match find sockaddrCmp w.keyOf ⟨sockType, localAddr, peer, {}⟩ t with
  | some s => some s
  | none => find sockaddrCmp w.keyOf ⟨sockType, localAddr, .any, { localCid := true }⟩ t

def treeBindOther (w : World) (t : SearchTree.Tree SockId) (sockType : SockType) (port : BitVec 32) : Option SockId :=
  find sockaddrCmp w.keyOf ⟨sockType, ⟨0, port⟩, .any, { localCid := true }⟩ t

def treePortUser (w : World) (t : SearchTree.Tree SockId) (sockType : SockType) (port : BitVec 32) : Option SockId :=
  find sockaddrCmp w.keyOf ⟨sockType, ⟨0, port⟩, ⟨0, 0⟩, { localCid := true, peerCid := true, peerPort := true }⟩ t

/-- The socket has the type and the local port, and no peer. -/
def World.Waits (w : World) (s : SockId) (sockType : SockType) (port : BitVec 32) : Prop :=
  (w.sock s).sockType = sockType ∧ (w.sock s).localAddr.port = port ∧ (w.sock s).peerAddr = .any

private theorem sockaddrCmp_waits {ty : SockType} {a : UkVsockaddr} :
    sockaddrCmp ⟨ty, a, .any, { localCid := true }⟩ (w.keyOf s) = 0 ↔ w.Waits s ty a.port := by
  rw [sockaddrCmp_zero, sockaddrCmp_eq]
  simp only [keyOf, VirtioVsock.key, Waits, Bool.or_false, true_or, true_and, Bool.false_eq_true, false_or]
  cases (w.sock s).peerAddr
  simp [UkVsockaddr.any, eq_comm]

section
variable (h : SockTree w t) {ty : SockType} {a peer : UkVsockaddr}
include h

/-- The first descent finds the socket with this key. -/
theorem SockTree.find_exact : find sockaddrCmp w.keyOf ⟨ty, a, peer, {}⟩ t = some s ↔
    s ∈ t.toList ∧ w.keyOf s = ⟨ty, a, peer, {}⟩ := by
  have hexact (s : SockId) : sockaddrCmp ⟨ty, a, peer, {}⟩ (w.keyOf s) = 0 ↔ w.keyOf s = ⟨ty, a, peer, {}⟩ := by
    rw [sockaddrCmp_zero, sockaddrCmp_eq_iff rfl rfl, eq_comm]
  rw [find_eq_some_iff (h.cut ⟨rfl, fun hm => by cases hm⟩) fun b hb h0 c hc h0' =>
    h.eq_of_key hb hc (((hexact b).1 h0).trans ((hexact c).1 h0').symm), hexact]

private theorem SockTree.find_waits :
    find sockaddrCmp w.keyOf ⟨ty, a, .any, { localCid := true }⟩ t = some s ↔ s ∈ t.toList ∧ w.Waits s ty a.port := by
  rw [find_eq_some_iff (h.cut ⟨rfl, fun hm => by cases hm⟩) fun b hb h0 c hc h0' => ?_, sockaddrCmp_waits]
  obtain ⟨hty, hport, hpeer⟩ := sockaddrCmp_waits.1 h0
  obtain ⟨hty', hport', hpeer'⟩ := sockaddrCmp_waits.1 h0'
  have haddr : (w.sock b).localAddr = (w.sock c).localAddr := 
    congrArg₂ UkVsockaddr.mk (h.cid b hb c hc) (hport.trans hport'.symm)
  exact h.eq_of_key hb hc (by simp only [keyOf, VirtioVsock.key, hty, hty', haddr, hpeer, hpeer'])

/-- The searches return what they are meant to, whatever the shape of the tree. -/
theorem treeLookup_exact (ty : SockType) (a peer : UkVsockaddr) (port : BitVec 32) :
    (∀ s, treeLookup w t ty a peer = some s ↔ s ∈ t.toList ∧ (w.keyOf s = ⟨ty, a, peer, {}⟩ ∨
      (∀ u ∈ t.toList, w.keyOf u ≠ ⟨ty, a, peer, {}⟩) ∧ w.Waits s ty a.port)) ∧
    ((treeBindOther w t ty port).isSome = true ↔ ∃ s ∈ t.toList, w.Waits s ty port) ∧
    ((treePortUser w t ty port).isSome = true ↔ ∃ s ∈ t.toList, (w.sock s).sockType = ty ∧
      (w.sock s).localAddr.port = port) := by
  refine ⟨fun s => ?_, ?_, ?_⟩
  · unfold treeLookup
    cases hf : find sockaddrCmp w.keyOf ⟨ty, a, peer, {}⟩ t with
    | some u =>
      obtain ⟨hu, hku⟩ := h.find_exact.1 hf
      rw [Option.some_inj]
      constructor
      · rintro rfl
        exact ⟨hu, .inl hku⟩
      · rintro ⟨hs, hks | ⟨hno, -⟩⟩
        · exact h.eq_of_key hu hs (hku.trans hks.symm)
        · exact absurd hku (hno u hu)
    | none =>
      have hno : ∀ u ∈ t.toList, w.keyOf u ≠ ⟨ty, a, peer, {}⟩ := by
        intro u hu hk
        rw [h.find_exact.2 ⟨hu, hk⟩] at hf
        cases hf
      rw [h.find_waits]
      exact ⟨fun ⟨hs, hw⟩ => ⟨hs, .inr ⟨hno, hw⟩⟩, fun ⟨hs, hor⟩ => ⟨hs, (hor.resolve_left (hno s hs)).2⟩⟩
  · rw [treeBindOther, find_isSome_iff (h.cut ⟨rfl, fun hm => by cases hm⟩)]
    simp only [sockaddrCmp_waits]
  · rw [treePortUser, find_isSome_iff (h.cut ⟨rfl, fun _ => rfl⟩)]
    refine exists_congr fun s => and_congr_right fun _ => ?_
    rw [sockaddrCmp_zero, sockaddrCmp_eq]
    simp [keyOf, VirtioVsock.key, eq_comm]

/-- The model searches the list of the sockets in the tree with the same result. -/
theorem treeLookup_eq (hm : ∀ s, s ∈ t.toList ↔ s ∈ w.sockets) (ty : SockType) (a peer : UkVsockaddr) :
    treeLookup w t ty a peer = ukVsockLookup w ty a peer := by
  have hfind {k : UkVsockConnId} {P : SockId → Prop}
    (hk : ∀ s, find sockaddrCmp w.keyOf k t = some s ↔ s ∈ t.toList ∧ P s)
      (hP : ∀ s, ukVsockSockaddrCmp k (w.keyOf s) = .eq ↔ P s) : find sockaddrCmp w.keyOf k t = w.rbFind k := by
    refine Option.ext fun s => (hk s).trans ⟨fun ⟨hs, hp⟩ => ?_, fun hs => ?_⟩
    · refine OrdSet.find_of_unique ((hm s).1 hs) ((hP s).2 hp) fun u hu hequ => ?_
      have hs' := (hk s).2 ⟨hs, hp⟩
      rw [(hk u).2 ⟨(hm u).2 hu, (hP u).1 hequ⟩] at hs'
      exact Option.some.inj hs'
    · obtain ⟨hs, heqs⟩ := OrdSet.find_eq_some hs
      exact ⟨(hm s).2 hs, (hP s).1 heqs⟩
  unfold treeLookup ukVsockLookup
  rewrite [hfind (fun s => h.find_exact) fun s => by rw [sockaddrCmp_eq_iff rfl rfl, eq_comm],
    hfind (fun s => h.find_waits) fun s => by rw [← sockaddrCmp_zero, sockaddrCmp_waits]]
  rfl

end

/-- The table of a server with one connection, whose socket is above or below the listening one. -/
theorem treeLookup_exact_served : treeLookup served (.node .leaf 1 (.node .leaf 0 .leaf)) .STREAM ⟨3, 1000⟩ ⟨2, 5⟩ =
    some 1 ∧
      treeLookup served (.node (.node .leaf 1 .leaf) 0 .leaf) .STREAM ⟨3, 1000⟩ ⟨2, 6⟩ = some 0 := by
  have h₁ : SockTree served (.node .leaf 1 (.node .leaf 0 .leaf)) := ⟨by unfold Sorted; decide, by decide⟩
  have h₂ : SockTree served (.node (.node .leaf 1 .leaf) 0 .leaf) := ⟨by unfold Sorted; decide, by decide⟩
  refine ⟨((treeLookup_exact h₁ .STREAM ⟨3, 1000⟩ ⟨2, 5⟩ 0).1 1).2 ⟨by decide, .inl (by decide)⟩,
    ((treeLookup_exact h₂ .STREAM ⟨3, 1000⟩ ⟨2, 6⟩ 0).1 0).2 ⟨by decide, .inr ⟨by decide, by unfold Waits; decide⟩⟩⟩

theorem treeLookup_eq_served : treeLookup served (.node .leaf 1 (.node .leaf 0 .leaf)) .STREAM ⟨3, 1000⟩ ⟨2, 6⟩ =
    ukVsockLookup served .STREAM ⟨3, 1000⟩ ⟨2, 6⟩ :=
  treeLookup_eq ⟨by unfold Sorted; decide, by decide⟩ (fun s => iff_of_eq (congrArg (s ∈ ·) (by decide))) .STREAM _ _

open VirtioVsock

/-- The socket is the same as far as the connection is concerned. -/
structure Untouched (v v' : VirtioVsock) : Prop where
  state : v'.state = v.state
  localAddr : v'.localAddr = v.localAddr
  peerAddr : v'.peerAddr = v.peerAddr
  rx : v'.rx = v.rx
  rxShutdown : v'.rxShutdown = v.rxShutdown
  txShutdown : v'.txShutdown = v.txShutdown
  peerBufAlloc : v'.peerBufAlloc = v.peerBufAlloc
  peerFwdCount : v'.peerFwdCount = v.peerFwdCount
  txCount : v'.txCount = v.txCount
  posixSock : v'.posixSock = v.posixSock
  acceptQueue : v'.acceptQueue = v.acceptQueue

private theorem Untouched.refl (v : VirtioVsock) : Untouched v v :=
  ⟨rfl, rfl, rfl, rfl, rfl, rfl, rfl, rfl, rfl, rfl, rfl⟩

structure Unaffected (w : World) (pkt : Packet) (w' : World) (s : SockId) : Prop where
  sock : Untouched (w.sock s) (w'.sock s) ∨
    (pkt.hdr.op = OP_REQUEST ∧ (w.sock s).state = .LISTENING ∧
      ∃ entry, Untouched ((w.sock s).enqueue entry) (w'.sock s))
  table : s ∈ w.sockets → s ∈ w'.sockets

/-- The packet is not dispatched, belongs to the socket it is dispatched to, or does nothing to others. -/
def RxAddressed (w : World) (pkt : Packet) : Prop :=
  ∀ s, rxTarget w pkt = some s → (w.sock s).Matches pkt.hdr ∨ pkt.hdr.op = OP_REQUEST ∨
    (pkt.hdr.op = OP_SHUTDOWN ∧ (w.sock s).state ≠ .OPEN)

variable {pkt : Packet} {w : World} {s : SockId}

private theorem handled_unaddressed {v v' : VirtioVsock} (hh : Handled pkt (v.credited pkt.hdr) v')
    (ho : pkt.hdr.op = OP_REQUEST ∨ (pkt.hdr.op = OP_SHUTDOWN ∧ v.state ≠ .OPEN)) :
    v' = v ∨ (pkt.hdr.op = OP_REQUEST ∧ v.state = .LISTENING ∧ ∃ entry, v' = v.enqueue entry) := by
  have hid : v.credited pkt.hdr = v := by
    rcases ho with ho | ⟨ho, -⟩
    · exact v.credited_request ho
    · exact v.credited_shutdown ho
  rw [hid] at hh
  cases hh with
  | same => exact .inl rfl
  | request req ho' hs hl => exact .inr ⟨ho', hs, _, rfl⟩
  | shutdown ho' hs | shutdownClose ho' hs =>
    rcases ho with ho | ⟨-, hn⟩
    · rw [ho] at ho'
      cases ho'
    · exact absurd hs hn
  | response ho' | badResponse ho' | resetEvents ho' | refused ho' | resetWait ho' | resetOpen ho' | payload _ ho' =>
    rcases ho with ho | ⟨ho, -⟩ <;> rw [ho] at ho' <;> cases ho'

def Isolated (w : World) (pkt : Packet) : Prop :=
  ∀ s, ¬ (w.sock s).Matches pkt.hdr → Unaffected w pkt (virtioVsockdevWorkRx w pkt).1 s

private theorem isolated_of_rxAddressed (h : RxAddressed w pkt) : Isolated w pkt := by
  intro s hs
  rcases workRx_cases w pkt with ⟨-, he⟩ | ⟨t, w1, v', ht, hc, -, hh, he⟩
  · rw [he]
    exact ⟨.inl (.refl _), id⟩
  rw [he]
  by_cases hst : s = t
  swap
  · refine ⟨.inl ?_, fun hm => settle_mem (by rwa [hc.sockets_eq]) fun h => absurd h hst⟩
    rw [settle_of_ne _ _ hst, hc.sock_eq]
    exact .refl _
  subst hst
  have ho : pkt.hdr.op = OP_REQUEST ∨ (pkt.hdr.op = OP_SHUTDOWN ∧ (w.sock s).state ≠ .OPEN) :=
    (h s ht).resolve_left hs
  have hv := handled_unaddressed hh ho
  refine ⟨?_, fun hm => settle_mem (by rwa [hc.sockets_eq]) fun _ => ?_⟩
  · rw [settle_sock_self]
    rcases hv with rfl | ⟨ho, hl, entry, rfl⟩
    · exact .inl (.refl _)
    · exact .inr ⟨ho, hl, entry, .refl _⟩
  · rw [hc.sock_eq]
    rcases hv with rfl | ⟨-, -, entry, rfl⟩ <;> exact id

private theorem Handled.peerBufAlloc_eq {v v' : VirtioVsock} (h : Handled pkt v v') :
    v'.peerBufAlloc = v.peerBufAlloc := by
  cases h with
  | same | request | response | resetEvents | refused | resetWait | resetOpen | payload => rfl
  | badResponse => rw [closed_eq]
  | shutdown => rw [shutdownBy_eq]
  | shutdownClose => rw [closed_eq, shutdownBy_eq]

private theorem peerBufAlloc_of_rx (ht : rxTarget w pkt = some s) (hr : pkt.hdr.op ≠ OP_REQUEST)
    (hs : pkt.hdr.op ≠ OP_SHUTDOWN) :
    ((virtioVsockdevWorkRx w pkt).1.sock s).peerBufAlloc = pkt.hdr.bufAlloc := by
  rcases workRx_cases w pkt with ⟨hn, -⟩ | ⟨t, w1, v', ht', -, -, hh, he⟩
  · rw [ht] at hn
    cases hn
  obtain rfl : s = t := by simpa [ht] using ht'
  have hst : storesCredit pkt.hdr = true := by
    simp only [storesCredit, Bool.and_eq_true, bne_iff_ne]
    exact ⟨hr, hs⟩
  rw [he, settle_sock_self, hh.peerBufAlloc_eq, credited_eq]
  simp [hst]

private theorem closed_of_rx (ht : rxTarget w pkt = some s)
    (ho : pkt.hdr.op = OP_SHUTDOWN) (hf : pkt.hdr.flags = shutdownFlags true true) (hs : (w.sock s).state = .OPEN)
    (henv : ∀ i, w.env i = Outcome.good) : ((virtioVsockdevWorkRx w pkt).1.sock s).state = .CLOSED := by
  have hid := w.modify_credited s (·.credited_shutdown ho)
  have hh : rxHandler w s pkt = ukVsockClose (w.modify s fun v => v.shutdownBy true true) s false := by
    simp only [rxHandler, ho, hf]
    show ukVsockConnShutdown w s true true = _
    simp [ukVsockConnShutdown, hs, shutdownBy_eq]
  rw [workRx_of_target ht, if_neg (by simp [hs]), hid, hh]
  obtain ⟨w1, -, ⟨e, -, ⟨i, hi⟩, h⟩ | ⟨hn, -⟩ | ⟨-, h⟩⟩ :=
    close_cases (w.modify s fun v => v.shutdownBy true true) s false
  · exact absurd (henv i) hi
  · simp [hs, UkVsockState.inTable] at hn
  · rw [h, settle_sock_self, closed_state]

def Packet.withFields (pkt : Packet) (bufAlloc fwdCnt flags : BitVec 32) : Packet :=
  { pkt with hdr := { pkt.hdr with bufAlloc := bufAlloc, fwdCnt := fwdCnt, flags := flags } }

/-- Whatever its other fields are and the driver does, a packet only affects the connection it belongs to exactly if
it is dispatched to that, is a request, or is a `SHUTDOWN` packet for a socket that is not open. -/
private theorem isolated_iff_rxAddressed (w : World) (pkt : Packet) :
    (∀ env bufAlloc fwdCnt flags, Isolated { w with env := env } (pkt.withFields bufAlloc fwdCnt flags)) ↔
      RxAddressed w pkt := by
  constructor
  · intro h s ht
    by_contra hn
    have hm : ¬ (w.sock s).Matches pkt.hdr := fun hm => hn (.inl hm)
    have hr : pkt.hdr.op ≠ OP_REQUEST := fun hr => hn (.inr (.inl hr))
    by_cases ho : pkt.hdr.op = OP_SHUTDOWN
    · have hs : (w.sock s).state = .OPEN := by
        by_contra hs
        exact hn (.inr (.inr ⟨ho, hs⟩))
      -- With both flags and a driver that does not fail, the socket is closed.
      let wg : World := { w with env := fun _ => .good }
      have hc : ((virtioVsockdevWorkRx wg (pkt.withFields 0 0 (shutdownFlags true true))).1.sock s).state = .CLOSED :=
        closed_of_rx ht ho rfl hs fun _ => rfl
      rcases (h (fun _ => .good) 0 0 (shutdownFlags true true) s hm).sock with hu | ⟨hu, -⟩
      · rw [hu.state] at hc
        exact absurd (hs.symm.trans hc) (by simp)
      · exact hr hu
    · have hb : ((virtioVsockdevWorkRx w (pkt.withFields ((w.sock s).peerBufAlloc + 1) 0 0)).1.sock s).peerBufAlloc =
          (w.sock s).peerBufAlloc + 1 := peerBufAlloc_of_rx ht hr ho
      rcases (h w.env ((w.sock s).peerBufAlloc + 1) 0 0 s hm).sock with hu | ⟨hu, -⟩
      · have heq : (w.sock s).peerBufAlloc = (w.sock s).peerBufAlloc + 1 := hu.peerBufAlloc.symm.trans hb
        exact absurd heq (by bv_omega)
      · exact hr hu
  · intro h env bufAlloc fwdCnt flags
    have ha : RxAddressed { w with env := env } (pkt.withFields bufAlloc fwdCnt flags) := h
    exact isolated_of_rxAddressed ha

/-- In every state of every run, the packets that only affect the connection they belong to are the addressed ones. -/
theorem isolated_run_iff (cid : BitVec 32) (env : Nat → Outcome) (ops : List Op) (pkt : Packet) :
    (∀ env' bufAlloc fwdCnt flags, Isolated { Runs.run step (World.init cid env) ops with env := env' }
        (pkt.withFields bufAlloc fwdCnt flags)) ↔
      RxAddressed (Runs.run step (World.init cid env) ops) pkt :=
  isolated_iff_rxAddressed _ pkt

/-- A stray `RESPONSE` closes a bound socket. -/
theorem not_isolated_of_run : ¬ ∀ (cid : BitVec 32) (env : Nat → Outcome) (ops : List Op) (pkt : Packet),
      Isolated (Runs.run step (World.init cid env) ops) pkt := by
  intro h
  have hu :=
    h 3 (fun _ => .good) [.socket 1 0, .bind 0 ⟨AF_VSOCK, 1000, CID_ANY⟩ 16] (peerPacket OP_RESPONSE 100 0 []) 0
    (by unfold VirtioVsock.Matches; decide)
  have hm := hu.table (by decide)
  revert hm
  decide

open Virtio.Net (Netbuf PAGE_SIZE ukNetbufHeader header_pull)
def leNat : List UInt8 → Nat
  | [] => 0
  | b :: bytes => b.toNat + 256 * leNat bytes

/-- A field of `n` bits at an offset, if it lies within the bytes received. -/
def field (bytes : List UInt8) (offset n : Nat) : Option (BitVec n) :=
  if offset + n / 8 ≤ bytes.length then some (BitVec.ofNat n (leNat ((bytes.drop offset).take (n / 8)))) else none

def VirtioVsockHdr.ofBytes (bytes : List UInt8) : Option VirtioVsockHdr := do
  let srcCid ← field bytes 0 64
  let dstCid ← field bytes 8 64
  let srcPort ← field bytes 16 32
  let dstPort ← field bytes 20 32
  let len ← field bytes 24 32
  let type ← field bytes 28 16
  let op ← field bytes 30 16
  let flags ← field bytes 32 32
  let bufAlloc ← field bytes 36 32
  let fwdCnt ← field bytes 40 32
  return { srcCid, dstCid, srcPort, dstPort, len, type, op, flags, bufAlloc, fwdCnt }

private theorem VirtioVsockHdr.exists_ofBytes {bytes : List UInt8} (h : sizeofHdr ≤ bytes.length) :
    ∃ hdr, ofBytes bytes = some hdr := by
  have hlen : 44 ≤ bytes.length := h
  exact ⟨_, by simp (disch := omega) only [ofBytes, field, if_pos]; rfl⟩

def rxNetbuf (n : Nat) : Netbuf := ⟨0, PAGE_SIZE, 0, BitVec.ofNat 16 n, false, false, false, 0, 0⟩

inductive RxFault
  | assertion | overread
  deriving DecidableEq

/-- Is `UK_ASSERT(sock->posix_sock)` evaluated in the handler of the packet? -/
def assertsPosixSock (w : World) (s : SockId) (pkt : Packet) : Bool :=
  let v := w.sock s
  if v.state = .LISTENING then
    pkt.hdr.op = OP_REQUEST && (ukMalloc w).2 && decide (v.acceptQueueLength < v.acceptQueueLimit)
  else if pkt.hdr.op = OP_RESPONSE then v.state = .WAIT_CONNECT
  else if pkt.hdr.op = OP_RST then true
  else if pkt.hdr.op = OP_SHUTDOWN then v.state = .OPEN
  else if pkt.hdr.op = OP_RW then v.state = .OPEN && appendFits (v.rx.capacity - v.rx.count) 0 [pkt.payload]
  else false

/-- `virtio_vsockdev_work_rx` on a buffer of one page that the device has filled with `bytes`. -/
def workRxBuffer (w : World) (bytes : List UInt8) : Except RxFault (World × Except Errno Unit) :=
  -- The check of `virtio_vsockdev_rxq_dequeue`.
  if PAGE_SIZE < bytes.length then .ok (w, .error .ENOSPC)
  else
    match ukNetbufHeader (rxNetbuf bytes.length) (-(sizeofHdr : Int)) with
    | .error _ => .error .assertion
    | .ok _ =>
      match VirtioVsockHdr.ofBytes bytes with
      | none => .error .overread
      | some hdr =>
        let pkt := ⟨hdr, bytes.drop sizeofHdr⟩
        match rxTarget w pkt with
        | some s =>
          if assertsPosixSock w s pkt ∧ (w.sock s).posixSock = none then .error .assertion
            else .ok (virtioVsockdevWorkRx w pkt)
        | none => .ok (virtioVsockdevWorkRx w pkt)

/-- With files behind all sockets in the table, exactly the buffers with a whole header are handled. -/
theorem workRxBuffer_returns_iff (w : World) (hfile : ∀ s ∈ w.sockets, (w.sock s).posixSock ≠ none)
    (bytes : List UInt8) :
    (∃ r, workRxBuffer w bytes = .ok r) ↔ sizeofHdr ≤ bytes.length := by
  unfold workRxBuffer
  by_cases hpage : PAGE_SIZE < bytes.length
  · rw [if_pos hpage]
    exact ⟨fun _ => Nat.le_trans (show sizeofHdr ≤ PAGE_SIZE by decide) (Nat.le_of_lt hpage), fun _ => ⟨_, rfl⟩⟩
  have hused : (rxNetbuf bytes.length).len.toNat = bytes.length :=
    Nat.mod_eq_of_lt (Nat.lt_of_le_of_lt (Nat.not_lt.1 hpage) (by decide))
  rw [if_neg hpage]
  by_cases hlen : sizeofHdr ≤ bytes.length
  · obtain ⟨m, hm⟩ := header_pull (hused.symm ▸ hlen)
    obtain ⟨hdr, hhdr⟩ := VirtioVsockHdr.exists_ofBytes hlen
    refine ⟨fun _ => hlen, fun _ => ?_⟩
    simp only [hm, hhdr]
    split
    · rename_i s ht
      rw [if_neg fun hbad => hfile s (rxTarget_mem ht) hbad.2]
      exact ⟨_, rfl⟩
    · exact ⟨_, rfl⟩
  · have hshort : ukNetbufHeader (rxNetbuf bytes.length) (-(sizeofHdr : Int)) = .error .ENOSPC :=
      if_pos (.inr (by rw [hused]; omega))
    rw [hshort]
    exact ⟨fun ⟨_, hr⟩ => (nomatch hr), fun h => absurd h hlen⟩

/-- A header of an `RW` packet from port 5 of the host for port 1000, and three bytes. -/
def rwBytes : List UInt8 :=
  [2, 0, 0, 0, 0, 0, 0, 0, 3, 0, 0, 0, 0, 0, 0, 0, 5, 0, 0, 0, 0xE8, 3, 0, 0, 3, 0, 0, 0, 1, 0, 5, 0, 0, 0, 0, 0,
    100, 0, 0, 0, 0, 0, 0, 0] ++ [7, 8, 9]

/-- The packet is for the accepted socket, which has a file, and is handled. -/
theorem workRxBuffer_returns_iff_served : (∀ s ∈ served.sockets, (served.sock s).posixSock ≠ none) ∧
    ((VirtioVsockHdr.ofBytes rwBytes).bind fun hdr => rxTarget served ⟨hdr, rwBytes.drop sizeofHdr⟩) = some 1 ∧
    ((∃ r, workRxBuffer served rwBytes = .ok r) ↔ sizeofHdr ≤ rwBytes.length) := by
  have hfile : ∀ s ∈ served.sockets, (served.sock s).posixSock ≠ none := by decide
  exact ⟨hfile, by decide, workRxBuffer_returns_iff served hfile rwBytes⟩

/-- A buffer of which the device has used nothing fails the assertion. -/
theorem not_workRxBuffer_returns :
    ¬ ∀ (w : World) (bytes : List UInt8), (∀ s ∈ w.sockets, (w.sock s).posixSock ≠ none) →
    ∃ r, workRxBuffer w bytes = .ok r := by
  intro h
  obtain ⟨r, hr⟩ := h (World.init 3 fun _ => .good) [] fun _ hs => by cases hs
  cases hr

/-- The packet is an `RW` packet for the open socket, which has room for the bytes it announces. -/
structure DataFor (w : World) (s : SockId) (pkt : Packet) : Prop where
  op : pkt.hdr.op = OP_RW
  cid : pkt.hdr.dstCid = w.cid.setWidth 64
  target : ∃ ty, SockType.ofVirtio pkt.hdr.type = some ty ∧
    ukVsockLookup w ty ⟨pkt.hdr.dstCid.setWidth 32, pkt.hdr.dstPort⟩ ⟨pkt.hdr.srcCid.setWidth 32, pkt.hdr.srcPort⟩ =
      some s
  state : (w.sock s).state = .OPEN
  room : (w.sock s).rx.count + pkt.hdr.len.toNat ≤ (w.sock s).rx.capacity

/-- The announced bytes are received, or nothing if fewer have come. -/
def TakesAnnounced (w : World) (s : SockId) (pkt : Packet) : Prop :=
  let rx := (w.sock s).rx
  let rx' := ((virtioVsockdevWorkRx w pkt).1.sock s).rx
  if pkt.hdr.len.toNat ≤ pkt.payload.length then rx'.contents = rx.contents ++ pkt.payload.take pkt.hdr.len.toNat
    else rx' = rx

private theorem DataFor.rxTarget_eq (h : DataFor w s pkt) :
    rxTarget w pkt = if pkt.payload.length < pkt.hdr.len.toNat then none else some s := by
  obtain ⟨ty, hty, hs⟩ := h.target
  unfold rxTarget
  rw [if_neg (not_not.2 h.cid), hty]
  simp only [hs]

private theorem DataFor.contents_eq (h : DataFor w s pkt) (hlen : pkt.hdr.len.toNat ≤ pkt.payload.length) :
    ((virtioVsockdevWorkRx w pkt).1.sock s).rx.contents = (w.sock s).rx.contents ++
      if (w.sock s).rx.count + pkt.payload.length ≤ (w.sock s).rx.capacity then pkt.payload else [] := by
  have ht := h.rxTarget_eq
  rw [if_neg (Nat.not_lt.2 hlen)] at ht
  have hrx : ((w.sock s).credited pkt.hdr).rx = (w.sock s).rx := by rw [credited_eq]
  have hhandler : rxHandler (w.modify s (·.credited pkt.hdr)) s pkt =
      ukVsockRxPayload (w.modify s (·.credited pkt.hdr)) s [pkt.payload] := by
    simp only [rxHandler, h.op]
    rfl
  rw [workRx_of_target ht, if_neg (by simp [h.state]), hhandler, ukVsockRxPayload, if_neg (by simp [h.state]),
    modify_self, hrx]
  rcases bufferAppend_spec (w.sock s).rx [pkt.payload] with ⟨hfit, b, hb, hc, -⟩ | ⟨hfull, hb⟩
  · rw [List.flatten_singleton] at hfit hc
    rw [if_pos hfit, hb, ← hc]
    rw [modify_self]
    rfl
  · rw [List.flatten_singleton] at hfull
    rw [if_neg (Nat.not_le.2 hfull), hb, List.append_nil]
    simp [hrx]

/-- A packet adds what it announces exactly if it has no more bytes than that, or announces none and finds no room. -/
theorem takesAnnounced_iff (h : DataFor w s pkt) : TakesAnnounced w s pkt ↔ pkt.payload.length ≤ pkt.hdr.len.toNat ∨
    pkt.hdr.len = 0 ∧ (w.sock s).rx.capacity < (w.sock s).rx.count + pkt.payload.length := by
  have hroom := h.room
  unfold TakesAnnounced
  by_cases hlen : pkt.hdr.len.toNat ≤ pkt.payload.length
  · rw [if_pos hlen, h.contents_eq hlen, List.append_cancel_left_eq]
    split
    · rename_i hfit
      rw [List.take_self_eq_iff]
      exact ⟨.inl, fun hor => hor.resolve_right fun hbad => absurd hbad.2 (Nat.not_lt.2 hfit)⟩
    · rename_i hfull
      rw [eq_comm, List.take_eq_nil_iff]
      constructor
      · rintro (h0 | hnil)
        · exact .inr ⟨BitVec.eq_of_toNat_eq h0, Nat.not_le.1 hfull⟩
        · exact .inl (by rw [hnil]; exact Nat.zero_le _)
      · rintro (hle | ⟨h0, -⟩)
        · omega
        · exact .inl (by rw [h0]; rfl)
  · rw [if_neg hlen]
    have ht := h.rxTarget_eq
    rw [if_pos (Nat.not_le.1 hlen)] at ht
    rw [virtioVsockdevWorkRx, ht]
    exact ⟨fun _ => .inl (by omega), fun _ => rfl⟩

theorem takesAnnounced_hello : TakesAnnounced served 1 (peerPacket OP_RW 100 0 [104, 105]) :=
  (takesAnnounced_iff ⟨rfl, rfl, ⟨.STREAM, rfl, by decide⟩, by decide, by decide⟩).2 (.inl (by decide))

def overlong : Packet := ⟨{ (peerPacket OP_RW 100 0 []).hdr with len := 1 }, [104, 105]⟩

/-- A packet with more bytes than it announces. -/
theorem not_takesAnnounced : DataFor served 1 overlong ∧ ¬ TakesAnnounced served 1 overlong := by
  refine ⟨⟨rfl, rfl, ⟨.STREAM, rfl, by decide⟩, by decide, by decide⟩, fun h => ?_⟩
  have hcount : ((virtioVsockdevWorkRx served overlong).1.sock 1).rx.contents.length = 1 := by
    rw [show _ = _ from h]
    decide
  revert hcount
  decide

end Unikraft.Vsock
