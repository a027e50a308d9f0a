import Mathlib.Algebra.Ring.Nat
import Unikraft.Vsock.Effects

/-!
# What a socket call can do

Case lemmas for the socket operations. Data calls, `shutdown` and `close` settle the socket they are called on: it has
counted up its transmitted bytes by a number that the window of the peer allowed, or consumed a prefix of its receive
buffer. `bind`, `listen`, `connect` and `accept` put a socket into the table, and their lemmas say what is known about
its key.
-/

namespace Unikraft.Vsock

open VirtioVsock World

def World.PortFree (w : World) (ty : SockType) (port : BitVec 32) : Prop :=
  ∀ t ∈ w.sockets, (w.sock t).sockType = ty → (w.sock t).localAddr.port ≠ port

variable {w w' : World} {ty : SockType} {f : VirtioVsock → VirtioVsock} {s : SockId} {port : BitVec 32}

private theorem rbFind_none_iff_portFree :
    w.rbFind ⟨ty, ⟨0, port⟩, ⟨0, 0⟩, { localCid := true, peerCid := true, peerPort := true }⟩ = none ↔
      w.PortFree ty port := by
  rw [rbFind, OrdSet.find_eq_none]
  refine forall₂_congr fun t _ => ?_
  rw [Ne, sockaddrCmp_eq]
  simp [keyOf, key, eq_comm]

def World.candidate (w : World) (i : Nat) : BitVec 32 := w.portAllocNext + BitVec.ofNat 32 i

def World.FirstFree (w : World) (ty : SockType) (i : Nat) : Prop :=
  w.PortFree ty (w.candidate i) ∧ ∀ j < i, ¬ w.PortFree ty (w.candidate j)

theorem World.FirstFree.unique {i j : Nat} (hi : w.FirstFree ty i) (hj : w.FirstFree ty j) : i = j :=
  Nat.le_antisymm (Nat.not_lt.1 fun h => hi.2 j h hj.1) (Nat.not_lt.1 fun h => hj.2 i h hi.1)

/-- By induction on the number of ports left: the first free one is returned, or there is none. -/
theorem allocPortLoop_spec (ty : SockType) (n : Nat) (w : World) :
    (∃ i < n, w.FirstFree ty i ∧ allocPortLoop ty n w =
      ({ w with portAllocNext := w.candidate (i + 1) }, .ok (w.candidate i).toInt)) ∨
      (∀ i < n, ¬ w.PortFree ty (w.candidate i)) ∧
        allocPortLoop ty n w = ({ w with portAllocNext := w.candidate n }, .error .EADDRNOTAVAIL) := by
  induction n generalizing w with
  | zero => exact .inr ⟨fun i hi => absurd hi (Nat.not_lt_zero i), by simp [allocPortLoop, candidate]⟩
  | succ n ih =>
    have h0 : w.candidate 0 = w.portAllocNext := BitVec.add_zero _
    have hnext : ∀ i, { w with portAllocNext := w.portAllocNext + 1 }.candidate i = w.candidate (i + 1) := by
      intro i
      simp only [candidate, BitVec.ofNat_add, BitVec.add_assoc, BitVec.add_comm (BitVec.ofNat 32 i)]
      rfl
    cases hf : w.rbFind ⟨ty, ⟨0, w.portAllocNext⟩, ⟨0, 0⟩, { localCid := true, peerCid := true, peerPort := true }⟩
      with
    | none =>
      have hfree := rbFind_none_iff_portFree.1 hf
      exact .inl ⟨0, Nat.succ_pos n, ⟨h0.symm ▸ hfree, fun j hj => absurd hj (Nat.not_lt_zero j)⟩, by
        simp only [allocPortLoop, hf, h0]
        rfl⟩
    | some t =>
      have htaken : ¬ w.PortFree ty (w.candidate 0) := by
        rw [h0, ← rbFind_none_iff_portFree, hf]
        exact nofun
      have hloop : allocPortLoop ty (n + 1) w =
        allocPortLoop ty n { w with portAllocNext := w.portAllocNext + 1 } := by
        simp only [allocPortLoop, hf]
      rw [hloop]
      rcases ih { w with portAllocNext := w.portAllocNext + 1 } with ⟨i, hi, hfirst, h⟩ | ⟨hall, h⟩
      · refine .inl ⟨i + 1, Nat.succ_lt_succ hi, ⟨hnext i ▸ hfirst.1, fun j hj => ?_⟩, by rw [h, hnext, hnext]⟩
        cases j with
        | zero => exact htaken
        | succ j => exact hnext j ▸ hfirst.2 j (Nat.lt_of_succ_lt_succ hj)
      · refine .inr ⟨fun j hj => ?_, by rw [h, hnext]⟩
        cases j with
        | zero => exact htaken
        | succ j => exact hnext j ▸ hall j (Nat.lt_of_succ_lt_succ hj)

theorem allocPort_firstFree {i : Nat} (hi : i < 65536) (h : w.FirstFree ty i) :
    vsockAllocPort w ty = ({ w with portAllocNext := w.candidate (i + 1) },
      if 2 ^ 31 ≤ (w.candidate i).toNat then .error (.RAW (w.candidate i).toInt) else .ok (w.candidate i)) := by
  have hneg : (w.candidate i).toInt < 0 ↔ 2 ^ 31 ≤ (w.candidate i).toNat := by
    rw [BitVec.toInt_eq_toNat_cond]
    split <;> omega
  rcases allocPortLoop_spec ty 65536 w with ⟨j, -, hfirst, hloop⟩ | ⟨hall, -⟩
  · rw [← h.unique hfirst] at hloop
    simp only [vsockAllocPort, hloop, BitVec.ofInt_toInt, hneg]
  · exact absurd h.1 (hall i hi)

theorem allocPort_of_none (h : ∀ i < 65536, ¬ w.PortFree ty (w.candidate i)) :
    vsockAllocPort w ty = ({ w with portAllocNext := w.candidate 65536 }, .error .EADDRNOTAVAIL) := by
  rcases allocPortLoop_spec ty 65536 w with ⟨i, hi, hfirst, -⟩ | ⟨-, hloop⟩
  · exact absurd hfirst.1 (h i hi)
  · simp only [vsockAllocPort, hloop]

theorem exists_firstFree_or (w : World) (ty : SockType) :
    (∃ i < 65536, w.FirstFree ty i) ∨ ∀ i < 65536, ¬ w.PortFree ty (w.candidate i) := by
  rcases allocPortLoop_spec ty 65536 w with ⟨i, hi, hfirst, -⟩ | ⟨hall, -⟩
  · exact .inl ⟨i, hi, hfirst⟩
  · exact .inr hall

/-- A port that is returned is free, and nothing else changes. -/
theorem allocPort_cases (w : World) (ty : SockType) :
    ∃ w₁, w.Quiet w₁ ∧ ((∃ e, vsockAllocPort w ty = (w₁, .error e)) ∨
      ∃ port, vsockAllocPort w ty = (w₁, .ok port) ∧ w.PortFree ty port) := by
  have hq (p : BitVec 32) : w.Quiet { w with portAllocNext := p } := ⟨w.tick, [], p, by simp, by simp⟩
  rcases exists_firstFree_or w ty with ⟨i, hi, hfirst⟩ | hall
  · rw [allocPort_firstFree hi hfirst]
    refine ⟨_, hq (w.candidate (i + 1)), ?_⟩
    split
    · exact .inl ⟨_, rfl⟩
    · exact .inr ⟨_, rfl, hfirst.1⟩
  · exact ⟨_, hq (w.candidate 65536), .inl ⟨_, allocPort_of_none hall⟩⟩

/-- If a port from the next one on is free, the port that is returned lies between the two. -/
theorem allocPort_le {w₁ : World} {p : BitVec 32} (hp : w.PortFree ty p) (hle : w.portAllocNext.toNat ≤ p.toNat)
    (hlt : p.toNat < 65536)
    (h : vsockAllocPort w ty = (w₁, .ok port)) : w.portAllocNext.toNat ≤ port.toNat ∧ port.toNat ≤ p.toNat := by
  obtain ⟨k, hk⟩ := Nat.exists_eq_add_of_le hle
  have hcand {i : Nat} (hi : i ≤ k) : (w.candidate i).toNat = w.portAllocNext.toNat + i := by
    rw [candidate, BitVec.toNat_add, BitVec.toNat_ofNat]
    omega
  have hpk : w.candidate k = p := BitVec.eq_of_toNat_eq (by rw [hcand (Nat.le_refl k), hk])
  rcases exists_firstFree_or w ty with ⟨i, hi, hfirst⟩ | hall
  · have hik : i ≤ k := Nat.not_lt.1 fun hki => hfirst.2 k hki (hpk ▸ hp)
    have hci := hcand hik
    rw [allocPort_firstFree hi hfirst] at h
    split at h
    · cases h
    · cases h
      omega
  · exact absurd (hpk ▸ hp) (hall k (by omega))

structure AllocatesPort (w : World) (ty : SockType) : Prop where
  ok : ∀ p, (vsockAllocPort w ty).2 = .ok p → w.PortFree ty p ∧ p ≠ PORT_ANY ∧ ∃ i < 65536, p = w.candidate i
  error : ∀ e, (vsockAllocPort w ty).2 = .error e → e = .EADDRNOTAVAIL ∧ ∀ i < 65536, ¬ w.PortFree ty (w.candidate i)
  probes : ∃ n ≤ 65536, (vsockAllocPort w ty).1 = { w with portAllocNext := w.candidate n }

/-- The first free candidate has to be a port that is not negative as `__s32`. -/
theorem allocatesPort_iff (w : World) (ty : SockType) :
    AllocatesPort w ty ↔ ∀ i < 65536, w.FirstFree ty i → (w.candidate i).toNat < 2 ^ 31 := by
  rcases exists_firstFree_or w ty with ⟨i, hi, hfirst⟩ | hall
  · have heq := allocPort_firstFree hi hfirst
    by_cases hsmall : (w.candidate i).toNat < 2 ^ 31
    · rw [if_neg (Nat.not_le.2 hsmall)] at heq
      refine ⟨fun _ j _ hj => hfirst.unique hj ▸ hsmall,
          fun _ => ⟨fun p hp => ?_, fun e he => ?_, i + 1, hi, by rw [heq]⟩⟩
      · rw [heq] at hp
        cases hp
        refine ⟨hfirst.1, fun hany => ?_, i, hi, rfl⟩
        rw [hany] at hsmall
        revert hsmall
        decide
      · rw [heq] at he
        cases he
    · rw [if_pos (Nat.not_lt.1 hsmall)] at heq
      refine ⟨fun h => ?_, fun h => absurd (h i hi hfirst) hsmall⟩
      cases (h.error _ (by rw [heq])).1
  · have heq := allocPort_of_none hall
    refine ⟨fun _ i hi hfirst => absurd hfirst.1 (hall i hi),
        fun _ => ⟨fun p hp => ?_, fun e he => ?_, 65536, Nat.le_refl _, by rw [heq]⟩⟩
    · rw [heq] at hp
      cases hp
    · rw [heq] at he
      cases he
      exact ⟨rfl, hall⟩

/-- From `2 ^ 31` on a free port is taken for an error. -/
theorem not_allocatesPort : ¬ ∀ (w : World) (ty : SockType), AllocatesPort w ty := by
  intro h
  have herror := (h { World.init 3 fun _ => .good with portAllocNext := 0x80000000#32 } .STREAM).error
    (.RAW (-2147483648)) (by decide)
  cases herror.1

/-! ### `bind` and `listen` -/

variable (v : VirtioVsock)

def VirtioVsock.bound (a : UkVsockaddr) : VirtioVsock :=
  { v with localAddr := a, peerAddr := .any, state := .BOUND }

def World.bindSock (w : World) (s : SockId) (port : BitVec 32) : World :=
  (w.modify s (·.bound ⟨w.cid, port⟩)).rbInsert s

private theorem World.rbInsert_modify (w : World) (s t : SockId)
    (hf : (f (w.sock s)).key = (w.sock s).key) : (w.modify s f).rbInsert t = (w.rbInsert t).modify s f := by
  have hk : (w.modify s f).keyOf = w.keyOf := by
    funext u
    unfold keyOf
    by_cases hu : u = s
    · subst hu; rw [modify_self, hf]
    · rw [modify_of_ne _ _ hu]
  simp only [rbInsert, hk]
  rfl

private theorem World.rbRemove_modify (w : World) (s t : SockId) (f : VirtioVsock → VirtioVsock) :
    (w.modify s f).rbRemove t = (w.rbRemove t).modify s f := rfl

theorem World.modify_modify (w : World) (s : SockId) (f g : VirtioVsock → VirtioVsock) :
    (w.modify s f).modify s g = w.modify s fun v => g (f v) := by
  simp [modify]

theorem World.modify_congr {g : VirtioVsock → VirtioVsock} (h : f (w.sock s) = g (w.sock s)) :
    w.modify s f = w.modify s g := by
  simp [modify, h]

theorem World.Calm.rbFind_eq (h : w.Calm w') (k : UkVsockConnId) : w'.rbFind k = w.rbFind k := by
  have hk : w'.keyOf = w.keyOf := by
    funext u
    simp only [keyOf, h.sock_eq]
  simp only [rbFind, hk, h.sockets_eq]

/-- A bind fails and changes nothing, or a socket that is ready gets a port that no other has. -/
theorem vsockBind_cases (w : World) (s : SockId) (addr : SockaddrVm) (n : Nat) :
    ∃ w₁, w.Quiet w₁ ∧ ((∃ e, vsockBind w s addr n = (w₁, .error e)) ∨ ((w.sock s).state = .READY ∧ ∃ port,
        (if addr.svmPort = PORT_ANY then vsockAllocPort w (w.sock s).sockType else (w, .ok addr.svmPort)) =
          (w₁, .ok port) ∧ vsockBindOther w s port = none ∧
          vsockBind w s addr n = (w₁.bindSock s port, .ok ()))) := by
  have hport : ∃ w₁, w.Quiet w₁ ∧
      ((∃ e, (if addr.svmPort = PORT_ANY then vsockAllocPort w (w.sock s).sockType else (w, .ok addr.svmPort)) =
          (w₁, .error e)) ∨
        ∃ port, (if addr.svmPort = PORT_ANY then vsockAllocPort w (w.sock s).sockType else (w, .ok addr.svmPort)) =
          (w₁, .ok port)) := by
    split
    · obtain ⟨w₁, hq, h | ⟨port, h, -⟩⟩ := allocPort_cases w (w.sock s).sockType
      · exact ⟨w₁, hq, .inl h⟩
      · exact ⟨w₁, hq, .inr ⟨port, h⟩⟩
    · exact ⟨w, World.Quiet.refl w, .inr ⟨_, rfl⟩⟩
  unfold vsockBind
  split
  · exact ⟨w, World.Quiet.refl w, .inl ⟨_, rfl⟩⟩
  split
  · exact ⟨w, World.Quiet.refl w, .inl ⟨_, rfl⟩⟩
  split
  · exact ⟨w, World.Quiet.refl w, .inl ⟨_, rfl⟩⟩
  split
  · exact ⟨w, World.Quiet.refl w, .inl ⟨_, rfl⟩⟩
  rename_i hs
  obtain ⟨w₁, hq, ⟨e, h⟩ | ⟨port, h⟩⟩ := hport
  · exact ⟨w₁, hq, .inl ⟨e, by simp only [h]⟩⟩
  · refine ⟨w₁, hq, ?_⟩
    -- Looking for a port does not change the table, so the search may as well be made before it.
    have hother : vsockBindOther w₁ s port = vsockBindOther w s port := by
      simp only [vsockBindOther, hq.calm.rbFind_eq, hq.calm.sock_eq]
    cases ho : vsockBindOther w s port with
    | some t => exact .inl ⟨.EADDRINUSE, by simp only [h, hother, ho]⟩
    | none =>
      refine .inr ⟨by simpa using hs, port, h, ho, ?_⟩
      simp only [h, hother, ho, bindSock]
      rw [← rbInsert_modify _ s s (by rfl), modify_modify]
      rfl

def VirtioVsock.listening (backlog : Int) : VirtioVsock :=
  { v with acceptQueueLimit := backlogLimit backlog, state := .LISTENING }

/-- A listen fails and changes nothing, or the socket listens. -/
theorem listen_cases (w : World) (s : SockId) (backlog : Int) :
    (∃ w₁ e, w.Quiet w₁ ∧ vsockListen w s backlog = (w₁, .error e)) ∨
    (((w.sock s).state = .BOUND ∨ (w.sock s).state = .LISTENING) ∧
      vsockListen w s backlog = (w.modify s (·.listening backlog), .ok ())) ∨
    ((w.sock s).state = .READY ∧ ∃ w₁ port, w.Quiet w₁ ∧ vsockAllocPort w (w.sock s).sockType = (w₁, .ok port) ∧
      vsockBindOther w s port = none ∧
      vsockListen w s backlog = ((w₁.bindSock s port).modify s (·.listening backlog), .ok ())) := by
  by_cases hl : (w.sock s).state = .LISTENING
  · refine .inr (.inl ⟨.inr hl, ?_⟩)
    have : (w.sock s).listening backlog = { w.sock s with acceptQueueLimit := backlogLimit backlog } := by
      rw [VirtioVsock.listening, ← hl]
    simp [vsockListen, hl, World.modify, this]
  by_cases hb : (w.sock s).state = .BOUND
  · refine .inr (.inl ⟨.inl hb, ?_⟩)
    simp only [vsockListen, hb]
    rfl
  by_cases hr : (w.sock s).state = .READY
  · obtain ⟨w₁, hq, ⟨e, h⟩ | ⟨-, port, hp, ho, h⟩⟩ := vsockBind_cases w s bindAny sizeofSockaddrVm
    · exact .inl ⟨w₁, e, hq, by simp [vsockListen, hr, h]⟩
    · refine .inr (.inr ⟨hr, w₁, port, hq, hp, ho, ?_⟩)
      simp only [vsockListen, hr, h]
      rfl
  · exact .inl ⟨w, _, World.Quiet.refl w, by simp [vsockListen, hl, hb, hr]; rfl⟩

def VirtioVsock.connecting (localAddr peer : UkVsockaddr) : VirtioVsock :=
  { v with localAddr := localAddr, peerAddr := peer, state := .WAIT_CONNECT }

def SockaddrVm.addr (a : SockaddrVm) : UkVsockaddr := ⟨a.svmCid, a.svmPort⟩

/-- Is the error code `-EINPROGRESS`? The codes `vsock_alloc_port` makes of large ports include it. -/
def Errno.inProgress (e : Errno) : Bool := e = .EINPROGRESS || e = .RAW (-115)

theorem Errno.OfXmit.inProgress {e : Errno} (h : e.OfXmit) : e.inProgress = false := by
  rcases h with rfl | rfl | rfl <;> rfl

/-- The driver sends a request, or fails for lack of memory or room. -/
theorem connect_cases (w : World) (s : SockId) :
    ∃ w₁, w.Quiet w₁ ∧ (w.outcome.alloc = true ∧ virtioVsockConnect w s = (w₁, .EINPROGRESS) ∨
      ∃ e, e.OfXmit ∧ virtioVsockConnect w s = (w₁, e)) := by
  have hq := xmitHdr_quiet w ((w.sock s).hdr (w.sock s).localAddr.cid OP_REQUEST 0 0)
  rcases xmitHdr_cases w ((w.sock s).hdr (w.sock s).localAddr.cid OP_REQUEST 0 0) none with ⟨n, h⟩ | ⟨n, e, he, -, h⟩
  · rw [h] at hq
    refine ⟨_, hq, .inl ⟨?_, by simp only [virtioVsockConnect, h]⟩⟩
    cases ha : w.outcome.alloc with
    | true => rfl
    | false => simp [xmitHdr, ukMalloc, ha] at h
  · rw [h] at hq
    exact ⟨_, hq, .inr ⟨e, he, by simp only [virtioVsockConnect, h]⟩⟩

/-- How a `connect` call that has put a socket into the table ends: the request is under way, or the table and the
socket are put back. -/
inductive ConnectEnd (w : World) (s : SockId) (addr : UkVsockaddr) : World → Prop
  | bound (w₁ : World) (hq : w.Quiet w₁) (hs : (w.sock s).state = .BOUND) :
      ConnectEnd w s addr
        ((w₁.modify s fun v => v.connecting v.localAddr addr).rbReinsert s)
  | boundUndone (w₁ : World) (hq : w.Quiet w₁) (hs : (w.sock s).state = .BOUND) :
      ConnectEnd w s addr
        ((((w₁.modify s fun v => v.connecting v.localAddr addr).rbReinsert s).modify s fun _ => w.sock s).rbReinsert
          s)
  | ready (w₁ : World) (port : BitVec 32) (hq : w.Quiet w₁) (hs : (w.sock s).state = .READY)
      (hp : w.PortFree (w.sock s).sockType port) :
      ConnectEnd w s addr ((w₁.modify s fun v => v.connecting ⟨w.cid, port⟩ addr).rbInsert s)
  | readyUndone (w₁ : World) (port : BitVec 32) (hq : w.Quiet w₁) (hs : (w.sock s).state = .READY)
      (hp : w.PortFree (w.sock s).sockType port) :
      ConnectEnd w s addr
        ((((w₁.modify s fun v => v.connecting ⟨w.cid, port⟩ addr).rbInsert s).rbRemove s).modify s
          fun _ => { w.sock s with localAddr := .any })

private theorem quiet_of_rbInsert (h : (w.rbInsert s).Quiet w') : ∃ w₁, w.Quiet w₁ ∧ w' = w₁.rbInsert s := by
  obtain ⟨n, l, p, rfl, hl⟩ := h
  exact ⟨{ w with tick := n, sent := w.sent ++ l, portAllocNext := p }, ⟨n, l, p, rfl, hl⟩, rfl⟩

private theorem quiet_of_rbReinsert (h : (w.rbReinsert s).Quiet w') : ∃ w₁, w.Quiet w₁ ∧ w' = w₁.rbReinsert s := by
  obtain ⟨n, l, p, rfl, hl⟩ := h
  exact ⟨{ w with tick := n, sent := w.sent ++ l, portAllocNext := p }, ⟨n, l, p, rfl, hl⟩, rfl⟩

private theorem World.rbReinsert_modify (w : World) (s t : SockId)
    (hf : (f (w.sock s)).key = (w.sock s).key) : (w.modify s f).rbReinsert t = (w.rbReinsert t).modify s f := by
  rw [rbReinsert, rbRemove_modify, rbInsert_modify _ _ _ (by exact hf)]
  rfl

private theorem World.portFree_modify (hty : (f (w.sock s)).sockType = (w.sock s).sockType)
    (hport : (f (w.sock s)).localAddr.port = (w.sock s).localAddr.port) : (w.modify s f).PortFree ty port ↔
    w.PortFree ty port := by
  refine forall₂_congr fun t _ => ?_
  by_cases hts : t = s
  · rw [hts, modify_self, hty, hport]
  · rw [modify_of_ne _ _ hts]

private theorem allocPort_modify (hty : (f (w.sock s)).sockType = (w.sock s).sockType)
    (hport : (f (w.sock s)).localAddr.port = (w.sock s).localAddr.port) :
    vsockAllocPort (w.modify s f) ty = ((vsockAllocPort w ty).1.modify s f, (vsockAllocPort w ty).2) := by
  have hfree (i : Nat) : (w.modify s f).PortFree ty ((w.modify s f).candidate i) ↔ w.PortFree ty (w.candidate i) :=
    portFree_modify hty hport
  rcases exists_firstFree_or w ty with ⟨i, hi, hfirst⟩ | hall
  · have hfirst' : (w.modify s f).FirstFree ty i :=
      ⟨(hfree i).2 hfirst.1, fun j hj h => hfirst.2 j hj ((hfree j).1 h)⟩
    rw [allocPort_firstFree hi hfirst, allocPort_firstFree hi hfirst']
    rfl
  · rw [allocPort_of_none hall, allocPort_of_none fun i hi h => hall i hi ((hfree i).1 h)]
    rfl

variable {addr : SockaddrVm} {n : Nat}

/-- The end of `vsock_connect`: the socket is put back as it was unless the request is on its way. -/
def connectResult (undo : World → World) : World × Errno → World × Except Errno Unit
  | (w', .EINPROGRESS) => (w', .error .EINPROGRESS)
  | (w', e) => (undo w', .error e)

private theorem connectResult_error {undo : World → World} {w' : World} {e : Errno} (h : e.inProgress = false) :
    connectResult undo (w', e) = (undo w', .error e) := by
  cases e with
  | EINPROGRESS => cases h
  | _ => rfl

section
variable (hn : n = sizeofSockaddrVm) (ha : addr.svmFamily = AF_VSOCK)
include hn ha

private theorem connect_bound (hs : (w.sock s).state = .BOUND) : vsockConnect w s addr n =
    connectResult (fun w' => ((w'.modify s fun v => { v with peerAddr := (w.sock s).peerAddr }).rbReinsert s).modify s
        fun v => { v with state := .BOUND })
      (virtioVsockConnect ((w.modify s fun v => v.connecting v.localAddr addr.addr).rbReinsert s) s) := by
  -- The state is not part of the key, so it can be written before the socket is put back.
  have hw : ((w.modify s fun v => { v with peerAddr := ⟨addr.svmCid, addr.svmPort⟩ }).rbReinsert s).modify s
      (fun v => { v with state := .WAIT_CONNECT }) =
      (w.modify s fun v => v.connecting v.localAddr addr.addr).rbReinsert s := by
    rw [← rbReinsert_modify _ s s (by rfl), modify_modify]
    rfl
  simp only [vsockConnect, hn, ha, hs, ne_eq, not_true_eq_false, if_false, reduceCtorEq, false_and, if_true, hw]
  rfl

/-- A connect of a bound socket puts it under its new key, and back if the driver fails. -/
theorem connect_of_bound (hs : (w.sock s).state = .BOUND) : ∃ w₁, w.Quiet w₁ ∧ ((∃ k, (w.env k).alloc = true) ∧
        vsockConnect w s addr n = ((w₁.modify s fun v => v.connecting v.localAddr addr.addr).rbReinsert s,
          .error .EINPROGRESS) ∨
      ∃ e, e.OfXmit ∧ vsockConnect w s addr n =
        ((((w₁.modify s fun v => v.connecting v.localAddr addr.addr).rbReinsert s).modify s
          fun _ => w.sock s).rbReinsert s, .error e)) := by
  obtain ⟨w₁, hq, h⟩ :=
    connect_cases ((w.modify s fun v => v.connecting v.localAddr addr.addr).rbReinsert s) s
  obtain ⟨w2, hq2, rfl⟩ := quiet_of_rbReinsert hq
  obtain ⟨w3, hq3, rfl⟩ := hq2.of_modify
  refine ⟨w3, hq3, ?_⟩
  rw [connect_bound hn ha hs]
  rcases h with ⟨hmem, h⟩ | ⟨e, hx, h⟩
  · rw [h]
    exact .inl ⟨⟨w.tick, hmem⟩, rfl⟩
  · have hv : (((w3.modify s fun v => v.connecting v.localAddr addr.addr).rbReinsert s).sock s) =
        (w.sock s).connecting (w.sock s).localAddr addr.addr := by
      rw [rbReinsert_sock, modify_self, hq3.calm.sock_eq]
    refine .inr ⟨e, hx, ?_⟩
    rw [h, connectResult_error hx.inProgress, ← rbReinsert_modify _ s s (by rfl), modify_modify,
      modify_congr (g := fun _ => w.sock s) (by rw [hv, ← hs]; rfl)]

end

variable (cid : BitVec 32)

/-- A socket in state `READY` for which `vsock_connect` found no port. -/
def VirtioVsock.portless : VirtioVsock :=
  { v with localAddr := { v.localAddr with cid := cid }, peerAddr := .any }

section
variable (hn : n = sizeofSockaddrVm) (ha : addr.svmFamily = AF_VSOCK)
include hn ha

private theorem connect_ready (hs : (w.sock s).state = .READY) : vsockConnect w s addr n =
    match vsockAllocPort w (w.sock s).sockType with
    | (w', .error e) => (w'.modify s (·.portless w.cid), .error e)
    | (w', .ok port) =>
      connectResult (fun w' => (w'.rbRemove s).modify s
          fun v => { v with localAddr := .any, peerAddr := (w.sock s).peerAddr, state := .READY })
        (virtioVsockConnect ((w'.modify s fun v => v.connecting ⟨w.cid, port⟩ addr.addr).rbInsert s) s) := by
  have halloc := @allocPort_modify w (w.sock s).sockType
    (fun v => { v with localAddr := ⟨w.cid, v.localAddr.port⟩, peerAddr := addr.addr }) s rfl rfl
  have hm : (w.modify s fun v => { v with peerAddr := ⟨addr.svmCid, addr.svmPort⟩ }).modify s
      (fun v => { v with localAddr := ⟨w.cid, v.localAddr.port⟩ }) =
      w.modify s fun v => { v with localAddr := ⟨w.cid, v.localAddr.port⟩, peerAddr := addr.addr } := modify_modify ..
  simp only [vsockConnect, hn, ha, hs, modify_cid, hm, modify_self, halloc, ne_eq, not_true_eq_false, if_false,
      reduceCtorEq,
    and_false]
  cases hr : vsockAllocPort w (w.sock s).sockType with
  | mk w₁ r =>
    cases r with
    | error e => simp only [modify_modify]; rfl
    | ok port =>
      have hw : ((w₁.modify s fun v => { v with localAddr := ⟨w.cid, port⟩, peerAddr := addr.addr }).rbInsert
          s).modify s
            (fun v => { v with state := .WAIT_CONNECT }) =
          (w₁.modify s fun v => v.connecting ⟨w.cid, port⟩ addr.addr).rbInsert s := by
        rw [← rbInsert_modify _ s s (by rfl), modify_modify]
        rfl
      simp only [modify_modify, hw]
      rfl

/-- A connect of a ready socket gives it a port, and takes it away if the driver fails. -/
theorem connect_of_ready (hs : (w.sock s).state = .READY) : ∃ w₁, w.Quiet w₁ ∧
    ((∃ e, (vsockAllocPort w (w.sock s).sockType).2 = .error e ∧
      vsockConnect w s addr n = (w₁.modify s (·.portless w.cid), .error e)) ∨
      ∃ port, (vsockAllocPort w (w.sock s).sockType).2 = .ok port ∧ w.PortFree (w.sock s).sockType port ∧
        ((∃ k, (w.env k).alloc = true) ∧
            vsockConnect w s addr n = ((w₁.modify s fun v => v.connecting ⟨w.cid, port⟩ addr.addr).rbInsert s,
              .error .EINPROGRESS) ∨
          ∃ e, e.OfXmit ∧ vsockConnect w s addr n =
          ((((w₁.modify s fun v => v.connecting ⟨w.cid, port⟩ addr.addr).rbInsert
            s).rbRemove s).modify s fun _ => { w.sock s with localAddr := .any }, .error e))) := by
  rw [connect_ready hn ha hs]
  obtain ⟨w₁, hq, ⟨e, h⟩ | ⟨port, h, hp⟩⟩ := allocPort_cases w (w.sock s).sockType
  · rw [h]
    exact ⟨w₁, hq, .inl ⟨e, rfl, rfl⟩⟩
  · obtain ⟨w3, hq3, h3⟩ :=
      connect_cases ((w₁.modify s fun v => v.connecting ⟨w.cid, port⟩ addr.addr).rbInsert s) s
    obtain ⟨w4, hq4, rfl⟩ := quiet_of_rbInsert hq3
    obtain ⟨w5, hq5, rfl⟩ := hq4.of_modify
    rw [h]
    refine ⟨w5, hq.trans hq5, .inr ⟨port, rfl, hp, ?_⟩⟩
    dsimp only
    rcases h3 with ⟨hmem, h3⟩ | ⟨e, hx, h3⟩
    · rw [h3]
      exact .inl ⟨⟨w₁.tick, hq.calm.env_eq ▸ hmem⟩, rfl⟩
    · refine .inr ⟨e, hx, ?_⟩
      rw [h3, connectResult_error hx.inProgress, modify_congr (g := fun _ => { w.sock s with localAddr := .any }) ?_]
      rw [rbRemove_sock, rbInsert_sock, modify_self, (hq.trans hq5).calm.sock_eq, ← hs]
      rfl

end

theorem connect_refused_or (w : World) (s : SockId) (addr : SockaddrVm) (n : Nat) :
    (∃ e, e.inProgress = false ∧ vsockConnect w s addr n = (w, .error e)) ∨
      n = sizeofSockaddrVm ∧ addr.svmFamily = AF_VSOCK ∧ ((w.sock s).state = .BOUND ∨ (w.sock s).state = .READY) := by
  by_cases hn : n = sizeofSockaddrVm
  swap
  · exact .inl ⟨.EINVAL, rfl, by simp [vsockConnect, hn]⟩
  by_cases ha : addr.svmFamily = AF_VSOCK
  swap
  · exact .inl ⟨.EAFNOSUPPORT, rfl, by simp [vsockConnect, hn, ha]⟩
  cases hs : (w.sock s).state with
  | BOUND => exact .inr ⟨hn, ha, .inl rfl⟩
  | READY => exact .inr ⟨hn, ha, .inr rfl⟩
  | WAIT_CONNECT => exact .inl ⟨.EALREADY, rfl, by simp [vsockConnect, hn, ha, hs]⟩
  | CLOSED | LISTENING | OPEN => exact .inl ⟨.EISCONN, rfl, by simp [vsockConnect, hn, ha, hs]⟩

/-- All that a connect can do. -/
theorem vsockConnect_cases (w : World) (s : SockId) (addr : SockaddrVm) (n : Nat) :
    (∃ w₁, w.Quiet w₁ ∧ (vsockConnect w s addr n).1 = w₁) ∨
    ((w.sock s).state = .READY ∧ ∃ w₁, w.Quiet w₁ ∧ (vsockConnect w s addr n).1 = w₁.modify s (·.portless w.cid)) ∨
    (n = sizeofSockaddrVm ∧ addr.svmFamily = AF_VSOCK ∧ ConnectEnd w s addr.addr (vsockConnect w s addr n).1) := by
  rcases connect_refused_or w s addr n with ⟨e, -, h⟩ | ⟨hn, ha, hs | hs⟩
  · exact .inl ⟨w, World.Quiet.refl w, by rw [h]⟩
  · obtain ⟨w₁, hq, ⟨-, h⟩ | ⟨e, -, h⟩⟩ := connect_of_bound hn ha hs
    · exact .inr (.inr ⟨hn, ha, by rw [h]; exact .bound w₁ hq hs⟩)
    · exact .inr (.inr ⟨hn, ha, by rw [h]; exact .boundUndone w₁ hq hs⟩)
  · obtain ⟨w₁, hq, ⟨e, -, h⟩ | ⟨port, -, hp, ⟨-, h⟩ | ⟨e, -, h⟩⟩⟩ := connect_of_ready hn ha hs
    · exact .inr (.inl ⟨hs, w₁, hq, by rw [h]⟩)
    · exact .inr (.inr ⟨hn, ha, by rw [h]; exact .ready w₁ port hq hs hp⟩)
    · exact .inr (.inr ⟨hn, ha, by rw [h]; exact .readyUndone w₁ port hq hs hp⟩)

/-! ### `socket` and `accept` -/

def World.Fresh (w : World) : Prop := ∀ t, w.live t = true → t < w.next

private theorem World.newSock_modify_next (w : World) (v : VirtioVsock) (f : VirtioVsock → VirtioVsock) :
    (w.newSock v).modify w.next f = w.newSock (f v) := by
  simp [newSock, modify]

private theorem World.newSock_modify_of_ne (w : World) (v : VirtioVsock) (f : VirtioVsock → VirtioVsock)
    (h : s ≠ w.next) : (w.newSock v).modify s f = (w.modify s f).newSock v := by
  simp only [newSock, modify, World.mk.injEq, true_and, and_true]
  rw [Function.update_of_ne h, Function.update_comm (Ne.symm h)]

def VirtioVsock.popped (queue : List AcceptEntry) : VirtioVsock :=
  { v with acceptQueue := queue, acceptQueueLength := v.acceptQueueLength - 1 }

def VirtioVsock.poppedClear (queue : List AcceptEntry) : VirtioVsock :=
  if queue = [] then (v.popped queue).eventClear EPOLLIN else v.popped queue

def VirtioVsock.acceptedOpen (vsl : VirtioVsock) (entry : AcceptEntry) : VirtioVsock :=
  { accepted cid vsl entry with state := .OPEN, posixSock := some {} }

def World.responded (w : World) (v : VirtioVsock) (req n : Nat) : World :=
  { w with tick := n, sent := w.sent ++ [⟨⟨v.hdr w.cid OP_RESPONSE 0 0, []⟩, some req⟩] }

theorem World.calm_responded (w : World) (v : VirtioVsock) (req n : Nat) : w.Calm (w.responded v req n) :=
  ⟨rfl, rfl, rfl, rfl, rfl, rfl, rfl⟩

/-- The state after `accept` has made a socket for the first entry of the queue. -/
def World.accepting (w : World) (s : SockId) (entry : AcceptEntry) (queue : List AcceptEntry) (n : Nat) : World :=
  (((w.responded (accepted w.cid (w.sock s) entry) entry.req n).modify s (·.poppedClear queue)).newSock
    (acceptedOpen w.cid (w.sock s) entry)).rbInsert w.next

section
variable (w : World) {t : SockId} (entry : AcceptEntry) (queue : List AcceptEntry) (n : Nat)

theorem World.accepting_next : (w.accepting s entry queue n).sock w.next = acceptedOpen w.cid (w.sock s) entry := by
  simp [accepting, newSock, responded]

theorem World.accepting_self (hs : s ≠ w.next) :
    (w.accepting s entry queue n).sock s = (w.sock s).poppedClear queue := by
  simp [accepting, newSock, responded, modify, hs]

theorem World.accepting_of_ne (hs : t ≠ s) (hn : t ≠ w.next) : (w.accepting s entry queue n).sock t = w.sock t := by
  simp [accepting, newSock, responded, modify, hs, hn]

end

/-- A new socket is ready. -/
theorem create_cases (w : World) (type protocol : Int) :
    ∃ w₁, w.Quiet w₁ ∧ ((∃ e, vsockCreate w type protocol = (w₁, .error e)) ∨ ∃ ty, SockType.ofInt type = some ty ∧
        vsockCreate w type protocol = (w₁.newSock (VirtioVsock.init ty), .ok w₁.next)) := by
  unfold vsockCreate virtioVsockCreate
  by_cases hp : protocol ≠ 0
  · exact ⟨w, World.Quiet.refl w, .inl ⟨_, by rw [if_pos hp]⟩⟩
  simp only [if_neg hp]
  cases hty : SockType.ofInt type with
  | none => exact ⟨w, World.Quiet.refl w, .inl ⟨_, rfl⟩⟩
  | some ty =>
    dsimp only [ukMalloc]
    cases ha : w.outcome.alloc with
    | false => exact ⟨_, quiet_advance w, .inl ⟨_, rfl⟩⟩
    | true =>
      have hq := (quiet_advance w).trans (quiet_advance w.advance)
      dsimp only
      cases hb : w.advance.outcome.alloc with
      | false => exact ⟨_, hq, .inl ⟨_, rfl⟩⟩
      | true => exact ⟨_, hq, .inr ⟨ty, rfl, rfl⟩⟩

theorem exec_socket_cases (w : World) (type protocol : Int) :
    w.Quiet (exec w (.socket type protocol)) ∨ ∃ w₁ ty, w.Quiet w₁ ∧ SockType.ofInt type = some ty ∧
      exec w (.socket type protocol) = w₁.newSock { VirtioVsock.init ty with posixSock := some {} } := by
  unfold exec
  obtain ⟨w₁, hq, ⟨e, h⟩ | ⟨ty, hty, h⟩⟩ := create_cases w type protocol
  · left
    simpa only [h] using hq
  · refine .inr ⟨w₁, ty, hq, hty, ?_⟩
    simp only [h]
    exact newSock_modify_next _ _ _

/-- An accept fails in its allocations or transmissions, or opens a new socket. -/
theorem accept_cases (w : World) (s : SockId) (entry : AcceptEntry) :
    (∃ w₁ e, w.Calm w₁ ∧ (∃ k < 4, w.env (w.tick + k) ≠ Outcome.good) ∧ e.OfXmit ∧
      virtioVsockAccept w s entry = (w₁, .error e)) ∨ ∃ n, virtioVsockAccept w s entry =
      ((w.responded (accepted w.cid (w.sock s) entry) entry.req n).newSock
        (accepted w.cid (w.sock s) entry), .ok w.next) := by
  unfold virtioVsockAccept
  dsimp only [ukMalloc]
  cases ha : w.outcome.alloc with
  | false =>
    refine .inl ⟨_, _, (quiet_advance w).calm.trans (rejectConn_calm _ s entry), ⟨0, by decide, ?_⟩, .inl rfl, rfl⟩
    intro h
    rw [outcome, show w.env w.tick = _ from h] at ha
    cases ha
  | true =>
    dsimp only
    cases hb : w.advance.outcome.alloc with
    | false =>
      refine .inl ⟨_, _, ((quiet_advance w).trans (quiet_advance _)).calm.trans (rejectConn_calm _ s entry),
        ⟨1, by decide, ?_⟩, .inl rfl, rfl⟩
      intro h
      simp [outcome, advance, h, Outcome.good] at hb
    | true =>
      dsimp only
      -- Both allocations succeeded; a `RESPONSE` that cannot be transmitted frees the socket again.
      rcases xmitHdr_cases w.advance.advance
          ((accepted w.cid (w.sock s) entry).hdr w.cid OP_RESPONSE 0 0) (some entry.req) with
        ⟨n, h⟩ | ⟨n, e, hx, ⟨k, hk, henv⟩, h⟩
      · exact .inr ⟨n, by simp only [virtioVsockConnRespond, advance] at h ⊢; rw [h]; rfl⟩
      · rw [show w.advance.advance.tick = w.tick + 2 from rfl, Nat.add_assoc] at henv
        refine .inl ⟨_, e, ?_, ⟨2 + k, by omega, henv⟩, hx,
          by simp only [virtioVsockConnRespond, advance] at h ⊢; rw [h]⟩
        exact ⟨rfl, rfl, rfl, rfl, rfl, rfl, rfl⟩

/-- What a call that may make a socket returns says whether it has made one. -/
def World.Makes (w w' : World) : Except Errno SockId → Prop
  | .error _ => w'.next = w.next ∧ w'.live = w.live
  | .ok s => s = w.next ∧ w'.next = w.next + 1 ∧ w'.live = Function.update w.live w.next true

/-- A socket call makes at most one socket. -/
theorem create_makes (w : World) (type protocol : Int) :
    w.Makes (vsockCreate w type protocol).1 (vsockCreate w type protocol).2 := by
  obtain ⟨w₁, hq, ⟨e, h⟩ | ⟨ty, -, h⟩⟩ := create_cases w type protocol
  · rw [h]
    exact ⟨hq.calm.next_eq, hq.calm.live_eq⟩
  · rw [h]
    refine ⟨hq.calm.next_eq, congrArg (· + 1) hq.calm.next_eq, ?_⟩
    show Function.update w₁.live w₁.next true = _
    rw [hq.calm.live_eq, hq.calm.next_eq]

/-- An accept makes at most one socket. -/
theorem accept4_makes (w : World) (s : SockId) (addr : Bool) (addrLen : Option Nat) :
    w.Makes (vsockAccept4 w s addr addrLen).1 ((vsockAccept4 w s addr addrLen).2.map Prod.fst) := by
  unfold vsockAccept4
  split
  · exact ⟨rfl, rfl⟩
  split
  · exact ⟨rfl, rfl⟩
  split
  · exact ⟨rfl, rfl⟩
  rename_i entry queue _
  dsimp only
  rcases accept_cases (w.modify s (·.popped queue)) s entry with ⟨w₁, e, hc, -, -, h⟩ | ⟨n, h⟩
  · simp only [popped] at h
    simp only [h]
    exact ⟨hc.next_eq, hc.live_eq⟩
  · simp only [popped] at h
    simp only [h]
    refine ⟨rfl, ?_⟩
    split <;> exact ⟨rfl, rfl⟩

/-- The last steps of `accept`: the new socket `v` is opened, put in the table and attached to its file, and the
readiness of the listening socket is updated. -/
private theorem accept_finish (w : World) (hs : s ≠ w.next) (v : VirtioVsock) :
    let w' := ((w.newSock v).modify w.next fun v => { v with state := .OPEN }).rbInsert w.next
    vsockPollSetup (if (w'.sock s).acceptQueue = [] then w'.modify s (·.eventClear EPOLLIN) else w') w.next =
      ((w.modify s fun v => if v.acceptQueue = [] then v.eventClear EPOLLIN else v).newSock
        { v with state := .OPEN, posixSock := some {} }).rbInsert w.next := by
  intro w'
  have hw' : w' = (w.newSock { v with state := .OPEN }).rbInsert w.next := by
    simp only [w', newSock_modify_next]
  have hq : (w'.sock s).acceptQueue = (w.sock s).acceptQueue := by
    have : w'.sock s = w.sock s := by
      rw [hw']
      exact Function.update_of_ne hs _ _
    rw [this]
  have hclear : (if (w'.sock s).acceptQueue = [] then w'.modify s (·.eventClear EPOLLIN) else w') =
      ((w.modify s fun v => if v.acceptQueue = [] then v.eventClear EPOLLIN else v).newSock
        { v with state := .OPEN }).rbInsert w.next := by
    rw [hq, hw']
    by_cases h : (w.sock s).acceptQueue = []
    · rw [if_pos h, ← rbInsert_modify _ _ _ (by rfl), newSock_modify_of_ne _ _ _ hs,
        modify_congr (g := fun v => if v.acceptQueue = [] then v.eventClear EPOLLIN else v) (by simp [h])]
    · rw [if_neg h, modify_congr (g := fun v => v) (by simp [h])]
      simp [World.modify]
  rw [hclear, vsockPollSetup, ← rbInsert_modify _ _ _ (by rfl)]
  congr 1
  exact newSock_modify_next _ _ _

theorem exec_accept_cases (w : World) (addr : Bool) (addrLen : Option Nat) (hs : s ≠ w.next) :
    exec w (.accept s addr addrLen) = w ∨
    ∃ entry queue, (w.sock s).state = .LISTENING ∧ (w.sock s).acceptQueue = entry :: queue ∧
      ((∃ w₁, w.Calm w₁ ∧ (∃ k < 4, w.env (w.tick + k) ≠ Outcome.good) ∧
          exec w (.accept s addr addrLen) = w₁.modify s (·.popped queue)) ∨
        ∃ n, exec w (.accept s addr addrLen) = w.accepting s entry queue n) := by
  unfold exec vsockAccept4
  by_cases ha : addr ∧ addrLen = none
  · exact .inl (by simp only [if_pos ha])
  by_cases hl : (w.sock s).state ≠ .LISTENING
  · exact .inl (by simp only [if_neg ha, if_pos hl])
  simp only [if_neg ha, if_neg hl]
  cases hq : (w.sock s).acceptQueue with
  | nil => exact .inl rfl
  | cons entry queue =>
    refine .inr ⟨entry, queue, by simpa using hl, rfl, ?_⟩
    dsimp only
    rcases accept_cases (w.modify s (·.popped queue)) s entry with
      ⟨w₁, e, hc, henv, -, h⟩ | ⟨n, h⟩
    · left
      obtain ⟨w2, hc2, rfl⟩ := hc.of_modify
      simp only [popped] at h
      refine ⟨w2, hc2, henv, ?_⟩
      simp only [h]
      rfl
    · right
      refine ⟨n, ?_⟩
      rw [modify_self] at h
      simp only [popped] at h
      simp only [h]
      refine (accept_finish ((w.responded (accepted w.cid (w.sock s) entry) entry.req n).modify s
        (·.popped queue)) hs (accepted w.cid (w.sock s) entry)).trans ?_
      rw [modify_modify, modify_congr (g := (·.poppedClear queue)) (by rfl)]
      rfl

open List Nat

def VirtioVsock.sentBytes (n : Nat) : VirtioVsock :=
  { v with txCount := v.txCount + BitVec.ofNat 32 n }

theorem VirtioVsock.sentBytes_zero : v.sentBytes 0 = v := by
  simp [sentBytes]

private theorem VirtioVsock.sentBytes_sentBytes (m n : Nat) : (v.sentBytes m).sentBytes n = v.sentBytes (m + n) := by
  simp only [sentBytes, BitVec.add_assoc, BitVec.ofNat_add]

theorem VirtioVsock.peerRxFree_sentBytes {n : Nat} (h : n ≤ v.peerRxFree.toNat) :
    (v.sentBytes n).peerRxFree.toNat = v.peerRxFree.toNat - n := by
  have hn : (BitVec.ofNat 32 n).toNat = n := by
    rw [BitVec.toNat_ofNat, mod_eq_of_lt (by omega)]
  have he : (v.sentBytes n).peerRxFree = v.peerRxFree - BitVec.ofNat 32 n := by
    simp only [peerRxFree, sentBytes]
    bv_omega
  rw [he, BitVec.toNat_sub_of_le (by rw [BitVec.le_def, hn]; exact h), hn]

theorem writeLoop_cons {s : SockId} {w w1 : World} {buf : List UInt8} {iov : List (List UInt8)} {n written : Nat}
    (hn : n ≠ 0) (h : virtioVsockSend w s buf = (w1.modify s (·.sentBytes n), .ok n)) :
    writeLoop s (buf :: iov) w written = writeLoop s iov (w1.modify s (·.sentBytes n)) (written + n) := by
  simp only [writeLoop, h, hn, if_false]

/-- The loop of `vsock_write` transmits a number of bytes the window allows, and is not writable afterwards only if
one of the buffers was empty. -/
theorem writeLoop_cases (s : SockId) (iov : List (List UInt8)) (w : World) (written : Nat) :
    ∃ w1 n, w.Quiet w1 ∧ n ≤ (w.sock s).peerRxFree.toNat ∧ n ≤ iov.flatten.length ∧
      ((writeLoop s iov w written).1 = w1.modify s (·.sentBytes n) ∨
        ([] ∈ iov ∧ (writeLoop s iov w written).1 = w1.modify s fun v => (v.sentBytes n).eventClear EPOLLOUT)) := by
  induction iov generalizing w written with
  | nil => exact ⟨w, 0, World.Quiet.refl w, zero_le _, zero_le _, .inl (by simp [writeLoop, World.modify,
      sentBytes_zero])⟩
  | cons buf iov ih =>
    rcases send_cases w s buf with ⟨hb, h⟩ | ⟨-, -, h⟩ | ⟨-, -, w1, e, hq, -, -, h⟩ |
      ⟨-, -, -, w1, pkt, n, hq, hn0, hn, -, -, h⟩
    · refine ⟨w, 0, World.Quiet.refl w, zero_le _, zero_le _, .inr ⟨by simp [length_eq_zero_iff.1 hb], ?_⟩⟩
      simp [writeLoop, h, sentBytes_zero]
    · exact ⟨w, 0, World.Quiet.refl w, zero_le _, zero_le _, .inl (by simp [writeLoop, h, World.modify,
        sentBytes_zero])⟩
    · exact ⟨w1, 0, hq, zero_le _, zero_le _, .inl (by simp [writeLoop, h, World.modify,
        sentBytes_zero])⟩
    · have hn' : n ≤ (w.sock s).peerRxFree.toNat := by omega
      have hv : (w1.modify s (·.sentBytes n)).sock s = (w.sock s).sentBytes n := by
        rw [modify_self, hq.calm.sock_eq]
      obtain ⟨w2, m, hq2, hm, hm', h2⟩ := ih (w1.modify s (·.sentBytes n)) (written + n)
      rw [hv, peerRxFree_sentBytes _ hn'] at hm
      obtain ⟨w3, hq3, rfl⟩ := hq2.of_modify
      refine ⟨w3, n + m, hq.trans hq3, by omega, by rw [flatten_cons, length_append]; omega, ?_⟩
      rw [writeLoop_cons hn0 h]
      simp only [modify_modify, sentBytes_sentBytes] at h2
      rcases h2 with h2 | ⟨he, h2⟩
      · exact .inl h2
      · exact .inr ⟨mem_cons_of_mem _ he, h2⟩

def VirtioVsock.readBytes (n : Nat) : VirtioVsock := { v with rx := ukVsockBufferConsume v.rx n }

def VirtioVsock.clearIfEmpty : VirtioVsock :=
  if ukVsockBufferIsEmpty v.rx then v.eventClear EPOLLIN else v

private theorem VirtioVsock.readBytes_zero : v.readBytes 0 = v := by
  simp [readBytes, consume_zero]

private theorem VirtioVsock.readBytes_readBytes (m n : Nat) : (v.readBytes m).readBytes n = v.readBytes (m + n) := by
  simp [readBytes, consume_consume]

/-- A read takes bytes out, and sends credit. -/
theorem consumeRx_cases (w : World) (s : SockId) (n : Nat) :
    ∃ w1, w.Quiet w1 ∧ consumeRx w s n = w1.modify s (·.readBytes n) :=
  (creditRequest_quiet (w.modify s (·.readBytes n)) s).of_modify

/-- Nothing is consumed at the end of the stream, which is the same as consuming no bytes. -/
theorem consumeRx_if_pos (w : World) (s : SockId) (k : Nat) :
    ∃ w1, w.Quiet w1 ∧ (if 0 < k then consumeRx w s k else w) = w1.modify s (·.readBytes k) := by
  by_cases hk0 : 0 < k
  · rw [if_pos hk0]
    exact consumeRx_cases w s k
  · refine ⟨w, World.Quiet.refl w, ?_⟩
    obtain rfl : k = 0 := by omega
    simp [World.modify, readBytes_zero]

theorem clearIfEmpty_eq (w : World) (s : SockId) : clearIfEmpty w s = w.modify s (·.clearIfEmpty) := by
  unfold clearIfEmpty
  cases h : ukVsockBufferIsEmpty (w.sock s).rx <;> simp [World.modify, VirtioVsock.clearIfEmpty, h]

/-- The loop of `vsock_read` returns a prefix of the receive buffer and consumes it, and if no buffer is empty
the prefix is as long as the buffers or the contents allow. -/
theorem readLoop_cases (s : SockId) (iov : List Nat) (w : World) (ret : List UInt8) :
    ∃ w1 n, w.Quiet w1 ∧ n ≤ (w.sock s).rx.count ∧
      (n ≤ iov.sum ∧ ((∀ len ∈ iov, 0 < len) → n = min iov.sum (w.sock s).rx.count)) ∧
      (readLoop s iov w ret).1 = w1.modify s (·.readBytes n) ∧
      ((readLoop s iov w ret).2 = .ok (ret ++ (w.sock s).rx.contents.take n) ∨
        (n = 0 ∧ ret = [] ∧ (readLoop s iov w ret).2 = .error .EAGAIN)) := by
  induction iov generalizing w ret with
  | nil =>
    refine ⟨w, 0, World.Quiet.refl w, zero_le _, by simp, ?_, .inl ?_⟩
    · simp [readLoop, World.modify, readBytes_zero]
    · simp [readLoop]
  | cons len iov ih =>
    have hlen := bufferRead_length (w.sock s).rx len
    by_cases h0 : (ukVsockBufferRead (w.sock s).rx len).length = 0
    · refine ⟨w, 0, World.Quiet.refl w, zero_le _, ⟨zero_le _, fun hp => ?_⟩, ?_, ?_⟩
      · have := hp len mem_cons_self
        omega
      · simp [readLoop, h0, World.modify, readBytes_zero]
      · simp only [readLoop, h0, if_true, take_zero, append_nil, true_and]
        by_cases hr : ret.length = 0
        · cases hs : (w.sock s).rxShutdown <;> simp [length_eq_zero_iff.1 hr]
        · simp [hr]
    · have hle : (ukVsockBufferRead (w.sock s).rx len).length ≤ (w.sock s).rx.count := by omega
      obtain ⟨w1, hq, h1⟩ := consumeRx_cases w s (ukVsockBufferRead (w.sock s).rx len).length
      have hout := bufferRead_eq_take_length (w.sock s).rx len
      generalize hk : (ukVsockBufferRead (w.sock s).rx len).length = k at *
      have hv : (consumeRx w s k).sock s = (w.sock s).readBytes k := by
        rw [h1, modify_self, hq.calm.sock_eq]
      -- The first buffer takes `k` bytes, and the others are filled from what is left.
      obtain ⟨w2, m, hq2, hm, hm', hw2, hr2⟩ := ih (consumeRx w s k) (ret ++ (w.sock s).rx.contents.take k)
      have hcount : ((consumeRx w s k).sock s).rx.count = (w.sock s).rx.count - k := by rw [hv]; rfl
      have hcont : ((consumeRx w s k).sock s).rx.contents = (w.sock s).rx.contents.drop k := by
        rw [hv]
        exact contents_consume _ hle
      have hloop : readLoop s (len :: iov) w ret = readLoop s iov (consumeRx w s k)
        (ret ++ (w.sock s).rx.contents.take k) := by
        rw [readLoop]
        rw [hk, if_neg h0, hout]
      rw [hloop]
      rw [h1] at hq2
      obtain ⟨w3, hq3, rfl⟩ := hq2.of_modify
      rw [sum_cons]
      refine ⟨w3, k + m, hq.trans hq3, by omega, ⟨by omega, fun hp => ?_⟩, ?_, ?_⟩
      · have := hm'.2 fun x hx => hp x (mem_cons_of_mem _ hx)
        omega
      · rw [hw2, modify_modify]
        simp only [readBytes_readBytes]
      · rw [hcont] at hr2
        rcases hr2 with hr2 | ⟨-, hnil, -⟩
        · refine .inl (hr2.trans ?_)
          rw [append_assoc, ← take_add]
        · have : (ret ++ (w.sock s).rx.contents.take k).length = 0 := by rw [hnil]; rfl
          simp only [length_append, length_take, UkVsockBuffer.length_contents] at this
          omega

end Unikraft.Vsock
