import Unikraft.Vsock.Table

/-!
# Half-closed connections

Two instances of the layer, each with one end of a connection, and the `SHUTDOWN` packets between them. The flags of a
socket are meant to be the directions that were asked to be shut down (`Agrees`). `vsock_shutdown` passes its
directions on unchanged, where they are taken for those of the peer. The ends agree exactly if every call shuts down
both, or finds both shut down (`Proper`).
-/

namespace Unikraft.Vsock

open List Runs VirtioVsock World

/-- Directions of a connection, as seen from one of its ends. -/
structure Dirs where
  rx : Bool := false
  tx : Bool := false
  deriving DecidableEq

def Dirs.both : Dirs := ⟨true, true⟩

def Dirs.or (d d' : Dirs) : Dirs := ⟨d.rx || d'.rx, d.tx || d'.tx⟩

def Dirs.flip (d : Dirs) : Dirs := ⟨d.tx, d.rx⟩

def VirtioVsock.shut (v : VirtioVsock) : Dirs := ⟨v.rxShutdown, v.txShutdown⟩

/-- One end of a connection in an instance of the layer. `inbox` are the `SHUTDOWN` packets on the way to it, in
order, each with the directions of the call that transmitted it as its own packet; `asked` is history. -/
structure End where
  world : World
  sock : SockId
  inbox : List (Packet × Dirs)
  asked : Dirs

def End.v (e : End) : VirtioVsock := e.world.sock e.sock

structure Pair where
  a : End
  b : End

def Pair.swap (p : Pair) : Pair := ⟨p.b, p.a⟩

def shutdownsSince (w w' : World) : List Packet :=
  ((w'.sent.drop w.sent.length).map (·.pkt)).filter fun pkt => pkt.hdr.op = OP_SHUTDOWN

/-- The first packet is the one of the call; the others are those of a socket that closes. -/
def tag (d : Dirs) : List Packet → List (Packet × Dirs)
  | [] => []
  | pkt :: l => (pkt, d) :: l.map (·, {})

def howDirs (how : Int) : Dirs :=
  match shutHow how with
  | none => {}
  | some (rx, tx) => ⟨rx, tx⟩

def Pair.call (p : Pair) (how : Int) : Pair :=
  let w := (vsockShutdown p.a.world p.a.sock how).1
  { a := { p.a with world := w, asked := p.a.asked.or (howDirs how) }
    b := { p.b with inbox := p.b.inbox ++ tag (howDirs how) (shutdownsSince p.a.world w) } }

def Pair.deliver (p : Pair) : Pair :=
  match p.a.inbox with
  | [] => p
  | (pkt, d) :: inbox =>
    let w := (virtioVsockdevWorkRx p.a.world pkt).1
    { a := { p.a with world := w, inbox := inbox, asked := p.a.asked.or d.flip }
      b := { p.b with inbox := p.b.inbox ++ tag {} (shutdownsSince p.a.world w) } }

inductive EndAct
  | call (how : Int)
  | deliver

def Pair.act (p : Pair) : EndAct → Pair
  | .call how => p.call how
  | .deliver => p.deliver

def Pair.step (p : Pair) : Bool × EndAct → Pair
  | (true, act) => p.act act
  | (false, act) => (p.swap.act act).swap

def Pair.side (p : Pair) : Bool → Pair
  | true => p
  | false => p.swap

def Pair.Succeeds (p : Pair) : Bool × EndAct → Prop
  | (side, .call how) => (vsockShutdown (p.side side).a.world (p.side side).a.sock how).2 = .ok ()
  | (_, .deliver) => True

/-- The flags of the end are the directions asked for, and it is only closed when both are shut down. -/
structure End.Agrees (e : End) : Prop where
  shut : e.v.shut = e.asked
  closed : e.v.state = .CLOSED → e.v.shut = .both

def Pair.Agrees (p : Pair) : Prop := p.a.Agrees ∧ p.b.Agrees

/-- A call shuts down both directions, or both are already. -/
def Pair.Proper (p : Pair) : Bool × EndAct → Prop
  | (side, .call how) => howDirs how = .both ∨ (p.side side).a.v.shut = .both
  | (_, .deliver) => True

structure World.Reaches (w : World) (s : SockId) : Prop where
  mem : s ∈ w.sockets
  keyFree : w.KeyFree s (w.sock s).key

/-- The socket is an end of an open connection of which no direction is shut down. -/
structure End.Open (e : End) : Prop where
  state : e.v.state = .OPEN
  shut : e.v.shut = {}
  reaches : e.world.Reaches e.sock
  cid : e.v.localAddr.cid = e.world.cid
  type : e.v.type = e.v.sockType.virtio
  inbox : e.inbox = []
  asked : e.asked = {}

def Peers (v v' : VirtioVsock) : Prop :=
  v.sockType = v'.sockType ∧ v.localAddr = v'.peerAddr ∧ v.peerAddr = v'.localAddr

/-- Two instances of the layer with a connection between them. -/
structure Pair.Connected (p : Pair) : Prop where
  a : p.a.Open
  b : p.b.Open
  peers : Peers p.a.v p.b.v

@[simp] theorem VirtioVsock.shut_shutdownBy (v : VirtioVsock) (rx tx : Bool) :
    (v.shutdownBy rx tx).shut = v.shut.or ⟨tx, rx⟩ := by
  simp [shutdownBy_eq, shut, Dirs.or]

@[simp] theorem VirtioVsock.shut_closed (v : VirtioVsock) : v.closed.shut = .both := by
  simp [closed_eq, shut, Dirs.both]

variable {d : Dirs} {w w₁ : World} {s t : SockId} {v v' : VirtioVsock} {w' : World} {how : Int} {pkt : Packet}
    {p : Pair} {u : VirtioVsock}

private theorem Dirs.or_eq_both {d' : Dirs} (h : d = .both ∨ d' = .both) : d.or d' = .both := by
  rcases h with rfl | rfl <;> simp [Dirs.or, Dirs.both]

inductive ShutTo (v : VirtioVsock) (d : Dirs) : VirtioVsock → Prop
  | flags : ShutTo v d (v.shutdownBy d.tx d.rx)
  | closed (hb : v.shut.or d = .both) : ShutTo v d (v.shutdownBy d.tx d.rx).closed

private theorem ShutTo.shut (h : ShutTo v d v') : v'.shut = v.shut.or d := by
  cases h with
  | flags => simp
  | closed hb => simp [hb]

private theorem ShutTo.state (h : ShutTo v d v') : v'.state = v.state ∨ v'.state = .CLOSED ∧ v'.shut = .both := by
  cases h with
  | flags => simp
  | closed hb => simp

private theorem ShutTo.key (h : ShutTo v d v') : v'.key = v.key ∧ v'.type = v.type := by
  cases h with
  | flags => simp [shutdownBy_eq, key]
  | closed hb => simp [closed_eq, shutdownBy_eq, key]

private theorem connShutdown_shutTo (hs : (w.sock s).state = .OPEN) (rx tx : Bool) :
    ∃ w₁ v', w.Quiet w₁ ∧ ShutTo (w.sock s) ⟨tx, rx⟩ v' ∧ (ukVsockConnShutdown w s rx tx).1 = w₁.settle s v' := by
  obtain ⟨w₁, hq, ⟨hn, -⟩ | ⟨-, h | ⟨hr, ht, h⟩⟩⟩ := shutdown_cases w s rx tx
  · exact absurd hs hn
  · exact ⟨w₁, _, hq, .flags, h⟩
  · refine ⟨w₁, _, hq, .closed ?_, h⟩
    rw [← shut_shutdownBy]
    simp only [shut, hr, ht, Dirs.both]

private theorem World.settle_sent (w : World) (s : SockId) (v : VirtioVsock) : (w.settle s v).sent = w.sent := by
  unfold settle; split <;> rfl

def shutdownPacket (u : VirtioVsock) (rx tx : Bool) : Packet :=
  ⟨u.hdr u.localAddr.cid OP_SHUTDOWN (shutdownFlags rx tx) 0, []⟩

private theorem shutdown_ok (h : (vsockShutdown w s how).2 = .ok ()) :
    (w.sock s).state = .OPEN ∧ howDirs how ≠ {} ∧ ∃ w₁ v' l, w.Calm w₁ ∧ ShutTo (w.sock s) (howDirs how).flip v' ∧
      (vsockShutdown w s how).1 = w₁.settle s v' ∧
      w₁.sent = w.sent ++ ⟨shutdownPacket (w.sock s) (howDirs how).rx (howDirs how).tx, none⟩ :: l := by
  unfold vsockShutdown howDirs at *
  cases hh : shutHow how with
  | none => simp [hh] at h
  | some p =>
    obtain ⟨rx, tx⟩ := p
    simp only [hh] at h ⊢
    by_cases hs : (w.sock s).state = .OPEN
    swap
    · simp [hs] at h
    rw [if_neg (by simpa using hs)] at h ⊢
    have hd : (⟨rx, tx⟩ : Dirs) ≠ {} := by
      intro he
      cases he
      unfold shutHow at hh
      split_ifs at hh <;> cases hh
    obtain ⟨w₁, hc, hsent, hx⟩ : ∃ w₁, w.Calm w₁ ∧ w₁.sent = w.sent ++ [⟨shutdownPacket (w.sock s) rx tx, none⟩] ∧
        virtioVsockShutdown w s rx tx = (w₁, .ok ()) := by
      rcases xmitHdr_cases w ((w.sock s).hdr (w.sock s).localAddr.cid OP_SHUTDOWN (shutdownFlags rx tx) 0) none with
        ⟨n, hx⟩ | ⟨n, e, -, -, hx⟩
      · refine ⟨_, ?_, ?_, hx⟩
        · exact ⟨rfl, rfl, rfl, rfl, rfl, rfl, rfl⟩
        · rfl
      · rw [virtioVsockShutdown, hx] at h
        cases h
    -- The packet is out; its directions now go to the socket itself, as if the peer had sent them.
    simp only [hx]
    have hs1 : (w₁.sock s).state = .OPEN := by rw [hc.sock_eq]; exact hs
    obtain ⟨w2, v', hq, hv, hw⟩ := connShutdown_shutTo hs1 rx tx
    rw [hc.sock_eq] at hv
    refine ⟨hs, hd, w2, v', ?_⟩
    obtain ⟨n, l, p, rfl, -⟩ := hq
    exact ⟨l, ⟨hc.sock_eq, hc.cid_eq, hc.live_eq, hc.next_eq, hc.sockets_eq, hc.rbFault_eq, hc.env_eq⟩, hv, hw,
      by simp [hsent]⟩

private theorem workRx_shutdown (w : World) (ho : pkt.hdr.op = OP_SHUTDOWN) :
    ∃ w₁, w.Calm w₁ ∧ ((virtioVsockdevWorkRx w pkt).1 = w₁ ∨ ∃ s d v', (w.sock s).state = .OPEN ∧
      ShutTo (w.sock s) d v' ∧ (virtioVsockdevWorkRx w pkt).1 = w₁.settle s v') := by
  rcases workRx_cases w pkt with ⟨-, h⟩ | ⟨s, w₁, v', -, hc, -, hh, h⟩
  · exact ⟨w, World.Calm.refl w, .inl h⟩
  refine ⟨w₁, hc, ?_⟩
  rw [credited_shutdown _ ho] at hh
  cases hh with
  | same =>
    left
    rw [h, ← hc.sock_eq, settle_self]
  | shutdown _ hs => exact .inr ⟨s, ⟨pkt.hdr.shutTx, pkt.hdr.shutRx⟩, _, hs, .flags, h⟩
  | shutdownClose _ hs hb =>
    refine .inr ⟨s, ⟨pkt.hdr.shutTx, pkt.hdr.shutRx⟩, _, hs, .closed ?_, h⟩
    rw [← shut_shutdownBy]
    simp only [shut, hb.1, hb.2, Dirs.both]
  | request _ ho' | response ho' | badResponse ho' | resetEvents ho' | refused ho' | resetWait ho' | resetOpen ho'
  | payload _ ho' =>
    rw [ho] at ho'
    cases ho'

section

private theorem rxTarget_of_peers (hr : w.Reaches s) (hc : (w.sock s).localAddr.cid = w.cid) (hp : Peers u (w.sock s))
    (ht : u.type = u.sockType.virtio) (rx tx : Bool) : rxTarget w (shutdownPacket u rx tx) = some s := by
  obtain ⟨hty, hl, hpe⟩ := hp
  have hmatch : (w.sock s).Matches (shutdownPacket u rx tx).hdr := by
    simp [VirtioVsock.Matches, shutdownPacket, hdr, ht, hty, hl, hpe]
  exact rxTarget_of_matches hr.mem hr.keyFree hc hmatch (Nat.zero_le _)

private theorem World.Reaches.settle (h : w.Reaches t) (hc : w.Calm w₁) (hk : v.key = (w.sock s).key)
    (ht : s = t → v.state = .OPEN) : (w₁.settle s v).Reaches t := by
  have hkey (x : SockId) : ((w₁.settle s v).sock x).key = (w.sock x).key := by
    by_cases hx : x = s
    · rw [hx, settle_sock_self, hk]
    · rw [settle_of_ne _ _ hx, hc.sock_eq]
  have hsub {x : SockId} (hx : x ∈ (w₁.settle s v).sockets) : x ∈ w.sockets := by
    rw [← hc.sockets_eq]
    unfold World.settle at hx
    split at hx
    · exact mem_of_mem_erase hx
    · exact hx
  refine ⟨?_, fun x hx hxt => ?_⟩
  · refine settle_mem (by rw [hc.sockets_eq]; exact h.mem) fun hst _ => ?_
    rw [ht hst.symm]
    rfl
  · rw [hkey, hkey]
    exact h.keyFree x (hsub hx) hxt

end

/-- The socket is an end of a connection, open or closed by shutting down both directions. -/
structure World.EndOk (w : World) (s : SockId) : Prop where
  state : (w.sock s).state = .OPEN ∨ (w.sock s).state = .CLOSED ∧ (w.sock s).shut = .both
  reaches : (w.sock s).state = .OPEN → w.Reaches s
  cid : (w.sock s).localAddr.cid = w.cid
  type : (w.sock s).type = (w.sock s).sockType.virtio

/-- The packets on the way to `x`. As long as `x` has an open direction, nothing was shut down at `y`, or the packet
of a call that shuts down both directions comes first. -/
structure Link (x y : End) : Prop where
  op : ∀ m ∈ x.inbox, m.1.hdr.op = OP_SHUTDOWN
  order : (x.v.shut = .both ∧ (x.inbox ≠ [] → y.v.shut = .both)) ∨ (x.inbox = [] ∧ y.v.shut = {}) ∨
    (y.v.shut = .both ∧ ∃ u inbox, Peers u x.v ∧ u.type = u.sockType.virtio ∧
      x.inbox = (shutdownPacket u true true, .both) :: inbox)

structure End.Inv (e : End) : Prop where
  ok : e.world.EndOk e.sock
  asked : e.v.shut = e.asked
  shut : e.v.shut = {} ∨ e.v.shut = .both

structure Pair.Inv (p : Pair) : Prop where
  a : p.a.Inv
  b : p.b.Inv
  peers : Peers p.a.v p.b.v
  toA : Link p.a p.b
  toB : Link p.b p.a

private theorem Peers.symm (h : Peers v v') : Peers v' v := ⟨h.1.symm, h.2.2.symm, h.2.1.symm⟩

private theorem Pair.Inv.swap (h : p.Inv) : p.swap.Inv := ⟨h.b, h.a, h.peers.symm, h.toB, h.toA⟩

private theorem End.Inv.agrees {e : End} (h : e.Inv) : e.Agrees := by
  refine ⟨h.asked, fun hc => ?_⟩
  rcases h.ok.state with ho | ⟨-, hs⟩
  · have : e.v.state = .OPEN := ho
    rw [this] at hc
    cases hc
  · exact hs

/-- A pair that has just connected satisfies the invariant. -/
theorem Pair.Connected.inv (h : p.Connected) : p.Inv := by
  have hend {e : End} (ho : e.Open) : e.Inv :=
    ⟨⟨.inl ho.state, fun _ => ho.reaches, ho.cid, ho.type⟩, ho.shut.trans ho.asked.symm, .inl ho.shut⟩
  have hlink {x y : End} (hx : x.Open) (hy : y.Open) : Link x y :=
    ⟨by simp [hx.inbox], .inr (.inl ⟨hx.inbox, hy.shut⟩)⟩
  exact ⟨hend h.a, hend h.b, h.peers, hlink h.a h.b, hlink h.b h.a⟩

private theorem ShutTo.settle_key (hc : w.Calm w₁) (hv : ShutTo (w.sock s) d v') (t : SockId) :
    ((w₁.settle s v').sock t).key = (w.sock t).key ∧ ((w₁.settle s v').sock t).type = (w.sock t).type := by
  by_cases ht : t = s
  · rw [ht, settle_sock_self]
    exact hv.key
  · rw [settle_of_ne _ _ ht, hc.sock_eq]
    exact ⟨rfl, rfl⟩

private theorem World.EndOk.calm (h : w.EndOk t) (hc : w.Calm w₁) : w₁.EndOk t := by
  refine ⟨?_, ?_, ?_, ?_⟩
  · rw [hc.sock_eq]; exact h.state
  · rw [hc.sock_eq]
    intro ho
    exact ⟨by rw [hc.sockets_eq]; exact (h.reaches ho).mem,
      by unfold World.KeyFree; rw [hc.sockets_eq, hc.sock_eq]; exact (h.reaches ho).keyFree⟩
  · rw [hc.sock_eq, hc.cid_eq]; exact h.cid
  · rw [hc.sock_eq]; exact h.type

private theorem World.EndOk.settle (h : w.EndOk t) (hc : w.Calm w₁) (hs : (w.sock s).state = .OPEN)
    (hv : ShutTo (w.sock s) d v') : (w₁.settle s v').EndOk t := by
  obtain ⟨hk, hty⟩ := hv.settle_key hc t
  have hcase : (s = t ∧ (w₁.settle s v').sock t = v') ∨ (s ≠ t ∧ (w₁.settle s v').sock t = w.sock t) := by
    by_cases hst : s = t
    · exact .inl ⟨hst, by rw [hst, settle_sock_self]⟩
    · exact .inr ⟨hst, by rw [settle_of_ne _ _ (Ne.symm hst), hc.sock_eq]⟩
  refine ⟨?_, fun ho => ?_, ?_, ?_⟩
  · rcases hcase with ⟨-, he⟩ | ⟨-, he⟩
    · rw [he]
      rcases hv.state with h' | h'
      · exact .inl (h'.trans hs)
      · exact .inr h'
    · rw [he]; exact h.state
  · have hot : (w.sock t).state = .OPEN := by
      rcases hcase with ⟨rfl, -⟩ | ⟨-, he⟩
      · exact hs
      · rwa [he] at ho
    refine (h.reaches hot).settle hc hv.key.1 fun hst => ?_
    rcases hcase with ⟨-, he⟩ | ⟨hne, -⟩
    · rwa [he] at ho
    · exact absurd hst hne
  · rw [settle_cid, hc.cid_eq, ← h.cid]
    exact congrArg (·.localAddr.cid) hk
  · rw [hty, h.type]
    exact congrArg (·.type.virtio) hk.symm

private theorem Peers.of_key (h : Peers u v) (hk : v'.key = v.key) : Peers u v' := by
  refine ⟨h.1.trans ?_, h.2.1.trans ?_, h.2.2.trans ?_⟩
  · exact congrArg (·.type) hk.symm
  · exact congrArg (·.peer) hk.symm
  · exact congrArg (·.localAddr) hk.symm

private theorem shutdownsSince_op {m : Packet × Dirs} (h : m ∈ tag d (shutdownsSince w w')) :
    m.1.hdr.op = OP_SHUTDOWN := by
  have hmem : m.1 ∈ shutdownsSince w w' := by
    cases hl : shutdownsSince w w' with
    | nil => rw [hl] at h; cases h
    | cons pkt l =>
      rw [hl] at h
      rcases mem_cons.1 h with rfl | h
      · exact mem_cons_self
      · obtain ⟨pkt', hp, rfl⟩ := mem_map.1 h
        exact mem_cons_of_mem _ hp
  simpa using (mem_filter.1 hmem).2

private theorem shutdownsSince_of_sent {l : List Sent} (ho : pkt.hdr.op = OP_SHUTDOWN)
    (h : w'.sent = w.sent ++ ⟨pkt, none⟩ :: l) : ∃ l', shutdownsSince w w' = pkt :: l' := by
  unfold shutdownsSince
  rw [h, drop_left, map_cons, filter_cons_of_pos (by simpa using ho)]
  exact ⟨_, rfl⟩

private theorem Link.of_both {x y x' y' : End} (h : Link x y) (hx : x'.v.shut = .both)
    (hy : y.v.shut = .both → y'.v.shut = .both) (hop : ∀ m ∈ x'.inbox, m ∈ x.inbox) : Link x' y' := by
  refine ⟨fun m hm => h.op m (hop m hm), .inl ⟨hx, fun hne => hy ?_⟩⟩
  obtain ⟨m, hm⟩ := exists_mem_of_ne_nil _ hne
  have hne' : x.inbox ≠ [] := ne_nil_of_mem (hop m hm)
  rcases h.order with ⟨-, h⟩ | ⟨h, -⟩ | ⟨h, -⟩
  · exact h hne'
  · exact absurd h hne'
  · exact h

private theorem Link.op_append {x y : End} (h : Link x y) : ∀ m ∈ x.inbox ++ tag d (shutdownsSince w w'),
    m.1.hdr.op = OP_SHUTDOWN := by
  intro m hm
  rcases mem_append.1 hm with hm | hm
  · exact h.op m hm
  · exact shutdownsSince_op hm

private theorem Pair.call_v (hw : (vsockShutdown p.a.world p.a.sock how).1 = w₁.settle p.a.sock v') :
    (p.call how).a.v = v' := by
  show (vsockShutdown p.a.world p.a.sock how).1.sock p.a.sock = v'
  rw [hw, settle_sock_self]

private theorem Pair.Inv.call (h : p.Inv) (hs : (vsockShutdown p.a.world p.a.sock how).2 = .ok ())
    (hp : howDirs how = .both ∨ p.a.v.shut = .both) : (p.call how).Inv := by
  obtain ⟨ho, -, w₁, v', l, hc, hv, hw, hsent⟩ := shutdown_ok hs
  have hself : (p.call how).a.v = v' := Pair.call_v hw
  -- The directions are swapped at the caller, which makes no difference when they are both.
  have hshut : (p.call how).a.v.shut = .both := by
    rw [hself, hv.shut]
    exact Dirs.or_eq_both (hp.symm.imp id (congrArg Dirs.flip))
  have hasked : (p.call how).a.asked = .both := by
    show p.a.asked.or (howDirs how) = .both
    rw [← h.a.asked]
    exact Dirs.or_eq_both hp.symm
  have hkey : (p.call how).a.v.key = p.a.v.key := by rw [hself]; exact hv.key.1
  have hok : (p.call how).a.world.EndOk p.a.sock := by
    show (vsockShutdown p.a.world p.a.sock how).1.EndOk p.a.sock
    rw [hw]
    exact h.a.ok.settle hc ho hv
  refine ⟨⟨hok, hshut.trans hasked.symm, .inr hshut⟩, ⟨h.b.ok, h.b.asked, h.b.shut⟩,
    (h.peers.symm.of_key hkey).symm, ?_, h.toB.op_append, ?_⟩
  · exact h.toA.of_both hshut id fun _ => id
  · -- The packet of the call comes first unless one that says the same is on its way or has arrived.
    rcases h.toB.order with ⟨hb, -⟩ | ⟨hnil, ha⟩ | ⟨ha, u, inbox, hu, hty, hin⟩
    · exact .inl ⟨hb, fun _ => hshut⟩
    · have hboth : howDirs how = .both := by
        rcases hp with hp | hp
        · exact hp
        · rw [ha] at hp; cases hp
      have hout : (vsockShutdown p.a.world p.a.sock how).1.sent = w₁.sent := by rw [hw, settle_sent]
      obtain ⟨l', hl'⟩ := shutdownsSince_of_sent rfl (hout.trans hsent)
      refine .inr (.inr ⟨hshut, p.a.v, l'.map (·, {}), h.peers, h.a.ok.type, ?_⟩)
      show p.b.inbox ++ tag (howDirs how) (shutdownsSince p.a.world (vsockShutdown p.a.world p.a.sock how).1) = _
      rw [hnil, hl', hboth]
      rfl
    · refine .inr (.inr ⟨hshut, u, inbox ++ tag (howDirs how) (shutdownsSince p.a.world (p.call how).a.world), hu,
        hty, ?_⟩)
      rw [← cons_append, ← hin]
      rfl

private theorem shut_of_workRx (ho : pkt.hdr.op = OP_SHUTDOWN)
    (hb : (w.sock s).shut = .both) : ((virtioVsockdevWorkRx w pkt).1.sock s).shut = .both := by
  obtain ⟨w₁, hc, h | ⟨t, d, v', -, hv, h⟩⟩ := workRx_shutdown w ho
  · rw [h, hc.sock_eq, hb]
  · rw [h]
    by_cases hst : s = t
    · subst hst
      rw [settle_sock_self, hv.shut]
      exact Dirs.or_eq_both (.inl hb)
    · rw [settle_of_ne _ _ hst, hc.sock_eq, hb]

private theorem shut_of_shutdownPacket (h : w.EndOk s) (hp : Peers u (w.sock s)) (ht : u.type = u.sockType.virtio) :
    ((virtioVsockdevWorkRx w (shutdownPacket u true true)).1.sock s).shut = .both := by
  rcases h.state with hs | ⟨-, hb⟩
  · rw [workRx_of_target (rxTarget_of_peers (h.reaches hs) h.cid hp ht true true)]
    have ho : (shutdownPacket u true true).hdr.op = OP_SHUTDOWN := rfl
    have hid := w.modify_credited s (·.credited_shutdown ho)
    have hh : rxHandler w s (shutdownPacket u true true) = ukVsockConnShutdown w s true true := by
      have hf : (shutdownPacket u true true).hdr.flags = shutdownFlags true true := rfl
      simp only [rxHandler, ho, hf]
      rfl
    rw [if_neg (by simp [hs]), hid, hh]
    obtain ⟨w₁, v', -, hv, hw⟩ := connShutdown_shutTo hs true true
    rw [hw, settle_sock_self, hv.shut]
    exact Dirs.or_eq_both (.inr rfl)
  · exact shut_of_workRx rfl hb

private theorem Pair.Inv.deliver (h : p.Inv) : p.deliver.Inv := by
  cases hin : p.a.inbox with
  | nil =>
    have : p.deliver = p := by simp only [Pair.deliver, hin]
    rwa [this]
  | cons m inbox =>
    obtain ⟨pkt, d⟩ := m
    have hmem : (pkt, d) ∈ p.a.inbox := by rw [hin]; exact mem_cons_self
    have ho : pkt.hdr.op = OP_SHUTDOWN := h.toA.op _ hmem
    -- Only an end that has shut down both directions has transmitted anything.
    have hb : p.b.v.shut = .both := by
      rcases h.toA.order with ⟨-, hb⟩ | ⟨hnil, -⟩ | ⟨hb, -⟩
      · exact hb (ne_nil_of_mem hmem)
      · rw [hin] at hnil; cases hnil
      · exact hb
    have hdel : p.deliver = ⟨⟨(virtioVsockdevWorkRx p.a.world pkt).1, p.a.sock, inbox, p.a.asked.or d.flip⟩,
          ⟨p.b.world, p.b.sock,
            p.b.inbox ++ tag {} (shutdownsSince p.a.world (virtioVsockdevWorkRx p.a.world pkt).1), p.b.asked⟩⟩ := by
      simp only [Pair.deliver, hin]
    have hshut : ((virtioVsockdevWorkRx p.a.world pkt).1.sock p.a.sock).shut = .both ∧
      p.a.asked.or d.flip = .both := by
      rcases h.toA.order with ⟨ha, -⟩ | ⟨hnil, -⟩ | ⟨-, u, l, hu, hty, hl⟩
      · exact ⟨shut_of_workRx ho ha, Dirs.or_eq_both (.inl (h.a.asked.symm.trans ha))⟩
      · rw [hin] at hnil; cases hnil
      · rw [hin] at hl
        cases hl
        exact ⟨shut_of_shutdownPacket h.a.ok hu hty, Dirs.or_eq_both (.inr rfl)⟩
    obtain ⟨hok, hkey⟩ : (virtioVsockdevWorkRx p.a.world pkt).1.EndOk p.a.sock ∧
        ((virtioVsockdevWorkRx p.a.world pkt).1.sock p.a.sock).key = p.a.v.key := by
      obtain ⟨w₁, hc, hw | ⟨t, d, v', hs, hv, hw⟩⟩ := workRx_shutdown p.a.world ho
      · rw [hw]
        exact ⟨h.a.ok.calm hc, by rw [hc.sock_eq]; rfl⟩
      · rw [hw]
        exact ⟨h.a.ok.settle hc hs hv, (hv.settle_key hc p.a.sock).1⟩
    rw [hdel]
    refine ⟨⟨hok, hshut.1.trans hshut.2.symm, .inr hshut.1⟩, ⟨h.b.ok, h.b.asked, h.b.shut⟩,
      (h.peers.symm.of_key hkey).symm, ?_, h.toB.op_append, .inl ⟨hb, fun _ => hshut.1⟩⟩
    refine h.toA.of_both hshut.1 id fun m hm => ?_
    rw [hin]
    exact mem_cons_of_mem _ hm

/-- Every act of one end keeps the invariant. -/
theorem Pair.Inv.step (h : p.Inv) {i : Bool × EndAct} (hs : p.Succeeds i) (hp : p.Proper i) : (p.step i).Inv := by
  obtain ⟨side, act⟩ := i
  cases side <;> cases act
  · exact (h.swap.call hs hp).swap
  · exact h.swap.deliver.swap
  · exact h.call hs hp
  · exact h.deliver

private theorem proper_of_agrees (hs : (vsockShutdown p.a.world p.a.sock how).2 = .ok ())
    (ha : p.a.Agrees) (ha' : (p.call how).a.Agrees) : howDirs how = .both ∨ p.a.v.shut = .both := by
  obtain ⟨-, hsome, w₁, v', l, hc, hv, hw, -⟩ := shutdown_ok hs
  have hself : (p.call how).a.v = v' := Pair.call_v hw
  -- The socket has the swapped directions, and its history the right ones.
  have hflags : p.a.v.shut.or (howDirs how).flip = p.a.v.shut.or (howDirs how) := by
    rw [ha.shut, ← show (p.call how).a.asked = p.a.asked.or (howDirs how) from rfl, ← ha'.shut, hself, hv.shut,
      ← ha.shut]
    rfl
  generalize p.a.v.shut = e at *
  generalize howDirs how = d at *
  obtain ⟨er, et⟩ := e
  obtain ⟨dr, dt⟩ := d
  cases er <;> cases et <;> cases dr <;> cases dt <;> simp_all [Dirs.or, Dirs.flip, Dirs.both]

/-- The two ends agree all along a run exactly if its calls are proper. -/
theorem agrees_iff_proper {p : Pair} (hp : p.Connected) {acts : List (Bool × EndAct)}
    (hs : Meets Pair.step Pair.Succeeds p acts) :
    Always Pair.step Pair.Agrees p acts ↔ Meets Pair.step Pair.Proper p acts := by
  constructor
  · intro ha
    refine hs.of_always ?_ ha
    rintro p ⟨side, act⟩ ha hs ha'
    cases act with
    | deliver => trivial
    | call how =>
      cases side
      · exact proper_of_agrees hs ha.2 ha'.2
      · exact proper_of_agrees hs ha.1 ha'.1
  · intro hpr
    exact (hs.and hpr).always (fun p i h hi => h.step hi.1 hi.2) (fun p h => ⟨h.a.agrees, h.b.agrees⟩) hp.inv

def client : World :=
  run step (World.init 2 fun _ => .good)
    [.socket 1 0, .bind 0 ⟨AF_VSOCK, 5, CID_ANY⟩ 16, .connect 0 ⟨AF_VSOCK, 1000, 3⟩ 16,
      .rx ⟨⟨3, 2, 1000, 5, 0, 1, OP_RESPONSE, 0, 100, 0⟩, []⟩]

def linked : Pair := ⟨⟨client, 0, [], {}⟩, ⟨served, 1, [], {}⟩⟩

private theorem connected_linked : linked.Connected := by
  refine ⟨⟨?_, ?_, ⟨?_, ?_⟩, ?_, ?_, rfl, rfl⟩, ⟨?_, ?_, ⟨?_, ?_⟩, ?_, ?_, rfl, rfl⟩, ?_, ?_, ?_⟩
  all_goals first | decide | (unfold World.KeyFree; decide)

/-- The server closes both directions, and the client hears of it. -/
theorem agrees_linked : Meets Pair.step Pair.Succeeds linked [(false, .call 2), (true, .deliver)] ∧
      Always Pair.step Pair.Agrees linked [(false, .call 2), (true, .deliver)] := by
  have hs : Meets Pair.step Pair.Succeeds linked [(false, .call 2), (true, .deliver)] := ⟨rfl, trivial, trivial⟩
  exact ⟨hs, (agrees_iff_proper connected_linked hs).2 ⟨.inl rfl, trivial, trivial⟩⟩

/-- The client stops sending, and has its receiving direction shut down. -/
theorem not_agrees_of_run : ¬ ∀ (p : Pair) (acts : List (Bool × EndAct)), p.Connected →
    Meets Pair.step Pair.Succeeds p acts →
      Always Pair.step Pair.Agrees p acts := by
  intro h
  have ha := (h linked [(true, .call 1)] connected_linked ⟨rfl, trivial⟩).2
  have hshut := ha.1.shut
  revert hshut
  decide

end Unikraft.Vsock
