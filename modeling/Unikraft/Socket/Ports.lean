import Unikraft.Socket.Facade

/-!
# The ports of facades

`bind` on a facade translates a `sin_port` to a vsock port, and `getsockname` back. Port 0, which leaves the choice to
the system, becomes the vsock port 0, which does not. In `listen` without `bind` the system takes the first free port
from a 32-bit counter on, and the facade reports 16 bits of it. History: the port `asked` for, and the call that gave
a file its port (`binding`).
-/

namespace Unikraft.Socket

open Function (update update_of_ne update_self)
open BitVec Layer Op
open Vsock (World SockId Errno)

@[simp] theorem ntohs_ntohs (n : BitVec 16) : ntohs (ntohs n) = n := by
  apply eq_of_getLsbD_eq
  intro i hi
  have hge : n.getLsbD (8 + (8 + i)) = false := getLsbD_of_ge n _ (by omega)
  simp only [ntohs, getLsbD_or, getLsbD_shiftLeft, getLsbD_ushiftRight, hge]
  by_cases h : i < 8
  · simp [h, hi, show 8 + i < 16 by omega]
  · simp [h, hi, show ¬ 8 + i < 16 by omega, show i - 8 < 8 by omega, show 8 + (i - 8) = i by omega]

private theorem ntohs_eq_zero {n : BitVec 16} (h : ntohs n = 0) : n = 0 := by
  rw [← ntohs_ntohs n, h]
  rfl

/-! ### What is reported -/

variable (L : Layer)

def Layer.IsFacade (f : FileId) : Prop := L.live f = true ∧ (L.file f).stubNode.isSome = true

/-- A facade, or a file that descends from one, whose vsock is bound. -/
def Layer.IsBound (f : FileId) : Prop := L.IsInet f ∧ (L.vsockOf f).state.inTable = true

/-- `getsockname` returns an address of AF_INET with this `sin_port`. -/
def Layer.Reports (f : FileId) (sinPort : BitVec 16) : Prop :=
  ∀ n ext, getsockname L f (some n) ext = .ok ⟨.ofPort sinPort, min n sizeofSockaddrIn, sizeofSockaddrIn⟩

def Name.port (a : Name) : Nat :=
  if a.addr.saFamily = AF_INET then (ntohs a.addr.sinPort).toNat else a.addr.vm.svmPort.toNat

structure Ports where
  L : Layer
  asked : FileId → Option (BitVec 16)
  binding : FileId → Nat
  bindings : Nat

def Ports.init (cid : BitVec 32) (env : Nat → Vsock.Outcome) : Ports :=
  ⟨Layer.init cid env, fun _ => none, fun _ => 0, 0⟩

def Ports.note (x : Ports) (f : FileId) (sinPort : BitVec 16) : Ports :=
  { x with
    asked := update x.asked f (some sinPort)
    binding := update x.binding f x.bindings
    bindings := x.bindings + 1 }

def portStep (drv : Drivers) (x : Ports) (op : Op) : Ports :=
  let y : Ports := { x with L := step drv x.L op }
  match op with
  | .bind f addr addrLen ext =>
    if x.L.live f && (bind x.L f addr addrLen ext).2.isOk then y.note f addr.sinPort else y
  | .listen f backlog ext =>
    if x.L.live f && (x.L.vsockOf f).state = .READY && (listen x.L f backlog ext).2.isOk then y.note f 0 else y
  | .accept f _ _ _ _ => { y with binding := update x.binding x.L.next (x.binding f) }
  | _ => y

/-- The facades report the ports they have been bound to, and different bindings have different ports. -/
structure PortsReported (x : Ports) : Prop where
  asked : ∀ f p, x.L.IsFacade f → x.asked f = some p → p ≠ 0 → x.L.Reports f p
  chosen : ∀ f, x.L.IsFacade f → x.asked f = some 0 → ∃ p, p ≠ 0 ∧ x.L.Reports f p
  facades : ∀ f g p, x.L.IsFacade f → x.L.IsFacade g → x.L.IsBound f → x.L.IsBound g → x.L.Reports f p →
    x.L.Reports g p → f = g
  apart : ∀ f g n m e e' a b, x.L.IsBound f → x.L.IsBound g → x.binding f ≠ x.binding g →
    getsockname x.L f (some n) e = .ok a → getsockname x.L g (some m) e' = .ok b → a.port ≠ b.port

def NoConnection (w : World) (port : BitVec 32) : Prop :=
  ∀ t ∈ w.sockets, (w.sock t).sockType = .STREAM → (w.sock t).localAddr.port = port → (w.sock t).peerAddr = .any

/-- The port counter is past 0, and there is a free port that it reaches and that has 16 bits. -/
def PortLeft (w : World) : Prop :=
  w.portAllocNext ≠ 0 ∧ ∃ p, w.portAllocNext.toNat ≤ p.toNat ∧ p.toNat < 65536 ∧ w.PortFree .STREAM p

/-- A facade is bound to a port of its choice that no connection has, or to a port of 16 bits that the system finds;
and neither `accept` nor `connect` with a vsock address gives a port a second owner. -/
def PortSafe : Op → Prop
  | .bind f addr addrLen _ => L.IsInet f → (L.vsockOf f).state = .READY →
      (L.IsFacade f → addr.sinPort ≠ 0) ∧ NoConnection L.vs (bindAddr (L.file f) addr addrLen).1.svmPort
  | .listen f _ _ => L.IsInet f → (L.vsockOf f).state = .READY → PortLeft L.vs
  | .accept f addr addrLen _ _ => L.IsInet f → Vsock.TableSafe L.vs (.accept (L.file f).node.sockData addr addrLen)
  | .connect f addr addrLen _ => L.IsInet f → addr.saFamily ≠ Vsock.AF_VSOCK ∨ addrLen ≠ Vsock.sizeofSockaddrVm
  | _ => True

section
variable {drv : Drivers} {L : Layer} {f : FileId}

private theorem getsockname_facade (hd : (L.file f).node.driver = .vsock) (hs : (L.file f).stubNode.isSome = true)
    (n : Nat) (ext : Except Errno Name) : getsockname L f (some n) ext =
      .ok ⟨.ofPort (ntohs ((L.vsockOf f).localAddr.port.setWidth 16)), min n sizeofSockaddrIn, sizeofSockaddrIn⟩ := by
  simp only [getsockname, hs, if_true, posixSocketGetsockname, hd]
  rfl

private theorem port_of_getsockname (hd : (L.file f).node.driver = .vsock) {n : Nat} {ext : Except Errno Name}
    {a : Name} (hp : (L.file f).stubNode.isSome = true → (L.vsockOf f).localAddr.port.toNat < 65536)
    (h : getsockname L f (some n) ext = .ok a) : a.port = (L.vsockOf f).localAddr.port.toNat := by
  by_cases hs : (L.file f).stubNode.isSome = true
  · rw [getsockname_facade hd hs] at h
    cases h
    simp only [Name.port, Sockaddr.ofPort, if_true, Sockaddr.sinPort, ntohs_ntohs, toNat_setWidth]
    exact Nat.mod_eq_of_lt (hp hs)
  · simp only [getsockname, if_neg hs, posixSocketGetsockname, hd] at h
    cases h
    rfl

def PortOk (sinPort : BitVec 16) (port : BitVec 32) : Prop :=
  port ≠ 0 ∧ port.toNat < 65536 ∧ (sinPort ≠ 0 → port = (ntohs sinPort).setWidth 32)

/-- What is known of a facade or of a file that descends from one. -/
structure FileOk (x : Ports) (f : FileId) : Prop where
  stream : (x.L.vsockOf f).sockType = .STREAM
  mem : (x.L.vsockOf f).state.inTable = true → (x.L.file f).node.sockData ∈ x.L.vs.sockets
  lt : (x.L.vsockOf f).state.inTable = true → x.binding f < x.bindings
  asked : (x.L.file f).stubNode.isSome = true → ∀ p, x.asked f = some p → PortOk p (x.L.vsockOf f).localAddr.port
  bound : (x.L.file f).stubNode.isSome = true → (x.L.vsockOf f).state.inTable = true → ∃ p, x.asked f = some p

structure PortInv (x : Ports) : Prop where
  sound : x.L.Sound
  inet : x.L.InetVsock
  fresh : ∀ f, x.L.next ≤ f → x.asked f = none
  file : ∀ f, x.L.IsInet f → FileOk x f
  apart : ∀ f g, x.L.IsBound f → x.L.IsBound g → x.binding f ≠ x.binding g →
    (x.L.vsockOf f).localAddr.port ≠ (x.L.vsockOf g).localAddr.port
  facades : ∀ f g, x.L.IsFacade f → x.L.IsFacade g → x.L.IsBound f → x.L.IsBound g → x.binding f = x.binding g → f = g

variable {x x' : Ports} {op : Op} {port : BitVec 32}

private theorem setWidth_toNat (h : port.toNat < 65536) : (port.setWidth 16).toNat = port.toNat := by
  exact Nat.mod_eq_of_lt h

private theorem PortInv.isInet (h : PortInv x) (hf : x.L.IsFacade f) : x.L.IsInet f :=
  ⟨hf.1, h.inet.facade f hf.1 hf.2⟩

private theorem PortInv.portsReported (h : PortInv x) : PortsReported x := by
  have hd {f : FileId} (hf : x.L.IsFacade f) := h.inet.driver f (h.isInet hf)
  have hport {f : FileId} (hf : x.L.IsBound f) (hs : (x.L.file f).stubNode.isSome = true) :
      (x.L.vsockOf f).localAddr.port.toNat < 65536 := by
    obtain ⟨p, hp⟩ := (h.file f hf.1).bound hs hf.2
    exact ((h.file f hf.1).asked hs p hp).2.1
  refine ⟨?_, ?_, ?_, ?_⟩
  · intro f p hf hp hp0 n ext
    rw [getsockname_facade (hd hf) hf.2, ((h.file f (h.isInet hf)).asked hf.2 p hp).2.2 hp0]
    have hw : ((ntohs p).setWidth 32).setWidth 16 = ntohs p := by
      apply eq_of_toNat_eq
      simp only [toNat_setWidth]
      omega
    rw [hw, ntohs_ntohs]
  · intro f hf hp
    obtain ⟨hne, hlt, -⟩ := (h.file f (h.isInet hf)).asked hf.2 0 hp
    refine ⟨_, ?_, fun n ext => getsockname_facade (hd hf) hf.2 n ext⟩
    intro h0
    apply hne
    apply eq_of_toNat_eq
    rw [← setWidth_toNat hlt, ntohs_eq_zero h0]
    rfl
  · intro f g p hf hg hbf hbg hrf hrg
    by_contra hfg
    have hne : x.binding f ≠ x.binding g := fun he => hfg (h.facades f g hf hg hbf hbg he)
    apply h.apart f g hbf hbg hne
    apply eq_of_toNat_eq
    have hf0 := hrf 0 (.error .EINVAL)
    have hg0 := hrg 0 (.error .EINVAL)
    rw [← port_of_getsockname (hd hf) (hport hbf) hf0, ← port_of_getsockname (hd hg) (hport hbg) hg0]
  · intro f g n m e e' a b hf hg hne ha hb
    rw [port_of_getsockname (h.inet.driver f hf.1) (hport hf) ha,
        port_of_getsockname (h.inet.driver g hg.1) (hport hg) hb]
    exact fun he => h.apart f g hf hg hne (eq_of_toNat_eq he)

/-! ### What becomes of a file in a step -/

/-- The file is as it was, and its vsock has kept its addresses. -/
structure Kept (x x' : Ports) (f : FileId) : Prop where
  inet : x.L.IsInet f
  file_eq : x'.L.file f = x.L.file f
  asked_eq : x'.asked f = x.asked f
  binding_eq : x'.binding f = x.binding f
  keeps : Vsock.Keeps x.L.vs x'.L.vs (x.L.file f).node.sockData

/-- The possibilities for a file after a step in which at most `b` was bound. -/
inductive Now (x x' : Ports) (b : Option FileId) (f : FileId) : Prop
  | kept (h : Kept x x' f)
  | idle (h : FileOk x' f) (hs : (x'.L.vsockOf f).state.inTable = false)
  | bound (h : FileOk x' f) (hf : b = some f) (hb : x'.binding f = x.bindings)
      (hp : ∀ g, x.L.IsBound g → (x.L.vsockOf g).localAddr.port ≠ (x'.L.vsockOf f).localAddr.port)
  | accepted (h : FileOk x' f) (hs : (x'.L.file f).stubNode.isSome = false) (l : FileId) (hl : x.L.IsBound l)
      (hb : x'.binding f = x.binding l) (hp : (x'.L.vsockOf f).localAddr.port = (x.L.vsockOf l).localAddr.port)

namespace Kept

section
variable (h : Kept x x' f)
include h

private theorem key_eq : (x'.L.vsockOf f).key = (x.L.vsockOf f).key := by
  rw [vsockOf, h.file_eq]
  exact h.keeps.key_eq

private theorem port_eq : (x'.L.vsockOf f).localAddr.port = (x.L.vsockOf f).localAddr.port :=
  congrArg (·.localAddr.port) h.key_eq

private theorem inTable (hs : (x'.L.vsockOf f).state.inTable = true) : (x.L.vsockOf f).state.inTable = true := by
  rw [vsockOf, h.file_eq] at hs
  exact h.keeps.inTable hs

private theorem isBound (hs : x'.L.IsBound f) : x.L.IsBound f := ⟨h.inet, h.inTable hs.2⟩

private theorem fileOk (hf : FileOk x f) (hb : x.bindings ≤ x'.bindings) : FileOk x' f := by
  refine ⟨?_, ?_, ?_, ?_, ?_⟩
  · rw [show (x'.L.vsockOf f).sockType = (x.L.vsockOf f).sockType from congrArg (·.type) h.key_eq]
    exact hf.stream
  · intro hs
    rw [h.file_eq]
    refine h.keeps.mem (hf.mem (h.inTable hs)) ?_
    rwa [vsockOf, h.file_eq] at hs
  · intro hs
    rw [h.binding_eq]
    exact Nat.lt_of_lt_of_le (hf.lt (h.inTable hs)) hb
  · rw [h.file_eq, h.asked_eq, h.port_eq]
    exact hf.asked
  · intro hst hs
    rw [h.file_eq] at hst
    rw [h.asked_eq]
    exact hf.bound hst (h.inTable hs)

end

end Kept

variable {n : Nat} {b : Option FileId} {g : FileId} {w w' w₁ : World} {e : Except Errno Unit} {s : SockId} {a : Nat}

private theorem Now.fileOk (h : Now x x' b f) (hx : PortInv x) (hb : x.bindings ≤ x'.bindings) : FileOk x' f := by
  cases h with
  | kept h => exact h.fileOk (hx.file f h.inet) hb
  | idle h | bound h | accepted h => exact h

private theorem now_apart (hx : PortInv x) (hf : Now x x' b f) (hg : Now x x' b g)
    (hbf : x'.L.IsBound f) (hbg : x'.L.IsBound g) (hne : x'.binding f ≠ x'.binding g) :
    (x'.L.vsockOf f).localAddr.port ≠ (x'.L.vsockOf g).localAddr.port := by
  -- A file is idle, has a new binding, or has the port and the binding of a file bound before.
  have hcase {f : FileId} (hf : Now x x' b f) (hbf : x'.L.IsBound f) : (b = some f ∧ x'.binding f = x.bindings ∧
      ∀ g, x.L.IsBound g → (x.L.vsockOf g).localAddr.port ≠ (x'.L.vsockOf f).localAddr.port) ∨
      ∃ l, x.L.IsBound l ∧ x'.binding f = x.binding l ∧
        (x'.L.vsockOf f).localAddr.port = (x.L.vsockOf l).localAddr.port := by
    cases hf with
    | kept h => exact .inr ⟨f, h.isBound hbf, h.binding_eq, h.port_eq⟩
    | idle _ hs =>
      rw [hbf.2] at hs
      cases hs
    | bound _ hf hb hp => exact .inl ⟨hf, hb, hp⟩
    | accepted _ _ l hl hb hp => exact .inr ⟨l, hl, hb, hp⟩
  rcases hcase hf hbf with ⟨hf', hb, hp⟩ | ⟨l, hl, hb, hp⟩ <;>
    rcases hcase hg hbg with ⟨hg', hb', hp'⟩ | ⟨l', hl', hb', hp'⟩
  · exact absurd (hb.trans hb'.symm) hne
  · rw [hp']
    exact (hp l' hl').symm
  · rw [hp]
    exact hp' l hl
  · rw [hp, hp']
    refine hx.apart l l' hl hl' ?_
    rwa [← hb, ← hb']

private theorem now_facades (hx : PortInv x) (hf : Now x x' b f) (hg : Now x x' b g)
    (hff : x'.L.IsFacade f) (hgf : x'.L.IsFacade g) (hbf : x'.L.IsBound f) (hbg : x'.L.IsBound g)
    (he : x'.binding f = x'.binding g) : f = g := by
  -- A facade is not the new file of an `accept` call.
  have hcase {f : FileId} (hf : Now x x' b f) (hff : x'.L.IsFacade f) (hbf : x'.L.IsBound f) :
      (b = some f ∧ x'.binding f = x.bindings) ∨ Kept x x' f := by
    cases hf with
    | kept h => exact .inr h
    | idle _ hs =>
      rw [hbf.2] at hs
      cases hs
    | bound _ hf hb hp => exact .inl ⟨hf, hb⟩
    | accepted _ hs =>
      rw [hff.2] at hs
      cases hs
  have hfacade {f : FileId} (h : Kept x x' f) (hff : x'.L.IsFacade f) : x.L.IsFacade f :=
    ⟨h.inet.1, by rw [← h.file_eq]; exact hff.2⟩
  have hlt {f : FileId} (h : Kept x x' f) (hbf : x'.L.IsBound f) : x'.binding f < x.bindings := by
    rw [h.binding_eq]
    exact (hx.file f h.inet).lt (h.isBound hbf).2
  rcases hcase hf hff hbf with ⟨hf', hb⟩ | hk <;> rcases hcase hg hgf hbg with ⟨hg', hb'⟩ | hk'
  · rw [hf'] at hg'
    exact Option.some.inj hg'
  · have := hlt hk' hbg
    omega
  · have := hlt hk hbf
    omega
  · refine hx.facades f g (hfacade hk hff) (hfacade hk' hgf) (hk.isBound hbf) (hk'.isBound hbg) ?_
    rw [← hk.binding_eq, ← hk'.binding_eq, he]

private theorem PortInv.of_now (hx : PortInv x) (hs : x'.L.Sound) (hi : x'.L.InetVsock)
    (hfresh : ∀ f, x'.L.next ≤ f → x'.asked f = none)
    (hb : x.bindings ≤ x'.bindings) (hnow : ∀ f, x'.L.IsInet f → Now x x' b f) : PortInv x' where
  sound := hs
  inet := hi
  fresh := hfresh
  file f hf := (hnow f hf).fileOk hx hb
  apart f g hf hg hne := now_apart hx (hnow f hf.1) (hnow g hg.1) hf hg hne
  facades f g hff hgf hf hg he := now_facades hx (hnow f hf.1) (hnow g hg.1) hff hgf hf hg he

private theorem keeps_of_calm (h : w.Calm w') (s : SockId) : Vsock.Keeps w w' s := by
  refine ⟨by rw [h.sock_eq], by rw [h.sock_eq]; exact id, fun hm _ => ?_⟩
  rwa [h.sockets_eq]

private theorem step_keeps_vsock (drv : Drivers) (h : L.Sound) (hl : L.live f = true)
    (hn : (L.file f).node = ⟨s, .vsock⟩) (ho : op.addresses ≠ some f) : Vsock.Keeps L.vs (step drv L op).vs s := by
  rw [step_vs drv h.held op]
  obtain ⟨hs, hp⟩ := h.held.vsock f s hl hn
  cases hv : stepVsock drv L op with
  | none => exact .refl _ _
  | some vop =>
    refine Vsock.step_keeps h.table hs fun ha => ?_
    obtain ⟨g, hg, hgl, hgn⟩ := stepVsock_addresses hv ha
    have hpg := (h.held.vsock g s hgl hgn).2
    rw [hp] at hpg
    cases hpg
    exact ho hg

private theorem node_eq (h : L.InetVsock) (hf : L.IsInet f) :
    (L.file f).node = ⟨(L.file f).node.sockData, .vsock⟩ := by
  rw [← h.driver f hf]

section
variable (hx : PortInv x)
include hx

private theorem kept_step (hL : x'.L = step drv x.L op) (ha : x'.asked f = x.asked f)
    (hb : x'.binding f = x.binding f) (hf : x'.L.IsInet f) (hn : f ≠ x.L.next)
    (hk : x.L.IsInet f → Vsock.Keeps x.L.vs x'.L.vs (x.L.file f).node.sockData) : Kept x x' f := by
  obtain ⟨hfile, hlive⟩ := step_file_of_ne drv hx.sound.held op hn
  rw [hL] at hf
  have hi : x.L.IsInet f := ⟨hlive hf.1, by rw [← hfile]; exact hf.2⟩
  exact ⟨hi, by rw [hL, hfile], ha, hb, hk hi⟩

private theorem now_facade {stub : PosixSocketNode}
    (hw : w' = Vsock.step x.L.vs (.socket Vsock.SockType.STREAM.val 0)) (hnew : NewSock x.L.vs w')
    (hL : x'.L = x.L.opened w' n ⟨⟨x.L.vs.next, .vsock⟩, some stub, a, true⟩)
    (ha : x'.asked x.L.next = x.asked x.L.next) (b : Option FileId) : Now x x' b x.L.next := by
  have hv : x'.L.vsockOf x.L.next = { Vsock.VirtioVsock.init .STREAM with posixSock := some {} } := by
    rw [vsockOf, hL, opened_next]
    show w'.sock x.L.vs.next = _
    have hexec : Vsock.step x.L.vs (.socket Vsock.SockType.STREAM.val 0) =
      Vsock.exec x.L.vs (.socket Vsock.SockType.STREAM.val 0) := rfl
    rcases Vsock.exec_socket_cases x.L.vs Vsock.SockType.STREAM.val 0 with hq | ⟨w₁, ty, hq, hty, he⟩
    · have hn := hnew.1
      rw [hw, hexec, hq.calm.next_eq] at hn
      exact absurd hn (Nat.ne_of_lt (Nat.lt_succ_self _))
    · cases hty
      rw [hw, hexec, he, ← hq.calm.next_eq, World.newSock_next]
  have hs : (x'.L.vsockOf x.L.next).state.inTable = false := by rw [hv]; rfl
  refine .idle ⟨by rw [hv]; rfl, ?_, ?_, ?_, ?_⟩ hs
  · simp [hs]
  · simp [hs]
  · intro _ q hq
    rw [ha, hx.fresh _ (Nat.le_refl _)] at hq
    cases hq
  · simp [hs]

private theorem now_accepted {l : FileId} {addr : Bool} {addrLen : Option Nat}
    (hl : x.L.IsInet l) (hsafe : Vsock.TableSafe x.L.vs (.accept (x.L.file l).node.sockData addr addrLen))
    (hw : w' = Vsock.step x.L.vs (.accept (x.L.file l).node.sockData addr addrLen)) (hnew : NewSock x.L.vs w')
    (hL : x'.L = x.L.opened w' n ⟨⟨x.L.vs.next, .vsock⟩, none, a, true⟩)
    (hb : x'.binding x.L.next = x.binding l) (hbs : x.bindings ≤ x'.bindings) (b : Option FileId) :
    Now x x' b x.L.next := by
  have hends := (Vsock.step_ends hx.sound.held.fresh (.accept (x.L.file l).node.sockData addr addrLen)).1
  rw [← hw] at hends
  have hlok := hx.file l hl
  have hfile : x'.L.file x.L.next = ⟨⟨x.L.vs.next, .vsock⟩, none, a, true⟩ := by rw [hL, opened_next]
  have hvs : x'.L.vs = w' := by rw [hL]; rfl
  cases hends with
  | quiet hq =>
    have hn := hnew.1
    rw [hq.calm.next_eq] at hn
    exact absurd hn (Nat.ne_of_lt (Nat.lt_succ_self _))
  | settles ho => cases ho
  | @acceptFailed _ _ _ _ _ w₁ _ _ hc =>
    have hn : w₁.next = x.L.vs.next + 1 := hnew.1
    rw [hc.next_eq] at hn
    exact absurd hn (Nat.ne_of_lt (Nat.lt_succ_self _))
  | @accepted _ _ _ entry queue m hs hq =>
    have hv : x'.L.vsockOf x.L.next = Vsock.VirtioVsock.acceptedOpen x.L.vs.cid (x.L.vsockOf l) entry := by
      rw [vsockOf, hfile, hvs]
      exact World.accepting_next _ _ _ _
    have hlb : x.L.IsBound l := ⟨hl, by rw [vsockOf, hs]; rfl⟩
    refine .accepted ⟨?_, ?_, ?_, ?_, ?_⟩ (by rw [hfile]; rfl) l hlb hb (by rw [hv]; rfl)
    · rw [hv]
      exact hlok.stream
    · intro _
      rw [hfile, hvs]
      exact hx.sound.table.mem_accepting queue m (hsafe entry (by rw [hq]; rfl))
    · intro _
      rw [hb]
      exact Nat.lt_of_lt_of_le (hlok.lt hlb.2) hbs
    · simp [hfile]
    · simp [hfile]

private theorem now_next (hsafe : PortSafe x.L op) (hL : x'.L = step drv x.L op)
    (ha : x'.asked x.L.next = x.asked x.L.next) (hbs : x.bindings ≤ x'.bindings)
    (hb : ∀ l a n e, op = .accept l a n true e → x'.binding x.L.next = x.binding l) (hf : x'.L.IsInet x.L.next)
    (b : Option FileId) : Now x x' b x.L.next := by
  have hnot : x.L.live x.L.next ≠ true := fun hl => Nat.lt_irrefl _ (hx.sound.held.file_lt _ hl)
  have hends := step_ends drv hx.sound.held op
  rw [← hL] at hends
  generalize hw : vsStep x.L.vs (stepVsock drv x.L op) = w' at hends
  generalize hL' : x'.L = L' at hends hf
  cases hends with
  | kept | refused => exact absurd hf.1 hnot
  | @released g hl =>
    refine absurd ?_ hnot
    by_cases hg : x.L.next = g
    · exact hg ▸ hl
    · simpa [released, hg] using hf.1
  | openedVsock inet hi hnew =>
    rw [IsInet, x.L.opened_next] at hf
    obtain rfl : inet = true := hf.2
    obtain ⟨l, a, n, e, rfl, hl, hinet⟩ := hi rfl
    refine now_accepted hx ⟨hl, hinet⟩ (hsafe ⟨hl, hinet⟩) ?_ hnew hL' (hb l a n e rfl) hbs b
    rw [← hw, stepVsock]
    simp only [file?, hl, if_true, vsock, SocketAlloc.vsock, hx.inet.driver l ⟨hl, hinet⟩, vsStep]
  | openedOther family inet hi =>
    rw [IsInet, x.L.opened_next] at hf
    obtain ⟨l, hl, hinet, hd⟩ := hi hf.2
    exact absurd (hx.inet.driver l ⟨hl, hinet⟩) hd
  | openedFacade hv hnew => exact now_facade hx hv hnew hL' ha b

end

private theorem portStep_L (drv : Drivers) (x : Ports) (op : Op) : (portStep drv x op).L = step drv x.L op := by
  cases op with
  | bind | listen =>
    simp only [portStep]
    split <;> rfl
  | socket | accept | release | connect | call | rx | reset => rfl

private theorem portFree_of_alloc {ty : Vsock.SockType} (h : Vsock.vsockAllocPort w ty = (w₁, .ok port)) :
    w.PortFree ty port := by
  obtain ⟨w2, -, ⟨e, h'⟩ | ⟨port', h', hfree⟩⟩ := Vsock.allocPort_cases w ty
  · rw [h'] at h
    cases h
  · rw [h'] at h
    cases h
    exact hfree

private theorem portFree_of_bind {q : BitVec 32} (hty : (w.sock s).sockType = .STREAM)
    (hp : (if q = Vsock.PORT_ANY then Vsock.vsockAllocPort w (w.sock s).sockType else (w, .ok q)) = (w₁, .ok port))
    (hb : Vsock.vsockBindOther w s port = none) (hc : NoConnection w q) : w.PortFree .STREAM port := by
  split at hp
  · rw [hty] at hp
    exact portFree_of_alloc hp
  · cases hp
    intro t ht htype hport
    refine OrdSet.find_eq_none.1 hb t ht ?_
    rw [Vsock.sockaddrCmp_eq]
    simp [World.keyOf, Vsock.VirtioVsock.key, hty, htype, hport, hc t ht htype hport]

private theorem bindOther_calm (h : w.Calm w₁) (s : SockId) (port : BitVec 32) :
    Vsock.vsockBindOther w₁ s port = Vsock.vsockBindOther w s port := by
  simp only [Vsock.vsockBindOther, h.rbFind_eq, h.sock_eq]

private theorem portOk_of_sinPort {p : BitVec 16} (hp : p ≠ 0) :
    (ntohs p).setWidth 32 ≠ Vsock.PORT_ANY ∧ PortOk p ((ntohs p).setWidth 32) := by
  have hnat : ((ntohs p).setWidth 32).toNat = (ntohs p).toNat := by
    rw [toNat_setWidth]
    omega
  refine ⟨fun h => ?_, fun h => hp (ntohs_eq_zero ?_), by omega, fun _ => rfl⟩
  · rw [h] at hnat
    simp [Vsock.PORT_ANY] at hnat
    omega
  · rw [h] at hnat
    exact eq_of_toNat_eq hnat.symm

private theorem now_bound (hx : PortInv x) (hf : x.L.IsInet f) (port : BitVec 32) (sinPort : BitVec 16)
    (hfile : x'.L.file f = x.L.file f) (hty : (x'.L.vsockOf f).sockType = (x.L.vsockOf f).sockType)
    (hport : (x'.L.vsockOf f).localAddr.port = port) (hmem : (x.L.file f).node.sockData ∈ x'.L.vs.sockets)
    (hfree : x.L.vs.PortFree .STREAM port) (hok : x.L.IsFacade f → PortOk sinPort port)
    (ha : x'.asked f = some sinPort) (hb : x'.binding f = x.bindings) (hbs : x.bindings < x'.bindings) :
    Now x x' (some f) f := by
  refine .bound ⟨?_, ?_, ?_, ?_, ?_⟩ rfl hb ?_
  · rw [hty]
    exact (hx.file f hf).stream
  · intro _
    rwa [hfile]
  · intro _
    rwa [hb]
  · intro hs p hp
    rw [ha] at hp
    cases hp
    rw [hfile] at hs
    rw [hport]
    exact hok ⟨hf.1, hs⟩
  · exact fun _ _ => ⟨sinPort, ha⟩
  · intro g hg
    have hgok := hx.file g hg.1
    rw [hport]
    exact hfree _ (hgok.mem hg.2) hgok.stream

private theorem now_kept (hx : PortInv x) (hL : x'.L = step drv x.L op) (ha : x'.asked f = x.asked f)
    (hb : x'.binding f = x.binding f) (hf : x'.L.IsInet f) (hn : f ≠ x.L.next) (ho : op.addresses ≠ some f)
    (b : Option FileId) : Now x x' b f := by
  refine .kept (kept_step hx hL ha hb hf hn fun hi => ?_)
  rw [hL]
  exact step_keeps_vsock drv hx.sound hi.1 (node_eq hx.inet hi) ho

/-- The rule for the steps: the files that the step is not called on take care of themselves. -/
private theorem portInv_step_of (hx : PortInv x) (hsafe : PortSafe x.L op) (hL : x'.L = step drv x.L op)
    (hbs : x.bindings ≤ x'.bindings) (b : Option FileId) (hlt : ∀ f, b = some f → f < x.L.next)
    (ha : ∀ f, b ≠ some f → x'.asked f = x.asked f) (hb : ∀ f, b ≠ some f → f ≠ x.L.next → x'.binding f = x.binding f)
    (hacc : ∀ l a n e, op = .accept l a n true e → x'.binding x.L.next = x.binding l)
    (ho : ∀ f, op.addresses = some f → b = some f)
    (hnow : ∀ f, b = some f → x.L.IsInet f → x'.L.IsInet f → Now x x' b f) : PortInv x' := by
  have hne : b ≠ some x.L.next := fun h => Nat.lt_irrefl _ (hlt _ h)
  refine hx.of_now (b := b) (by rw [hL]; exact hx.sound.step drv op) (by rw [hL]; exact hx.inet.step drv op) ?_ hbs ?_
  · intro f hf
    have hle : x.L.next ≤ f := Nat.le_trans (step_next_le drv hx.sound.held op) (by rwa [← hL])
    rw [ha f fun h => Nat.not_lt.2 hle (hlt f h)]
    exact hx.fresh f hle
  · intro f hf
    by_cases hfn : f = x.L.next
    · subst hfn
      exact now_next hx hsafe hL (ha _ hne) hbs hacc hf b
    by_cases hfb : b = some f
    · obtain ⟨hfile, hlive⟩ := step_file_of_ne drv hx.sound.held op hfn
      refine hnow f hfb ⟨hlive ?_, ?_⟩ hf
      · rw [← hL]
        exact hf.1
      · rw [← hfile, ← hL]
        exact hf.2
    · exact now_kept hx hL (ha f hfb) (hb f hfb hfn) hf hfn (fun h => hfb (ho f h)) b

private theorem Ports.note_of_ne (x : Ports) (p : BitVec 16) (h : g ≠ f) :
    (x.note f p).asked g = x.asked g ∧ (x.note f p).binding g = x.binding g :=
  ⟨update_of_ne h _ _, update_of_ne h _ _⟩

private theorem portStep_of_closed (ho : op.addresses = some f) (hl : x.L.live f ≠ true) : portStep drv x op = x := by
  cases op with
  | bind | listen | connect =>
    cases ho
    simp [portStep, step, file?, hl]
  | socket | accept | release | call | rx | reset => cases ho

/-- A call that addresses a file does what it does to the layer, and may note a port for the file. -/
theorem portStep_cases (drv : Drivers) (x : Ports) (ho : op.addresses = some f) :
    portStep drv x op = { x with L := step drv x.L op } ∨
      ∃ p, portStep drv x op = Ports.note { x with L := step drv x.L op } f p := by
  cases op with
  | bind | listen =>
    cases ho
    simp only [portStep]
    split
    · exact .inr ⟨_, rfl⟩
    · exact .inl rfl
  | connect => exact .inl rfl
  | socket | accept | release | call | rx | reset => cases ho

section
variable (hx : PortInv x) {addr : Sockaddr}
include hx

private theorem portInv_call (hsafe : PortSafe x.L op) (ho : op.addresses = some f)
    (hnow : x.L.IsInet f → (portStep drv x op).L.IsInet f → Now x (portStep drv x op) (some f) f) :
    PortInv (portStep drv x op) := by
  by_cases hl : x.L.live f = true
  swap
  · rwa [portStep_of_closed ho hl]
  have hy := portStep_cases drv x ho
  refine portInv_step_of hx hsafe (portStep_L drv x op) ?_ (some f) ?_ ?_ ?_ ?_ ?_ ?_
  · rcases hy with h | ⟨p, h⟩ <;> rw [h]
    exact Nat.le_succ _
  · intro g hg
    cases hg
    exact hx.sound.held.file_lt f hl
  · intro g hg
    have hgf : g ≠ f := fun h => hg (by rw [h])
    rcases hy with h | ⟨p, h⟩ <;> rw [h]
    exact (Ports.note_of_ne _ p hgf).1
  · intro g hg _
    have hgf : g ≠ f := fun h => hg (by rw [h])
    rcases hy with h | ⟨p, h⟩ <;> rw [h]
    exact (Ports.note_of_ne _ p hgf).2
  · rintro l a n e rfl
    cases ho
  · intro g hg
    rw [← ho, hg]
  · intro g hg
    cases hg
    exact hnow

private theorem portInv_bind (hsafe : PortSafe x.L (.bind f addr n e)) :
    PortInv (portStep drv x (.bind f addr n e)) := by
  refine portInv_call hx hsafe rfl fun hi hi' => ?_
  have hl := hi.1
  have hd := hx.inet.driver f hi
  obtain ⟨w₁, hq, ⟨er, h⟩ | ⟨hs, port, hp, hb, h⟩⟩ := Vsock.vsockBind_cases x.L.vs (x.L.file f).node.sockData
    (bindAddr (x.L.file f) addr n).1 (bindAddr (x.L.file f) addr n).2
  · have hy : portStep drv x (.bind f addr n e) = { x with L := { x.L with vs := w₁ } } := by
      simp [portStep, step, file?, hl, exec, bind, hd, h, Except.isOk, Except.toBool]
    rw [hy]
    exact .kept ⟨hi, rfl, rfl, rfl, keeps_of_calm hq.calm _⟩
  · have hy : portStep drv x (.bind f addr n e) =
        Ports.note { x with L := { x.L with vs := w₁.bindSock (x.L.file f).node.sockData port } } f addr.sinPort := by
      simp [portStep, step, file?, hl, exec, bind, hd, h, Except.isOk, Except.toBool]
    obtain ⟨hsin, hconn⟩ := hsafe hi hs
    have hty := (hx.file f hi).stream
    have hv : (vsockOf { x.L with vs := w₁.bindSock (x.L.file f).node.sockData port } f) =
        (x.L.vsockOf f).bound ⟨x.L.vs.cid, port⟩ := by
      simp [vsockOf, World.bindSock, hq.calm.sock_eq, hq.calm.cid_eq]
    have hout : (x.L.file f).node.sockData ∉ x.L.vs.sockets := hx.sound.table.not_mem (by rw [hs]; rfl)
    rw [hy]
    refine now_bound hx hi port addr.sinPort rfl ?_ ?_ ?_ (portFree_of_bind hty hp hb hconn) ?_ ?_
      ?_ (Nat.lt_succ_self _)
    · exact congrArg (·.sockType) hv
    · exact congrArg (·.localAddr.port) hv
    · refine World.mem_bindSock (by rwa [hq.calm.sockets_eq]) ?_
      rwa [bindOther_calm hq.calm]
    · intro hf
      obtain ⟨hne, hok⟩ := portOk_of_sinPort (hsin hf)
      simp only [bindAddr, hf.2, if_true, if_neg hne] at hp
      cases hp
      exact hok
    · exact update_self ..
    · exact update_self ..

private theorem portInv_listen {backlog : Int} (hsafe : PortSafe x.L (.listen f backlog e)) :
    PortInv (portStep drv x (.listen f backlog e)) := by
  refine portInv_call hx hsafe rfl fun hi hi' => ?_
  have hl := hi.1
  have hd := hx.inet.driver f hi
  rcases Vsock.listen_cases x.L.vs (x.L.file f).node.sockData backlog with
    ⟨w₁, er, hq, h⟩ | ⟨hs, h⟩ | ⟨hs, w₁, port, hq, hp, hb, h⟩
  · have hy : portStep drv x (.listen f backlog e) = { x with L := { x.L with vs := w₁ } } := by
      simp [portStep, step, file?, hl, exec, listen, hd, h, Except.isOk, Except.toBool]
    rw [hy]
    exact .kept ⟨hi, rfl, rfl, rfl, keeps_of_calm hq.calm _⟩
  · have hready : (x.L.vsockOf f).state ≠ .READY := by
      rcases hs with hs | hs <;> simp [vsockOf, hs]
    have hy : portStep drv x (.listen f backlog e) =
        { x with L := { x.L with vs := x.L.vs.modify (x.L.file f).node.sockData (·.listening backlog) } } := by
      simp [portStep, step, file?, hl, exec, listen, hd, h, hready]
    rw [hy]
    refine .kept ⟨hi, rfl, rfl, rfl, ?_, fun _ => ?_, fun hm _ => hm⟩
    · simp [Vsock.VirtioVsock.listening, Vsock.VirtioVsock.key]
    · rcases hs with hs | hs <;> rw [hs] <;> rfl
  · have hready : (x.L.vsockOf f).state = .READY := hs
    have hv : ((w₁.bindSock (x.L.file f).node.sockData port).modify (x.L.file f).node.sockData
        (·.listening backlog)).sock (x.L.file f).node.sockData =
        ((x.L.vsockOf f).bound ⟨x.L.vs.cid, port⟩).listening backlog := by
      simp [vsockOf, World.bindSock, hq.calm.sock_eq, hq.calm.cid_eq]
    have hmem : (x.L.file f).node.sockData ∈ ((w₁.bindSock (x.L.file f).node.sockData port).modify
        (x.L.file f).node.sockData (·.listening backlog)).sockets := by
      refine World.mem_bindSock ?_ (by rwa [bindOther_calm hq.calm])
      rw [hq.calm.sockets_eq]
      exact hx.sound.table.not_mem (by rw [hs]; rfl)
    generalize (w₁.bindSock (x.L.file f).node.sockData port).modify (x.L.file f).node.sockData
      (·.listening backlog) = w2 at h hv hmem
    have hy : portStep drv x (.listen f backlog e) = Ports.note { x with L := { x.L with vs := w2 } } f 0 := by
      simp [portStep, step, file?, hl, exec, listen, hd, h, hready, Except.isOk, Except.toBool]
    -- The port is the first free one from the counter on.
    obtain ⟨hne, p, hle, hlt, hfree⟩ := hsafe hi hready
    have hty : (x.L.vs.sock (x.L.file f).node.sockData).sockType = .STREAM := (hx.file f hi).stream
    rw [hty] at hp
    obtain ⟨hlo, hhi⟩ := Vsock.allocPort_le hfree hle hlt hp
    rw [hy]
    refine now_bound hx hi port 0 rfl (congrArg (·.sockType) hv)
      (congrArg (·.localAddr.port) hv) hmem (portFree_of_alloc hp) ?_ (update_self ..)
      (update_self ..) (Nat.lt_succ_self _)
    intro _
    refine ⟨?_, by omega, fun h => absurd rfl h⟩
    rintro rfl
    apply hne
    apply eq_of_toNat_eq
    simpa using hlo

private theorem portInv_connect (hsafe : PortSafe x.L (.connect f addr n e)) :
    PortInv (portStep drv x (.connect f addr n e)) := by
  refine portInv_call hx hsafe rfl fun hi hi' => ?_
  have hconn : (Vsock.vsockConnect x.L.vs (x.L.file f).node.sockData addr.vm n).1 = x.L.vs := by
    unfold Vsock.vsockConnect
    by_cases hn : n ≠ Vsock.sizeofSockaddrVm
    · simp only [if_pos hn]
    · have hfam : addr.vm.svmFamily ≠ Vsock.AF_VSOCK := (hsafe hi).resolve_right hn
      simp only [if_neg hn, if_pos hfam]
  have hy : portStep drv x (.connect f addr n e) = x := by
    simp [portStep, step, file?, hi.1, exec, connect, hx.inet.driver f hi, hconn]
  rw [hy]
  exact .kept ⟨hi, rfl, rfl, rfl, .refl _ _⟩

private theorem portInv_step (hsafe : PortSafe x.L op) : PortInv (portStep drv x op) := by
  have hrest {y : Ports} (ho : op.addresses = none) (hL : y.L = step drv x.L op) (hbs : y.bindings = x.bindings)
      (ha : y.asked = x.asked) (hb : ∀ f, f ≠ x.L.next → y.binding f = x.binding f)
      (hacc : ∀ l a n e, op = .accept l a n true e → y.binding x.L.next = x.binding l) : PortInv y := by
    refine portInv_step_of hx hsafe hL (Nat.le_of_eq hbs.symm) none nofun ?_ (fun f _ => hb f) hacc ?_ nofun
    · intro f _
      rw [ha]
    · intro f hf
      rw [ho] at hf
      cases hf
  cases op with
  | bind => exact portInv_bind hx hsafe
  | listen => exact portInv_listen hx hsafe
  | connect => exact portInv_connect hx hsafe
  | accept f addr addrLen alloc ext =>
    refine hrest rfl rfl rfl rfl (fun g hg => update_of_ne hg _ _) ?_
    intro l a n e h
    cases h
    exact update_self ..
  | socket | release | call | rx | reset => exact hrest rfl rfl rfl rfl (fun _ _ => rfl) nofun

end

theorem portInv_init (cid : BitVec 32) (env : Nat → Vsock.Outcome) : PortInv (Ports.init cid env) := by
  have hnone {f : FileId} (hf : (Ports.init cid env).L.IsInet f) : False := by cases hf.1
  exact ⟨sound_init cid env, inetVsock_init cid env, fun _ _ => rfl, fun f hf => (hnone hf).elim,
    fun f g hf => (hnone hf.1).elim, fun f g _ _ hf => (hnone hf.1).elim⟩

/-- In every run whose steps are safe, the facades report the ports they have been bound to, and different bindings
have different ports. -/
theorem portsReported_of_run (drv : Drivers) (cid : BitVec 32) (env : Nat → Vsock.Outcome) (ops : List Op)
    (h : Runs.Meets (portStep drv) (fun x op => PortSafe x.L op) (Ports.init cid env) ops) :
    Runs.Always (portStep drv) PortsReported (Ports.init cid env) ops :=
  h.always (fun _ _ hx hsafe => portInv_step hx hsafe) (fun _ hx => hx.portsReported) (portInv_init cid env)

/-- Two facades are bound to the ports 80 and 81. -/
def bindTwo : List Op :=
  [.socket 2 1 6 true (.ok ()), .bind 0 ⟨AF_INET, 0x5000, 0, 0⟩ 16 (.ok ()), .socket 2 1 6 true (.ok ()),
    .bind 1 ⟨AF_INET, 0x5100, 0, 0⟩ 16 (.ok ())]

theorem portsReported_bound : Runs.Always (portStep ⟨fun _ => true, fun _ => 0⟩) PortsReported
    (Ports.init 3 fun _ => .good) bindTwo := by
  apply portsReported_of_run
  refine ⟨trivial, fun _ _ => ⟨fun _ => by decide, ?_⟩, trivial, fun _ _ => ⟨fun _ => by decide, ?_⟩, trivial⟩
  · intro t ht
    cases ht
  · unfold NoConnection
    decide

/-- A facade bound with `sin_port` 0 has port 0. -/
theorem not_portsReported_of_run : ¬ Runs.Always (portStep ⟨fun _ => true, fun _ => 0⟩) PortsReported
    (Ports.init 3 fun _ => .good) [.socket 2 1 6 true (.ok ()), .bind 0 ⟨AF_INET, 0, 0, 0⟩ 16 (.ok ())] := by
  intro h
  obtain ⟨p, hp, hr⟩ := h.last.chosen 0 ⟨rfl, rfl⟩ rfl
  have h0 := hr 16 (.error .EINVAL)
  injection h0 with h0
  injection h0 with h0
  injection h0 with _ h0
  exact hp h0.symm

end

end Unikraft.Socket
