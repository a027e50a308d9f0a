import Unikraft.Vsock.Table

/-!
# Socket files

`lib/posix-socket/socket.c` over its drivers. A stream socket of AF_INET is a facade: the file holds a vsock in
`node`, and keeps the AF_INET socket in `stub_node`. What the other drivers return is an input, and so are the results
of allocations. The driver sockets `returned` and `closed`, the `frees` and the files `inet` that descend from a
facade are history. Each operation acts on the vsock layer by its step `Op.vsock`.
-/

namespace Unikraft.Socket

open Vsock (World SockId Errno SockaddrVm Packet AF_VSOCK sizeofSockaddrVm CID_ANY)

def AF_INET : Nat := 2

def sizeofSockaddrIn : Nat := 16

/-- `struct sockaddr`: the family and the bytes from 2, 4 and 8 on, as the code loads them. -/
structure Sockaddr where
  saFamily : Nat
  data2 : BitVec 16
  data4 : BitVec 32
  data8 : BitVec 32
  deriving DecidableEq

def Sockaddr.vm (a : Sockaddr) : SockaddrVm := ⟨a.saFamily, a.data4, a.data8⟩

def Sockaddr.sinPort (a : Sockaddr) : BitVec 16 := a.data2

def Sockaddr.ofVm (a : SockaddrVm) : Sockaddr := ⟨a.svmFamily, 0, a.svmPort, a.svmCid⟩

/-- A `struct sockaddr_in` with the address 0.0.0.0. -/
def Sockaddr.ofPort (sinPort : BitVec 16) : Sockaddr := ⟨AF_INET, sinPort, 0, 0⟩

/-- `ntohs`, which is also `htons`, on a little-endian machine. -/
def ntohs (n : BitVec 16) : BitVec 16 := n <<< 8 ||| n >>> 8

/-- An address handed to the caller: the structure, how many bytes of it are copied, and the length that is stored. -/
structure Name where
  addr : Sockaddr
  copied : Nat
  len : Nat
  deriving DecidableEq

def Name.ofVm (a : SockaddrVm × Nat) : Name := ⟨.ofVm a.1, a.2, a.2⟩

/-- `struct posix_socket_driver`: that of AF_VSOCK, or that of another family. -/
inductive Driver
  | vsock
  | other (family : Int)
  deriving DecidableEq

/-- `struct posix_socket_node`. `sock_data` of a vsock is the socket. -/
structure PosixSocketNode where
  sockData : Nat
  driver : Driver
  deriving DecidableEq

abbrev FileId := Nat

/-- `struct socket_alloc`. `stubNode` is `none` if its driver is `NULL`; `allocator` and `inet` are history. -/
structure SocketAlloc where
  node : PosixSocketNode
  stubNode : Option PosixSocketNode
  allocator : Nat
  inet : Bool

/-- The drivers: the families other than AF_VSOCK that have one, and the allocator of each driver. -/
structure Drivers where
  registered : Int → Bool
  allocator : Driver → Nat

/-- The state of the layer. `posixSock s` is the file that the socket `s` signals its events to. -/
structure Layer where
  vs : World
  file : FileId → SocketAlloc
  live : FileId → Bool
  next : FileId
  posixSock : SockId → Option FileId
  extNext : Nat
  returned : List (PosixSocketNode × FileId)
  closed : List PosixSocketNode
  frees : List (Nat × Nat)

def Layer.init (cid : BitVec 32) (env : Nat → Vsock.Outcome) : Layer where
  vs := World.init cid env
  file := fun _ => ⟨⟨0, .vsock⟩, none, 0, false⟩
  live := fun _ => false
  next := 0
  posixSock := fun _ => none
  extNext := 0
  returned := []
  closed := []
  frees := []

section
variable (drv : Drivers)

def posixSocketDriverGet (family : Int) : Option Driver :=
  if family = AF_VSOCK then some .vsock
  else if drv.registered family then some (.other family)
  else none

variable (L : Layer)

def ukFree (came went : Nat) : Layer := { L with frees := (came, went) :: L.frees }

def posixSocketCreate (d : Driver) (f : FileId) (type protocol : Int) (ext : Except Errno Unit) :
    Layer × Except Errno Nat :=
  match d with
  | .vsock =>
    match Vsock.vsockCreate L.vs type protocol with
    | (w, .error e) => ({ L with vs := w }, .error e)
    | (w, .ok s) => ({ L with vs := w, returned := (⟨s, .vsock⟩, f) :: L.returned }, .ok s)
  | .other family =>
    match ext with
    | .error e => (L, .error e)
    | .ok () =>
      ({ L with extNext := L.extNext + 1, returned := (⟨L.extNext, .other family⟩, f) :: L.returned }, .ok L.extNext)

variable (n : PosixSocketNode)

def posixSocketAccept4 (f : FileId) (addr : Bool) (addrLen : Option Nat)
    (ext : Except Errno (Option Name)) : Layer × Except Errno (Nat × Option Name) :=
  match n.driver with
  | .vsock =>
    match Vsock.vsockAccept4 L.vs n.sockData addr addrLen with
    | (w, .error e) => ({ L with vs := w }, .error e)
    | (w, .ok (s, a)) =>
      ({ L with vs := w, returned := (⟨s, .vsock⟩, f) :: L.returned }, .ok (s, a.map Name.ofVm))
  | .other family =>
    match ext with
    | .error e => (L, .error e)
    | .ok a =>
      ({ L with extNext := L.extNext + 1, returned := (⟨L.extNext, .other family⟩, f) :: L.returned },
        .ok (L.extNext, a))

variable (f : FileId)

def posixSocketPollSetup : Layer :=
  let n := (L.file f).node
  match n.driver with
  | .vsock =>
    { L with
      vs := Vsock.vsockPollSetup L.vs n.sockData
      posixSock := Function.update L.posixSock n.sockData (some f) }
  | .other _ => L

/-- `_socket_init` of the file `f`, with the history of its memory and of its origin. -/
def socketInit (d : Driver) (sockData : Nat) (allocator : Nat) (inet : Bool) : Layer :=
  posixSocketPollSetup
    { L with
      file := Function.update L.file f ⟨⟨sockData, d⟩, none, allocator, inet⟩
      live := Function.update L.live f true
      next := f + 1 } f

/-- The vsock of a facade takes the place of the socket the file was made for. -/
def Layer.swap (vsockData : Nat) : Layer :=
  let al := L.file f
  { L with
    file := Function.update L.file f { al with node := ⟨vsockData, .vsock⟩, stubNode := some al.node, inet := true } }

def ukSocketCreate (family type protocol : Int) (alloc : Bool) (ext : Except Errno Unit) :
    Layer × Except Errno FileId :=
  match posixSocketDriverGet drv family with
  | none => (L, .error .EAFNOSUPPORT)
  | some d =>
    if !alloc then (L, .error .ENOMEM)
    else
      let f := L.next
      match posixSocketCreate L d f type protocol ext with
      | (L, .error e) => (ukFree L (drv.allocator d) (drv.allocator d), .error e)
      | (L, .ok sockData) =>
        let L := socketInit L f d sockData (drv.allocator d) false
        if family = AF_INET ∧ type = Vsock.SockType.STREAM.val then
          -- The vsock is made with protocol 0, whatever the protocol of the call.
          match posixSocketCreate L .vsock f type 0 ext with
          | (L, .error _) => (L, .ok f)
          | (L, .ok vsockData) => (posixSocketPollSetup (L.swap f vsockData) f, .ok f)
        else (L, .ok f)

/-- `uk_socket_accept`. A call that blocks is repeated on `-EAGAIN`, which changes nothing; this is the last one. -/
def ukSocketAccept (sock : FileId) (addr : Bool) (addrLen : Option Nat) (alloc : Bool)
    (ext : Except Errno (Option Name)) : Layer × Except Errno (FileId × Option Name) :=
  let n := (L.file sock).node
  if !alloc then (L, .error .ENOMEM)
  else
    let f := L.next
    match posixSocketAccept4 L n f addr addrLen ext with
    | (L, .error e) => (ukFree L (drv.allocator n.driver) (drv.allocator n.driver), .error e)
    | (L, .ok (newData, a)) =>
      -- The new file has no `stub_node`, also if `sock` has one.
      (socketInit L f n.driver newData (drv.allocator n.driver) (L.file sock).inet, .ok (f, a))

def posixSocketClose : Layer :=
  match n.driver with
  | .vsock => { L with vs := (Vsock.vsockClose L.vs n.sockData).1, closed := n :: L.closed }
  | .other _ => { L with closed := n :: L.closed }

/-- `socket_release` of the last reference: the socket is closed, whether that works or not, and the file freed. -/
def socketRelease : Layer :=
  let al := L.file f
  let L := ukFree (posixSocketClose L al.node) al.allocator (drv.allocator al.node.driver)
  { L with live := Function.update L.live f false }

/-- The address `bind` passes to the driver: that of a facade is translated. -/
def bindAddr (al : SocketAlloc) (addr : Sockaddr) (addrLen : Nat) : SockaddrVm × Nat :=
  if al.stubNode.isSome then (⟨AF_VSOCK, (ntohs addr.sinPort).setWidth 32, CID_ANY⟩, sizeofSockaddrVm)
  else (addr.vm, addrLen)

def bind (addr : Sockaddr) (addrLen : Nat) (ext : Except Errno Unit) : Layer × Except Errno Unit :=
  let al := L.file f
  let a := bindAddr al addr addrLen
  match al.node.driver with
  | .vsock =>
    let r := Vsock.vsockBind L.vs al.node.sockData a.1 a.2
    ({ L with vs := r.1 }, r.2)
  | .other _ => (L, ext)

def listen (backlog : Int) (ext : Except Errno Unit) : Layer × Except Errno Unit :=
  let n := (L.file f).node
  match n.driver with
  | .vsock =>
    let r := Vsock.vsockListen L.vs n.sockData backlog
    ({ L with vs := r.1 }, r.2)
  | .other _ => (L, ext)

/-- `connect` up to the point where it waits for `-EINPROGRESS` to end. The address is not translated. -/
def connect (addr : Sockaddr) (addrLen : Nat) (ext : Except Errno Unit) : Layer × Except Errno Unit :=
  let n := (L.file f).node
  match n.driver with
  | .vsock =>
    let r := Vsock.vsockConnect L.vs n.sockData addr.vm addrLen
    ({ L with vs := r.1 }, r.2)
  | .other _ => (L, ext)

variable (addrLen : Option Nat) (ext : Except Errno Name)

def getpeername : Except Errno Name :=
  let n := (L.file f).node
  match n.driver with
  | .vsock => (Vsock.vsockGetpeername L.vs n.sockData addrLen).map Name.ofVm
  | .other _ => ext

def posixSocketGetsockname : Except Errno Name :=
  match n.driver with
  | .vsock => (Vsock.vsockGetsockname L.vs n.sockData addrLen).map Name.ofVm
  | .other _ => ext

def getsockname : Except Errno Name :=
  let al := L.file f
  if al.stubNode.isSome then
    match posixSocketGetsockname L al.node (some sizeofSockaddrVm) ext with
    | .error e => .error e
    | .ok a =>
      match addrLen with
      -- The length is read without a test of the pointer.
      | none => .error .ASSERT
      | some n =>
        .ok ⟨.ofPort (ntohs (a.addr.vm.svmPort.setWidth 16)), min n sizeofSockaddrIn, sizeofSockaddrIn⟩
  else posixSocketGetsockname L al.node addrLen ext

inductive Call
  | shutdown (how : Int)
  | getsockopt (level optname : Int) (optlen : Option Nat)
  | write (iov : List (List UInt8))
  | sendto (buf : List UInt8) (destAddr : Bool) (addrlen : Nat)
  | read (iov : List Nat)
  | recvfrom (len : Nat) (src : Bool)

def Call.op (s : SockId) : Call → Vsock.Op
  | .shutdown how => .shutdown s how
  | .getsockopt level optname optlen => .getsockopt s level optname optlen
  | .write iov => .write s iov
  | .sendto buf destAddr addrlen => .sendto s buf destAddr addrlen
  | .read iov => .read s iov
  | .recvfrom len src => .recvfrom s len src

def call (c : Call) : Layer :=
  let n := (L.file f).node
  match n.driver with
  | .vsock => { L with vs := Vsock.exec L.vs (c.op n.sockData) }
  | .other _ => L

inductive Op
  | socket (family type protocol : Int) (alloc : Bool) (ext : Except Errno Unit)
  | accept (f : FileId) (addr : Bool) (addrLen : Option Nat) (alloc : Bool) (ext : Except Errno (Option Name))
  | release (f : FileId)
  | bind (f : FileId) (addr : Sockaddr) (addrLen : Nat) (ext : Except Errno Unit)
  | listen (f : FileId) (backlog : Int) (ext : Except Errno Unit)
  | connect (f : FileId) (addr : Sockaddr) (addrLen : Nat) (ext : Except Errno Unit)
  | call (f : FileId) (c : Call)
  | rx (pkt : Packet)
  | reset

def Op.file? : Op → Option FileId
  | .socket _ _ _ _ _ | .rx _ | .reset => none
  | .accept f _ _ _ _ | .release f | .bind f _ _ _ | .listen f _ _ | .connect f _ _ _ | .call f _ => some f

def exec : Op → Layer
  | .socket family type protocol alloc ext => (ukSocketCreate drv L family type protocol alloc ext).1
  | .accept f addr addrLen alloc ext => (ukSocketAccept drv L f addr addrLen alloc ext).1
  | .release f => socketRelease drv L f
  | .bind f addr addrLen ext => (bind L f addr addrLen ext).1
  | .listen f backlog ext => (listen L f backlog ext).1
  | .connect f addr addrLen ext => (connect L f addr addrLen ext).1
  | .call f c => call L f c
  | .rx pkt => { L with vs := Vsock.exec L.vs (.rx pkt) }
  | .reset => { L with vs := Vsock.exec L.vs .term }

/-- A step of the layer: operations are only called on open files. -/
def step (op : Op) : Layer :=
  match op.file? with
  | some f => if L.live f then exec drv L op else L
  | none => exec drv L op

end

open Layer Op SocketAlloc
open Function (update update_of_ne update_self)

/-! ### The steps of the vsock layer -/

def SocketAlloc.vsock (al : SocketAlloc) (op : SockId → Vsock.Op) : Option Vsock.Op :=
  match al.node.driver with
  | .vsock => some (op al.node.sockData)
  | .other _ => none

def Op.vsock (drv : Drivers) (L : Layer) : Op → Option Vsock.Op
  | .socket family type protocol alloc ext =>
    match posixSocketDriverGet drv family, alloc with
    | some .vsock, true => some (.socket type protocol)
    | some (.other _), true =>
      if family = AF_INET ∧ type = Vsock.SockType.STREAM.val ∧ ext.isOk then some (.socket type 0) else none
    | _, _ => none
  | .accept f addr addrLen alloc _ => if alloc then (L.file f).vsock (.accept · addr addrLen) else none
  | .release f => (L.file f).vsock .close
  | .bind f addr addrLen _ =>
    (L.file f).vsock fun s => .bind s (bindAddr (L.file f) addr addrLen).1 (bindAddr (L.file f) addr addrLen).2
  | .listen f backlog _ => (L.file f).vsock (.listen · backlog)
  | .connect f addr addrLen _ => (L.file f).vsock (.connect · addr.vm addrLen)
  | .call f c => (L.file f).vsock (c.op ·)
  | .rx pkt => some (.rx pkt)
  | .reset => some .term

def stepVsock (drv : Drivers) (L : Layer) (op : Op) : Option Vsock.Op :=
  match op.file? with
  | some f => if L.live f then op.vsock drv L else none
  | none => op.vsock drv L

def vsStep (w : World) : Option Vsock.Op → World
  | none => w
  | some op => Vsock.step w op

/-- The open files hold sockets that exist, and a socket signals the file that holds it. -/
structure Layer.Held (L : Layer) : Prop where
  fresh : L.vs.Fresh
  file_lt : ∀ f, L.live f = true → f < L.next
  vsock : ∀ f s, L.live f = true → (L.file f).node = ⟨s, .vsock⟩ → L.vs.live s = true ∧ L.posixSock s = some f
  attached : ∀ s f, L.posixSock s = some f → f < L.next ∧ (L.file f).node = ⟨s, .vsock⟩

/-! ### The ends of a step -/

def SocketAlloc.nodes (al : SocketAlloc) : List PosixSocketNode := al.node :: al.stubNode.toList

def Layer.opened (L : Layer) (w' : World) (extNext : Nat) (al : SocketAlloc) : Layer :=
  { L with
    vs := w'
    file := update L.file L.next al
    live := update L.live L.next true
    next := L.next + 1
    posixSock := if al.node.driver = .vsock then update L.posixSock al.node.sockData (some L.next)
      else L.posixSock
    extNext := extNext
    returned := al.nodes.map (·, L.next) ++ L.returned }

def Layer.released (drv : Drivers) (L : Layer) (w' : World) (f : FileId) : Layer :=
  { L with
    vs := w'
    live := update L.live f false
    closed := (L.file f).node :: L.closed
    frees := ((L.file f).allocator, drv.allocator (L.file f).node.driver) :: L.frees }

def SameSocks (w w' : World) : Prop := w'.next = w.next ∧ w'.live = w.live

def NewSock (w w' : World) : Prop := w'.next = w.next + 1 ∧ w'.live = update w.live w.next true

/-- What a step makes of the files; `w'` is the state of the vsock layer after it. -/
inductive Ends (drv : Drivers) (L : Layer) (w' : World) : Op → Layer → Prop
  | kept {op : Op} (hw : SameSocks L.vs w') : Ends drv L w' op { L with vs := w' }
  | refused {op : Op} (a : Nat) (hw : SameSocks L.vs w') :
      Ends drv L w' op { L with vs := w', frees := (a, a) :: L.frees }
  | openedVsock {op : Op} (inet : Bool)
      (hi : inet = true → ∃ f a l e, op = .accept f a l true e ∧ L.live f = true ∧ (L.file f).inet = true)
      (hw : NewSock L.vs w') :
      Ends drv L w' op (L.opened w' L.extNext ⟨⟨L.vs.next, .vsock⟩, none, drv.allocator .vsock, inet⟩)
  | openedOther {op : Op} (family : Int) (inet : Bool)
      (hi : inet = true → ∃ f, L.live f = true ∧ (L.file f).inet = true ∧ (L.file f).node.driver ≠ .vsock)
      (hw : SameSocks L.vs w') : Ends drv L w' op
        (L.opened w' (L.extNext + 1) ⟨⟨L.extNext, .other family⟩, none, drv.allocator (.other family), inet⟩)
  | openedFacade {op : Op} (hv : w' = Vsock.step L.vs (.socket Vsock.SockType.STREAM.val 0))
      (hw : NewSock L.vs w') : Ends drv L w' op
      (L.opened w' (L.extNext + 1)
        ⟨⟨L.vs.next, .vsock⟩, some ⟨L.extNext, .other AF_INET⟩, drv.allocator (.other AF_INET), true⟩)
  | released {f : FileId} (hl : L.live f = true) (hn : w'.next = L.vs.next)
      (hw : ∀ t, (L.file f).node ≠ ⟨t, .vsock⟩ → w'.live t = L.vs.live t) :
      Ends drv L w' (.release f) (L.released drv w' f)

section
variable {drv : Drivers} {L : Layer} {op : Op}

private theorem SameSocks.refl (w : World) : SameSocks w w := ⟨rfl, rfl⟩

private theorem socketInit_vsock (L : Layer) (w : World) (s a : Nat) (inet : Bool) :
    socketInit { L with vs := w, returned := (⟨s, .vsock⟩, L.next) :: L.returned } L.next .vsock s a inet =
      L.opened (Vsock.vsockPollSetup w s) L.extNext ⟨⟨s, .vsock⟩, none, a, inet⟩ := by
  simp [socketInit, posixSocketPollSetup, opened, nodes]

private theorem socketInit_other (L : Layer) (family : Int) (a : Nat) (inet : Bool) :
    socketInit { L with extNext := L.extNext + 1, returned := (⟨L.extNext, .other family⟩, L.next) :: L.returned }
        L.next (.other family) L.extNext a inet =
      L.opened L.vs (L.extNext + 1) ⟨⟨L.extNext, .other family⟩, none, a, inet⟩ := by
  simp [socketInit, posixSocketPollSetup, opened, nodes]

private theorem swap_opened (L : Layer) (w : World) (n s a : Nat) (family : Int) : posixSocketPollSetup (swap
        { L.opened L.vs n ⟨⟨L.extNext, .other family⟩, none, a, false⟩ with
          vs := w
          returned := (⟨s, .vsock⟩, L.next) ::
            (L.opened L.vs n ⟨⟨L.extNext, .other family⟩, none, a, false⟩).returned } L.next s) L.next =
      L.opened (Vsock.vsockPollSetup w s) n ⟨⟨s, .vsock⟩, some ⟨L.extNext, .other family⟩, a, true⟩ := by
  simp [posixSocketPollSetup, swap, opened, nodes]

variable {w w₁ w' : World} {s : SockId} {f : FileId} {al : SocketAlloc} {addrLen : Option Nat} {vop : Vsock.Op}
  {addr : Bool} {L' : Layer} {e : Errno}

private theorem vsock_socket_error {type protocol : Int} (h : Vsock.vsockCreate w type protocol = (w₁, .error e)) :
    Vsock.step w (.socket type protocol) = w₁ ∧ SameSocks w w₁ := by
  have hm := Vsock.create_makes w type protocol
  rw [h] at hm
  refine ⟨?_, hm⟩
  simp only [Vsock.step, Vsock.Op.sock?, Vsock.exec, h]

private theorem vsock_socket_ok {type protocol : Int} (h : Vsock.vsockCreate w type protocol = (w₁, .ok s)) :
    s = w.next ∧ Vsock.step w (.socket type protocol) = Vsock.vsockPollSetup w₁ s ∧
      NewSock w (Vsock.vsockPollSetup w₁ s) := by
  have hm := Vsock.create_makes w type protocol
  rw [h] at hm
  refine ⟨hm.1, ?_, hm.2⟩
  simp only [Vsock.step, Vsock.Op.sock?, Vsock.exec, h]

private theorem socket_ends (drv : Drivers) (L : Layer) (family type protocol : Int) (alloc : Bool)
    (ext : Except Errno Unit) :
    Ends drv L (vsStep L.vs (Op.vsock drv L (.socket family type protocol alloc ext)))
      (.socket family type protocol alloc ext) (ukSocketCreate drv L family type protocol alloc ext).1 := by
  simp only [Op.vsock, ukSocketCreate]
  cases hd : posixSocketDriverGet drv family with
  | none => exact .kept (.refl _)
  | some d =>
    cases alloc with
    | false => cases d <;> exact .kept (.refl _)
    | true =>
      cases d with
      | vsock =>
        -- A vsock file: AF_VSOCK is not AF_INET.
        have hf : ¬ (family = AF_INET ∧ type = Vsock.SockType.STREAM.val) := by
          rintro ⟨rfl, -⟩
          rw [posixSocketDriverGet, if_neg (by decide)] at hd
          split at hd <;> cases hd
        cases hc : Vsock.vsockCreate L.vs type protocol with
        | mk w₁ r =>
          cases r with
          | error e =>
            obtain ⟨hs, hw⟩ := vsock_socket_error hc
            simp only [posixSocketCreate, hc, vsStep, hs]
            exact .refused _ hw
          | ok s =>
            obtain ⟨rfl, hs, hw⟩ := vsock_socket_ok hc
            simp only [posixSocketCreate, hc, vsStep, hs, if_neg hf, socketInit_vsock]
            exact .openedVsock false nofun hw
      | other fam =>
        obtain rfl : fam = family := by
          unfold posixSocketDriverGet at hd
          split at hd
          · cases hd
          · split at hd <;> cases hd
            rfl
        cases ext with
        | error e =>
          simp only [posixSocketCreate, Except.isOk, Except.toBool, Bool.false_eq_true, and_false, if_false]
          exact .refused _ (.refl _)
        | ok u =>
          simp only [posixSocketCreate, socketInit_other, Except.isOk, Except.toBool, and_true]
          by_cases hf : fam = AF_INET ∧ type = Vsock.SockType.STREAM.val
          swap
          · simp only [if_neg hf]
            exact .openedOther fam false nofun (.refl _)
          obtain ⟨rfl, rfl⟩ := hf
          simp only [and_self, if_true]
          rw [show (L.opened L.vs (L.extNext + 1) _).vs = L.vs from rfl]
          -- The facade, or the plain file if no vsock can be made.
          cases hc : Vsock.vsockCreate L.vs Vsock.SockType.STREAM.val 0 with
          | mk w₁ r =>
            cases r with
            | error e =>
              obtain ⟨hs, hw⟩ := vsock_socket_error hc
              simp only [vsStep, hs]
              exact .openedOther AF_INET false nofun hw
            | ok s =>
              obtain ⟨rfl, hs, hw⟩ := vsock_socket_ok hc
              simp only [vsStep, hs]
              rw [swap_opened]
              exact .openedFacade hs.symm hw

private theorem vsock_accept_error (hl : w.live s = true) (h : Vsock.vsockAccept4 w s addr addrLen = (w₁, .error e)) :
    Vsock.step w (.accept s addr addrLen) = w₁ ∧ SameSocks w w₁ := by
  have hm := Vsock.accept4_makes w s addr addrLen
  rw [h] at hm
  refine ⟨?_, hm⟩
  simp only [Vsock.step, Vsock.Op.sock?, hl, if_true, Vsock.exec, h]

private theorem vsock_accept_ok {t : SockId} {a : Option (Vsock.SockaddrVm × Nat)} (hl : w.live s = true)
    (h : Vsock.vsockAccept4 w s addr addrLen = (w₁, .ok (t, a))) :
    t = w.next ∧ Vsock.step w (.accept s addr addrLen) = Vsock.vsockPollSetup w₁ t ∧
      NewSock w (Vsock.vsockPollSetup w₁ t) := by
  have hm := Vsock.accept4_makes w s addr addrLen
  rw [h] at hm
  refine ⟨hm.1, ?_, hm.2⟩
  simp only [Vsock.step, Vsock.Op.sock?, hl, if_true, Vsock.exec, h]

private theorem accept_ends (h : L.Held) (hl : L.live f = true) (addr : Bool) (addrLen : Option Nat) (alloc : Bool)
    (ext : Except Errno (Option Name)) :
    Ends drv L (vsStep L.vs (Op.vsock drv L (.accept f addr addrLen alloc ext)))
      (.accept f addr addrLen alloc ext) (ukSocketAccept drv L f addr addrLen alloc ext).1 := by
  simp only [Op.vsock, ukSocketAccept]
  cases alloc with
  | false => exact .kept (.refl _)
  | true =>
    simp only [Bool.not_true, Bool.false_eq_true, if_false, if_true]
    cases hn : (L.file f).node with
    | mk s d =>
      cases d with
      | vsock =>
        have hs := (h.vsock f s hl hn).1
        simp only [SocketAlloc.vsock, hn]
        cases hc : Vsock.vsockAccept4 L.vs s addr addrLen with
        | mk w₁ r =>
          cases r with
          | error e =>
            obtain ⟨hst, hw⟩ := vsock_accept_error hs hc
            simp only [posixSocketAccept4, hc, vsStep, hst]
            exact .refused _ hw
          | ok p =>
            obtain ⟨t, a⟩ := p
            obtain ⟨rfl, hst, hw⟩ := vsock_accept_ok hs hc
            simp only [posixSocketAccept4, hc, vsStep, hst, socketInit_vsock]
            exact .openedVsock _ (fun hi => ⟨f, addr, addrLen, ext, rfl, hl, hi⟩) hw
      | other family =>
        simp only [SocketAlloc.vsock, hn]
        cases ext with
        | error e =>
          exact .refused _ (.refl _)
        | ok a =>
          simp only [posixSocketAccept4, socketInit_other]
          exact .openedOther family _ (fun hi => ⟨f, hl, hi, by rw [hn]; nofun⟩) (.refl _)

private theorem socketRelease_eq (drv : Drivers) (h : L.Held) (hl : L.live f = true) :
    socketRelease drv L f = L.released drv (vsStep L.vs ((L.file f).vsock .close)) f := by
  simp only [socketRelease, posixSocketClose, SocketAlloc.vsock]
  cases hn : (L.file f).node with
  | mk s d =>
    cases d with
    | vsock =>
      have hs := (h.vsock f s hl hn).1
      simp only [Layer.released, ukFree, vsStep, Vsock.step, Vsock.Op.sock?, hs, if_true, Vsock.exec, hn]
    | other family => simp only [Layer.released, ukFree, vsStep, hn]

/-- The last reference to a file closes its vsock. -/
theorem step_release (h : L.Held) (hl : L.live f = true) :
    step drv L (.release f) = L.released drv (vsStep L.vs ((L.file f).vsock .close)) f := by
  rw [← socketRelease_eq drv h hl]
  simp only [step, Op.file?, hl, if_true, exec]

theorem released_live {g : FileId} : (L.released drv w f).live g = true ↔ g ≠ f ∧ L.live g = true := by
  by_cases hgf : g = f <;> simp [released, hgf]

private theorem release_ends (h : L.Held) (hl : L.live f = true) :
    Ends drv L (vsStep L.vs (vsock drv L (.release f))) (.release f) (socketRelease drv L f) := by
  rw [socketRelease_eq drv h hl]
  simp only [Op.vsock, SocketAlloc.vsock]
  cases hn : (L.file f).node with
  | mk s d =>
    cases d with
    | vsock =>
      obtain ⟨hnext, hlive⟩ := Vsock.step_close_live h.fresh s
      refine .released hl hnext fun t ht => hlive t fun hts => ht ?_
      rw [hn, hts]
    | other family => exact .released hl rfl fun _ _ => rfl

private theorem call_ends (h : L.Held) (hl : L.live f = true) (vop : SockId → Vsock.Op)
    (hs : ∀ s, (vop s).sock? = some s) (hm : ∀ s, (vop s).makes = false) (hc : ∀ s t, vop s ≠ .close t)
    (hv : ∀ s, (L.file f).node = ⟨s, .vsock⟩ → L' = { L with vs := Vsock.exec L.vs (vop s) })
    (ho : ∀ s fam, (L.file f).node = ⟨s, .other fam⟩ → L' = L) :
    Ends drv L (vsStep L.vs ((L.file f).vsock vop)) op L' := by
  cases hn : (L.file f).node with
  | mk s d =>
    cases d with
    | vsock =>
      have hst : Vsock.step L.vs (vop s) = Vsock.exec L.vs (vop s) := by
        simp only [Vsock.step, hs, (h.vsock f s hl hn).1, if_true]
      rw [hv s hn, ← hst]
      simp only [SocketAlloc.vsock, hn]
      exact .kept (Vsock.step_live_eq h.fresh (hm s) (hc s))
    | other fam =>
      rw [ho s fam hn]
      simp only [SocketAlloc.vsock, hn]
      exact .kept (.refl _)

private theorem event_ends (h : L.Held) (vop : Vsock.Op) (hs : vop.sock? = none) (hm : vop.makes = false) :
    Ends drv L (Vsock.step L.vs vop) op { L with vs := Vsock.exec L.vs vop } := by
  have hst : Vsock.step L.vs vop = Vsock.exec L.vs vop := by simp only [Vsock.step, hs]
  rw [← hst]
  refine .kept (Vsock.step_live_eq h.fresh hm ?_)
  rintro s rfl
  cases hs

/-- What a call of the layer does to the files, in terms of the vsock call it makes. -/
theorem step_ends (drv : Drivers) (h : L.Held) (op : Op) :
    Ends drv L (vsStep L.vs (stepVsock drv L op)) op (step drv L op) := by
  cases hf : op.file? with
  | none =>
    cases op with
    | socket family type protocol alloc ext => exact socket_ends drv L family type protocol alloc ext
    | rx pkt => exact event_ends h (.rx pkt) rfl rfl
    | reset => exact event_ends h .term rfl rfl
    | accept | release | bind | listen | connect | call => cases hf
  | some f =>
    simp only [step, stepVsock, hf]
    by_cases hl : L.live f = true
    swap
    · rw [if_neg hl, if_neg hl]
      exact .kept (.refl _)
    rw [if_pos hl, if_pos hl]
    cases op with
    | socket | rx | reset => cases hf
    | accept f' addr addrLen alloc ext =>
      cases hf
      exact accept_ends h hl addr addrLen alloc ext
    | release f' =>
      cases hf
      exact release_ends h hl
    | bind f' addr addrLen ext =>
      cases hf
      refine call_ends h hl (fun s => .bind s (bindAddr (L.file f) addr addrLen).1
          (bindAddr (L.file f) addr addrLen).2)
        (fun _ => rfl) (fun _ => rfl) (by simp) ?_ ?_
      · intro s hn
        simp only [exec, bind, hn, Vsock.exec]
      · intro s fam hn
        simp only [exec, bind, hn]
    | listen f' backlog ext =>
      cases hf
      refine call_ends h hl (.listen · backlog) (fun _ => rfl) (fun _ => rfl) (by simp) ?_ ?_
      · intro s hn
        simp only [exec, listen, hn, Vsock.exec]
      · intro s fam hn
        simp only [exec, listen, hn]
    | connect f' addr addrLen ext =>
      cases hf
      refine call_ends h hl (.connect · addr.vm addrLen) (fun _ => rfl) (fun _ => rfl) (by simp) ?_ ?_
      · intro s hn
        simp only [exec, connect, hn, Vsock.exec]
      · intro s fam hn
        simp only [exec, connect, hn]
    | call f' c =>
      cases hf
      refine call_ends h hl (c.op ·) (fun _ => by cases c <;> rfl) (fun _ => by cases c <;> rfl)
        (fun _ _ => by cases c <;> simp [Call.op]) ?_ ?_
      · intro s hn
        simp only [exec, call, hn]
      · intro s fam hn
        simp only [exec, call, hn]

/-! ### The files and their sockets in a run -/

private theorem Ends.vs_eq (h : Ends drv L w' op L') : L'.vs = w' := by
  cases h <;> rfl

/-- A call of the layer is one call of the vsock layer or none. -/
theorem step_vs (drv : Drivers) (h : L.Held) (op : Op) : (step drv L op).vs = vsStep L.vs (stepVsock drv L op) :=
  (step_ends drv h op).vs_eq

private theorem SocketAlloc.vsock_some {vop : SockId → Vsock.Op} {o : Vsock.Op}
    (h : al.vsock vop = some o) (hs : o.sock? = some s) (hv : ∀ s, (vop s).sock? = some s) :
    al.node = ⟨s, .vsock⟩ := by
  unfold vsock at h
  cases hn : al.node with
  | mk t d =>
    cases d with
    | vsock =>
      simp only [hn, Option.some.injEq] at h
      rw [← h, hv] at hs
      cases hs
      rfl
    | other family => simp [hn] at h

/-- The vsock call is for the socket of the file. -/
theorem stepVsock_sock (h : stepVsock drv L op = some vop) (hs : vop.sock? = some s) :
    ∃ f, op.file? = some f ∧ L.live f = true ∧ (L.file f).node = ⟨s, .vsock⟩ := by
  unfold stepVsock at h
  cases hf : op.file? with
  | none =>
    simp only [hf] at h
    cases op with
    | socket family type protocol alloc ext =>
      simp only [Op.vsock] at h
      split at h
      · cases h
        cases hs
      · split at h <;> cases h
        cases hs
      · cases h
    | rx | reset =>
      cases h
      cases hs
    | accept | release | bind | listen | connect | call => cases hf
  | some f =>
    simp only [hf] at h
    split at h
    swap
    · cases h
    rename_i hl
    refine ⟨f, rfl, hl, ?_⟩
    cases op with
    | socket | rx | reset => cases hf
    | accept f' addr addrLen alloc =>
      cases hf
      simp only [Op.vsock] at h
      split at h
      · exact vsock_some h hs fun _ => rfl
      · cases h
    | release | bind | listen | connect =>
      cases hf
      simp only [Op.vsock] at h
      exact vsock_some h hs fun _ => rfl
    | call f' c =>
      cases hf
      simp only [Op.vsock] at h
      refine vsock_some h hs fun _ => ?_
      cases c <;> rfl

/-- The operations that give the socket of a file an address. -/
def Op.addresses : Op → Option FileId
  | .bind f _ _ _ | .listen f _ _ | .connect f _ _ _ => some f
  | _ => none

theorem stepVsock_addresses (h : stepVsock drv L op = some vop)
    (hs : vop.addresses = some s) : ∃ f, op.addresses = some f ∧ L.live f = true ∧ (L.file f).node = ⟨s, .vsock⟩ := by
  have hsock : vop.sock? = some s := by
    cases vop <;> first | exact hs | cases hs
  obtain ⟨f, hf, hl, hn⟩ := stepVsock_sock h hsock
  refine ⟨f, ?_, hl, hn⟩
  simp only [stepVsock, hf, hl, if_true] at h
  cases op with
  | bind | listen | connect => exact hf
  | socket | rx | reset => cases hf
  | accept f' addr addrLen alloc =>
    cases hf
    cases alloc with
    | false => cases h
    | true =>
      simp only [Op.vsock, SocketAlloc.vsock, hn, if_true, Option.some.injEq] at h
      rw [← h] at hs
      cases hs
  | release =>
    cases hf
    simp only [Op.vsock, SocketAlloc.vsock, hn, Option.some.injEq] at h
    rw [← h] at hs
    cases hs
  | call f' c =>
    cases hf
    simp only [Op.vsock, SocketAlloc.vsock, hn, Option.some.injEq] at h
    rw [← h] at hs
    cases c <;> cases hs

private theorem vsStep_fresh (h : w.Fresh) (vop : Option Vsock.Op) : (vsStep w vop).Fresh := by
  cases vop with
  | none => exact h
  | some vop => exact Vsock.step_fresh h vop

theorem Layer.opened_next (L : Layer) (w' : World) (n : Nat) (al : SocketAlloc) :
    (L.opened w' n al).file L.next = al := by
  simp [opened]

theorem Layer.opened_of_ne (L : Layer) (w' : World) (n : Nat) (al : SocketAlloc) (h : f ≠ L.next) :
    (L.opened w' n al).file f = L.file f := by
  simp [opened, h]

theorem Layer.opened_live {n : Nat} (h : (L.opened w' n al).live f = true) : f = L.next ∨ L.live f = true := by
  by_cases hf : f = L.next
  · exact .inl hf
  · exact .inr (by simpa [opened, hf] using h)

namespace Layer.Held

theorem kept (h : L.Held) (hf : w'.Fresh) (hw : SameSocks L.vs w') : Held { L with vs := w' } where
  fresh := hf
  file_lt := h.file_lt
  vsock f s hl hn := by
    rw [hw.2]
    exact h.vsock f s hl hn
  attached := h.attached

private theorem opened (h : L.Held) (hf : w'.Fresh) (hw : ∀ t, L.vs.live t = true → w'.live t = true) (n : Nat)
    (hal : al.node.driver = .vsock → al.node.sockData = L.vs.next ∧ w'.live L.vs.next = true) :
    (L.opened w' n al).Held := by
  refine ⟨hf, ?_, ?_, ?_⟩
  · intro f hl
    rcases opened_live hl with rfl | hl
    · exact Nat.lt_succ_self _
    · exact Nat.lt_succ_of_lt (h.file_lt f hl)
  · intro f s hl hn
    by_cases hfn : f = L.next
    · subst hfn
      rw [L.opened_next] at hn
      obtain ⟨hs, hlive⟩ := hal (by rw [hn])
      obtain rfl : s = L.vs.next := by rw [← hs, hn]
      refine ⟨hlive, ?_⟩
      simp [Layer.opened, hn]
    · rw [L.opened_of_ne _ _ _ hfn] at hn
      obtain ⟨hs, hp⟩ := h.vsock f s ((opened_live hl).resolve_left hfn) hn
      refine ⟨hw s hs, ?_⟩
      -- An older socket is not the new one.
      have hne (hd : al.node.driver = .vsock) : s ≠ al.node.sockData := by
        rw [(hal hd).1]
        exact Nat.ne_of_lt (h.fresh s hs)
      simp only [Layer.opened]
      split
      · rename_i hd
        rw [update_of_ne (hne hd)]
        exact hp
      · exact hp
  · intro s f hp
    have hold (hp : L.posixSock s = some f) : f < L.next + 1 ∧ ((L.opened w' n al).file f).node = ⟨s, .vsock⟩ := by
      obtain ⟨hlt, hn⟩ := h.attached s f hp
      rw [L.opened_of_ne _ _ _ (Nat.ne_of_lt hlt)]
      exact ⟨Nat.lt_succ_of_lt hlt, hn⟩
    simp only [Layer.opened] at hp
    split at hp
    · rename_i hd
      by_cases hs : s = al.node.sockData
      · rw [hs, update_self] at hp
        cases hp
        rw [L.opened_next, hs, ← hd]
        exact ⟨Nat.lt_succ_self _, rfl⟩
      · rw [update_of_ne hs] at hp
        exact hold hp
    · exact hold hp

private theorem released (h : L.Held) (hl : L.live f = true) (hf : w'.Fresh)
    (hw : ∀ t, (L.file f).node ≠ ⟨t, .vsock⟩ → w'.live t = L.vs.live t) : (L.released drv w' f).Held := by
  have hlive {g : FileId} (hg : (L.released drv w' f).live g = true) : g ≠ f ∧ L.live g = true := by
    by_cases hgf : g = f
    · simp [Layer.released, hgf] at hg
    · exact ⟨hgf, by simpa [Layer.released, hgf] using hg⟩
  refine ⟨hf, fun g hg => h.file_lt g (hlive hg).2, ?_, h.attached⟩
  intro g s hg hn
  obtain ⟨hgf, hgl⟩ := hlive hg
  obtain ⟨hs, hp⟩ := h.vsock g s hgl hn
  refine ⟨?_, hp⟩
  show w'.live s = true
  rw [hw s ?_]
  · exact hs
  · intro hn'
    -- The socket signals one file only.
    have hp' := (h.vsock f s hl hn').2
    rw [hp] at hp'
    exact hgf (Option.some.inj hp')

/-- Every call keeps the files and their sockets in step. -/
theorem step (h : L.Held) (drv : Drivers) (op : Op) : (step drv L op).Held := by
  have hf := vsStep_fresh h.fresh (stepVsock drv L op)
  have hends := step_ends drv h op
  generalize vsStep L.vs (stepVsock drv L op) = w' at hends hf
  generalize Socket.step drv L op = L' at hends ⊢
  have hold (hw : NewSock L.vs w') (t : SockId) (ht : L.vs.live t = true) : w'.live t = true := by
    rw [hw.2, update_of_ne (Nat.ne_of_lt (h.fresh t ht))]
    exact ht
  have hnew (hw : NewSock L.vs w') : w'.live L.vs.next = true := by
    rw [hw.2, update_self]
  cases hends with
  | kept hw => exact h.kept hf hw
  | refused a hw =>
    have h' := h.kept hf hw
    exact ⟨h'.fresh, h'.file_lt, h'.vsock, h'.attached⟩
  | openedVsock inet hi hw => exact h.opened hf (hold hw) _ fun _ => ⟨rfl, hnew hw⟩
  | openedOther family inet hi hw => exact h.opened hf (fun t ht => by rw [hw.2]; exact ht) _ nofun
  | openedFacade hv hw => exact h.opened hf (hold hw) _ fun _ => ⟨rfl, hnew hw⟩
  | released hl hn hw => exact h.released hl hf hw

end Layer.Held

/-- A call changes no other file, and makes none live. -/
theorem step_file_of_ne (drv : Drivers) (h : L.Held) (op : Op) (hf : f ≠ L.next) :
    (step drv L op).file f = L.file f ∧ ((step drv L op).live f = true → L.live f = true) := by
  have hends := step_ends drv h op
  generalize step drv L op = L' at hends ⊢
  cases hends with
  | kept | refused => exact ⟨rfl, id⟩
  | openedVsock | openedOther | openedFacade =>
    exact ⟨L.opened_of_ne _ _ _ hf, fun hl => (opened_live hl).resolve_left hf⟩
  | @released g hl =>
    refine ⟨rfl, fun hlive => ?_⟩
    by_cases hfg : f = g
    · exact hfg ▸ hl
    · simpa [released, hfg] using hlive

theorem step_next_le (drv : Drivers) (h : L.Held) (op : Op) : L.next ≤ (step drv L op).next := by
  have hends := step_ends drv h op
  generalize step drv L op = L' at hends ⊢
  cases hends with
  | kept | refused | released => exact Nat.le_refl _
  | openedVsock | openedOther | openedFacade => exact Nat.le_succ _

/-- At the start there are no files. -/
theorem held_init (cid : BitVec 32) (env : Nat → Vsock.Outcome) : (Layer.init cid env).Held :=
  ⟨Vsock.fresh_init cid env, nofun, nofun, nofun⟩

private theorem exists_run_vs (drv : Drivers) (h : L.Held) (ops : List Op) : ∃ vops :
    List Vsock.Op, vops.length ≤ ops.length ∧
    (Runs.run (step drv) L ops).vs = Runs.run Vsock.step L.vs vops := by
  induction ops generalizing L with
  | nil => exact ⟨[], Nat.le_refl _, rfl⟩
  | cons op ops ih =>
    obtain ⟨vops, hlen, hrun⟩ := ih (h.step drv op)
    rw [step_vs drv h op] at hrun
    cases hop : stepVsock drv L op with
    | none => exact ⟨vops, Nat.le_succ_of_le hlen, by rw [Runs.run_cons, hrun, hop]; rfl⟩
    | some vop => exact ⟨vop :: vops, Nat.succ_le_succ hlen, by rw [Runs.run_cons, hrun, hop]; rfl⟩

/-- The files refine the vsock layer: a run of theirs drives it through a run of its own, by at most one operation for
a call, and holds its sockets. -/
theorem vs_of_run (drv : Drivers) (cid : BitVec 32) (env : Nat → Vsock.Outcome) (ops : List Op) :
    let L := Runs.run (step drv) (Layer.init cid env) ops
    L.Held ∧ Vsock.TableSound L.vs ∧ ∃ vops : List Vsock.Op, vops.length ≤ ops.length ∧
      L.vs = Runs.run Vsock.step (World.init cid env) vops := by
  obtain ⟨vops, hlen, hrun⟩ := exists_run_vs drv (held_init cid env) ops
  refine ⟨Runs.run_invariant (fun _ op h => h.step drv op) (held_init cid env) ops, ?_⟩
  exact ⟨hrun ▸ Vsock.tableSound_of_run cid env vops, vops, hlen, hrun⟩

end

end Unikraft.Socket
