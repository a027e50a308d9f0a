import Mathlib.Algebra.Ring.Nat
import Mathlib.Data.List.Induction
import Mathlib.Data.List.TakeWhile

/-!
# A temporary epoll file, and pselect

`select` and `poll` register their descriptors with a new epoll file and wait on it. No other thread acts, so a
descriptor is closed, a file with a level of events, or a file of the old file system, whose entry has no pointer to
the epoll file: a pending event is undefined behaviour (`none`). In `pselect` a descriptor without epoll support is
ready for reading and writing at once.
-/

namespace Unikraft.Poll

open List

abbrev Events := BitVec 32

def EPOLLIN : Events := 0x1
def EPOLLPRI : Events := 0x2
def EPOLLOUT : Events := 0x4
def EPOLLERR : Events := 0x8
def EPOLLHUP : Events := 0x10
def EPOLLRDNORM : Events := 0x40
def EPOLLRDBAND : Events := 0x80
def EPOLLWRNORM : Events := 0x100
def EPOLLWRBAND : Events := 0x200
def EPOLLRDHUP : Events := 0x2000
def EPOLLET : Events := 0x80000000

def UKFD_POLL_ALWAYS : Events := EPOLLERR ||| EPOLLHUP
def UKFD_POLLIN : Events := EPOLLIN ||| EPOLLRDNORM ||| EPOLLRDBAND
def UKFD_POLLOUT : Events := EPOLLOUT ||| EPOLLWRNORM ||| EPOLLWRBAND

def EPOLL_EVENTS : Events := UKFD_POLLIN ||| UKFD_POLLOUT ||| EPOLLRDHUP ||| EPOLLPRI ||| UKFD_POLL_ALWAYS

def events2mask (ev : Events) : Events := (ev &&& EPOLL_EVENTS) ||| UKFD_POLL_ALWAYS

def EPERM : Int := 1
def EBADF : Int := 9
def ENOMEM : Int := 12
def EFAULT : Int := 14
def EEXIST : Int := 17
def EINVAL : Int := 22
def ENOSYS : Int := 38

/-- What is behind a descriptor: `legacy` has the error number of `VOP_POLL`, or 0, and its level. -/
inductive File where
  | closed
  | uk (level : Events)
  | legacy (err : Nat) (level : Events)
  deriving DecidableEq

/-- The descriptors, which allocations succeed (that of the epoll file, and that of the entry of a descriptor), and
the clock at its successive readings. -/
structure Env where
  files : Nat → File
  epollfile : Bool
  mem : Nat → Bool
  clock : Nat → Nat

structure Entry where
  fd : Nat
  file : File
  events : Events
  data : Int
  revents : Events

structure Epoll where
  list : List Entry
  pollin : Bool

variable (env : Env)

def ukEpollfileCreate : Option Epoll := if env.epollfile then some ⟨[], false⟩ else none

variable (ep : Epoll) (fd : Nat)

def epollFind (file : File) : Bool := ep.list.any fun e => e.fd = fd ∧ e.file = file

def epollAdd (level events : Events) (data : Int) : Int × Epoll :=
  if env.mem fd then
    let ev := level &&& events2mask events
    (0, ⟨ep.list ++ [⟨fd, .uk level, events, data, ev⟩], ep.pollin || decide (ev ≠ 0)⟩)
  else (-ENOMEM, ep)

def epollAddLegacy (fd err : Nat) (level events : Events) (data : Int) : Option (Int × Epoll) :=
  if env.mem fd then
    if err ≠ 0 then some (if -(err : Int) = -EINVAL then -EPERM else -(err : Int), ep)
    else
      let revents := level &&& events2mask events
      -- `uk_file_event_set(ent->epf, …)`, where `epf` is `NULL`
      if revents ≠ 0 then none
      else some (0, ⟨ep.list ++ [⟨fd, .legacy err level, events, data, revents⟩], ep.pollin⟩)
  else some (-ENOMEM, ep)

variable (events : Events)

def ukSysEpollCtlAdd (data : Int) : Option (Int × Epoll) :=
  match env.files fd with
  | .closed => some (-EBADF, ep)
  | .uk level =>
    if epollFind ep fd (.uk level) then some (-EEXIST, ep) else some (epollAdd env ep fd level events data)
  | .legacy err level =>
    if epollFind ep fd (.legacy err level) then some (-EEXIST, ep) else epollAddLegacy env ep fd err level events data

def Entry.isEdgepoll (e : Entry) : Bool := decide (e.events &&& EPOLLET ≠ 0)

/-- The level of the file; a failed `VOP_POLL` leaves the old value. -/
def File.poll (f : File) (old : Events) : Events :=
  match f with
  | .closed => old
  | .uk level => level
  | .legacy err level => if err = 0 then level else old

/-- One pass over the entries with room for `max` events: the entries after it, the events, and `lvlev`. -/
def gather : Nat → List Entry → List Entry × List (Int × Events) × Bool
  | _, [] => ([], [], false)
  | 0, l => (l, [], false)
  | max + 1, e :: l =>
    if e.revents = 0 then
      let (l, out, lvlev) := gather (max + 1) l
      (e :: l, out, lvlev)
    else if e.isEdgepoll then
      let (l, out, lvlev) := gather max l
      ({ e with revents := 0 } :: l, (e.data, e.revents) :: out, lvlev)
    else
      let revents := e.file.poll e.revents &&& events2mask e.events
      if revents = 0 then
        let (l, out, lvlev) := gather (max + 1) l
        ({ e with revents := 0 } :: l, out, lvlev)
      else
        let (l, out, _) := gather max l
        ({ e with revents := revents } :: l, (e.data, revents) :: out, true)

inductive Wait where
  | blocks
  | ret (n : Int) (events : List (Int × Events))

/-- The wait for `UKFD_POLLIN` when it is not set: a deadline of 0 is none. -/
def idle (deadline : Nat) : Wait := if deadline = 0 then .blocks else .ret 0 []

def deadlineOf (timeout : Option Int) (now : Nat) : Nat :=
  match timeout with
  | none => 0
  | some tout => (now + tout.toNat) % 2 ^ 64

def ukSysEpollPwait2 (maxevents : Int) (timeout : Option Int) (sigmask : Bool) (now : Nat) : Wait :=
  if maxevents ≤ 0 then .ret (-EINVAL) []
  else if sigmask then .ret (-ENOSYS) []
  else if timeout.any (· < 0) then .ret (-EINVAL) []
  else
    let deadline := deadlineOf timeout now
    if ep.pollin then
      let (_, out, _) := gather maxevents.toNat ep.list
      -- `UKFD_POLLIN` was cleared and is set again only if there are events
      if out = [] then idle deadline else .ret out.length out
    else idle deadline

/-- The outcome of `EPOLL_CTL_ADD` for a descriptor without an entry. -/
inductive Reg where
  | ok
  | perm
  | fail (e : Int)
  | undefined
  deriving DecidableEq

def File.level : File → Events
  | .closed => 0
  | .uk level => level
  | .legacy _ level => level

def Env.reg : Reg :=
  match env.files fd with
  | .closed => .fail EBADF
  | .uk _ => if env.mem fd then .ok else .fail ENOMEM
  | .legacy err level =>
    if env.mem fd then
      if err = 0 then if level &&& events2mask events = 0 then .ok else .undefined
      else if (err : Int) = EINVAL ∨ (err : Int) = EPERM then .perm
      else .fail err
    else .fail ENOMEM

def Env.entry : Entry where
  fd := fd
  file := env.files fd
  events := events
  data := fd
  revents := (env.files fd).level &&& events2mask events

def Epoll.push (e : Entry) : Epoll := ⟨ep.list ++ [e], ep.pollin || decide (e.revents ≠ 0)⟩

section
variable {env : Env} {ep : Epoll} {fd : Nat} {events : Events} {e : Int}

private theorem epollFind_eq_false (h : ∀ e ∈ ep.list, e.fd ≠ fd) (file : File) : epollFind ep fd file = false := by
  rw [epollFind, any_eq_false]
  intro e he
  simp [h e he]

/-- A descriptor is added to a file that does not have it. -/
theorem epollCtlAdd_eq (h : ∀ e ∈ ep.list, e.fd ≠ fd) : ukSysEpollCtlAdd env ep fd events fd =
      match env.reg fd events with
      | .ok => some (0, ep.push (env.entry fd events))
      | .perm => some (-EPERM, ep)
      | .fail e => some (-e, ep)
      | .undefined => none := by
  unfold ukSysEpollCtlAdd Env.reg Env.entry
  cases hf : env.files fd with
  | closed => rfl
  | uk level =>
    simp only [epollFind_eq_false h, epollAdd]
    cases env.mem fd <;> rfl
  | legacy err level =>
    simp only [epollFind_eq_false h, epollAddLegacy]
    cases hm : env.mem fd with
    | false => rfl
    | true =>
      by_cases herr : err = 0
      · by_cases hr : level &&& events2mask events = 0#32
        · simp [herr, hr, Epoll.push, File.level]
        · simp [herr, hr]
      · by_cases h22 : (err : Int) = EINVAL
        · simp [herr, h22]
        · by_cases h1 : (err : Int) = EPERM
          · simp [herr, h1]
          · simp [herr, h22, h1]

theorem fail_pos (h : env.reg fd events = .fail e) : 0 < e ∧ e ≠ EPERM := by
  unfold Env.reg at h
  cases hf : env.files fd with
  | closed =>
    rw [hf] at h
    cases h
    decide
  | uk level =>
    rw [hf] at h
    cases hm : env.mem fd with
    | true => simp [hm] at h
    | false =>
      simp only [hm] at h
      cases h
      decide
  | legacy err level =>
    rw [hf] at h
    cases hm : env.mem fd with
    | true =>
      simp only [hm, if_true] at h
      split at h
      · split at h <;> cases h
      case isFalse herr =>
        split at h
        · cases h
        case isFalse hne =>
          cases h
          exact ⟨by omega, fun he => hne (.inr he)⟩
    | false =>
      simp only [hm] at h
      cases h
      decide

end

def Env.pending (q : Nat × Events) : Events := (env.files q.1).level &&& events2mask q.2

section
variable (reqs : List (Nat × Events))

def Env.entries : List Entry :=
  (reqs.filter fun q => env.reg q.1 q.2 = .ok).map fun q => env.entry q.1 q.2

def Env.ready : List (Nat × Events) :=
  reqs.filter fun q => env.reg q.1 q.2 = .ok ∧ env.pending q ≠ 0

def Env.epollOf : Epoll :=
  ⟨env.entries reqs, (env.entries reqs).any fun e => e.revents ≠ 0⟩

variable {env : Env} {reqs : List (Nat × Events)} {q : Nat × Events} {l : List Entry} {e : Entry} {max : Nat}
    {timeout : Option Int}

theorem epollOf_push (h : env.reg q.1 q.2 = .ok) :
    (env.epollOf reqs).push (env.entry q.1 q.2) = env.epollOf (reqs ++ [q]) := by
  simp [Env.epollOf, Env.entries, Epoll.push, h]

theorem epollOf_skip (h : env.reg q.1 q.2 ≠ .ok) : env.epollOf (reqs ++ [q]) = env.epollOf reqs := by
  simp [Env.epollOf, Env.entries, h]

theorem fd_of_mem_entries (h : e ∈ env.entries reqs) : ∃ q ∈ reqs, e.fd = q.1 := by
  obtain ⟨q, hq, rfl⟩ := mem_map.1 h
  exact ⟨q, (mem_filter.1 hq).1, rfl⟩

def Entry.Settled (e : Entry) : Prop := e.revents ≠ 0 → e.file.poll e.revents &&& events2mask e.events = e.revents

private theorem entry_settled (h : env.reg q.1 q.2 = .ok) : (env.entry q.1 q.2).Settled := by
  intro hne
  unfold Env.reg at h
  unfold Env.entry at hne ⊢
  cases hf : env.files q.1 with
  | closed => simp [hf] at h
  | uk level => rfl
  | legacy err level =>
    simp only [hf, File.level] at h hne
    by_cases herr : err = 0
    · rw [if_pos herr, if_neg hne] at h
      cases hm : env.mem q.1 with
      | false | true => simp [hm] at h
    · rw [if_neg herr] at h
      cases hm : env.mem q.1 with
      | false => simp [hm] at h
      | true =>
        rw [hm, if_pos rfl] at h
        split at h <;> cases h

private theorem gather_eq (hs : ∀ e ∈ l, e.Settled) (hmax : l.length ≤ max) :
    (gather max l).2.1 = (l.filter fun e => e.revents ≠ 0).map fun e => (e.data, e.revents) := by
  induction l generalizing max with
  | nil =>
    cases max <;> rfl
  | cons e l ih =>
    obtain ⟨max, rfl⟩ : ∃ n, max = n + 1 := ⟨max - 1, by rw [length_cons] at hmax; omega⟩
    rw [length_cons] at hmax
    have hs' : ∀ e ∈ l, e.Settled := fun e he => hs e (mem_cons_of_mem _ he)
    by_cases h0 : e.revents = 0
    · rw [gather, if_pos h0, filter_cons_of_neg (by simp [h0])]
      exact ih hs' (by omega)
    · rw [filter_cons_of_pos (by simpa using h0), map_cons, ← ih hs' (Nat.le_of_succ_le_succ hmax), gather, if_neg h0]
      have hpoll := hs e (mem_cons_self ..) h0
      cases e.isEdgepoll with
      | true => rfl
      | false =>
        simp only [Bool.false_eq_true, if_false, hpoll, if_neg h0]

private theorem filter_entries_map :
    ((env.entries reqs).filter fun e => e.revents ≠ 0).map (fun e => (e.data, e.revents)) =
      (env.ready reqs).map fun q => ((q.1 : Int), env.pending q) := by
  rw [Env.entries, filter_map, map_map, filter_filter, Env.ready]
  have hp : (fun q : Nat × Events => ((fun e : Entry => decide (e.revents ≠ 0)) ∘ fun q => env.entry q.1 q.2) q &&
      decide (env.reg q.1 q.2 = .ok)) = fun q => decide (env.reg q.1 q.2 = .ok ∧ env.pending q ≠ 0) := by
    funext q
    rw [Bool.decide_and, Bool.and_comm]
    rfl
  rw [hp]
  rfl

/-- The wait reports what is ready, or sleeps until the deadline. -/
theorem epollPwait2_eq {now : Nat} (hmax : (env.entries reqs).length ≤ max) (hpos : 0 < max)
    (ht : timeout.any (· < 0) = false) :
    ukSysEpollPwait2 (env.epollOf reqs) max timeout false now =
      if env.ready reqs = [] then idle (deadlineOf timeout now)
      else .ret (env.ready reqs).length ((env.ready reqs).map fun q => ((q.1 : Int), env.pending q)) := by
  have hset : ∀ e ∈ env.entries reqs, e.Settled := by
    intro e he
    obtain ⟨q, hq, rfl⟩ := mem_map.1 he
    exact entry_settled (of_decide_eq_true (mem_filter.1 hq).2)
  have hout : (gather max (env.epollOf reqs).list).2.1 = (env.ready reqs).map fun q => ((q.1 : Int), env.pending q) :=
    (gather_eq hset hmax).trans filter_entries_map
  have hpollin : (env.epollOf reqs).pollin = true ↔ env.ready reqs ≠ [] := by
    have hlen : ((env.entries reqs).filter fun e => e.revents ≠ 0).length = (env.ready reqs).length := by
      simpa only [length_map] using congrArg List.length filter_entries_map
    rw [← length_pos_iff, ← hlen, length_pos_iff, ne_eq, filter_eq_nil_iff]
    simp [Env.epollOf]
  rw [ukSysEpollPwait2, if_neg (by omega), if_neg Bool.false_ne_true, ht, if_neg Bool.false_ne_true]
  by_cases hready : env.ready reqs = []
  · rw [if_pos hready, if_neg fun h => hpollin.1 h hready]
  · rw [if_neg hready, if_pos (hpollin.2 hready)]
    simp only [Int.toNat_natCast, hout, map_eq_nil_iff, hready, if_false, length_map]

end

def SELECT_READ : Events := UKFD_POLLIN
def SELECT_WRITE : Events := UKFD_POLLOUT
def SELECT_EXCEPT : Events := EPOLLPRI ||| UKFD_POLL_ALWAYS

def FD_SETSIZE : Nat := 1024

abbrev FdSet := Nat → Bool

def fdSet (fd : Nat) (s : FdSet) : FdSet := Function.update s fd true

/-- The arguments; `none` is `NULL`, the timeout is in nanoseconds, and `sigmask` says whether `sigset->ss` is
given. -/
structure Select where
  nfds : Int
  readfds : Option FdSet
  writefds : Option FdSet
  exceptfds : Option FdSet
  timeout : Option Int
  sigmask : Bool

variable (s : Option FdSet)

def isSet (fd : Nat) : Bool := s.any fun s => s fd

def Select.r (a : Select) (fd : Nat) : Events := if isSet a.readfds fd then SELECT_READ else 0
def Select.w (a : Select) (fd : Nat) : Events := if isSet a.writefds fd then SELECT_WRITE else 0
def Select.x (a : Select) (fd : Nat) : Events := if isSet a.exceptfds fd then SELECT_EXCEPT else 0

def Select.mask (a : Select) (fd : Nat) : Events := a.r fd ||| a.w fd ||| a.x fd

structure Sel where
  ret : Int
  monitored : Nat
  immediate : Nat
  immRd : FdSet
  immWr : FdSet
  ep : Epoll

/-- `none` is undefined behaviour. -/
def selectLoop (env : Env) (a : Select) : List Nat → Sel → Option Sel
  | [], s => some s
  | fd :: fds, s =>
    if a.mask fd = 0 then selectLoop env a fds s
    else
      match ukSysEpollCtlAdd env s.ep fd (a.mask fd) fd with
      | none => none
      | some (ret, ep) =>
        if ret = -EPERM then
          selectLoop env a fds
            { ret := 0
              monitored := s.monitored + 1
              immediate := if a.r fd ||| a.w fd ≠ 0 then fd + 1 else s.immediate
              immRd := if a.r fd ≠ 0 then fdSet fd s.immRd else s.immRd
              immWr := if a.w fd ≠ 0 then fdSet fd s.immWr else s.immWr
              ep := ep }
        else if ret ≠ 0 then some { s with ret := ret, ep := ep }
        else selectLoop env a fds { s with ret := ret, monitored := s.monitored + 1, ep := ep }

inductive Selected where
  | undefined
  | blocks
  | ret (n : Int) (readfds writefds exceptfds : Option FdSet) (timeout : Option Int)

def zeroFdset : Option FdSet := s.map fun _ _ => false

def immLoop (s : Sel) (readfds writefds : Option FdSet) : Int × Option FdSet × Option FdSet :=
  (List.range s.immediate).foldl
    (fun (ret, rd, wr) i =>
      let (ret, rd) := if s.immRd i then (ret + 1, rd.map (fdSet i)) else (ret, rd)
      let (ret, wr) := if s.immWr i then (ret + 1, wr.map (fdSet i)) else (ret, wr)
      (ret, rd, wr))
    (0, readfds, writefds)

def outLoop (events : List (Int × Events)) (sets : Option FdSet × Option FdSet × Option FdSet) :
    Option FdSet × Option FdSet × Option FdSet :=
  events.foldl
    (fun (rd, wr, ex) (fd, ev) =>
      (if ev &&& SELECT_READ ≠ 0 then rd.map (fdSet fd.toNat) else rd,
        if ev &&& SELECT_WRITE ≠ 0 then wr.map (fdSet fd.toNat) else wr,
        if ev &&& SELECT_EXCEPT ≠ 0 then ex.map (fdSet fd.toNat) else ex))
    sets

def selectFinish (a : Select) (s : Sel) : Selected :=
  let monitored := if s.monitored = 0 then 1 else s.monitored
  let (ret, rd, wr, ex) :=
    if s.immediate ≠ 0 then
      let (ret, rd, wr) := immLoop s (zeroFdset a.readfds) (zeroFdset a.writefds)
      (ret, rd, wr, zeroFdset a.exceptfds)
    else (s.ret, a.readfds, a.writefds, a.exceptfds)
  if ret = 0 then
    match ukSysEpollPwait2 s.ep monitored a.timeout a.sigmask (env.clock 1) with
    | .blocks => .blocks
    | .ret n events =>
      let timeout := a.timeout.map fun t => max 0 (t - ((env.clock 2 : Int) - env.clock 0))
      let (rd, wr, ex) := outLoop events (zeroFdset rd, zeroFdset wr, zeroFdset ex)
      .ret n rd wr ex timeout
  else .ret ret rd wr ex a.timeout

def ukSysPselect (a : Select) : Selected :=
  if a.nfds < 0 then .ret (-EINVAL) a.readfds a.writefds a.exceptfds a.timeout
  else if a.timeout.any (· < 0) then .ret (-EINVAL) a.readfds a.writefds a.exceptfds a.timeout
  else if a.nfds > FD_SETSIZE then .ret (-EINVAL) a.readfds a.writefds a.exceptfds a.timeout
  else if a.sigmask then .ret (-ENOSYS) a.readfds a.writefds a.exceptfds a.timeout
  else
    match ukEpollfileCreate env with
    | none => .ret (-ENOMEM) a.readfds a.writefds a.exceptfds a.timeout
    | some ep =>
      match selectLoop env a (List.range a.nfds.toNat) ⟨0, 0, 0, fun _ => false, fun _ => false, ep⟩ with
      | none => .undefined
      | some s => selectFinish env a s

def Select.reqsOf (a : Select) (fds : List Nat) : List (Nat × Events) :=
  (fds.filter fun fd => a.mask fd ≠ 0).map fun fd => (fd, a.mask fd)

def Select.reqs (a : Select) : List (Nat × Events) := a.reqsOf (List.range a.nfds.toNat)

def Env.accepts (q : Nat × Events) : Bool := env.reg q.1 q.2 = .ok ∨ env.reg q.1 q.2 = .perm

def Env.accepted (reqs : List (Nat × Events)) : List (Nat × Events) := reqs.takeWhile env.accepts

def Env.stop (reqs : List (Nat × Events)) : Option Reg :=
  (reqs.find? fun q => !env.accepts q).map fun q => env.reg q.1 q.2

def selStep (a : Select) (s : Sel) (q : Nat × Events) : Sel :=
  if env.reg q.1 q.2 = .perm then
    { ret := 0
      monitored := s.monitored + 1
      immediate := if a.r q.1 ||| a.w q.1 ≠ 0 then q.1 + 1 else s.immediate
      immRd := if a.r q.1 ≠ 0 then fdSet q.1 s.immRd else s.immRd
      immWr := if a.w q.1 ≠ 0 then fdSet q.1 s.immWr else s.immWr
      ep := s.ep }
  else { s with ret := 0, monitored := s.monitored + 1, ep := s.ep.push (env.entry q.1 q.2) }

/-- The result of the loop in terms of the first request that fails. -/
def selStop (s : Sel) : Option Reg → Option Sel
  | some .undefined => none
  | some (.fail e) => some { s with ret := -e }
  | _ => some s

variable {a : Select} {q : Nat × Events} {e : Int} {Q : List (Nat × Events)}

section
variable {env : Env} {fds : List Nat} {s : Sel} {fd : Nat} {reqs : List (Nat × Events)} {z : FdSet}

private theorem reqsOf_cons_of_mask (h : a.mask fd ≠ 0) : a.reqsOf (fd :: fds) = (fd, a.mask fd) :: a.reqsOf fds := by
  rw [Select.reqsOf, filter_cons_of_pos (by simpa using h), map_cons]
  rfl

private theorem reqsOf_cons_of_not_mask (h : a.mask fd = 0) : a.reqsOf (fd :: fds) = a.reqsOf fds := by
  rw [Select.reqsOf, filter_cons_of_neg (by simp [h])]
  rfl

private theorem accepted_cons (h : env.accepts q = true) : env.accepted (q :: reqs) = q :: env.accepted reqs :=
  takeWhile_cons_of_pos h

private theorem accepted_stop (h : env.accepts q = false) : env.accepted (q :: reqs) = [] :=
  takeWhile_cons_of_neg (by rw [h]; exact Bool.false_ne_true)

private theorem stop_cons (h : env.accepts q = true) : env.stop (q :: reqs) = env.stop reqs := by
  rw [Env.stop, List.find?_cons_of_neg (by simp [h])]
  rfl

private theorem stop_stop (h : env.accepts q = false) : env.stop (q :: reqs) = some (env.reg q.1 q.2) := by
  rw [Env.stop, List.find?_cons_of_pos (by simp [h])]
  rfl

private theorem selectLoop_eq (hnd : fds.Nodup) (hfd : ∀ e ∈ s.ep.list, e.fd ∉ fds) (hret : s.ret = 0) :
    selectLoop env a fds s =
      selStop ((env.accepted (a.reqsOf fds)).foldl (selStep env a) s) (env.stop (a.reqsOf fds)) := by
  induction fds generalizing s with
  | nil => rfl
  | cons fd fds ih =>
    rw [nodup_cons] at hnd
    rw [selectLoop]
    by_cases hmask : a.mask fd = 0
    · rw [reqsOf_cons_of_not_mask hmask, if_pos hmask]
      exact ih hnd.2 (fun e he hm => hfd e he (mem_cons_of_mem _ hm)) hret
    · rw [reqsOf_cons_of_mask hmask, if_neg hmask,
        epollCtlAdd_eq fun e he hm => hfd e he (hm ▸ mem_cons_self ..)]
      cases hreg : env.reg fd (a.mask fd) with
      | ok =>
        have hacc : env.accepts (fd, a.mask fd) = true := by simp [Env.accepts, hreg]
        have hstep : selStep env a s (fd, a.mask fd) =
            { s with ret := 0, monitored := s.monitored + 1, ep := s.ep.push (env.entry fd (a.mask fd)) } := by
          simp [selStep, hreg]
        rw [accepted_cons hacc, stop_cons hacc, foldl_cons, hstep]
        refine ih hnd.2 (fun e he hm => ?_) rfl
        rcases mem_append.1 he with he | he
        · exact hfd e he (mem_cons_of_mem _ hm)
        · rw [mem_singleton.1 he] at hm
          exact hnd.1 hm
      | perm =>
        have hacc : env.accepts (fd, a.mask fd) = true := by simp [Env.accepts, hreg]
        rw [accepted_cons hacc, stop_cons hacc, foldl_cons, selStep, if_pos hreg]
        exact ih hnd.2 (fun e he hm => hfd e he (mem_cons_of_mem _ hm)) rfl
      | fail e =>
        have hacc : env.accepts (fd, a.mask fd) = false := by simp [Env.accepts, hreg]
        obtain ⟨h0, h1⟩ : 0 < e ∧ e ≠ EPERM := fail_pos hreg
        rw [accepted_stop hacc, stop_stop hacc, hreg]
        dsimp only
        rw [if_neg (by omega), if_pos (by omega)]
        rfl
      | undefined =>
        have hacc : env.accepts (fd, a.mask fd) = false := by simp [Env.accepts, hreg]
        rw [accepted_stop hacc, stop_stop hacc, hreg]
        rfl

/-- A file without epoll support is requested for reading or writing. -/
def Immediate (env : Env) (a : Select) (q : Nat × Events) : Prop :=
  env.reg q.1 q.2 = .perm ∧ (isSet a.readfds q.1 = true ∨ isSet a.writefds q.1 = true)

/-- The variables after the requests `Q` have been accepted. -/
structure SelIs (env : Env) (a : Select) (Q : List (Nat × Events)) (s : Sel) : Prop where
  ret : s.ret = 0
  monitored : s.monitored = Q.length
  ep : s.ep = env.epollOf Q
  immRd : ∀ i, s.immRd i = true ↔ ∃ q ∈ Q, q.1 = i ∧ env.reg q.1 q.2 = .perm ∧ isSet a.readfds i = true
  immWr : ∀ i, s.immWr i = true ↔ ∃ q ∈ Q, q.1 = i ∧ env.reg q.1 q.2 = .perm ∧ isSet a.writefds i = true
  bound : ∀ q ∈ Q, Immediate env a q → q.1 < s.immediate
  immediate : s.immediate = 0 ∨ ∃ q ∈ Q, Immediate env a q ∧ s.immediate = q.1 + 1

private theorem r_ne_zero : a.r fd ≠ 0 ↔ isSet a.readfds fd = true := by
  unfold Select.r
  cases isSet a.readfds fd <;> decide

private theorem w_ne_zero : a.w fd ≠ 0 ↔ isSet a.writefds fd = true := by
  unfold Select.w
  cases isSet a.writefds fd <;> decide

private theorem rw_ne_zero : a.r fd ||| a.w fd ≠ 0 ↔ isSet a.readfds fd = true ∨ isSet a.writefds fd = true := by
  unfold Select.r Select.w
  cases isSet a.readfds fd <;> cases isSet a.writefds fd <;> decide

theorem mask_ne_zero : a.mask fd ≠ 0 ↔ isSet a.readfds fd = true ∨ isSet a.writefds fd = true ∨
    isSet a.exceptfds fd = true := by
  unfold Select.mask Select.r Select.w Select.x
  cases isSet a.readfds fd <;> cases isSet a.writefds fd <;> cases isSet a.exceptfds fd <;> decide

theorem fdSet_iff {i : Nat} : fdSet fd z i = true ↔ i = fd ∨ z i = true := by
  unfold fdSet
  by_cases h : i = fd <;> simp [h]

private theorem exists_mem_append (P : Nat × Events → Prop) : (∃ p ∈ Q ++ [q], P p) ↔ (∃ p ∈ Q, P p) ∨ P q := by
  simp only [mem_append, mem_singleton, or_and_right, exists_or, exists_eq_left]

private theorem imm_push {input : Option FdSet} {c : Prop} [Decidable c] (hperm : env.reg q.1 q.2 = .perm)
    (hc : c ↔ isSet input q.1 = true)
    (hz : ∀ i, z i = true ↔ ∃ p ∈ Q, p.1 = i ∧ env.reg p.1 p.2 = .perm ∧ isSet input i = true) (i : Nat) :
    (if c then fdSet q.1 z else z) i = true ↔ ∃ p ∈ Q ++ [q], p.1 = i ∧ env.reg p.1 p.2 = .perm ∧
    isSet input i = true := by
  rw [exists_mem_append, ← hz]
  split
  next h =>
    rw [fdSet_iff, or_comm]
    refine or_congr_right ⟨?_, fun hi => hi.1.symm⟩
    rintro rfl
    exact ⟨rfl, hperm, hc.1 h⟩
  next h =>
    refine ⟨.inl, fun hi => hi.resolve_right ?_⟩
    rintro ⟨rfl, -, hset⟩
    exact h (hc.2 hset)

private theorem selIs_foldl (hsorted : Q.Pairwise fun p q => p.1 < q.1) (hacc : ∀ q ∈ Q, env.accepts q = true) :
    SelIs env a Q (Q.foldl (selStep env a) ⟨0, 0, 0, fun _ => false, fun _ => false, ⟨[], false⟩⟩) := by
  induction Q using List.reverseRecOn with
  | nil =>
    exact ⟨rfl, rfl, rfl, by simp, by simp, by simp, .inl rfl⟩
  | append_singleton Q q ih =>
    rw [pairwise_append] at hsorted
    obtain ⟨hsorted, -, hlt⟩ := hsorted
    have hlt' : ∀ p ∈ Q, p.1 < q.1 := fun p hp => hlt p hp q (mem_singleton_self q)
    have h := ih hsorted fun p hp => hacc p (mem_append_left _ hp)
    rw [foldl_append, foldl_cons, foldl_nil, selStep]
    split
    next hperm =>
      have hskip : env.epollOf (Q ++ [q]) = env.epollOf Q := epollOf_skip (by rw [hperm]; exact fun he => by cases he)
      refine ⟨rfl, by simp [h.monitored], h.ep.trans hskip.symm, imm_push hperm r_ne_zero h.immRd,
          imm_push hperm w_ne_zero h.immWr,
        fun p hp hi => ?_, ?_⟩
      · by_cases hrw : a.r q.1 ||| a.w q.1 ≠ 0
        · simp only [if_pos hrw]
          rcases mem_append.1 hp with hp | hp
          · exact Nat.lt_succ_of_lt (hlt' p hp)
          · rw [mem_singleton.1 hp]
            exact Nat.lt_succ_self _
        · simp only [if_neg hrw]
          rcases mem_append.1 hp with hp | hp
          · exact h.bound p hp hi
          · rw [mem_singleton.1 hp] at hi
            exact absurd (rw_ne_zero.2 hi.2) hrw
      · by_cases hrw : a.r q.1 ||| a.w q.1 ≠ 0
        · simp only [if_pos hrw]
          exact .inr ⟨q, mem_append_right _ (mem_singleton_self q), ⟨hperm, rw_ne_zero.1 hrw⟩, rfl⟩
        · simp only [if_neg hrw]
          refine h.immediate.imp id ?_
          rintro ⟨p, hp, hi⟩
          exact ⟨p, mem_append_left _ hp, hi⟩
    next hperm =>
      have hok : env.reg q.1 q.2 = .ok := by
        have hq := hacc q (mem_append_right _ (mem_singleton_self q))
        exact (of_decide_eq_true hq).resolve_right hperm
      have hnot : ¬Immediate env a q := fun hi => hperm hi.1
      refine ⟨rfl, by simp [h.monitored], ?_, fun i => ?_, fun i => ?_, fun p hp hi => ?_, ?_⟩
      · rw [h.ep, epollOf_push hok]
      · rw [exists_mem_append, ← h.immRd]
        exact ⟨.inl, fun hi => hi.resolve_right fun hq => hperm hq.2.1⟩
      · rw [exists_mem_append, ← h.immWr]
        exact ⟨.inl, fun hi => hi.resolve_right fun hq => hperm hq.2.1⟩
      · rcases mem_append.1 hp with hp | hp
        · exact h.bound p hp hi
        · rw [mem_singleton.1 hp] at hi
          exact absurd hi hnot
      · refine h.immediate.imp id ?_
        rintro ⟨p, hp, hi⟩
        exact ⟨p, mem_append_left _ hp, hi⟩

end

/-! ### The result sets -/

def bits : Nat := (s.map fun s => (List.range FD_SETSIZE).countP s).getD 0

section
variable {s : Sel} {rd wr ex : Option FdSet} {i N M : Nat} {p : Nat → Bool} {L : List Nat}

private theorem countP_range_le (h : N ≤ M) (hp : ∀ i, p i = true → i < N) :
    (List.range M).countP p = (List.range N).countP p := by
  induction M with
  | zero => rw [Nat.le_zero.1 h]
  | succ M ih =>
    by_cases hN : N = M + 1
    · rw [hN]
    · have hM : p M = false := by
        rw [← Bool.not_eq_true]
        intro ht
        have := hp M ht
        omega
      rw [range_succ, countP_append, ih (by omega), countP_singleton, hM]
      rfl

private theorem countP_range_mem (hnd : L.Nodup) (hlt : ∀ i ∈ L, i < N) :
    (List.range N).countP (fun i => decide (i ∈ L)) = L.length := by
  rw [countP_eq_length_filter]
  refine List.Perm.length_eq ((perm_ext_iff_of_nodup (nodup_range.filter _) hnd).2 fun i => ?_)
  rw [mem_filter, mem_range, decide_eq_true_eq]
  exact ⟨fun h => h.2, fun h => ⟨hlt i h, h⟩⟩

variable (f : FdSet)

def below (N : Nat) : FdSet := fun i => decide (i < N) && f i

variable (events : List (Int × Events))

def hits (S : Events) : FdSet := fun i => events.any fun e => e.1.toNat = i ∧ e.2 &&& S ≠ 0

private theorem map_fdSet (c : Prop) [Decidable c] (s : Option FdSet) (f : FdSet) (i : Nat) :
    (if c then (s.map fun _ => f).map (fdSet i) else s.map fun _ => f) = s.map fun _ => if c then fdSet i f
    else f := by
  by_cases h : c
  · simp only [if_pos h]
    exact Option.map_map ..
  · simp only [if_neg h]

private theorem below_zero : below f 0 = fun _ => false := by
  funext i
  simp [below]

private theorem below_succ (N : Nat) : below f (N + 1) = if f N = true then fdSet N (below f N) else below f N := by
  funext i
  unfold below
  by_cases hi : i = N
  · subst hi
    cases hf : f i <;> simp [fdSet, hf]
  · have hlt : i < N + 1 ↔ i < N := by omega
    cases hf : f N <;> simp [fdSet, hi, hlt]

private theorem hits_append (e : Int × Events) (S : Events) :
    hits (events ++ [e]) S = if e.2 &&& S ≠ 0 then fdSet e.1.toNat (hits events S) else hits events S := by
  funext i
  unfold hits
  by_cases hS : e.2 &&& S = 0#32
  · simp [hS]
  · by_cases hi : e.1.toNat = i
    · simp [hS, hi, fdSet]
    · have hne : i ≠ e.1.toNat := fun h => hi h.symm
      simp [hS, hi, hne, fdSet]

private theorem immLoop_eq (s : Sel) (rd wr : Option FdSet) : immLoop s (zeroFdset rd) (zeroFdset wr) =
      ((((List.range s.immediate).countP s.immRd + (List.range s.immediate).countP s.immWr : Nat) : Int),
        rd.map fun _ => below s.immRd s.immediate, wr.map fun _ => below s.immWr s.immediate) := by
  obtain ⟨ret, monitored, N, immRd, immWr, ep⟩ := s
  induction N with
  | zero =>
    simp only [immLoop, zeroFdset, below_zero, range_zero, foldl_nil, countP_nil, Nat.add_zero, Int.natCast_zero]
  | succ N ih =>
    unfold immLoop at ih ⊢
    rw [range_succ, foldl_append, ih, foldl_cons, foldl_nil, countP_append, countP_append,
      countP_singleton, countP_singleton, below_succ, below_succ, ← map_fdSet, ← map_fdSet]
    by_cases hr : immRd N = true
    · by_cases hw : immWr N = true
      all_goals
        simp [hr, hw]
        omega
    · by_cases hw : immWr N = true
      · simp [hr, hw]
        omega
      · simp [hr, hw]

private theorem outLoop_eq (rd wr ex : Option FdSet) : outLoop events (zeroFdset rd, zeroFdset wr, zeroFdset ex) =
      (rd.map fun _ => hits events SELECT_READ, wr.map fun _ => hits events SELECT_WRITE,
        ex.map fun _ => hits events SELECT_EXCEPT) := by
  induction events using List.reverseRecOn with
  | nil => rfl
  | append_singleton events e ih =>
    unfold outLoop at ih ⊢
    rw [foldl_append, ih, foldl_cons, foldl_nil, hits_append, hits_append, hits_append, ← map_fdSet, ← map_fdSet,
      ← map_fdSet]

theorem bits_zeroFdset (s : Option FdSet) : bits (zeroFdset s) = 0 := by
  cases s with
  | none => rfl
  | some s => simp [bits, zeroFdset]

theorem bits_below (h : N ≤ FD_SETSIZE) : bits (some (below f N)) = (List.range N).countP f := by
  have hlt : ∀ i, below f N i = true → i < N := fun i hi => of_decide_eq_true (Bool.and_eq_true _ _ ▸ hi).1
  rw [bits, Option.map_some, Option.getD_some, countP_range_le h hlt]
  refine countP_congr fun i hi => ?_
  simp [below, mem_range.1 hi]

theorem hits_iff {g : Nat × Events → Events} {S : Events} :
    hits (Q.map fun q => ((q.1 : Int), g q)) S i = true ↔ ∃ q ∈ Q, q.1 = i ∧ g q &&& S ≠ 0 := by
  simp [hits]

/-- Over distinct descriptors, the bits that are set are those of the requests that are hit. -/
theorem bits_hits (g : Nat × Events → Events) (S : Events) (hnd : (Q.map Prod.fst).Nodup)
    (hlt : ∀ q ∈ Q, q.1 < FD_SETSIZE) :
    bits (some (hits (Q.map fun q => ((q.1 : Int), g q)) S)) = Q.countP fun q => g q &&& S ≠ 0 := by
  have hmem : hits (Q.map fun q => ((q.1 : Int), g q)) S =
      fun i => decide (i ∈ (Q.filter fun q => g q &&& S ≠ 0).map Prod.fst) := by
    funext i
    rw [Bool.eq_iff_iff, hits_iff, decide_eq_true_eq]
    simp [and_comm, and_assoc]
  rw [hmem, bits, Option.map_some, Option.getD_some, countP_range_mem, length_map, countP_eq_length_filter]
  · exact hnd.sublist (filter_sublist.map _)
  · intro i hi
    obtain ⟨q, hq, rfl⟩ := mem_map.1 hi
    exact hlt q (mem_filter.1 hq).1

end

def Refused (a : Select) : Prop :=
  a.nfds < 0 ∨ a.timeout.any (· < 0) = true ∨ a.nfds > FD_SETSIZE ∨ a.sigmask = true ∨ env.epollfile = false

section
variable {env : Env}

theorem mem_reqs : q ∈ a.reqs ↔ (q.1 : Int) < a.nfds ∧ a.mask q.1 ≠ 0 ∧ q.2 = a.mask q.1 := by
  obtain ⟨fd, ev⟩ := q
  simp only [Select.reqs, Select.reqsOf, mem_map, mem_filter, mem_range, decide_eq_true_eq, Prod.mk.injEq]
  constructor
  · rintro ⟨i, ⟨hlt, hmask⟩, rfl, rfl⟩
    exact ⟨by omega, hmask, rfl⟩
  · rintro ⟨hlt, hmask, rfl⟩
    exact ⟨fd, ⟨by omega, hmask⟩, rfl, rfl⟩

theorem reqs_sorted (a : Select) : a.reqs.Pairwise fun p q => p.1 < q.1 := by
  rw [Select.reqs, Select.reqsOf, pairwise_map]
  exact pairwise_lt_range.filter _

theorem accepted_sublist (env : Env) (a : Select) : (env.accepted a.reqs).Sublist a.reqs := takeWhile_sublist _

theorem accepts_of_mem_accepted (h : q ∈ env.accepted a.reqs) : env.accepts q = true := mem_takeWhile_imp h

theorem accepted_of_stop_none (h : env.stop a.reqs = none) : env.accepted a.reqs = a.reqs := by
  rw [Env.stop, Option.map_eq_none_iff, List.find?_eq_none] at h
  refine takeWhile_eq_self_iff.2 fun q hq => ?_
  simpa using h q hq

private theorem exists_selIs (env : Env) (a : Select) : ∃ s, SelIs env a (env.accepted a.reqs) s ∧
      selectLoop env a (List.range a.nfds.toNat) ⟨0, 0, 0, fun _ => false, fun _ => false, ⟨[], false⟩⟩ =
        selStop s (env.stop a.reqs) :=
  ⟨_, selIs_foldl ((reqs_sorted a).sublist (accepted_sublist env a)) fun _ => accepts_of_mem_accepted,
    selectLoop_eq nodup_range (fun _ he => absurd he not_mem_nil) rfl⟩

private theorem immediate_eq_zero {s : Sel} (h : SelIs env a Q s) (hno : ∀ q ∈ Q, ¬Immediate env a q) :
    s.immediate = 0 := by
  refine h.immediate.resolve_right ?_
  rintro ⟨q, hq, hi, -⟩
  exact hno q hq hi

/-- A call that is refused returns an error and leaves the sets. -/
theorem pselect_refused (h : Refused env a) :
    ∃ e : Int, 0 < e ∧ e ≠ EBADF ∧ ukSysPselect env a = .ret (-e) a.readfds a.writefds a.exceptfds a.timeout := by
  unfold ukSysPselect
  split
  · exact ⟨EINVAL, by decide, by decide, rfl⟩
  split
  · exact ⟨EINVAL, by decide, by decide, rfl⟩
  split
  · exact ⟨EINVAL, by decide, by decide, rfl⟩
  split
  · exact ⟨ENOSYS, by decide, by decide, rfl⟩
  · rename_i h1 h2 h3 h4
    have hmem : env.epollfile = false := by
      rcases h with h | h | h | h | h
      · exact absurd h h1
      · exact absurd h h2
      · exact absurd h h3
      · exact absurd h h4
      · exact h
    refine ⟨ENOMEM, by decide, by decide, ?_⟩
    rw [ukEpollfileCreate, hmem]
    rfl

/-- A call registers its descriptors one after the other, up to the first that fails. -/
theorem pselect_run (h : ¬Refused env a) : ∃ s, SelIs env a (env.accepted a.reqs) s ∧ ukSysPselect env a =
        match env.stop a.reqs with
        | some .undefined => .undefined
        | some (.fail e) => selectFinish env a { s with ret := -e }
        | _ => selectFinish env a s := by
  obtain ⟨s, hs, hloop⟩ := exists_selIs env a
  simp only [Refused, not_or, Bool.not_eq_true, Bool.not_eq_false] at h
  obtain ⟨h1, h2, h3, h4, h5⟩ := h
  refine ⟨s, hs, ?_⟩
  rw [ukSysPselect, if_neg h1, h2, if_neg Bool.false_ne_true, if_neg h3, h4, if_neg Bool.false_ne_true,
      ukEpollfileCreate, h5,
    if_pos rfl]
  dsimp only
  rw [hloop]
  rcases env.stop a.reqs with _ | _ | _ | _ | _ <;> rfl

section
variable {s : Sel}

section
variable (hs : SelIs env a Q s)
include hs

theorem selectFinish_fail (hno : ∀ q ∈ Q, ¬Immediate env a q) (he : e ≠ 0) :
    selectFinish env a { s with ret := -e } = .ret (-e) a.readfds a.writefds a.exceptfds a.timeout := by
  have h0 : s.immediate = 0 := immediate_eq_zero hs hno
  simp [selectFinish, h0, he]

private theorem immediate_count_pos (hq : q ∈ Q) (hi : Immediate env a q) :
    0 < (List.range s.immediate).countP s.immRd + (List.range s.immediate).countP s.immWr := by
  have hmem : q.1 ∈ List.range s.immediate := mem_range.2 (hs.bound q hq hi)
  rcases hi.2 with hset | hset
  · have hrd : s.immRd q.1 = true := (hs.immRd q.1).2 ⟨q, hq, rfl, hi.1, hset⟩
    have := countP_pos_iff.2 ⟨q.1, hmem, hrd⟩
    omega
  · have hwr : s.immWr q.1 = true := (hs.immWr q.1).2 ⟨q, hq, rfl, hi.1, hset⟩
    have := countP_pos_iff.2 ⟨q.1, hmem, hwr⟩
    omega

/-- If an entry is ready at once, there is no wait. -/
theorem selectFinish_immediate (hq : q ∈ Q) (hi : Immediate env a q) (ret : Int) :
    selectFinish env a { s with ret := ret } =
      .ret ((List.range s.immediate).countP s.immRd + (List.range s.immediate).countP s.immWr : Nat)
        (a.readfds.map fun _ => below s.immRd s.immediate) (a.writefds.map fun _ => below s.immWr s.immediate)
        (zeroFdset a.exceptfds) a.timeout := by
  have hpos := immediate_count_pos hs hq hi
  have hne : s.immediate ≠ 0 := fun h0 => Nat.not_lt_zero _ (h0 ▸ hs.bound q hq hi)
  rw [selectFinish, if_pos hne, immLoop_eq]
  dsimp only
  rw [if_neg (by omega)]

theorem selectFinish_wait (hno : ∀ q ∈ Q, ¬Immediate env a q) (h : ¬Refused env a) : selectFinish env a s =
      match if env.ready Q = [] then idle (deadlineOf a.timeout (env.clock 1))
        else .ret (env.ready Q).length ((env.ready Q).map fun q => ((q.1 : Int), env.pending q)) with
      | .blocks => .blocks
      | .ret n events =>
        .ret n (a.readfds.map fun _ => hits events SELECT_READ) (a.writefds.map fun _ => hits events SELECT_WRITE)
          (a.exceptfds.map fun _ => hits events SELECT_EXCEPT)
          (a.timeout.map fun t => max 0 (t - ((env.clock 2 : Int) - env.clock 0))) := by
  simp only [Refused, not_or, Bool.not_eq_true] at h
  have h0 : s.immediate = 0 := immediate_eq_zero hs hno
  have hlen : (env.entries Q).length ≤ if s.monitored = 0 then 1 else s.monitored := by
    have hle : (env.entries Q).length ≤ Q.length := by
      rw [Env.entries, length_map]
      exact length_filter_le _ _
    have hmon := hs.monitored
    split <;> omega
  have hpos : 0 < if s.monitored = 0 then 1 else s.monitored := by
    split <;> omega
  rw [selectFinish, if_neg fun hne => hne h0]
  dsimp only
  rw [if_pos hs.ret, hs.ep, h.2.2.2.1, epollPwait2_eq hlen hpos h.2.1]
  split
  · rfl
  · rw [outLoop_eq]

end

end

end

end Unikraft.Poll
